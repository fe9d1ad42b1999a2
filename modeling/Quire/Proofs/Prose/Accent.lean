import Mathlib.Data.List.Find
import Mathlib.Data.String.Basic
import Quire.Node.Parse
import Quire.Proofs.Prose.Plain
import Quire.Proofs.Token.Spelling

/-! Accents. Running text and the lexemes of a source read them on their own, and agree on where
one ends and on its letter; the plain spelling that a tree keeps means the same letter. Main
statement: `tokenize_of_decode?`. -/
namespace Quire

namespace Token
variable {mark base : Char} {rest : List Char} {used : Nat}

theorem next?_accent (marked : isAccentMark mark = true)
    (argument : accentArgument? rest = some (base, used)) :
    next? '\\' (mark :: rest) = some (.accent mark base, used + 1) := by
  have accent : accent? (mark :: rest) = some (.accent mark base, used + 1) := by
    simp [accent?, marked, argument]
  have apart :
      bracketMath? (mark :: rest) = none ∧ begin? (mark :: rest) = none ∧ end? (mark :: rest) = none := by
    simp only [isAccentMark, Bool.or_eq_true, beq_iff_eq] at marked
    rcases marked with (((rfl | rfl) | tick) | rfl) | rfl
    · exact ⟨rfl, rfl, rfl⟩
    · exact ⟨rfl, rfl, rfl⟩
    · obtain rfl : mark = '\x60' := Char.toNat_inj.mp tick
      exact ⟨rfl, rfl, rfl⟩
    · exact ⟨rfl, rfl, rfl⟩
    · exact ⟨rfl, rfl, rfl⟩
  obtain ⟨math, begins, ends⟩ := apart
  change (bracketMath? (mark :: rest) <|> begin? (mark :: rest) <|> end? (mark :: rest) <|>
    accent? (mark :: rest) <|> command? (mark :: rest) <|> escape? (mark :: rest)) = _
  rw [math, begins, ends, accent]
  rfl

/-- The lexeme at the front of a source, and what is left to cut. -/
theorem scan_next? {c : Char} {cs : List Char} {token : Token} (offset : Nat)
    (found : next? c cs = some (token, used)) :
    scan offset (c :: cs) = (⟨token, .ofList (c :: cs.take used), offset⟩ :: ·) <$>
      scan (offset + (String.ofList (c :: cs.take used)).utf8ByteSize) (cs.drop used) := by
  rw [scan, found]

end Token

namespace Accent

theorem letters_of_compose? {mark base letter : Char} (found : compose? mark base = some letter) :
    mark ∈ "'\"\x60=~".toList ∧ base.toLower ∈ "aeiouycn".toList ∧ letter ≠ '\n' := by
  have rows : table.all (fun row => "'\"\x60=~".toList.contains row.1 &&
      "aeiouycn".toList.contains row.2.1 && row.2.2.1 != '\n' && row.2.2.2 != '\n') = true := by
    decide
  obtain ⟨⟨m, b, lower, upper⟩, row, written⟩ := Option.map_eq_some_iff.mp found
  have kind := List.all_eq_true.mp rows _ (List.mem_of_find?_eq_some row)
  obtain ⟨rfl, rfl⟩ : m = mark ∧ b = base.toLower := by simpa using List.find?_some row
  obtain ⟨⟨⟨marked, based⟩, lower_ne⟩, upper_ne⟩ : ((m ∈ "'\"\x60=~".toList ∧
      base.toLower ∈ "aeiouycn".toList) ∧ lower ≠ '\n') ∧ upper ≠ '\n' := by simpa using kind
  refine ⟨marked, based, ?_⟩
  dsimp only at written
  rw [← written]
  split <;> assumption

/-- What is written behind a mark, for which letter, and what may follow. -/
inductive IsBase : List Char → Char → List Char → Prop
  | bare {c : Char} (brace : c ≠ '\x7b') (slash : c ≠ '\\') (more : List Char) : IsBase [c] c more
  | braced {c : Char} (brace : c ≠ '\x7d') (more : List Char) : IsBase ['\x7b', c, '\x7d'] c more
  | dotlessBraced (more : List Char) : IsBase ['\x7b', '\\', 'i', '\x7d'] 'i' more
  | dotless {more : List Char} (apart : (more.head?.map Char.isAlpha).getD false = false) :
      IsBase ['\\', 'i'] 'i' more

theorem isBase_of_argument? {rest : List Char} {base : Char} {used : Nat} (slash : base ≠ '\\')
    (found : argument? rest = some (base, used)) :
    ∃ written more, rest = written ++ more ∧ IsBase written base more ∧ used = written.length := by
  unfold argument? at found
  dsimp only at found
  split at found
  next rest =>
    split at found
    next shorter =>
      obtain ⟨_, braced, same⟩ := Option.map_eq_some_iff.mp found
      obtain ⟨rfl, rfl⟩ := Prod.mk.inj same
      obtain ⟨d, more, behind⟩ : ∃ d more, rest.dropWhile (· != '\x7d') = d :: more := by
        refine List.exists_cons_of_ne_nil fun none_ => ?_
        have whole := List.takeWhile_append_dropWhile (p := (· != '\x7d')) (l := rest)
        rw [none_, List.append_nil] at whole
        rw [whole] at shorter
        exact Nat.lt_irrefl _ shorter
      obtain rfl : d = '\x7d' := by
        have first := List.head?_dropWhile_not (· != '\x7d') rest
        rw [behind] at first
        exact bne_eq_false_iff_eq.mp first
      have whole : rest = rest.takeWhile (· != '\x7d') ++ '\x7d' :: more := by
        rw [← behind, List.takeWhile_append_dropWhile]
      unfold braced? at braced
      split at braced
      next body =>
        obtain rfl := Option.some.inj braced
        rw [body] at whole ⊢
        exact ⟨_, more, by rw [whole]; rfl, .dotlessBraced more, rfl⟩
      next =>
      split at braced
      next c body =>
        obtain rfl := Option.some.inj braced
        have member : c ∈ rest.takeWhile (· != '\x7d') := body ▸ List.mem_singleton_self c
        have inside := List.mem_takeWhile_imp member
        rw [body] at whole ⊢
        exact ⟨_, more, by rw [whole]; rfl, .braced (by simpa using inside) more, rfl⟩
      next => cases braced
    next => cases found
  next more =>
    split at found
    next => cases found
    next apart =>
      obtain ⟨rfl, rfl⟩ := Prod.mk.inj (Option.some.inj found)
      exact ⟨_, more, rfl, .dotless (Bool.eq_false_iff.mpr apart), rfl⟩
  next c more brace _ =>
    obtain ⟨rfl, rfl⟩ := Prod.mk.inj (Option.some.inj found)
    exact ⟨_, more, rfl, .bare brace slash more, rfl⟩
  next => cases found

theorem IsBase.argument?_eq {written more : List Char} {base : Char}
    (isBase : IsBase written base more) :
    argument? (written ++ more) = some (base, written.length) := by
  have inBraces (body : List Char) (apart : ∀ c ∈ body, (c != '\x7d') = true)
      (read : braced? body = some base) :
      argument? ('\x7b' :: (body ++ '\x7d' :: more)) = some (base, body.length + 2) := by
    have inside : (body ++ '\x7d' :: more).takeWhile (· != '\x7d') = body := by
      rw [List.takeWhile_append_of_pos apart]
      exact List.append_nil body
    have shorter : body.length < (body ++ '\x7d' :: more).length := by
      rw [List.length_append, List.length_cons]
      omega
    have opened (rest : List Char) : argument? ('\x7b' :: rest) =
        if (rest.takeWhile (· != '\x7d')).length < rest.length then
          (braced? (rest.takeWhile (· != '\x7d'))).map
            (·, (rest.takeWhile (· != '\x7d')).length + 2)
        else none := rfl
    rw [opened, inside, if_pos shorter, read]
    rfl
  cases isBase with
  | bare brace slash =>
    unfold argument?
    split <;> simp_all
  | braced brace => exact inBraces [base] (by simpa using brace) (by simp [braced?])
  | dotlessBraced => exact inBraces ['\\', 'i'] (by simp) rfl
  | dotless apart => simp [argument?, apart]

theorem decode?_eq_some_iff {cs : List Char} {letter : Char} {used : Nat} :
    decode? cs = some (letter, used) ↔ ∃ mark base written more, cs = mark :: (written ++ more) ∧
      IsBase written base more ∧ compose? mark base = some letter ∧ used = written.length + 1 := by
  constructor
  · intro found
    cases cs with
    | nil => cases found
    | cons mark rest =>
      obtain ⟨⟨base, n⟩, argument, found⟩ := Option.bind_eq_some_iff.mp found
      obtain ⟨_, composed, same⟩ := Option.bind_eq_some_iff.mp found
      obtain ⟨rfl, rfl⟩ := Prod.mk.inj (Option.some.inj same)
      have slash : base ≠ '\\' := by
        rintro rfl
        exact absurd (letters_of_compose? composed).2.1 (by decide)
      obtain ⟨written, more, rfl, isBase, rfl⟩ := isBase_of_argument? slash argument
      exact ⟨mark, base, written, more, rfl, isBase, composed, rfl⟩
  · rintro ⟨mark, base, written, more, rfl, isBase, composed, rfl⟩
    simp [decode?, isBase.argument?_eq, composed]

section Letters
variable {mark base letter : Char} {written more : List Char}

theorem isAccentMark_of_compose? (found : compose? mark base = some letter) :
    Token.isAccentMark mark = true := by
  have marks : ∀ c ∈ "'\"\x60=~".toList, Token.isAccentMark c = true := by decide
  exact marks mark (letters_of_compose? found).1

theorem isAlpha_of_compose? (found : compose? mark base = some letter) : base.isAlpha = true := by
  have based := (letters_of_compose? found).2.1
  by_cases upper : base.isUpper = true
  · exact Bool.or_eq_true_iff.mpr (.inl upper)
  · have same : base.toLower = base := dif_neg fun inside => upper (decide_eq_true inside)
    have small : ∀ c ∈ "aeiouycn".toList, c.isAlpha = true := by decide
    rw [same] at based
    exact small base based

/-- The letters under accents are ASCII letters. -/
theorem utf8Size_of_isAlpha {c : Char} (alpha : c.isAlpha = true) : c.utf8Size = 1 := by
  rw [Char.utf8Size_eq_one_iff]
  rcases Bool.or_eq_true_iff.mp alpha with upper | lower
  · have le : c.val ≤ 'Z'.val := (of_decide_eq_true upper).2
    exact UInt32.le_trans le (by decide)
  · have le : c.val ≤ 'z'.val := of_decide_eq_true (Bool.and_eq_true_iff.mp lower).2
    exact UInt32.le_trans le (by decide)

namespace IsBase

/-- What is written behind a mark is read with any text behind it that it may be written in front
of, so with none. -/
theorem alone (isBase : IsBase written base more) : IsBase written base [] := by
  cases isBase with
  | bare brace slash => exact .bare brace slash []
  | braced brace => exact .braced brace []
  | dotlessBraced => exact .dotlessBraced []
  | dotless => exact .dotless rfl

/-- The lexer finds the letter where running text finds it. -/
theorem accentArgument?_eq (isBase : IsBase written base more) (alpha : base.isAlpha = true) :
    Token.accentArgument? (written ++ more) = some (base, written.length) := by
  have isLetter := Text.isLetter_of_isAlpha alpha
  have slash : base ≠ '\\' := by
    rintro rfl
    cases alpha
  have single (rest : List Char) : Token.accentBase? (base :: rest) = some (base, 1) := by
    rw [Token.accentBase?_cons, if_neg fun dotless => slash dotless.1, if_pos isLetter]
  cases isBase with
  | bare brace =>
    rw [Token.accentArgument?_of_ne (by simpa using brace)]
    exact single more
  | braced =>
    exact Token.accentArgument?_eq_some_iff.mpr ⟨1, single ('\x7d' :: more), rfl, rfl⟩
  | dotlessBraced => exact Token.accentArgument?_eq_some_iff.mpr ⟨2, rfl, rfl, rfl⟩
  | dotless => rfl

theorem utf8Len_eq (isBase : IsBase written base more) (alpha : base.isAlpha = true) :
    String.utf8Len written = written.length := by
  have one := utf8Size_of_isAlpha alpha
  cases isBase with
  | bare => simp [String.utf8Len, one]
  | braced => simp [String.utf8Len, one]; decide
  | dotlessBraced | dotless => decide

end IsBase

theorem utf8ByteSize_accent (isBase : IsBase written base more)
    (composed : compose? mark base = some letter) :
    (String.ofList ('\\' :: mark :: written)).utf8ByteSize = written.length + 2 := by
  have marks : ∀ c ∈ "'\"\x60=~".toList, c.utf8Size = 1 := by decide
  have mark_ := marks mark (letters_of_compose? composed).1
  rw [String.utf8ByteSize_ofList, String.utf8Len, String.utf8Len,
    isBase.utf8Len_eq (isAlpha_of_compose? composed), mark_]
  rfl

end Letters

end Accent

namespace Prose
variable {target : Target} {cs : List Char} {letter : Char} {used : Nat}

/-- An accent is written as its letter. -/
theorem convert_accent (found : Accent.decode? cs = some (letter, used)) :
    convert target ('\\' :: cs) = (letter :: ·) <$> convert target (cs.drop used) := by
  have math : math? target '\\' cs = none := by
    obtain ⟨mark, base, written, more, rfl, -, composed, -⟩ := Accent.decode?_eq_some_iff.mp found
    refine math?_slash ?_
    rintro ⟨⟩
    exact absurd (Accent.letters_of_compose? composed).1 (by decide)
  have acts : action target '\\' cs = .put [letter] used := by
    unfold action
    rw [if_neg (by decide), math, if_pos rfl, found]
  exact convert_put acts

theorem normalize_accent (found : Accent.decode? cs = some (letter, cs.length)) :
    normalize target (.ofList ('\\' :: cs)) = .ok (.singleton letter) := by
  rw [normalize, String.toList_ofList, convert_accent found, List.drop_length, convert]
  rfl

end Prose

namespace Accent

section Spelling
variable {mark base letter : Char} {written more : List Char}

/-- What is written behind an accent's backslash is one lexeme. -/
theorem scan_accent (isBase : IsBase written base more)
    (composed : compose? mark base = some letter) (offset : Nat) : Token.scan offset ('\\' :: mark :: (written ++ more)) =
      (⟨.accent mark base, .ofList ('\\' :: mark :: written), offset⟩ :: ·) <$>
        Token.scan (offset + (written.length + 2)) more := by
  have alpha := isAlpha_of_compose? composed
  have found := Token.next?_accent (isAccentMark_of_compose? composed)
    (isBase.accentArgument?_eq alpha)
  have taken : (mark :: (written ++ more)).take (written.length + 1) = mark :: written :=
    @List.take_left _ (mark :: written) more
  have left_ : (mark :: (written ++ more)).drop (written.length + 1) = more :=
    @List.drop_left _ (mark :: written) more
  rw [Token.scan_next? offset found, taken, left_, utf8ByteSize_accent isBase composed]

/-- The plain spelling is read with any text behind it. -/
theorem decode?_plain (composed : compose? mark base = some letter) (tail : List Char) :
    decode? (mark :: base :: tail) = some (letter, 2) := by
  have alpha := isAlpha_of_compose? composed
  have bare : IsBase [base] base tail := by
    refine .bare ?_ ?_ tail
    · rintro rfl
      cases alpha
    · rintro rfl
      cases alpha
  exact decode?_eq_some_iff.mpr ⟨mark, base, [base], tail, rfl, bare, composed, rfl⟩

theorem parse_accent (isBase : IsBase written base more)
    (composed : compose? mark base = some letter) :
    Node.parse (.ofList ('\\' :: mark :: written)) =
      .ok [.text (Token.written (.accent mark base))] := by
  have scanned := scan_accent isBase.alone composed 0
  rw [List.append_nil, Token.scan] at scanned
  rw [Node.parse, Token.tokenize, String.toList_ofList, scanned]
  rfl

end Spelling

/-- Where running text reads an accent, the first lexeme is that accent and takes the same bytes.
The spelling in which a tree keeps it is running text for the same letter, whatever follows. -/
theorem tokenize_of_decode? {r : String} {cs : List Char} {letter : Char} {used : Nat}
    (source : r.toList = '\\' :: cs) (found : decode? cs = some (letter, used)) :
    ∃ mark base, ∃ spelling more : String,
      r = spelling ++ more ∧ spelling.utf8ByteSize = used + 1 ∧
      Token.tokenize r =
        (⟨.accent mark base, spelling, 0⟩ :: ·) <$> Token.scan (used + 1) more.toList ∧
      Node.parse spelling = .ok [.text (Token.written (.accent mark base))] ∧
      ∀ target,
        Prose.normalize target spelling = .ok (.singleton letter) ∧
        Prose.normalize target (Token.written (.accent mark base)) = .ok (.singleton letter) ∧
        Prose.convert target r.toList = (letter :: ·) <$> Prose.convert target more.toList ∧
        ∀ tail, Prose.convert target ((Token.written (.accent mark base)).toList ++ tail) =
          (letter :: ·) <$> Prose.convert target tail := by
  obtain ⟨mark, base, written, more, rfl, isBase, composed, rfl⟩ := decode?_eq_some_iff.mp found
  have whole : r = .ofList ('\\' :: mark :: written) ++ .ofList more := by
    refine String.toList_inj.mp ?_
    rw [source]
    simp
  have alone : decode? (mark :: written) = some (letter, written.length + 1) :=
    decode?_eq_some_iff.mpr
      ⟨mark, base, written, [], by simp, isBase.alone, composed, rfl⟩
  refine ⟨mark, base, .ofList ('\\' :: mark :: written), .ofList more, whole,
    utf8ByteSize_accent isBase composed, ?_, parse_accent isBase composed,
    fun target => ⟨?_, ?_, ?_, ?_⟩⟩
  · rw [Token.tokenize, source, scan_accent isBase composed, String.toList_ofList, Nat.zero_add]
  · exact Prose.normalize_accent alone
  · exact Prose.normalize_accent (decode?_plain composed [])
  · rw [source, Prose.convert_accent found, String.toList_ofList]
    exact congrArg _ (congrArg _ (@List.drop_left _ (mark :: written) more))
  · intro tail
    have plain : (Token.written (.accent mark base)).toList ++ tail =
        '\\' :: mark :: base :: tail := by
      simp [Token.written]
    rw [plain]
    exact Prose.convert_accent (decode?_plain composed tail)

theorem tokenize_of_decode?_dotless :
    "\\'\x7b\\i\x7dx".toList = '\\' :: "'\x7b\\i\x7dx".toList ∧
      decode? "'\x7b\\i\x7dx".toList = some ('í', 5) ∧
      ∃ mark base, ∃ spelling more : String,
        "\\'\x7b\\i\x7dx" = spelling ++ more ∧ spelling.utf8ByteSize = 6 ∧
        Token.tokenize "\\'\x7b\\i\x7dx" =
          (⟨.accent mark base, spelling, 0⟩ :: ·) <$> Token.scan 6 more.toList ∧
        Node.parse spelling = .ok [.text (Token.written (.accent mark base))] ∧
        ∀ target,
          Prose.normalize target spelling = .ok (.singleton 'í') ∧
          Prose.normalize target (Token.written (.accent mark base)) = .ok (.singleton 'í') ∧
          Prose.convert target "\\'\x7b\\i\x7dx".toList =
            ('í' :: ·) <$> Prose.convert target more.toList ∧
          ∀ tail, Prose.convert target ((Token.written (.accent mark base)).toList ++ tail) =
            ('í' :: ·) <$> Prose.convert target tail := by
  have source : "\\'\x7b\\i\x7dx".toList = '\\' :: "'\x7b\\i\x7dx".toList := by decide
  have found : decode? "'\x7b\\i\x7dx".toList = some ('í', 5) := by decide
  exact ⟨source, found, tokenize_of_decode? source found⟩

end Accent
end Quire
