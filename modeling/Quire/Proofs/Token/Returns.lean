import Quire.Proofs.Text.Returns
import Quire.Proofs.Token.Spelling

/-! Lexemes of a source whose lines end in carriage returns too. They are the lexemes of the source
without them, and the returns stand in their texts. Only a backslash at the end of a line is
escaped in another way. Main statement: `cuts_returned`. -/
namespace Quire

open Text (returned withReturns LineFree)

def Token.withReturns : Token → Token
  | text content => text (Text.withReturns content)
  | comment content => comment (Text.withReturns content)
  | verbatim name body => verbatim name (Text.withReturns body)
  | math display content => math display (Text.withReturns content)
  | token => token

def Lexeme.withReturns (lexeme : Lexeme) : Lexeme :=
  ⟨lexeme.token.withReturns, Text.withReturns lexeme.spelling, lexeme.offset⟩

namespace Token

def Step.withReturns (cs : List Char) (step : Step) : Step :=
  step.map fun (token, n) => (token.withReturns, (returned (cs.take n)).length)

section Recognisers

variable {cs rest front close name : List Char} {c : Char} {n skip : Nat} {token : Token}

theorem Step.withReturns_orElse (first second : Step) :
    (first <|> second).withReturns cs = (first.withReturns cs <|> second.withReturns cs) := by
  cases first <;> rfl

/-- What a step takes is in front. -/
theorem Step.withReturns_some (starts : front <+: cs) (length : front.length = n) :
    Step.withReturns cs (some (token, n)) =
      some (token.withReturns, (returned front).length) := by
  rw [← Text.take_of_prefix starts length]
  rfl

/-- A step behind a line free front. -/
theorem Step.withReturns_behind (free : LineFree front) (rest : List Char) (token : Token)
    (n : Nat) : Step.withReturns (front ++ rest) (some (token, front.length + n)) =
      some (token.withReturns, front.length + (returned (rest.take n)).length) := by
  have taken : (front ++ rest).take (front.length + n) = front ++ rest.take n := by
    rw [List.take_append, List.take_of_length_le (Nat.le_add_right _ _), Nat.add_sub_cancel_left]
  simp only [Step.withReturns, Option.map_some, taken, Text.returned_append, free.returned,
    List.length_append]

theorem comment?_returned (bare : '\r' ∉ cs) :
    comment? (returned cs) = (comment? cs).withReturns cs := by
  let inLine (c : Char) : Bool := c != '\r' && c != '\n'
  have free : LineFree (cs.takeWhile inLine) := by
    constructor <;> intro member <;> simpa [inLine] using List.mem_takeWhile_imp member
  have taken : cs.take (cs.takeWhile inLine).length = cs.takeWhile inLine :=
    Text.take_of_prefix (List.takeWhile_prefix _) rfl
  have same : (returned cs).takeWhile inLine = cs.takeWhile inLine := by
    rw [Text.takeWhile_returned (by rfl), free.returned]
  have here : comment? cs =
      some (.comment (.ofList (cs.takeWhile inLine)), (cs.takeWhile inLine).length) := by
    refine comment?_eq_some_iff.mpr ⟨_, rfl, fun rest lone => ?_, rfl⟩
    exact absurd (List.mem_of_mem_drop (lone ▸ List.mem_cons_self)) bare
  have there : comment? (returned cs) =
      some (.comment (.ofList (cs.takeWhile inLine)), (cs.takeWhile inLine).length) := by
    refine comment?_eq_some_iff.mpr ⟨_, same, fun rest lone => ?_, rfl⟩
    rw [Text.drop_returned_of_free (taken.symm ▸ free)] at lone
    cases behind : cs.drop (cs.takeWhile inLine).length with
    | nil => simp [behind] at lone
    | cons c more =>
      rw [behind] at lone
      by_cases feed : c = '\n'
      · subst feed
        obtain rfl : '\n' :: returned more = rest := (List.cons.inj lone).2
        rfl
      · rw [Text.returned_cons feed] at lone
        obtain rfl : c = '\r' := (List.cons.inj lone).1
        exact absurd (List.mem_of_mem_drop (behind ▸ List.mem_cons_self)) bare
  rw [here, there, Step.withReturns_some (List.takeWhile_prefix _) rfl, Token.withReturns,
    Text.withReturns_ofList, free.returned]

theorem mathUpTo?_returned {display : Bool} (free : LineFree close) (some_ : close ≠ [])
    (front_free : LineFree front) (length : front.length = skip) :
    mathUpTo? display skip close (returned rest) =
      (mathUpTo? display skip close rest).withReturns (front ++ rest) := by
  unfold mathUpTo?
  rw [Text.before?_returned free some_]
  cases found : Text.before? close rest with
  | none => rfl
  | some content =>
    have starts : front ++ (content ++ close) <+: front ++ rest :=
      (List.prefix_append_right_inj front).mpr (Text.prefix_of_before? found)
    have taken : (front ++ (content ++ close)).length = skip + content.length + close.length := by
      rw [List.length_append, List.length_append, length, Nat.add_assoc]
    rw [Option.map_some, Option.map_some, Option.map_some, Step.withReturns_some starts taken]
    simp [Token.withReturns, front_free.returned, free.returned, length, Nat.add_assoc]

theorem dollar?_returned (cs : List Char) :
    dollar? (returned cs) = (dollar? cs).withReturns cs := by
  have single := @mathUpTo?_returned cs [] ['$'] 0 false (by decide) (by simp) (by decide) rfl
  rw [List.nil_append] at single
  by_cases double : cs.head? = some '$'
  · obtain ⟨rest, rfl⟩ := List.head?_eq_some_iff.mp double
    rw [Text.returned_cons (by decide)] at single ⊢
    rw [dollar?, dollar?, single,
      @mathUpTo?_returned rest ['$'] ['$', '$'] 1 true (by decide) (by simp) (by decide) rfl,
      List.singleton_append, Step.withReturns_orElse]
  · rw [dollar?_of_ne double, dollar?_of_ne (mt (Text.head?_returned_iff (by decide)).mp double),
      single]

theorem envName?_returned (cs : List Char) : envName? (returned cs) = envName? cs := by
  have free := Text.free_takeWhile (p := isEnvChar) (by decide) (by decide) cs
  have same : (returned cs).takeWhile isEnvChar = cs.takeWhile isEnvChar := by
    rw [Text.takeWhile_returned (by decide), free.returned]
  have behind := Text.drop_returned_of_free (Text.take_takeWhile isEnvChar cs ▸ free)
  have closes : ((returned cs).drop (cs.takeWhile isEnvChar).length).head? = some '\x7d' ↔
      (cs.drop (cs.takeWhile isEnvChar).length).head? = some '\x7d' := by
    rw [behind]
    exact Text.head?_returned_iff (by decide)
  ext name
  rw [envName?_eq_some_iff, envName?_eq_some_iff, same]
  refine and_congr_right fun eq => and_congr_right fun _ => ?_
  rw [← eq, closes]

theorem free_envName {rest : List Char} (named : envName? rest = some name) : LineFree name := by
  obtain ⟨rfl, -, -⟩ := envName?_eq_some_iff.mp named
  exact Text.free_takeWhile (by decide) (by decide) rest

theorem verbatim?_returned (free : LineFree name) (rest : List Char) :
    verbatim? name (returned rest) = (verbatim? name rest).withReturns rest := by
  have close_free : LineFree ("\\end\x7b".toList ++ name ++ ['\x7d']) :=
    (LineFree.append (by decide) free).append (by decide)
  unfold verbatim?
  split
  next =>
    dsimp only
    rw [Text.before?_returned close_free (by simp)]
    cases found : Text.before? ("\\end\x7b".toList ++ name ++ ['\x7d']) rest with
    | none => rfl
    | some body =>
      rw [Option.map_some, Option.map_some, Option.map_some,
        Step.withReturns_some (Text.prefix_of_before? found) List.length_append,
        Text.returned_append body, close_free.returned, @List.length_append _ (returned body)]
      simp only [Token.withReturns, Text.withReturns_ofList]
  next => rfl

theorem begin?_returned (cs : List Char) :
    begin? (returned cs) = (begin? cs).withReturns cs := by
  simp only [begin?, bind]
  rw [Text.isPrefixOf?_returned (by decide)]
  cases starts : "begin\x7b".toList.isPrefixOf? cs with
  | none => rfl
  | some rest =>
    simp only [Option.map_some, Option.bind_some, envName?_returned]
    cases named : envName? rest with
    | none => rfl
    | some name =>
      have free := free_envName named
      have front_free : LineFree ("begin\x7b".toList ++ name ++ ['\x7d']) :=
        (LineFree.append (by decide) free).append (by decide)
      obtain ⟨behind, rfl⟩ := starts_mark starts named
      have length : ("begin\x7b".toList ++ name ++ ['\x7d']).length =
          "begin\x7b".length + name.length + 1 := by
        simp only [List.length_append, String.length_toList, List.length_singleton]
      have taken := @List.take_left' _ _ behind _ length
      simp only [Option.bind_some]
      rw [Text.drop_returned_of_free (taken.symm ▸ front_free), List.drop_left' length,
        verbatim?_returned free]
      cases found : verbatim? name behind with
      | none =>
        rw [Step.withReturns_some (List.prefix_append _ _) length, front_free.returned, length]
        rfl
      | some raw =>
        obtain ⟨token, more⟩ := raw
        rw [← length, Step.withReturns_behind front_free]
        rfl

theorem end?_returned (cs : List Char) : end? (returned cs) = (end? cs).withReturns cs := by
  simp only [end?, bind]
  rw [Text.isPrefixOf?_returned (by decide)]
  cases starts : "end\x7b".toList.isPrefixOf? cs with
  | none => rfl
  | some rest =>
    simp only [Option.map_some, Option.bind_some, envName?_returned]
    cases named : envName? rest with
    | none => rfl
    | some name =>
      have front_free : LineFree ("end\x7b".toList ++ name ++ ['\x7d']) :=
        (LineFree.append (by decide) (free_envName named)).append (by decide)
      have length : ("end\x7b".toList ++ name ++ ['\x7d']).length =
          "end\x7b".length + name.length + 1 := by
        simp only [List.length_append, String.length_toList, List.length_singleton]
      rw [Option.bind_some, Step.withReturns_some (starts_mark starts named) length,
        front_free.returned, length]
      rfl

theorem accentBase?_returned (cs : List Char) : accentBase? (returned cs) = accentBase? cs := by
  cases cs with
  | nil => rfl
  | cons c cs =>
    by_cases feed : c = '\n'
    · subst feed
      rw [Text.returned_feed, accentBase?_cons, accentBase?_cons]
      rfl
    · have dotless := @Text.head?_returned_iff 'i' cs (by decide)
      simp only [Text.returned_cons feed, accentBase?_cons, dotless]

theorem free_singleton (notReturn : c ≠ '\r') (notFeed : c ≠ '\n') : LineFree [c] := by
  simp [LineFree, Ne.symm notReturn, Ne.symm notFeed]

theorem free_letter (letter : Text.isLetter c = true) : LineFree [c] :=
  free_singleton (by rintro rfl; revert letter; decide +kernel)
    (by rintro rfl; revert letter; decide +kernel)

theorem isLetter_accentBase? {base : Char} (found : accentBase? cs = some (base, n)) :
    Text.isLetter base = true := by
  unfold accentBase? at found
  split at found
  next =>
    cases found
    decide +kernel
  next =>
    split at found
    next letter =>
      cases found
      exact letter
    next => cases found
  next => cases found

theorem isLetter_accentArgument? {base : Char} (found : accentArgument? cs = some (base, n)) :
    Text.isLetter base = true := by
  by_cases brace : cs.head? = some '\x7b'
  · obtain ⟨rest, rfl⟩ := List.head?_eq_some_iff.mp brace
    obtain ⟨used, letter, -, -⟩ := accentArgument?_eq_some_iff.mp found
    exact isLetter_accentBase? letter
  · rw [accentArgument?_of_ne brace] at found
    exact isLetter_accentBase? found

/-- A letter under an accent is there, and it is line free. -/
theorem takes_accentBase? {base : Char} (found : accentBase? cs = some (base, n)) :
    LineFree (cs.take n) ∧ n ≤ cs.length := by
  unfold accentBase? at found
  split at found
  next rest =>
    cases found
    exact ⟨(by decide : LineFree ['\\', 'i']), by simp⟩
  next c rest _ =>
    split at found
    next letter =>
      cases found
      exact ⟨free_letter letter, by simp⟩
    next => cases found
  next => cases found

theorem accentArgument?_returned (cs : List Char) :
    accentArgument? (returned cs) = accentArgument? cs := by
  by_cases brace : cs.head? = some '\x7b'
  · obtain ⟨rest, rfl⟩ := List.head?_eq_some_iff.mp brace
    rw [Text.returned_cons (by decide)]
    ext ⟨base, n⟩
    rw [accentArgument?_eq_some_iff, accentArgument?_eq_some_iff, accentBase?_returned]
    refine exists_congr fun used => and_congr_right fun found => ?_
    rw [Text.drop_returned_of_free (takes_accentBase? found).1, Text.head?_returned_iff (by decide)]
  · rw [accentArgument?_of_ne brace,
      accentArgument?_of_ne (mt (Text.head?_returned_iff (by decide)).mp brace),
      accentBase?_returned]

theorem takes_accentArgument? {base : Char} (found : accentArgument? cs = some (base, n)) :
    LineFree (cs.take n) ∧ n ≤ cs.length := by
  by_cases brace : cs.head? = some '\x7b'
  · obtain ⟨rest, rfl⟩ := List.head?_eq_some_iff.mp brace
    obtain ⟨used, letter, at_, rfl⟩ := accentArgument?_eq_some_iff.mp found
    obtain ⟨behind, eq⟩ := List.head?_eq_some_iff.mp at_
    have taken : ('\x7b' :: rest).take (used + 2) = ['\x7b'] ++ rest.take used ++ ['\x7d'] := by
      simp [List.take_add, eq]
    have longer : (rest.drop used).length = behind.length + 1 := by rw [eq, List.length_cons]
    rw [taken]
    refine ⟨(LineFree.append (by decide) (takes_accentBase? letter).1).append (by decide), ?_⟩
    rw [List.length_drop] at longer
    rw [List.length_cons]
    omega
  · rw [accentArgument?_of_ne brace] at found
    exact takes_accentBase? found

theorem accent?_returned (cs : List Char) :
    accent? (returned cs) = (accent? cs).withReturns cs := by
  cases cs with
  | nil => rfl
  | cons mark rest =>
    by_cases feed : mark = '\n'
    · subst feed
      rfl
    · rw [Text.returned_cons feed, accent?, accent?, accentArgument?_returned]
      split
      next accents =>
        have notReturn : mark ≠ '\r' := by
          rintro rfl
          cases accents
        cases found : accentArgument? rest with
        | none => rfl
        | some argument =>
          obtain ⟨base, used⟩ := argument
          obtain ⟨used_free, fits⟩ := takes_accentArgument? found
          have free : LineFree (mark :: rest.take used) :=
            (free_singleton notReturn feed).append used_free
          rw [Option.map_some, @Step.withReturns_some _ (mark :: rest.take used) _ _
              (List.cons_prefix_cons.mpr ⟨rfl, List.take_prefix used rest⟩) (by simp [fits]),
            free.returned]
          simp [Token.withReturns, fits]
      next => rfl

theorem command?_returned (cs : List Char) :
    command? (returned cs) = (command? cs).withReturns cs := by
  have free := Text.free_takeWhile (p := isWordChar) (by decide) (by decide) cs
  have word : (returned cs).takeWhile isWordChar = cs.takeWhile isWordChar := by
    rw [Text.takeWhile_returned (by decide), free.returned]
  have behind := Text.drop_returned_of_free (Text.take_takeWhile isWordChar cs ▸ free)
  have prefix_ := List.takeWhile_prefix isWordChar (l := cs)
  unfold command?
  simp only [word, behind, Text.head?_returned_iff (c := '*') (by decide)]
  split
  · rfl
  split
  next star =>
    obtain ⟨rest, eq⟩ := List.head?_eq_some_iff.mp star
    have starts : cs.takeWhile isWordChar ++ ['*'] <+: cs := by
      refine ⟨rest, ?_⟩
      rw [List.append_assoc, List.singleton_append, ← eq, List.prefix_iff_eq_append.mp prefix_]
    rw [Step.withReturns_some starts rfl, (free.append (by decide)).returned]
    rfl
  next =>
    rw [Step.withReturns_some prefix_ rfl, free.returned]
    rfl

theorem escape?_returned (line : cs.head? ≠ some '\n') :
    escape? (returned cs) = (escape? cs).withReturns cs := by
  cases cs with
  | nil => rfl
  | cons c cs =>
    have other : c ≠ '\n' := by simpa using line
    rw [Text.returned_cons other, escape?, escape?]
    split
    · rfl
    · simp [Step.withReturns, Token.withReturns, Text.returned_cons other]

theorem bracketMath?_returned (cs : List Char) :
    bracketMath? (returned cs) = (bracketMath? cs).withReturns cs := by
  have between (display : Bool) (opening closing : Char) (free : LineFree [opening, closing])
      (rest : List Char) : mathUpTo? display 1 ['\\', closing] (returned rest) =
        (mathUpTo? display 1 ['\\', closing] rest).withReturns (opening :: rest) := by
    simp only [LineFree, List.mem_pair, not_or] at free
    refine @mathUpTo?_returned rest [opening] _ 1 display ?_ (by simp) ?_ rfl
    · exact (show LineFree ['\\'] by decide).append
        (free_singleton (Ne.symm free.1.2) (Ne.symm free.2.2))
    · exact free_singleton (Ne.symm free.1.1) (Ne.symm free.2.1)
  by_cases square : cs.head? = some '['
  · obtain ⟨rest, rfl⟩ := List.head?_eq_some_iff.mp square
    rw [Text.returned_cons (by decide)]
    exact between true '[' ']' (by decide) rest
  by_cases round : cs.head? = some '('
  · obtain ⟨rest, rfl⟩ := List.head?_eq_some_iff.mp round
    rw [Text.returned_cons (by decide)]
    exact between false '(' ')' (by decide) rest
  have none_ (ds : List Char) (square : ds.head? ≠ some '[') (round : ds.head? ≠ some '(') :
      bracketMath? ds = none := by
    unfold bracketMath?
    split
    · simp at square
    · simp at round
    · rfl
  rw [none_ cs square round, none_ (returned cs) (mt (Text.head?_returned_iff (by decide)).mp square)
    (mt (Text.head?_returned_iff (by decide)).mp round)]
  rfl

end Recognisers

/-- Neither the mark of an accent nor its letter ends a line. -/
theorem free_accent {c mark base : Char} {cs : List Char} {n : Nat}
    (found : next? c cs = some (.accent mark base, n)) : LineFree [mark, base] := by
  have never {p : Prop} {display : Bool} {skip : Nat} {close rest : List Char}
      (found : mathUpTo? display skip close rest = some (.accent mark base, n)) : p := by
    obtain ⟨_, _, eq⟩ := Option.map_eq_some_iff.mp found
    cases eq
  simp only [next?] at found
  split at found
  · obtain ⟨_, _, _, eq⟩ := comment?_eq_some_iff.mp found
    cases eq
  split at found
  · unfold dollar? at found
    split at found
    · simp only [Option.orElse_eq_orElse, Option.orElse_eq_or, Option.or_eq_some_iff] at found
      exact found.elim never fun found => never found.2
    · exact never found
  split at found
  · simp only [Option.orElse_eq_orElse, Option.orElse_eq_or, Option.or_eq_some_iff] at found
    rcases found with h | ⟨-, h | ⟨-, h | ⟨-, h | ⟨-, h | ⟨-, h⟩⟩⟩⟩⟩
    · unfold bracketMath? at h
      split at h
      · exact never h
      · exact never h
      · cases h
    · simp only [begin?, bind, Option.bind_eq_some_iff] at h
      obtain ⟨_, _, _, _, h⟩ := h
      split at h
      next raw =>
        cases h
        simp only [verbatim?] at raw
        split at raw
        · obtain ⟨_, _, eq⟩ := Option.map_eq_some_iff.mp raw
          cases eq
        · cases raw
      next => cases h
    · simp only [end?, bind, Option.bind_eq_some_iff] at h
      obtain ⟨_, _, _, _, eq⟩ := h
      cases eq
    · unfold accent? at h
      split at h
      next mark' rest =>
        split at h
        next accents =>
          obtain ⟨⟨base', used⟩, argument, eq⟩ := Option.map_eq_some_iff.mp h
          cases eq
          have mark_free : LineFree [mark] :=
            free_singleton (by rintro rfl; cases accents) (by rintro rfl; cases accents)
          exact mark_free.append (free_letter (isLetter_accentArgument? argument))
        next => cases h
      next => cases h
    · unfold command? at h
      dsimp only at h
      split at h
      · cases h
      · cases h
    · unfold escape? at h
      split at h
      · split at h <;> cases h
      · cases h
  repeat' split at found
  all_goals cases found

/-- Behind a backslash every step takes the same characters, unless the line ends there. -/
theorem next?_backslash_returned {cs : List Char} (line : cs.head? ≠ some '\n') :
    next? '\\' (returned cs) = (next? '\\' cs).withReturns cs := by
  have steps (ds : List Char) : next? '\\' ds =
      (bracketMath? ds <|> begin? ds <|> end? ds <|> accent? ds <|> command? ds <|> escape? ds) :=
    rfl
  rw [steps, steps, bracketMath?_returned, begin?_returned, end?_returned, accent?_returned,
    command?_returned, escape?_returned line]
  simp only [Step.withReturns_orElse]

/-- At the end of a line a backslash escapes the line feed. -/
theorem next?_backslash_feed (cs : List Char) :
    next? '\\' ('\n' :: cs) = some (.escape '\n', 1) := rfl

theorem next?_text_returned {c : Char} (plain : isSpecial c = false) (cs : List Char) :
    ∃ d ds m, returned (c :: cs) = d :: ds ∧
      next? d ds = some (.text (.ofList (returned (c :: cs.takeWhile (!isSpecial ·)))), m) ∧
      ds.drop m = returned (cs.drop (cs.takeWhile (!isSpecial ·)).length) := by
  have run := Text.takeWhile_returned (p := (!isSpecial ·)) (by decide) cs
  have behind : (returned cs).drop (returned (cs.takeWhile (!isSpecial ·))).length =
      returned (cs.drop (cs.takeWhile (!isSpecial ·)).length) := by
    rw [← Text.drop_returned, Text.returnedLength, Text.take_takeWhile]
  by_cases feed : c = '\n'
  · subst feed
    refine ⟨'\r', '\n' :: returned cs, (returned (cs.takeWhile (!isSpecial ·))).length + 1,
      rfl, ?_, behind⟩
    have run' : ('\n' :: returned cs).takeWhile (!isSpecial ·) =
        '\n' :: returned (cs.takeWhile (!isSpecial ·)) := by
      rw [List.takeWhile_cons, if_pos (by decide), run]
    rw [next?_text (by decide), run']
    rfl
  · refine ⟨c, returned cs, _, Text.returned_cons feed cs, ?_, behind⟩
    rw [next?_text plain, run, Text.returned_cons feed]

/-- The token at the front of a text is there with the carriage returns, and what is behind it is
the same but for them. -/
theorem next?_returned {c : Char} {cs : List Char} {token : Token} {n : Nat}
    (found : next? c cs = some (token, n)) (bare : '\r' ∉ cs) (plain : token ≠ .escape '\n') :
    ∃ d ds m, returned (c :: cs) = d :: ds ∧ next? d ds = some (token.withReturns, m) ∧
      ds.drop m = returned (cs.drop n) := by
  have aligned (other : c ≠ '\n') (eq : next? c (returned cs) = (next? c cs).withReturns cs) :
      ∃ d ds m, returned (c :: cs) = d :: ds ∧ next? d ds = some (token.withReturns, m) ∧
        ds.drop m = returned (cs.drop n) := by
    rw [found] at eq
    exact ⟨c, returned cs, _, Text.returned_cons other cs, eq, Text.drop_returned n cs⟩
  by_cases special : isSpecial c = true
  · simp only [isSpecial, Bool.or_eq_true, beq_iff_eq] at special
    rcases special with (((((rfl | rfl) | rfl) | rfl) | rfl) | rfl) | rfl
    · refine aligned (by decide) (next?_backslash_returned fun feed => plain ?_)
      obtain ⟨rest, rfl⟩ := List.head?_eq_some_iff.mp feed
      rw [next?_backslash_feed] at found
      exact ((Prod.mk.inj (Option.some.inj found)).1).symm
    · exact aligned (by decide) rfl
    · exact aligned (by decide) rfl
    · exact aligned (by decide) rfl
    · exact aligned (by decide) rfl
    · exact aligned (by decide) (dollar?_returned cs)
    · exact aligned (by decide) (comment?_returned bare)
  · have text := next?_text (by simpa using special) cs
    obtain ⟨rfl, rfl⟩ := Prod.mk.inj (Option.some.inj (found.symm.trans text))
    obtain ⟨d, ds, m, split, there, behind⟩ := next?_text_returned (by simpa using special) cs
    refine ⟨d, ds, m, split, ?_, behind⟩
    rw [there, Token.withReturns, Text.withReturns_ofList]

end Token

end Quire
