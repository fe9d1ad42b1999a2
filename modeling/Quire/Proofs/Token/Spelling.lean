import Quire.Proofs.Text.Cut
import Quire.Proofs.Token.Slice

/-! How tokens are spelled. Accents and math have more than one spelling; every other token is
spelled in the one way that it is written. Main statements: `spelling_mem_spellings`,
`spelling_eq_written`. -/
namespace Quire

namespace Token

/-- A token as a tree writes it: an accent with a bare letter, math between dollar signs. -/
def written : Token → String
  | text content => content
  | escape symbol => .ofList ['\\', symbol]
  | accent mark base => .ofList ['\\', mark, base]
  | comment content => "%" ++ content
  | command name => "\\" ++ name
  | beginEnv name => environmentMark "begin" name
  | endEnv name => environmentMark "end" name
  | verbatim name body => environmentMark "begin" name ++ body ++ environmentMark "end" name
  | math false content => "$" ++ content ++ "$"
  | math true content => "$$" ++ content ++ "$$"
  | openBrace => "\x7b"
  | closeBrace => "\x7d"
  | openBracket => "["
  | closeBracket => "]"

def letters (base : Char) : List String :=
  if base = 'i' then ["i", "\\i"] else [.ofList [base]]

def spellings : Token → List String
  | math false content => ["$" ++ content ++ "$", "\\(" ++ content ++ "\\)"]
  | math true content => ["$$" ++ content ++ "$$", "\\[" ++ content ++ "\\]"]
  | accent mark base => (letters base).flatMap fun letter =>
      [.ofList ['\\', mark] ++ letter, .ofList ['\\', mark] ++ "\x7b" ++ letter ++ "\x7d"]
  | token => [token.written]

theorem mem_letters (base : Char) : String.ofList [base] ∈ letters base := by
  unfold letters
  split
  next dotted => subst dotted; decide
  next => exact List.mem_singleton_self _

theorem written_mem_spellings (token : Token) : token.written ∈ token.spellings := by
  cases token with
  | accent mark base =>
    refine List.mem_flatMap.mpr ⟨_, mem_letters base, List.mem_cons.mpr (.inl ?_)⟩
    rw [← String.ofList_append]
    rfl
  | math display content => cases display <;> exact List.mem_cons_self
  | text | escape | comment | command | beginEnv | endEnv | verbatim | openBrace | closeBrace
  | openBracket | closeBracket => exact List.mem_singleton_self _

theorem toList_environmentMark (word name : String) :
    (environmentMark word name).toList =
      '\\' :: word.toList ++ '\x7b' :: (name.toList ++ ['\x7d']) := by
  simp [environmentMark, String.join, String.toList_append]

section Recognisers
variable {cs : List Char} {token : Token} {n : Nat}

theorem comment?_written (found : comment? cs = some (token, n)) :
    token.written.toList = '%' :: cs.take n := by
  obtain ⟨content, rfl, -, eq⟩ := comment?_eq_some_iff.mp found
  cases eq
  rw [Text.take_of_prefix (List.takeWhile_prefix _) rfl]
  simp [written]

/-- Math between dollar signs, of which the first was read. -/
theorem dollar?_written (found : dollar? cs = some (token, n)) :
    token.written.toList = '$' :: cs.take n := by
  have single {cs : List Char} (found : mathUpTo? false 0 ['$'] cs = some (token, n)) :
      token.written.toList = '$' :: cs.take n := by
    obtain ⟨content, at_, eq⟩ := Option.map_eq_some_iff.mp found
    cases eq
    rw [Text.take_of_prefix (Text.prefix_of_before? at_) (by simp)]
    simp [written]
  have double {cs : List Char} (found : mathUpTo? true 1 ['$', '$'] cs = some (token, n)) :
      token.written.toList = '$' :: ('$' :: cs).take n := by
    obtain ⟨content, at_, eq⟩ := Option.map_eq_some_iff.mp found
    cases eq
    have starts : '$' :: (content ++ ['$', '$']) <+: '$' :: cs :=
      List.cons_prefix_cons.mpr ⟨rfl, Text.prefix_of_before? at_⟩
    rw [Text.take_of_prefix starts (by simp; omega)]
    simp [written]
  unfold dollar? at found
  split at found
  · simp only [Option.orElse_eq_orElse, Option.orElse_eq_or, Option.or_eq_some_iff] at found
    rcases found with h | ⟨-, h⟩
    · exact double h
    · exact single h
  · exact single found

/-- A mark of an environment whose word was read, up to its closing brace. -/
theorem starts_mark {word name rest : List Char} (starts : word.isPrefixOf? cs = some rest)
    (named : envName? rest = some name) : word ++ name ++ ['\x7d'] <+: cs := by
  obtain rfl := List.isPrefixOf?_eq_some_iff_append_eq.mp starts
  obtain ⟨rfl, -, at_⟩ := envName?_eq_some_iff.mp named
  obtain ⟨behind, eq⟩ := List.head?_eq_some_iff.mp at_
  have parts := List.takeWhile_append_dropWhile (p := isEnvChar) (l := rest)
  rw [List.append_assoc, List.prefix_append_right_inj]
  refine ⟨behind, ?_⟩
  rw [List.append_assoc, List.singleton_append, ← eq]
  have at_end : rest.drop (rest.takeWhile isEnvChar).length = rest.dropWhile isEnvChar := by
    conv => lhs; arg 2; rw [← parts]
    exact List.drop_left
  rw [at_end, parts]

theorem end?_written (found : end? cs = some (token, n)) :
    token.written.toList = '\\' :: cs.take n := by
  simp only [end?, bind, Option.bind_eq_some_iff] at found
  obtain ⟨rest, starts, name, named, eq⟩ := found
  cases eq
  have length : ("end\x7b".toList ++ name ++ ['\x7d']).length =
      "end\x7b".length + name.length + 1 := by
    simp only [List.length_append, String.length_toList, List.length_singleton]
  rw [Text.take_of_prefix (starts_mark starts named) length]
  simp [written, toList_environmentMark]

theorem begin?_written (found : begin? cs = some (token, n)) :
    token.written.toList = '\\' :: cs.take n := by
  simp only [begin?, bind, Option.bind_eq_some_iff] at found
  obtain ⟨rest, starts, name, named, found⟩ := found
  obtain ⟨behind, rfl⟩ := starts_mark starts named
  have length : ("begin\x7b".toList ++ name ++ ['\x7d']).length =
      "begin\x7b".length + name.length + 1 := by
    simp only [List.length_append, String.length_toList, List.length_singleton]
  rw [List.drop_left' length] at found
  split at found
  next raw =>
    cases found
    simp only [verbatim?] at raw
    split at raw
    · obtain ⟨body, at_, eq⟩ := Option.map_eq_some_iff.mp raw
      cases eq
      have starts := (List.prefix_append_right_inj ("begin\x7b".toList ++ name ++ ['\x7d'])).mpr
        (Text.prefix_of_before? at_)
      have fits : (("begin\x7b".toList ++ name ++ ['\x7d']) ++
          (body ++ ("\\end\x7b".toList ++ name ++ ['\x7d']))).length =
          "begin\x7b".length + name.length + 1 +
            (body.length + ("\\end\x7b".toList ++ name ++ ['\x7d']).length) := by
        rw [List.length_append, @List.length_append _ body, length]
      rw [Text.take_of_prefix starts fits]
      simp [written, toList_environmentMark]
    · cases raw
  next =>
    cases found
    rw [Text.take_of_prefix (List.prefix_append _ _) length]
    simp [written, toList_environmentMark]

theorem command?_written (found : command? cs = some (token, n)) :
    token.written.toList = '\\' :: cs.take n := by
  have word := List.takeWhile_prefix isWordChar (l := cs)
  simp only [command?] at found
  split at found
  next => cases found
  cases found
  split
  next star =>
    obtain ⟨rest, eq⟩ := List.head?_eq_some_iff.mp star
    have starts : cs.takeWhile isWordChar ++ ['*'] <+: cs := by
      refine ⟨rest, ?_⟩
      rw [List.append_assoc, List.singleton_append, ← eq, List.prefix_iff_eq_append.mp word]
    rw [Text.take_of_prefix starts rfl]
    simp [written]
  next =>
    rw [Text.take_of_prefix word rfl]
    simp [written]

theorem escape?_written (found : escape? cs = some (token, n)) :
    token.written.toList = '\\' :: cs.take n := by
  unfold escape? at found
  split at found
  · split at found
    · cases found
    · cases found
      simp [written]
  · cases found

theorem bracketMath?_spelling (found : bracketMath? cs = some (token, n)) :
    String.ofList ('\\' :: cs.take n) ∈ token.spellings := by
  have between {display : Bool} {opening closing : Char} {rest : List Char}
      (found : mathUpTo? display 1 ['\\', closing] rest = some (token, n)) :
      ∃ content, token = .math display content ∧
        String.ofList ('\\' :: (opening :: rest).take n) =
          .ofList ['\\', opening] ++ content ++ .ofList ['\\', closing] := by
    obtain ⟨content, at_, eq⟩ := Option.map_eq_some_iff.mp found
    cases eq
    have starts : opening :: (content ++ ['\\', closing]) <+: opening :: rest :=
      List.cons_prefix_cons.mpr ⟨rfl, Text.prefix_of_before? at_⟩
    rw [Text.take_of_prefix starts (by simp; omega)]
    exact ⟨_, rfl, String.toList_inj.mp (by simp)⟩
  unfold bracketMath? at found
  split at found
  next =>
    obtain ⟨content, rfl, spelled⟩ := @between _ '[' _ _ found
    exact List.mem_cons_of_mem _ (List.mem_singleton.mpr spelled)
  next =>
    obtain ⟨content, rfl, spelled⟩ := @between _ '(' _ _ found
    exact List.mem_cons_of_mem _ (List.mem_singleton.mpr spelled)
  next => cases found

theorem accentBase?_letters {base : Char} (found : accentBase? cs = some (base, n)) :
    String.ofList (cs.take n) ∈ letters base := by
  unfold accentBase? at found
  split at found
  next rest =>
    cases found
    exact List.mem_cons_of_mem "i" (List.mem_singleton_self "\\i")
  next =>
    split at found
    next => cases found; exact mem_letters base
    next => cases found
  next => cases found

theorem accent?_spelling (found : accent? cs = some (token, n)) :
    String.ofList ('\\' :: cs.take n) ∈ token.spellings := by
  unfold accent? at found
  split at found
  next mark rest =>
    split at found
    next =>
      obtain ⟨⟨base, used⟩, argument, eq⟩ := Option.map_eq_some_iff.mp found
      cases eq
      by_cases brace : rest.head? = some '\x7b'
      · obtain ⟨inner, rfl⟩ := List.head?_eq_some_iff.mp brace
        obtain ⟨used, letter, at_, rfl⟩ := accentArgument?_eq_some_iff.mp argument
        obtain ⟨behind, eq⟩ := List.head?_eq_some_iff.mp at_
        refine List.mem_flatMap.mpr ⟨_, accentBase?_letters letter, List.mem_pair.mpr (.inr ?_)⟩
        exact String.toList_inj.mp (by simp [List.take_add, eq])
      · rw [accentArgument?_of_ne brace] at argument
        refine List.mem_flatMap.mpr ⟨_, accentBase?_letters argument, List.mem_pair.mpr (.inl ?_)⟩
        exact String.toList_inj.mp (by simp)
    next => cases found
  next => cases found

end Recognisers

/-- A character without a meaning of its own starts a text. -/
theorem next?_text {c : Char} (plain : isSpecial c = false) (cs : List Char) :
    next? c cs = some (.text (.ofList (c :: cs.takeWhile (!isSpecial ·))),
      (cs.takeWhile (!isSpecial ·)).length) := by
  simp only [isSpecial, Bool.or_eq_false_iff, beq_eq_false_iff_ne] at plain
  obtain ⟨⟨⟨⟨⟨⟨slash, opening⟩, closing⟩, opening'⟩, closing'⟩, dollar⟩, percent⟩ := plain
  simp [next?, slash, opening, closing, opening', closing', dollar, percent]

/-- A token is spelled in one of its ways. -/
theorem next?_spelling {c : Char} {cs : List Char} {token : Token} {n : Nat}
    (found : next? c cs = some (token, n)) : String.ofList (c :: cs.take n) ∈ token.spellings := by
  have plain (same : token.written.toList = c :: cs.take n) :
      String.ofList (c :: cs.take n) ∈ token.spellings := by
    rw [← same, String.ofList_toList]
    exact written_mem_spellings token
  simp only [next?] at found
  split at found
  next percent =>
    obtain rfl := eq_of_beq percent
    exact plain (comment?_written found)
  split at found
  next dollar =>
    obtain rfl := eq_of_beq dollar
    exact plain (dollar?_written found)
  split at found
  next slash =>
    obtain rfl := eq_of_beq slash
    simp only [Option.orElse_eq_orElse, Option.orElse_eq_or, Option.or_eq_some_iff] at found
    rcases found with h | ⟨-, h | ⟨-, h | ⟨-, h | ⟨-, h | ⟨-, h⟩⟩⟩⟩⟩
    · exact bracketMath?_spelling h
    · exact plain (begin?_written h)
    · exact plain (end?_written h)
    · exact accent?_spelling h
    · exact plain (command?_written h)
    · exact plain (escape?_written h)
  split at found
  next brace => cases found; exact plain (by rw [eq_of_beq brace]; rfl)
  split at found
  next brace => cases found; exact plain (by rw [eq_of_beq brace]; rfl)
  split at found
  next bracket => cases found; exact plain (by rw [eq_of_beq bracket]; rfl)
  split at found
  next bracket => cases found; exact plain (by rw [eq_of_beq bracket]; rfl)
  next =>
    cases found
    refine plain ?_
    rw [Text.take_of_prefix (List.takeWhile_prefix _) rfl]
    simp [written]

/-- A token that is no accent is spelled as it is written, unless it is math without a dollar
sign. -/
theorem next?_written {c : Char} {cs : List Char} {token : Token} {n : Nat}
    (found : next? c cs = some (token, n)) (letter : ∀ mark base, token ≠ .accent mark base)
    (dollars : ∀ display content, token = .math display content → c = '$') :
    token.written.toList = c :: cs.take n := by
  have spelled := next?_spelling found
  have same (eq : String.ofList (c :: cs.take n) = token.written) :
      token.written.toList = c :: cs.take n := by
    rw [← eq, String.toList_ofList]
  cases token with
  | accent mark base => exact absurd rfl (letter mark base)
  | math display content =>
    obtain rfl := dollars display content rfl
    cases display with
    | false =>
      rcases List.mem_pair.mp spelled with eq | eq
      · exact same eq
      · simpa using congrArg (fun s : String => s.toList.head?) eq
    | true =>
      rcases List.mem_pair.mp spelled with eq | eq
      · exact same eq
      · simpa using congrArg (fun s : String => s.toList.head?) eq
  | text | escape | comment | command | beginEnv | endEnv | verbatim | openBrace | closeBrace
  | openBracket | closeBracket => exact same (List.mem_singleton.mp spelled)

/-- A raw environment has one of the names that are kept raw. -/
theorem next?_verbatim {c : Char} {cs : List Char} {name body : String} {n : Nat}
    (found : next? c cs = some (.verbatim name body, n)) : name ∈ verbatimNames := by
  have impossible {p : Prop} (plain : isPlain (.verbatim name body) = true) : p := by cases plain
  simp only [next?] at found
  split at found
  · exact impossible (comment?_plain found)
  split at found
  · exact impossible (dollar?_plain found)
  split at found
  · simp only [Option.orElse_eq_orElse, Option.orElse_eq_or, Option.or_eq_some_iff] at found
    rcases found with h | ⟨-, h | ⟨-, h | ⟨-, h | ⟨-, h | ⟨-, h⟩⟩⟩⟩⟩
    · exact impossible (bracketMath?_plain h)
    · simp only [begin?, bind, Option.bind_eq_some_iff] at h
      obtain ⟨_, _, env, _, h⟩ := h
      split at h
      next token more raw =>
        cases h
        simp only [verbatim?] at raw
        split at raw
        next kept =>
          obtain ⟨_, _, eq⟩ := Option.map_eq_some_iff.mp raw
          cases eq
          exact List.contains_iff_mem.mp kept
        next => cases raw
      next => cases h
    · exact impossible (end?_plain h)
    · exact impossible (accent?_plain h)
    · exact impossible (command?_plain h)
    · exact impossible (escape?_plain h)
  repeat' split at found
  all_goals cases found

section Lexemes
variable {offset : Nat} {cs : List Char} {lexemes : List Lexeme} {l : Lexeme}

/-- Every lexeme of a source comes from a step at its first character. -/
theorem next?_of_mem_scan (scanned : scan offset cs = .ok lexemes) (member : l ∈ lexemes) :
    ∃ c rest n, next? c rest = some (l.token, n) ∧ l.spelling = .ofList (c :: rest.take n) := by
  obtain ⟨front, back, rfl⟩ := List.append_of_mem member
  obtain ⟨further, scanned⟩ := scan_suffix scanned
  obtain ⟨c, rest, n, -, found, spelled, -⟩ := scan_eq_cons scanned
  exact ⟨c, rest, n, found, spelled⟩

theorem mem_verbatimNames {name body : String} (scanned : scan offset cs = .ok lexemes)
    (member : l ∈ lexemes) (token : l.token = .verbatim name body) : name ∈ verbatimNames := by
  obtain ⟨c, rest, n, found, -⟩ := next?_of_mem_scan scanned member
  exact next?_verbatim (token ▸ found)

theorem spelling_mem_spellings (scanned : scan offset cs = .ok lexemes) (member : l ∈ lexemes) :
    l.spelling ∈ l.token.spellings := by
  obtain ⟨c, rest, n, found, spelled⟩ := next?_of_mem_scan scanned member
  exact spelled ▸ next?_spelling found

/-- A lexeme that is no accent is spelled as its token is written, unless it is math without a
dollar sign. -/
theorem spelling_eq_written (scanned : scan offset cs = .ok lexemes) (member : l ∈ lexemes)
    (letter : ∀ mark base, l.token ≠ .accent mark base)
    (dollars : ∀ display content, l.token = .math display content →
      l.spelling.toList.head? = some '$') : l.spelling = l.token.written := by
  obtain ⟨c, rest, n, found, spelled⟩ := next?_of_mem_scan scanned member
  have same := next?_written found letter fun display content eq => by
    have first := dollars display content eq
    rw [spelled] at first
    simpa using first
  rw [spelled, ← same, String.ofList_toList]

end Lexemes

end Token
end Quire
