import Mathlib.Data.List.Basic
import Quire.Node.Bound
import Quire.Proofs.Text.Cut

/-! Lexemes of a slice. Where a slice of a source ends in front of a closing brace or bracket that
is a lexeme of its own, it is cut on its own as it is cut in the source: no token in it depends on
what stands behind it. Main statement: `scan_slice`. -/
namespace Quire

namespace Text

variable {p cs tail : List Char}

theorem before?_eq_none_of_append (none_ : before? p (cs ++ tail) = none) : before? p cs = none :=
  before?_eq_none_iff.mpr fun inside =>
    before?_eq_none_iff.mp none_ (inside.trans (List.prefix_append _ _).isInfix)

/-- What stands behind a run in a text stands behind it when the text goes on. -/
theorem head?_drop_append {n : Nat} {d : Char} (at_ : (cs.drop n).head? = some d) :
    ((cs ++ tail).drop n).head? = some d := by
  rw [List.head?_drop] at at_ ⊢
  exact List.getElem?_append_left (List.getElem?_eq_some_iff.mp at_).1 ▸ at_

theorem head?_drop_of_append {n : Nat} (inside : n < cs.length) :
    ((cs ++ tail).drop n).head? = (cs.drop n).head? := by
  rw [List.head?_drop, List.head?_drop, List.getElem?_append_left inside]

end Text

namespace Token

/-- The characters that end an argument. -/
def IsClose (c : Char) : Prop := c = '\x7d' ∨ c = ']'

/-- What a recogniser finds within a slice it finds in the slice alone, and what it does not find
in the source it does not find in a slice of it. -/
structure Local {α : Type} (r : List Char → Option (α × Nat)) : Prop where
  cut : ∀ {cs tail : List Char} {c : Char} {a : α} {n : Nat}, IsClose c →
    r (cs ++ c :: tail) = some (a, n) → n ≤ cs.length → r cs = some (a, n)
  keeps : ∀ {cs : List Char} (tail : List Char) {c : Char}, IsClose c →
    r (cs ++ c :: tail) = none → r cs = none

theorem Local.orElse {r q : List Char → Step} (h : Local r) (k : Local q) :
    Local fun cs => r cs <|> q cs where
  cut := by
    intro cs tail c token n close found fits
    simp only [Option.orElse_eq_orElse, Option.orElse_eq_or, Option.or_eq_some_iff] at found ⊢
    rcases found with first | ⟨none_, second⟩
    · exact .inl (h.cut close first fits)
    · exact .inr ⟨h.keeps tail close none_, k.cut close second fits⟩
  keeps := by
    intro cs tail c close none_
    simp only [Option.orElse_eq_orElse, Option.orElse_eq_or, Option.or_eq_none_iff] at none_ ⊢
    exact ⟨h.keeps tail close none_.1, k.keeps tail close none_.2⟩

theorem IsClose.not_isEnvChar {c : Char} (close : IsClose c) : isEnvChar c = false := by
  rcases close with rfl | rfl <;> decide

theorem IsClose.not_isWordChar {c : Char} (close : IsClose c) : isWordChar c = false := by
  rcases close with rfl | rfl <;> decide

theorem IsClose.isSpecial {c : Char} (close : IsClose c) : isSpecial c = true := by
  rcases close with rfl | rfl <;> decide

theorem IsClose.not_isLetter {c : Char} (close : IsClose c) : Text.isLetter c = false := by
  rcases close with rfl | rfl <;> decide +kernel

/-- A comment takes the rest of its line; no lone carriage return stands at its end. -/
theorem comment?_eq_some_iff {cs : List Char} {token : Token} {n : Nat} :
    comment? cs = some (token, n) ↔
      ∃ content, cs.takeWhile (fun c => c != '\r' && c != '\n') = content ∧
        (∀ rest, cs.drop content.length = '\r' :: rest → rest.head? = some '\n') ∧
        some (.comment (.ofList content), content.length) = some (token, n) := by
  simp only [comment?, exists_eq_left']
  split
  next eq => simp [eq]
  next lone eq =>
    simp only [eq, List.cons.injEq, true_and, forall_eq', reduceCtorEq, false_iff, not_and]
    intro ends
    obtain ⟨rest, rfl⟩ := List.head?_eq_some_iff.mp ends
    exact absurd rfl (lone rest)
  next _ other => exact (and_iff_right fun rest eq => absurd eq (other rest)).symm

/-- A comment ends at the end of its line, so one within a slice ends there in the slice. -/
theorem comment?_cut {cs tail : List Char} {c : Char} {token : Token} {n : Nat} (close : IsClose c)
    (found : comment? (cs ++ c :: tail) = some (token, n)) (fits : n ≤ cs.length) :
    comment? cs = some (token, n) := by
  obtain ⟨content, line, ends, eq⟩ := comment?_eq_some_iff.mp found
  cases eq
  refine comment?_eq_some_iff.mpr ⟨content, ?_, fun rest eq => ?_, rfl⟩
  · have goesOn : (c != '\r' && c != '\n') = true := by rcases close with rfl | rfl <;> rfl
    rw [List.takeWhile_append] at line
    split at line
    next whole =>
      simp only [← line, List.takeWhile_cons, goesOn, if_true, List.length_append,
        List.length_cons] at fits
      omega
    next => exact line
  · have next := ends (rest ++ c :: tail) (by rw [List.drop_append_of_le_length fits, eq]; rfl)
    cases rest with
    | nil => rcases close with rfl | rfl <;> cases next
    | cons => exact next

section Math
variable {display : Bool} {skip n : Nat} {close cs tail : List Char} {token : Token}

theorem mathUpTo?_cut (found : mathUpTo? display skip close (cs ++ tail) = some (token, n))
    (fits : n ≤ skip + cs.length) : mathUpTo? display skip close cs = some (token, n) := by
  obtain ⟨content, at_, eq⟩ := Option.map_eq_some_iff.mp found
  obtain ⟨rfl, rfl⟩ := Prod.mk.inj eq
  rw [mathUpTo?, (Text.before?_append_iff (by omega)).mp at_]
  rfl

theorem mathUpTo?_keeps (none_ : mathUpTo? display skip close (cs ++ tail) = none) :
    mathUpTo? display skip close cs = none := by
  rw [mathUpTo?, Option.map_eq_none_iff] at none_ ⊢
  exact Text.before?_eq_none_of_append none_

end Math

theorem dollar?_of_ne {cs : List Char} (other : cs.head? ≠ some '$') :
    dollar? cs = mathUpTo? false 0 ['$'] cs := by
  unfold dollar?
  split
  · simp at other
  · rfl

theorem local_dollar? : Local dollar? where
  cut := by
    intro cs tail c token n close found fits
    by_cases dollar : cs.head? = some '$'
    · obtain ⟨rest, rfl⟩ := List.head?_eq_some_iff.mp dollar
      simp only [List.cons_append, dollar?, Option.orElse_eq_orElse, Option.orElse_eq_or,
        Option.or_eq_some_iff] at found ⊢
      simp only [List.length_cons] at fits
      rcases found with display | ⟨none_, inline⟩
      · exact .inl (mathUpTo?_cut display (by omega))
      · rw [← List.cons_append] at inline
        exact .inr ⟨mathUpTo?_keeps none_, mathUpTo?_cut inline (by simpa using fits)⟩
    · rw [dollar?_of_ne] at found ⊢
      · exact mathUpTo?_cut found (by omega)
      · exact dollar
      · rcases close with rfl | rfl <;> cases cs <;> simp_all
  keeps := by
    intro cs tail c close none_
    by_cases dollar : cs.head? = some '$'
    · obtain ⟨rest, rfl⟩ := List.head?_eq_some_iff.mp dollar
      simp only [List.cons_append, dollar?, Option.orElse_eq_orElse, Option.orElse_eq_or,
        Option.or_eq_none_iff] at none_ ⊢
      exact ⟨mathUpTo?_keeps none_.1, mathUpTo?_keeps none_.2⟩
    · rw [dollar?_of_ne] at none_ ⊢
      · exact mathUpTo?_keeps none_
      · exact dollar
      · rcases close with rfl | rfl <;> cases cs <;> simp_all

theorem bracketMath?_cons (c : Char) (cs : List Char) :
    bracketMath? (c :: cs) =
      if c = '[' then mathUpTo? true 1 ['\\', ']'] cs
      else if c = '(' then mathUpTo? false 1 ['\\', ')'] cs
      else none := by
  unfold bracketMath?
  split <;> simp_all

theorem local_bracketMath? : Local bracketMath? where
  cut := by
    intro cs tail c token n close found fits
    cases cs with
    | nil => rcases close with rfl | rfl <;> cases found
    | cons d ds =>
      simp only [List.length_cons] at fits
      rw [List.cons_append, bracketMath?_cons] at found
      rw [bracketMath?_cons]
      by_cases bracket : d = '['
      · rw [if_pos bracket] at found ⊢
        exact mathUpTo?_cut found (by omega)
      rw [if_neg bracket] at found ⊢
      by_cases paren : d = '('
      · rw [if_pos paren] at found ⊢
        exact mathUpTo?_cut found (by omega)
      · rw [if_neg paren] at found
        cases found
  keeps := by
    intro cs tail c close none_
    cases cs with
    | nil => rfl
    | cons d ds =>
      rw [List.cons_append, bracketMath?_cons] at none_
      rw [bracketMath?_cons]
      by_cases bracket : d = '['
      · rw [if_pos bracket] at none_ ⊢
        exact mathUpTo?_keeps none_
      rw [if_neg bracket] at none_ ⊢
      by_cases paren : d = '('
      · rw [if_pos paren] at none_ ⊢
        exact mathUpTo?_keeps none_
      · rw [if_neg paren]

section Mark
variable {name rest word cs tail : List Char} {c : Char}

theorem envName?_eq_some_iff :
    envName? rest = some name ↔
      rest.takeWhile isEnvChar = name ∧ name ≠ [] ∧ (rest.drop name.length).head? = some '\x7d' := by
  simp only [envName?, Option.ite_none_left_eq_some, Option.some.injEq, Bool.or_eq_true,
    List.isEmpty_iff, bne_iff_ne, not_or, not_not]
  constructor
  · rintro ⟨⟨some_, at_⟩, rfl⟩
    exact ⟨rfl, some_, at_⟩
  · rintro ⟨rfl, some_, at_⟩
    exact ⟨⟨some_, at_⟩, rfl⟩

/-- The name of an environment is read within the slice that its mark lies in. -/
theorem mark_cut {rest' : List Char} (close : IsClose c)
    (starts : word.isPrefixOf? (cs ++ c :: tail) = some rest') (named : envName? rest' = some name)
    (fits : word.length + name.length + 1 ≤ cs.length) :
    ∃ rest, word.isPrefixOf? cs = some rest ∧ envName? rest = some name := by
  rw [List.isPrefixOf?_eq_some_iff_append_eq] at starts
  obtain ⟨rest, rfl⟩ : word <+: cs :=
    List.prefix_of_prefix_length_le ⟨rest', starts⟩ (List.prefix_append _ _) (by omega)
  rw [List.append_assoc] at starts
  obtain rfl := List.append_cancel_left starts
  rw [List.length_append] at fits
  obtain ⟨eq, some_, at_⟩ := envName?_eq_some_iff.mp named
  rw [Text.takeWhile_append_stop close.not_isEnvChar] at eq
  rw [Text.head?_drop_of_append (by omega)] at at_
  exact ⟨rest, List.isPrefixOf?_eq_some_iff_append_eq.mpr rfl,
    envName?_eq_some_iff.mpr ⟨eq, some_, at_⟩⟩

theorem mark_append (close : IsClose c) (tail : List Char)
    (starts : word.isPrefixOf? cs = some rest) (named : envName? rest = some name) :
    word.isPrefixOf? (cs ++ c :: tail) = some (rest ++ c :: tail) ∧
      envName? (rest ++ c :: tail) = some name := by
  rw [List.isPrefixOf?_eq_some_iff_append_eq] at starts ⊢
  obtain ⟨eq, some_, at_⟩ := envName?_eq_some_iff.mp named
  refine ⟨by rw [← List.append_assoc, starts], ?_⟩
  refine envName?_eq_some_iff.mpr ⟨?_, some_, Text.head?_drop_append at_⟩
  rwa [Text.takeWhile_append_stop close.not_isEnvChar]

end Mark

theorem verbatim?_cut {name cs tail : List Char} {token : Token} {more : Nat}
    (found : verbatim? name (cs ++ tail) = some (token, more)) (fits : more ≤ cs.length) :
    verbatim? name cs = some (token, more) := by
  simp only [verbatim?] at found ⊢
  split at found
  next raw =>
    obtain ⟨body, at_, eq⟩ := Option.map_eq_some_iff.mp found
    obtain ⟨rfl, rfl⟩ := Prod.mk.inj eq
    rw [if_pos raw, (Text.before?_append_iff fits).mp at_]
    rfl
  next => cases found

theorem verbatim?_keeps {name cs tail : List Char} (none_ : verbatim? name (cs ++ tail) = none) :
    verbatim? name cs = none := by
  simp only [verbatim?] at none_ ⊢
  split at none_
  next raw =>
    rw [Option.map_eq_none_iff] at none_
    rw [if_pos raw, Text.before?_eq_none_of_append none_]
    rfl
  next other => rw [if_neg other]

theorem local_begin? : Local begin? where
  cut := by
    intro cs tail c token n close found fits
    simp only [begin?, bind, Option.bind_eq_some_iff] at found ⊢
    obtain ⟨rest', starts, name, named, found⟩ := found
    have long : "begin\x7b".length + name.length + 1 ≤ n := by
      split at found <;> cases found
      · exact Nat.le_add_right _ _
      · exact Nat.le_refl _
    obtain ⟨rest, starts, named⟩ := mark_cut close starts named (Nat.le_trans long fits)
    refine ⟨rest, starts, name, named, ?_⟩
    rw [List.drop_append_of_le_length (Nat.le_trans long fits)] at found
    split at found
    next token' more raw =>
      cases found
      rw [verbatim?_cut raw (by rw [List.length_drop]; omega)]
    next none_ =>
      cases found
      rw [verbatim?_keeps none_]
  keeps := by
    intro cs tail c close none_
    cases within : begin? cs with
    | none => rfl
    | some found =>
      simp only [begin?, bind, Option.bind_eq_some_iff] at within
      obtain ⟨rest, starts, name, named, -⟩ := within
      obtain ⟨starts, named⟩ := mark_append close tail starts named
      simp only [begin?, bind, starts, named, Option.bind_some] at none_
      split at none_ <;> cases none_

theorem local_end? : Local end? where
  cut := by
    intro cs tail c token n close found fits
    simp only [end?, bind, Option.bind_eq_some_iff] at found ⊢
    obtain ⟨rest', starts, name, named, found⟩ := found
    cases found
    obtain ⟨rest, starts, named⟩ := mark_cut close starts named fits
    exact ⟨rest, starts, name, named, rfl⟩
  keeps := by
    intro cs tail c close none_
    cases within : end? cs with
    | none => rfl
    | some found =>
      simp only [end?, bind, Option.bind_eq_some_iff] at within
      obtain ⟨rest, starts, name, named, -⟩ := within
      obtain ⟨starts, named⟩ := mark_append close tail starts named
      simp only [end?, bind, starts, named, Option.bind_some] at none_
      cases none_

section Accent
variable {cs tail : List Char} {c : Char}

theorem accentBase?_cons (d : Char) (ds : List Char) :
    accentBase? (d :: ds) =
      if d = '\\' ∧ ds.head? = some 'i' then some ('i', 2)
      else if Text.isLetter d then some (d, 1)
      else none := by
  by_cases dotless : d = '\\' ∧ ds.head? = some 'i'
  · obtain ⟨rest, rfl⟩ := List.head?_eq_some_iff.mp dotless.2
    rw [if_pos dotless, dotless.1]
    rfl
  · rw [if_neg dotless, accentBase?]
    rintro rest rfl rfl
    exact dotless ⟨rfl, rfl⟩

/-- No letter under an accent is spelled with the end of an argument. -/
theorem accentBase?_append (close : IsClose c) (cs tail : List Char) :
    accentBase? (cs ++ c :: tail) = accentBase? cs := by
  cases cs with
  | nil =>
    rw [List.nil_append, accentBase?_cons, if_neg, if_neg]
    · rfl
    · simp [close.not_isLetter]
    · rcases close with rfl | rfl <;> simp
  | cons d ds =>
    have same : (ds ++ c :: tail).head? = some 'i' ↔ ds.head? = some 'i' := by
      cases ds with
      | nil => rcases close with rfl | rfl <;> simp
      | cons => rfl
    simp only [List.cons_append, accentBase?_cons, same]

theorem accentArgument?_of_ne (other : cs.head? ≠ some '\x7b') :
    accentArgument? cs = accentBase? cs := by
  unfold accentArgument?
  split
  · simp at other
  · rfl

theorem accentArgument?_eq_some_iff {rest : List Char} {base : Char} {n : Nat} :
    accentArgument? ('\x7b' :: rest) = some (base, n) ↔
      ∃ used, accentBase? rest = some (base, used) ∧ (rest.drop used).head? = some '\x7d' ∧
        used + 2 = n := by
  simp only [accentArgument?, bind, Option.bind_eq_some_iff, Prod.exists,
    Option.ite_none_right_eq_some, Option.some.injEq, Prod.mk.injEq]
  constructor
  · rintro ⟨_, used, found, at_, rfl, rfl⟩
    exact ⟨used, found, at_, rfl⟩
  · rintro ⟨used, found, at_, rfl⟩
    exact ⟨base, used, found, at_, rfl, rfl⟩

theorem local_accentArgument? : Local accentArgument? where
  cut := by
    intro cs tail c base n close found fits
    by_cases brace : cs.head? = some '\x7b'
    · obtain ⟨rest, rfl⟩ := List.head?_eq_some_iff.mp brace
      rw [List.cons_append] at found
      obtain ⟨used, base_, at_, rfl⟩ := accentArgument?_eq_some_iff.mp found
      rw [accentBase?_append close] at base_
      rw [List.length_cons] at fits
      rw [Text.head?_drop_of_append (by omega)] at at_
      exact accentArgument?_eq_some_iff.mpr ⟨used, base_, at_, rfl⟩
    · rw [accentArgument?_of_ne, accentBase?_append close] at found
      · rwa [accentArgument?_of_ne brace]
      · rcases close with rfl | rfl <;> cases cs <;> simp_all
  keeps := by
    intro cs tail c close none_
    by_cases brace : cs.head? = some '\x7b'
    · obtain ⟨rest, rfl⟩ := List.head?_eq_some_iff.mp brace
      cases within : accentArgument? ('\x7b' :: rest) with
      | none => rfl
      | some found =>
        obtain ⟨used, found, at_, -⟩ := accentArgument?_eq_some_iff.mp within
        rw [← accentBase?_append close rest tail] at found
        have := accentArgument?_eq_some_iff.mpr ⟨used, found, Text.head?_drop_append at_, rfl⟩
        rw [List.cons_append, this] at none_
        cases none_
    · rw [accentArgument?_of_ne, accentBase?_append close] at none_
      · rwa [accentArgument?_of_ne brace]
      · rcases close with rfl | rfl <;> cases cs <;> simp_all

theorem local_accent? : Local accent? where
  cut := by
    intro cs tail c token n close found fits
    cases cs with
    | nil => rcases close with rfl | rfl <;> cases found
    | cons mark rest =>
      simp only [List.cons_append, accent?, Option.ite_none_right_eq_some,
        Option.map_eq_some_iff] at found ⊢
      obtain ⟨isMark, ⟨base, used⟩, found, eq⟩ := found
      cases eq
      exact ⟨isMark, _, local_accentArgument?.cut close found (Nat.le_of_succ_le_succ fits), rfl⟩
  keeps := by
    intro cs tail c close none_
    cases cs with
    | nil => rfl
    | cons mark rest =>
      simp only [List.cons_append, accent?, ite_eq_right_iff, Option.map_eq_none_iff] at none_ ⊢
      exact fun isMark => local_accentArgument?.keeps tail close (none_ isMark)

end Accent

theorem command?_append {c : Char} (close : IsClose c) (cs tail : List Char) :
    command? (cs ++ c :: tail) = command? cs := by
  have star : ((cs ++ c :: tail).drop (cs.takeWhile isWordChar).length).head? = some '*' ↔
      (cs.drop (cs.takeWhile isWordChar).length).head? = some '*' := by
    rw [List.drop_append_of_le_length (List.takeWhile_prefix _).length_le]
    cases cs.drop (cs.takeWhile isWordChar).length with
    | nil => rcases close with rfl | rfl <;> simp
    | cons => rfl
  simp only [command?, Text.takeWhile_append_stop close.not_isWordChar, star]

theorem local_command? : Local command? where
  cut := fun close found _ => (command?_append close _ _).symm.trans found
  keeps := fun tail _ close none_ => (command?_append close _ tail).symm.trans none_

theorem local_escape? : Local escape? where
  cut := by
    intro cs tail c token n close found fits
    cases cs with
    | nil =>
      simp only [List.nil_append, escape?, Option.ite_none_left_eq_some] at found
      cases found.2
      cases fits
    | cons => exact found
  keeps := by
    intro cs tail c close none_
    cases cs with
    | nil => rfl
    | cons => exact none_

/-- A token that lies within a slice is read there as it is read in the source. -/
theorem next?_cut {cs tail : List Char} {c d : Char} {token : Token} {n : Nat} (close : IsClose d)
    (found : next? c (cs ++ d :: tail) = some (token, n)) (fits : n ≤ cs.length) :
    next? c cs = some (token, n) := by
  have backslash := local_bracketMath?.orElse (local_begin?.orElse (local_end?.orElse
    (local_accent?.orElse (local_command?.orElse local_escape?))))
  unfold next? at found ⊢
  by_cases percent : (c == '%') = true
  · rw [if_pos percent] at found ⊢
    exact comment?_cut close found fits
  rw [if_neg percent] at found ⊢
  by_cases dollar : (c == '$') = true
  · rw [if_pos dollar] at found ⊢
    exact local_dollar?.cut close found fits
  rw [if_neg dollar] at found ⊢
  by_cases slash : (c == '\\') = true
  · rw [if_pos slash] at found ⊢
    exact backslash.cut close found fits
  rw [if_neg slash] at found ⊢
  rwa [Text.takeWhile_append_stop] at found
  simp [close.isSpecial]

/-- The character of a delimiter of groups. -/
def delimiter? : Token → Option Char
  | openBrace => some '\x7b'
  | closeBrace => some '\x7d'
  | openBracket => some '['
  | closeBracket => some ']'
  | _ => none

theorem delimiter?_of_isPlain {token : Token} (plain : token.isPlain = true) :
    token.delimiter? = none := by
  cases token <;> first | rfl | cases plain

theorem begin?_delimiter {cs : List Char} {token : Token} {n : Nat}
    (found : begin? cs = some (token, n)) : token.delimiter? = none := by
  simp only [begin?, bind, Option.bind_eq_some_iff] at found
  obtain ⟨_, _, name, _, found⟩ := found
  split at found
  next raw =>
    cases found
    obtain ⟨body, rfl, -⟩ := verbatim?_fits raw
    rfl
  next =>
    cases found
    rfl

/-- A delimiter stands for itself. -/
theorem next?_delimiter {c d : Char} {cs : List Char} {token : Token} {n : Nat}
    (found : next? c cs = some (token, n)) (delimiter : token.delimiter? = some d) :
    c = d ∧ n = 0 := by
  have impossible {p : Prop} (none_ : token.delimiter? = none) : p := by
    rw [none_] at delimiter
    cases delimiter
  simp only [next?] at found
  split at found
  · exact impossible (delimiter?_of_isPlain (comment?_plain found))
  split at found
  · exact impossible (delimiter?_of_isPlain (dollar?_plain found))
  split at found
  · simp only [Option.orElse_eq_orElse, Option.orElse_eq_or, Option.or_eq_some_iff] at found
    rcases found with h | ⟨-, h | ⟨-, h | ⟨-, h | ⟨-, h | ⟨-, h⟩⟩⟩⟩⟩
    · exact impossible (delimiter?_of_isPlain (bracketMath?_plain h))
    · exact impossible (begin?_delimiter h)
    · exact impossible (delimiter?_of_isPlain (end?_plain h))
    · exact impossible (delimiter?_of_isPlain (accent?_plain h))
    · exact impossible (delimiter?_of_isPlain (command?_plain h))
    · exact impossible (delimiter?_of_isPlain (escape?_plain h))
  repeat' split at found
  all_goals
    cases found
    cases delimiter
    try exact ⟨eq_of_beq ‹_›, rfl⟩

/-- How the first lexeme of a text comes about. -/
theorem scan_eq_cons {offset : Nat} {cs : List Char} {l : Lexeme} {lexemes : List Lexeme}
    (scanned : scan offset cs = .ok (l :: lexemes)) :
    ∃ c rest n, cs = c :: rest ∧ next? c rest = some (l.token, n) ∧
      l.spelling = .ofList (c :: rest.take n) ∧
      ∃ further, scan further (rest.drop n) = .ok lexemes := by
  cases cs with
  | nil => rw [scan] at scanned; cases scanned
  | cons c rest =>
    rw [scan] at scanned
    split at scanned
    next => cases scanned
    next token n found =>
      simp only [Functor.map, Except.map] at scanned
      split at scanned
      next => cases scanned
      next further =>
        cases scanned
        exact ⟨c, rest, n, rfl, found, rfl, _, further⟩

/-- The lexemes behind some point are those of the text behind it. -/
theorem scan_suffix {offset : Nat} {cs : List Char} {front lexemes : List Lexeme}
    (scanned : scan offset cs = .ok (front ++ lexemes)) :
    ∃ further, scan further (lexemes.flatMap (·.spelling.toList)) = .ok lexemes := by
  induction front generalizing offset cs with
  | nil =>
    rw [List.nil_append] at scanned
    exact ⟨offset, by rwa [spellings_scan scanned]⟩
  | cons l front ih =>
    obtain ⟨c, rest, n, -, -, -, further, scanned⟩ := scan_eq_cons scanned
    exact ih scanned

/-- A lexeme that is a delimiter is spelled with its character. -/
theorem spelling_delimiter {offset : Nat} {cs : List Char} {lexemes : List Lexeme} {l : Lexeme}
    {d : Char} (scanned : scan offset cs = .ok lexemes) (member : l ∈ lexemes)
    (delimiter : l.token.delimiter? = some d) : l.spelling = .ofList [d] := by
  obtain ⟨front, back, rfl⟩ := List.append_of_mem member
  obtain ⟨further, scanned⟩ := scan_suffix scanned
  obtain ⟨c, rest, n, -, found, spelled, -⟩ := scan_eq_cons scanned
  obtain ⟨rfl, rfl⟩ := next?_delimiter found delimiter
  exact spelled

end Token

/-- A lexeme wherever it stands. -/
def Lexeme.unplaced (lexeme : Lexeme) : Lexeme := { lexeme with offset := 0 }

namespace Token

/-- After a token the text behind it is cut, from wherever it starts. -/
theorem scan_of_next? {n : Nat} {c : Char} {rest behind : List Char} {token : Token}
    {lexemes : List Lexeme} (found : next? c rest = some (token, n)) (offset : Nat)
    (eq : rest.drop n = behind)
    (scanned : ∀ further, ∃ lexemes', scan further behind = .ok lexemes' ∧
      lexemes'.map Lexeme.unplaced = lexemes.map Lexeme.unplaced) :
    ∃ lexemes', scan offset (c :: rest) = .ok lexemes' ∧
      lexemes'.map Lexeme.unplaced =
        ⟨token, .ofList (c :: rest.take n), 0⟩ :: lexemes.map Lexeme.unplaced := by
  obtain ⟨lexemes', scanned, same⟩ :=
    scanned (offset + (String.ofList (c :: rest.take n)).utf8ByteSize)
  rw [scan, found]
  simp only [eq, scanned]
  exact ⟨_, rfl, by simp [Lexeme.unplaced, ← same]⟩

/-- A text that ends in front of a closing brace or bracket is cut as if it stood alone. -/
theorem scan_before {cs : List Char} {d : Char} {slice back : List Lexeme} {l : Lexeme}
    {offset : Nat} (close : IsClose d) (spelling : l.spelling = .ofList [d])
    (scanned : scan offset cs = .ok (slice ++ l :: back)) (other : Nat) :
    ∃ lexemes, scan other (slice.flatMap (·.spelling.toList)) = .ok lexemes ∧
      lexemes.map Lexeme.unplaced = slice.map Lexeme.unplaced := by
  induction slice generalizing offset cs other with
  | nil => exact ⟨[], by simp [scan], rfl⟩
  | cons s slice ih =>
    obtain ⟨c, rest, n, rfl, found, spelled, further, scanned⟩ := scan_eq_cons scanned
    have behind : rest.drop n =
        slice.flatMap (·.spelling.toList) ++ d :: back.flatMap (·.spelling.toList) := by
      rw [← spellings_scan scanned]
      simp [spelling]
    have length : (rest.take n).length = n := by
      have := congrArg List.length behind
      simp only [List.length_drop, List.length_append, List.length_cons] at this
      rw [List.length_take]
      omega
    rw [← List.take_append_drop n rest, behind, ← List.append_assoc] at found
    have alone := next?_cut close found (by rw [List.length_append]; omega)
    obtain ⟨lexemes, cut, same⟩ :=
      scan_of_next? alone other (List.drop_left' length) (ih scanned)
    refine ⟨lexemes, ?_, ?_⟩
    · simpa [spelled] using cut
    · simpa [Lexeme.unplaced, spelled, List.take_left' length] using same

/-- What stands between a point and a closing brace or bracket is cut on its own as it is cut in
the source. -/
theorem scan_slice {offset : Nat} {cs : List Char} {front slice back : List Lexeme} {l : Lexeme}
    (scanned : scan offset cs = .ok (front ++ (slice ++ l :: back)))
    (close : l.token = .closeBrace ∨ l.token = .closeBracket) :
    ∃ lexemes, scan 0 (slice.flatMap (·.spelling.toList)) = .ok lexemes ∧
      lexemes.map Lexeme.unplaced = slice.map Lexeme.unplaced := by
  have spelling : ∃ d, IsClose d ∧ l.spelling = .ofList [d] := by
    have member : l ∈ front ++ (slice ++ l :: back) := by simp
    rcases close with brace | bracket
    · exact ⟨_, .inl rfl, spelling_delimiter scanned member (by rw [brace]; rfl)⟩
    · exact ⟨_, .inr rfl, spelling_delimiter scanned member (by rw [bracket]; rfl)⟩
  obtain ⟨d, close, spelling⟩ := spelling
  obtain ⟨further, scanned⟩ := scan_suffix scanned
  exact scan_before close spelling scanned 0

end Token
end Quire
