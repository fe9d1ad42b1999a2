import Quire.Proofs.Prose.Plain
import Quire.Proofs.Verbs

/-! Text written so that it is shown as it is: a backslash as a command, and each other character
that LaTeX reserves behind a backslash. Main statement: `normalize_escape`, that either target shows
such text. -/
namespace Quire.Prose

def symbols : List Char := "\x7b\x7d&#%_$^".toList

def escapeChar (c : Char) : List Char :=
  if c = '\\' then "\\textbackslash\x7b\x7d".toList
  else if c ∈ symbols then ['\\', c]
  else [c]

def escape (cs : List Char) : List Char := cs.flatMap escapeChar

def showChar (c : Char) : List Char :=
  if c = '&' then "&amp;".toList
  else if c = '<' then "&lt;".toList
  else if c = '>' then "&gt;".toList
  else [c]

def shown (cs : List Char) : List Char := cs.flatMap showChar

def showIn : Target → Char → List Char
  | .html, c => showChar c
  | .quarto, c => if c = '\\' then ['\\', '\\'] else if c = '#' ∨ c = '$' then ['\\', c] else [c]

variable {c : Char} {cs rest : List Char}

theorem escapeChar_symbol (symbol : c ∈ symbols) : escapeChar c = ['\\', c] := by
  have other : c ≠ '\\' := by rintro rfl; exact absurd symbol (by decide)
  rw [escapeChar, if_neg other, if_pos symbol]

theorem escapeChar_ordinary (slash : c ≠ '\\') (ordinary : c ∉ symbols) : escapeChar c = [c] := by
  rw [escapeChar, if_neg slash, if_neg ordinary]

theorem escape_cons (c : Char) (cs : List Char) : escape (c :: cs) = escapeChar c ++ escape cs :=
  List.flatMap_cons

theorem escape_append (cs ds : List Char) : escape (cs ++ ds) = escape cs ++ escape ds :=
  List.flatMap_append

theorem escape_eq_self (ordinary : ∀ c ∈ cs, c ≠ '\\' ∧ c ∉ symbols) : escape cs = cs := by
  induction cs with
  | nil => rfl
  | cons c cs ih =>
    obtain ⟨⟨slash, symbol⟩, behind⟩ := List.forall_mem_cons.mp ordinary
    rw [escape_cons, escapeChar_ordinary slash symbol, ih behind]
    rfl

theorem escape_ne_nil (some_ : cs ≠ []) : escape cs ≠ [] := by
  obtain ⟨c, cs, rfl⟩ := List.exists_cons_of_ne_nil some_
  rw [escape_cons, escapeChar]
  split
  · simp
  split <;> simp

/-- An accent starts with one of its marks. -/
theorem decode?_eq_none (unmarked : ∀ row ∈ Accent.table, row.1 ≠ c) (cs : List Char) :
    Accent.decode? (c :: cs) = none := by
  have alone (base : Char) : Accent.compose? c base = none := by
    have misses : ∀ row ∈ Accent.table, ¬ (row.1 == c && row.2.1 == base.toLower) = true := by
      intro row member fits
      exact unmarked row member (eq_of_beq (Bool.and_eq_true_iff.mp fits).1)
    rw [Accent.compose?, List.find?_eq_none.mpr misses]
    rfl
  unfold Accent.decode?
  simp only [bind, alone]
  cases Accent.argument? cs <;> rfl

theorem action_symbol (target : Target) (symbol : c ∈ symbols) (cs : List Char) :
    action target '\\' (c :: cs) = .put (showIn target c) 1 := by
  have marks : ∀ row ∈ Accent.table, row.1 ∉ symbols := by decide
  have bare := decode?_eq_none (fun row member same => marks row member (same ▸ symbol)) cs
  have one : c ∈ ['\x7b', '\x7d', '&', '#', '%', '_', '$', '^'] := symbol
  unfold action
  rw [if_neg (by decide), if_pos rfl, if_pos rfl, bare]
  simp only [List.mem_cons, List.not_mem_nil, or_false] at one
  cases target <;> rcases one with rfl | rfl | rfl | rfl | rfl | rfl | rfl | rfl <;> rfl

theorem action_slash (target : Target) (cs : List Char) :
    action target '\\' ("textbackslash\x7b\x7d".toList ++ cs) = .put (showIn target '\\') 15 := by
  have bare : Accent.decode? ("textbackslash\x7b\x7d".toList ++ cs) = none :=
    decode?_eq_none (by decide) _
  unfold action
  rw [if_neg (by decide), if_pos rfl, if_pos rfl, bare]
  cases target <;> rfl

theorem action_unescaped (target : Target) (slash : c ≠ '\\') (symbol : c ∉ symbols) (tie : c ≠ '~')
    (apart : c ∈ cs.head? → c ∉ ligatureChars) : action target c cs = .put (showIn target c) 0 := by
  have percent : c ≠ '%' := by rintro rfl; exact symbol (by decide)
  have dollar : c ≠ '$' := by rintro rfl; exact symbol (by decide)
  have math : math? target c cs = none := math?_eq_none_of_ne dollar slash
  cases target with
  | html =>
    by_cases less : c = '<'
    · subst less
      rfl
    by_cases greater : c = '>'
    · subst greater
      rfl
    have ampersand : c ≠ '&' := by rintro rfl; exact symbol (by decide)
    have start : c ∉ rowChars .html := by simp [rowChars, slash, tie, less, greater]
    rw [action_char percent start math apart, showIn, showChar, if_neg ampersand, if_neg less,
      if_neg greater]
  | quarto =>
    have hash : c ≠ '#' := by rintro rfl; exact symbol (by decide)
    have start : c ∉ rowChars .quarto := by simp [rowChars, slash, tie]
    rw [action_char percent start math apart, showIn, if_neg slash, if_neg (not_or.mpr ⟨hash, dollar⟩)]

theorem head?_escape {d : Char} (first : d ∈ (escape cs).head?) : d = '\\' ∨ d ∈ cs.head? := by
  cases cs with
  | nil => cases first
  | cons c cs =>
    rw [escape_cons, escapeChar] at first
    split at first
    · exact .inl (Option.some.inj first).symm
    split at first
    · exact .inl (Option.some.inj first).symm
    · exact .inr first

/-- Escaped text is shown. -/
theorem convert_escape (target : Target) (tie : '~' ∉ cs)
    (apart : cs.IsChain fun a b => a = b → a ∉ ligatureChars) :
    convert target (escape cs) = .ok (cs.flatMap (showIn target)) := by
  induction cs with
  | nil => rw [escape, List.flatMap_nil, convert]; rfl
  | cons c cs ih =>
    obtain ⟨solid, tie⟩ := not_or.mp (mt List.mem_cons.mpr tie)
    obtain ⟨starts, apart⟩ := List.isChain_cons.mp apart
    have behind := ih tie apart
    by_cases slash : c = '\\'
    · subst slash
      have split : escape ('\\' :: cs) =
          '\\' :: ("textbackslash\x7b\x7d".toList ++ escape cs) := rfl
      have skipped : ("textbackslash\x7b\x7d".toList ++ escape cs).drop 15 = escape cs :=
        List.drop_left' (by decide)
      rw [split, convert, action_slash]
      simp only [skipped, behind]
      rfl
    by_cases symbol : c ∈ symbols
    · rw [escape_cons, escapeChar_symbol symbol, List.cons_append, convert, List.cons_append,
        action_symbol target symbol]
      simp only [List.nil_append, List.drop_succ_cons, List.drop_zero, behind]
      rfl
    · have next : c ∈ (escape cs).head? → c ∉ ligatureChars := by
        intro first
        rcases head?_escape first with eq | same
        · exact absurd eq slash
        · exact starts c same rfl
      rw [escape_cons, escapeChar_ordinary slash symbol, List.singleton_append, convert,
        action_unescaped target slash symbol (Ne.symm solid) next]
      simp only [List.drop_zero, behind]
      rfl

/-- A text is shown when it is escaped and normalized, on pages of HTML with entities and on pages
of Quarto with backslashes, if none of its characters are read together. -/
theorem normalize_escape (target : Target) {text : String} (tie : '~' ∉ text.toList)
    (single : ∀ c ∈ ligatureChars, ¬ [c, c] <:+: text.toList) :
    normalize target (.ofList (escape text.toList)) =
      .ok (.ofList (text.toList.flatMap (showIn target))) := by
  have apart : text.toList.IsChain fun a b => a = b → a ∉ ligatureChars := by
    refine List.isChain_iff_forall_rel_of_append_cons_cons.mpr ?_
    rintro a _ front back split rfl ligature
    exact single a ligature ⟨front, back, by rw [split]; simp⟩
  rw [normalize, String.toList_ofList, convert_escape target tie apart]
  rfl

theorem normalize_escape_of_reserved :
    let text := "\\x & <c> #1 \x7b$5\x7d 50% a-b_c^'d'\\"
    '~' ∉ text.toList ∧ (∀ c ∈ ligatureChars, ¬ [c, c] <:+: text.toList) ∧
      normalize .html (.ofList (escape text.toList)) =
        .ok "\\x &amp; &lt;c&gt; #1 \x7b$5\x7d 50% a-b_c^'d'\\" ∧
      normalize .quarto (.ofList (escape text.toList)) =
        .ok "\\\\x & <c> \\#1 \x7b\\$5\x7d 50% a-b_c^'d'\\\\" := by
  intro text
  have tie : '~' ∉ text.toList := by decide +kernel
  have single : ∀ c ∈ ligatureChars, ¬ [c, c] <:+: text.toList := by decide +kernel
  refine ⟨tie, single, (normalize_escape .html tie single).trans ?_,
    (normalize_escape .quarto tie single).trans ?_⟩ <;> decide +kernel

theorem unspanned_escape (cs : List Char) : Verbs.Unspanned (escape cs) := by
  induction cs with
  | nil => exact .of_forall nofun
  | cons c cs ih =>
    rw [escape_cons]
    refine Verbs.Unspanned.append ?_ ih
    by_cases slash : c = '\\'
    · subst slash
      decide
    by_cases symbol : c ∈ symbols
    · rw [escapeChar_symbol symbol]
      have other : c ≠ 'v' := by rintro rfl; exact absurd symbol (by decide)
      exact ⟨by simpa using other, by simpa using slash⟩
    · rw [escapeChar_ordinary slash symbol]
      exact .of_forall (by simpa using slash)

theorem prefix_of_escape {front : List Char} (bare : '\\' ∉ front)
    (starts : front <+: escape cs) : front <+: cs := by
  induction front generalizing cs with
  | nil => exact List.nil_prefix
  | cons a front ih =>
    obtain ⟨slash, bare⟩ := not_or.mp (mt List.mem_cons.mpr bare)
    cases cs with
    | nil => exact starts
    | cons c cs =>
      rw [escape_cons, escapeChar] at starts
      split at starts
      · exact absurd (List.cons_prefix_cons.mp starts).1.symm slash
      split at starts
      · exact absurd (List.cons_prefix_cons.mp starts).1.symm slash
      · obtain ⟨rfl, behind⟩ := List.cons_prefix_cons.mp starts
        exact List.cons_prefix_cons.mpr ⟨rfl, ih bare behind⟩

/-- Escaping adds no lines. -/
theorem infix_of_escape {front : List Char} (bare : '\\' ∉ front)
    (inside : '\n' :: front <:+: escape cs) : '\n' :: front <:+: cs := by
  induction cs with
  | nil => exact inside
  | cons c cs ih =>
    by_cases feed : c = '\n'
    · subst feed
      have split : '\n' :: front <:+: '\n' :: escape cs := inside
      obtain starts | later := List.infix_cons_iff.mp split
      · have starts' : '\n' :: front <+: escape ('\n' :: cs) := starts
        exact (prefix_of_escape (by simp [bare]) starts').isInfix
      · exact List.infix_cons (ih later)
    · have plain : '\n' ∉ escapeChar c := by
        rw [escapeChar]
        split
        · decide
        split <;> simp [Ne.symm feed]
      rw [escape_cons] at inside
      exact List.infix_cons (ih (Verbs.infix_of_append plain inside))

/-- What a character is shown as starts and ends with no white space when the character is none. -/
theorem showChar_solid (solid : Text.isBlank c = false) :
    (∃ d ds, showChar c = d :: ds ∧ Text.isBlank d = false) ∧
      ∃ d ds, showChar c = ds ++ [d] ∧ Text.isBlank d = false := by
  unfold showChar
  split
  · exact ⟨⟨_, _, rfl, by decide⟩, ⟨';', "&amp".toList, rfl, by decide⟩⟩
  split
  · exact ⟨⟨_, _, rfl, by decide⟩, ⟨';', "&lt".toList, rfl, by decide⟩⟩
  split
  · exact ⟨⟨_, _, rfl, by decide⟩, ⟨';', "&gt".toList, rfl, by decide⟩⟩
  · exact ⟨⟨c, [], rfl, solid⟩, ⟨c, [], rfl, solid⟩⟩

end Quire.Prose
