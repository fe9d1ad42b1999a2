import Quire.Proofs.Prose.Escaped
import Quire.Proofs.Text.Cut

/-! Normalizing for HTML what was normalized for it. Where a text is put together from characters
that pass alone, and from escapes and ligatures for which inert text is written, its outcome is
normalized to itself exactly when it has settled. It has unless escapes vanished between two
characters that make another one, or dollar signs stood next to each other. Main statement:
`normalize_again_iff`. -/
namespace Quire.Prose

def triggerChars : List Char := "\\%$~<>-\x60'".toList

/-- Text in which nothing to be replaced starts. -/
def Inert (cs : List Char) : Prop := ∀ c ∈ cs, c ∉ triggerChars

instance (cs : List Char) : Decidable (Inert cs) :=
  inferInstanceAs (Decidable (∀ c ∈ cs, c ∉ triggerChars))

example : ((table .html).filter (Inert ·.2.toList)).map (·.1) =
    ["\\ldots\x7b\x7d", "\\ldots", "\\\x7b", "\\\x7d", "\\&", "\\#", "\\_", "\\^", "\\ ", "\\,",
      "\\-", "\\@", "\\/", "---", "--", "``", "''", "~", "<", ">"] := by decide

/-- A character that passes alone, or an escape or ligature for which inert text is written. -/
def IsPiece (piece : String) : Prop :=
  (piece.length = 1 ∧ normalize .html piece = .ok piece) ∨
    ∃ row ∈ table .html, row.1 = piece ∧ Inert row.2.toList

instance (piece : String) : Decidable (IsPiece piece) :=
  inferInstanceAs (Decidable (_ ∨ _))

/-- A dollar sign in front of a text begins math: two of them up to the next two, one of them up to
the next one. -/
def BeginsMath (rest : List Char) : Prop :=
  if rest.head? = some '$' then ['$', '$'] <:+: rest.tail else '$' ∈ rest

theorem BeginsMath.mem {rest : List Char} (begins : BeginsMath rest) : '$' ∈ rest := by
  unfold BeginsMath at begins
  split at begins
  next double => exact List.mem_of_mem_head? double
  next => exact begins

/-- Text in which, outside of math in parentheses, there is no backslash, no character makes another
one with the next, and no dollar sign begins math. -/
inductive Settled : List Char → Prop
  | nil : Settled []
  | math {body tex rest : List Char}
      (closed : Text.splitOnce? ['\\', ')'] body = some (tex, rest)) (behind : Settled rest) :
      Settled ('\\' :: '(' :: body)
  | char {c : Char} {rest : List Char} (slash : c ≠ '\\')
      (single : c ∈ rest.head? → c ∉ ligatureChars) (unpaired : c = '$' → ¬ BeginsMath rest)
      (behind : Settled rest) : Settled (c :: rest)

def vanishingChars : List Char := "-@/".toList

/-- The text behind the escapes at its front for which nothing is written. -/
def dropGap : List Char → List Char
  | '\\' :: d :: cs => if d ∈ vanishingChars then dropGap cs else '\\' :: d :: cs
  | cs => cs

/-- No dollar sign stands directly behind another one, and no escapes that vanish stand between two
characters that make another one. -/
def Apart : List Char → Prop
  | [] => True
  | c :: cs => (c = '$' → cs.head? ≠ some '$') ∧
      (c ∈ ligatureChars → c ∈ (dropGap cs).head? → c ∈ cs.head?) ∧ Apart cs

instance decidableApart : (cs : List Char) → Decidable (Apart cs)
  | [] => inferInstanceAs (Decidable True)
  | _ :: cs => @instDecidableAnd _ _ _ (@instDecidableAnd _ _ _ (decidableApart cs))

theorem dropGap_cons {c : Char} (slash : c ≠ '\\') (cs : List Char) :
    dropGap (c :: cs) = c :: cs := by
  unfold dropGap
  split
  next same => exact absurd (List.cons.inj same).1 slash
  next => rfl

theorem Apart.of_suffix {cs ds : List Char} (apart : Apart ds) (behind : cs <:+ ds) : Apart cs := by
  obtain ⟨front, rfl⟩ := behind
  induction front with
  | nil => exact apart
  | cons c front ih => exact ih apart.2.2

/-! The text that is read. -/

def inertSymbols : List Char := "\x7b\x7d&#_^ ,-@/".toList

/-- Text with no other escapes than inert ones, and without comments. -/
inductive Clean : List Char → Prop
  | nil : Clean []
  | char {c : Char} {cs : List Char} (slash : c ≠ '\\') (percent : c ≠ '%') (rest : Clean cs) :
      Clean (c :: cs)
  | escape {d : Char} {cs : List Char} (symbol : d ∈ inertSymbols) (rest : Clean cs) :
      Clean ('\\' :: d :: cs)
  | dots {cs : List Char} (rest : Clean cs) : Clean ('\\' :: 'l' :: 'd' :: 'o' :: 't' :: 's' :: cs)

namespace Clean

variable {c : Char} {cs ds : List Char}

theorem tail (clean : Clean (c :: cs)) (slash : c ≠ '\\') : Clean cs := by
  cases clean with
  | char _ _ rest => exact rest
  | escape | dots => exact absurd rfl slash

theorem append (first : Clean cs) (second : Clean ds) : Clean (cs ++ ds) := by
  induction first with
  | nil => exact second
  | char slash percent _ ih => exact .char slash percent ih
  | escape symbol _ ih => exact .escape symbol ih
  | dots _ ih => exact .dots ih

theorem of_plain (plain : ∀ c ∈ cs, c ≠ '\\' ∧ c ≠ '%') : Clean cs := by
  induction cs with
  | nil => exact .nil
  | cons c cs ih =>
    obtain ⟨⟨slash, percent⟩, rest⟩ := List.forall_mem_cons.mp plain
    exact .char slash percent (ih rest)

theorem of_append (clean : Clean (cs ++ ds)) (solid : '\\' ∉ cs) : Clean ds := by
  induction cs with
  | nil => exact clean
  | cons c cs ih =>
    obtain ⟨slash, solid⟩ := not_or.mp (mt List.mem_cons.mpr solid)
    exact ih (clean.tail (Ne.symm slash)) solid

/-- No escape holds a dollar sign, so that one cuts clean text into clean texts. -/
theorem split {front behind : List Char} (clean : Clean (front ++ '$' :: behind)) :
    Clean front ∧ Clean behind := by
  generalize eq : front ++ '$' :: behind = cs at clean
  induction clean generalizing front with
  | nil => simp at eq
  | @char c cs slash percent rest ih =>
    cases front with
    | nil =>
      obtain ⟨rfl, rfl⟩ := List.cons.inj eq
      exact ⟨.nil, rest⟩
    | cons d front =>
      obtain ⟨rfl, later⟩ := List.cons.inj eq
      exact (ih later).imp_left (.char slash percent)
  | @escape d cs symbol rest ih =>
    have other : '$' ≠ d := by rintro rfl; exact absurd symbol (by decide)
    have absent : '$' ∉ ['\\', d] := by simp [other]
    obtain ⟨more, rfl, later⟩ := Text.behind_word absent eq.symm
    exact (ih later.symm).imp_left (.escape symbol)
  | @dots cs rest ih =>
    have absent : '$' ∉ "\\ldots".toList := by decide
    obtain ⟨more, rfl, later⟩ := Text.behind_word absent eq.symm
    exact (ih later.symm).imp_left .dots

theorem not_close (clean : Clean cs) : ¬ ['\\', ')'] <:+: cs := by
  induction clean with
  | nil => simp
  | char slash _ _ ih =>
    intro inside
    obtain starts | later := List.infix_cons_iff.mp inside
    · exact slash (List.cons_prefix_cons.mp starts).1.symm
    · exact ih later
  | @escape d cs symbol _ ih =>
    intro inside
    have close : ')' ≠ d := by rintro rfl; exact absurd symbol (by decide)
    have slash : '\\' ∉ [d] := by
      have other : '\\' ≠ d := by rintro rfl; exact absurd symbol (by decide)
      simpa using other
    obtain starts | later := List.infix_cons_iff.mp inside
    · exact close (List.cons_prefix_cons.mp (List.cons_prefix_cons.mp starts).2).1
    · exact ih (Verbs.infix_of_append slash later)
  | @dots cs _ ih =>
    intro inside
    have slash : '\\' ∉ "ldots".toList := by decide
    obtain starts | later := List.infix_cons_iff.mp inside
    · exact absurd (List.cons_prefix_cons.mp (List.cons_prefix_cons.mp starts).2).1 (by decide)
    · exact ih (Verbs.infix_of_append slash later)

/-- In parentheses, clean text is math up to its end. -/
theorem before?_close (clean : Clean cs) (rest : List Char) :
    Text.before? ['\\', ')'] (cs ++ ['\\', ')'] ++ rest) = some cs :=
  (Text.before?_append_iff (by simp)).mpr (Text.before?_append_self (by decide) clean.not_close)

theorem settled_math_iff (clean : Clean cs) {rest : List Char} :
    Settled (inlineMath .html cs ++ rest) ↔ Settled rest := by
  have closed : Text.splitOnce? ['\\', ')'] (cs ++ ['\\', ')'] ++ rest) = some (cs, rest) := by
    rw [Text.splitOnce?, clean.before?_close rest, Option.map_some, List.drop_left' (by simp)]
  refine ⟨fun settled => ?_, .math closed⟩
  generalize whole : inlineMath .html cs ++ rest = out at settled
  cases settled with
  | nil => cases whole
  | math closed' behind =>
    obtain rfl := (List.cons.inj (List.cons.inj whole).2).2
    have same : (cs, rest) = _ := Option.some.inj (closed.symm.trans closed')
    cases same
    exact behind
  | char slash => exact absurd (List.cons.inj whole).1.symm slash

theorem convert_math (clean : Clean cs) (rest : List Char) :
    convert .html (inlineMath .html cs ++ rest) =
      (inlineMath .html cs ++ ·) <$> convert .html rest := by
  have math : math? .html '\\' ('(' :: (cs ++ ['\\', ')'] ++ rest)) =
      some (inlineMath .html cs, cs.length + 3) :=
    congrArg (Option.map _) (clean.before?_close rest)
  have skipped : ('(' :: (cs ++ ['\\', ')'] ++ rest)).drop (cs.length + 3) = rest := by
    simp [List.drop_append]
  have step := convert_put (action_math (by decide) math)
  rw [skipped] at step
  exact step

end Clean

/-- How the rows are written for which inert text is written. -/
theorem inert_rows : ∀ row ∈ table .html, Inert row.2.toList →
    (∀ c ∈ row.1.toList, c ≠ '\\' ∧ c ≠ '%') ∨ (∃ d ∈ inertSymbols, row.1.toList = ['\\', d]) ∨
      row.1.toList = "\\ldots".toList ++ row.1.toList.drop 6 ∧
        ∀ c ∈ row.1.toList.drop 6, c ≠ '\\' ∧ c ≠ '%' := by decide

theorem IsPiece.clean {piece : String} (fits : IsPiece piece) : Clean piece.toList := by
  rcases fits with ⟨single, passes⟩ | ⟨row, listed, rfl, inert⟩
  · obtain ⟨c, written⟩ := List.length_eq_one_iff.mp ((String.length_toList).trans single)
    obtain rfl : piece = .ofList [c] := by rw [← written, String.ofList_toList]
    have slash : c ≠ '\\' := by
      rintro rfl
      exact absurd passes (by decide +kernel)
    have percent : c ≠ '%' := by
      rintro rfl
      exact absurd passes (by decide +kernel)
    rw [written]
    exact .char slash percent .nil
  · obtain plain | ⟨d, symbol, written⟩ | ⟨written, plain⟩ := inert_rows row listed inert
    · exact .of_plain plain
    · rw [written]
      exact .escape symbol .nil
    · rw [written]
      exact .dots (.of_plain plain)

theorem clean_join {pieces : List String} (fit : ∀ piece ∈ pieces, IsPiece piece) :
    Clean (String.join pieces).toList := by
  rw [String.toList_join]
  induction pieces with
  | nil => exact .nil
  | cons piece pieces ih =>
    obtain ⟨first, fit⟩ := List.forall_mem_cons.mp fit
    rw [List.flatMap_cons]
    exact first.clean.append (ih fit)

namespace Clean

variable {cs rest : List Char} {row : String × String}

theorem behind_row (listed : row ∈ table .html) (inert : Inert row.2.toList)
    (clean : Clean (row.1.toList ++ rest)) : Clean rest := by
  obtain plain | ⟨d, symbol, written⟩ | ⟨written, plain⟩ := inert_rows _ listed inert
  · exact clean.of_append fun member => (plain _ member).1 rfl
  · rw [written] at clean
    cases clean with
    | char slash => exact absurd rfl slash
    | escape _ behind => exact behind
    | dots => exact absurd symbol (by decide)
  · rw [written, List.append_assoc] at clean
    have clean : Clean ('\\' :: 'l' :: ("dots".toList ++ (row.1.toList.drop 6 ++ rest))) := clean
    cases clean with
    | char slash => exact absurd rfl slash
    | escape symbol => exact absurd symbol (by decide)
    | dots behind =>
      have behind : Clean (row.1.toList.drop 6 ++ rest) := behind
      exact behind.of_append fun member => (plain _ member).1 rfl

/-- The escapes of clean text are listed. -/
theorem starts_row (clean : Clean ('\\' :: cs)) : ∃ d ∈ 'l' :: inertSymbols,
    d ∈ cs.head? ∧ ∃ row ∈ table .html, row.1.toList <+: '\\' :: cs := by
  cases clean with
  | char slash => exact absurd rfl slash
  | @escape d cs symbol _ =>
    have rows : ∀ d ∈ inertSymbols, ∃ row ∈ table .html, row.1.toList = ['\\', d] := by decide
    obtain ⟨row, listed, written⟩ := rows d symbol
    exact ⟨d, List.mem_cons_of_mem _ symbol, rfl, row, listed, cs, by rw [written]; rfl⟩
  | @dots cs _ =>
    have listed : ("\\ldots", "&hellip;") ∈ table .html := by decide
    exact ⟨'l', List.mem_cons_self, rfl, _, listed, cs, rfl⟩

end Clean

/-! One step. -/

/-- What is written for the front of a text, with the text behind it. -/
inductive Turn : List Char → List Char → List Char → Prop
  | entry {row : String × String} {cs rest : List Char} (listed : row ∈ table .html)
      (inert : Inert row.2.toList) (front : cs = row.1.toList ++ rest) : Turn cs row.2.toList rest
  | pass {c : Char} {rest : List Char} (start : c ∉ rowChars .html) (percent : c ≠ '%')
      (single : c ∈ rest.head? → c ∉ ligatureChars) (unpaired : c = '$' → ¬ BeginsMath rest) :
      Turn (c :: rest) [c] rest
  | inline {tex rest : List Char} : Turn ('$' :: (tex ++ '$' :: rest)) (inlineMath .html tex) rest
  | display {tex rest : List Char} :
      Turn ('$' :: '$' :: (tex ++ '$' :: '$' :: rest)) (displayMath .html tex) rest

section Steps
variable {target : Target} {c : Char} {cs text : List Char} {used : Nat}

theorem math?_dollar_eq_none_iff : math? target '$' cs = none ↔ ¬ BeginsMath cs := by
  by_cases double : cs.head? = some '$'
  · obtain ⟨rest, rfl⟩ := List.head?_eq_some_iff.mp double
    rw [BeginsMath, if_pos double]
    exact Option.map_eq_none_iff.trans Text.before?_eq_none_iff
  · rw [math?_single double, BeginsMath, if_neg double, Option.map_eq_none_iff,
      Text.before?_singleton_eq_none_iff]

theorem Turn.of_dollar (math : math? .html '$' cs = some (text, used)) :
    Turn ('$' :: cs) text (cs.drop used) := by
  by_cases double : cs.head? = some '$'
  · obtain ⟨rest, rfl⟩ := List.head?_eq_some_iff.mp double
    obtain ⟨tex, found, same⟩ := Option.map_eq_some_iff.mp math
    cases same
    obtain ⟨behind, rfl⟩ := Text.prefix_of_before? found
    have skipped : ('$' :: (tex ++ ['$', '$'] ++ behind)).drop (tex.length + 3) = behind := by
      simp [List.drop_append]
    rw [skipped, List.append_assoc]
    exact .display
  · rw [math?_single double] at math
    obtain ⟨tex, found, same⟩ := Option.map_eq_some_iff.mp math
    cases same
    obtain ⟨behind, rfl⟩ := Text.prefix_of_before? found
    rw [List.drop_left' (by simp), List.append_assoc]
    exact .inline

theorem Turn.of_missing (slash : c ≠ '\\') (percent : c ≠ '%')
    (math : math? .html c cs = none) (missing : entry? .html c cs = none) :
    Turn (c :: cs) [c] cs := by
  have alone : ∀ c ∈ ['~', '<', '>'], ∃ row ∈ table .html, row.1.toList = [c] := by decide
  have pairs : ∀ c ∈ ligatureChars, ∃ row ∈ table .html, row.1.toList = [c, c] := by decide
  refine .pass (fun start => ?_) percent (fun next ligature => ?_) fun dollar => ?_
  · have one : c ∈ ['~', '<', '>'] := (List.mem_cons.mp start).resolve_left slash
    obtain ⟨row, listed, written⟩ := alone c one
    exact entry?_ne_none listed (by simp [written]) missing
  · obtain ⟨row, listed, written⟩ := pairs c ligature
    obtain ⟨rest, rfl⟩ := List.head?_eq_some_iff.mp next
    exact entry?_ne_none listed (by simp [written]) missing
  · subst dollar
    exact math?_dollar_eq_none_iff.mp math

/-- The other rows are escapes. -/
theorem inert_or_escape : ∀ row ∈ table .html,
    Inert row.2.toList ∨ ∃ d ∈ "t\\%$~".toList, ['\\', d] <+: row.1.toList := by decide

/-- Each character but a backslash has its turn. -/
theorem turn_char (slash : c ≠ '\\') (percent : c ≠ '%') (cs : List Char) : ∃ text rest,
    convert .html (c :: cs) = (text ++ ·) <$> convert .html rest ∧ Turn (c :: cs) text rest := by
  cases math : math? .html c cs with
  | some found =>
    obtain ⟨text, used⟩ := found
    have dollar : c = '$' := by
      by_contra dollar
      rw [math?_eq_none_of_ne dollar slash] at math
      cases math
    subst dollar
    exact ⟨text, _, convert_put (action_math percent math), .of_dollar math⟩
  | none =>
    cases fits : entry? .html c cs with
    | some found =>
      obtain ⟨text, used⟩ := found
      have acts := action_entry percent math (absurd · slash) fits
      obtain ⟨row, listed, rfl, front⟩ := row_of_entry fits
      obtain inert | ⟨d, -, starts⟩ := inert_or_escape row listed
      · exact ⟨_, _, convert_put acts, .entry listed inert front⟩
      · have starts := starts.trans ⟨_, front.symm⟩
        exact absurd (List.cons_prefix_cons.mp starts).1.symm slash
    | none => exact ⟨_, _, convert_put (action_missing percent slash math fits),
        .of_missing slash percent math fits⟩

/-- In clean text, an inert row stands where a backslash does. -/
theorem turn_slash (clean : Clean ('\\' :: cs)) : ∃ text rest,
    convert .html ('\\' :: cs) = (text ++ ·) <$> convert .html rest ∧
      Turn ('\\' :: cs) text rest := by
  obtain ⟨d, known, next, row, listed, starts⟩ := clean.starts_row
  obtain ⟨rest, rfl⟩ := List.head?_eq_some_iff.mp next
  have marks : ∀ row ∈ Accent.table, row.1 ∉ 'l' :: inertSymbols := by decide
  have bare := decode?_eq_none (fun row member same => marks row member (same ▸ known)) rest
  have unopened : (d :: rest).head? ≠ some '(' := by
    rintro ⟨⟩
    exact absurd known (by decide)
  have math : math? .html '\\' (d :: rest) = none := math?_slash unopened
  obtain ⟨⟨text, used⟩, fits⟩ := Option.ne_none_iff_exists'.mp ( entry?_ne_none listed starts)
  have acts := action_entry (by decide) math (fun _ => bare) fits
  obtain ⟨row, listed, rfl, front⟩ := row_of_entry fits
  obtain inert | ⟨e, other, starts⟩ := inert_or_escape row listed
  · exact ⟨_, _, convert_put acts, .entry listed inert front⟩
  · have starts := starts.trans ⟨_, front.symm⟩
    obtain ⟨rfl, -⟩ := List.cons_prefix_cons.mp (List.cons_prefix_cons.mp starts).2
    have apart : ∀ e ∈ "t\\%$~".toList, e ∉ 'l' :: inertSymbols := by decide
    exact absurd known (apart e other)

end Steps

/-! The first pass. -/

/-- What is written for clean text. What stands behind math in brackets does not matter, since such
math is not read again. -/
inductive Written : List Char → Prop
  | nil : Written []
  | char {c : Char} {rest : List Char} (start : c ∉ rowChars .html) (percent : c ≠ '%')
      (behind : Written rest) : Written (c :: rest)
  | inline {tex rest : List Char} (clean : Clean tex) (behind : Written rest) :
      Written (inlineMath .html tex ++ rest)
  | display (rest : List Char) : Written ('\\' :: '[' :: rest)

theorem rowChars_subset : rowChars .html ⊆ triggerChars ∧ '%' ∈ triggerChars ∧
    '$' ∈ triggerChars ∧ ligatureChars ⊆ triggerChars := by decide

namespace Inert

variable {text out : List Char}

theorem written (inert : Inert text) (behind : Written out) : Written (text ++ out) := by
  induction text with
  | nil => exact behind
  | cons c text ih =>
    obtain ⟨first, inert⟩ := List.forall_mem_cons.mp inert
    obtain ⟨starts, percent, -, -⟩ := rowChars_subset
    exact .char (mt (@starts c) first) (ne_of_mem_of_not_mem percent first).symm (ih inert)

theorem settled (inert : Inert text) (behind : Settled out) : Settled (text ++ out) := by
  induction text with
  | nil => exact behind
  | cons c text ih =>
    obtain ⟨first, inert⟩ := List.forall_mem_cons.mp inert
    obtain ⟨starts, -, dollar, ligatures⟩ := rowChars_subset
    have slash : c ≠ '\\' := by
      rintro rfl
      exact first (by decide)
    exact .char slash (fun _ ligature => first (ligatures ligature))
      (fun same => absurd same.symm (ne_of_mem_of_not_mem dollar first)) (ih inert)

end Inert

/-- What the first pass makes of a text, and what the second pass needs to know of it: dollar signs
are not made, and a character that makes another one with a second is not moved far. -/
structure Rewrites (cs out : List Char) : Prop where
  converted : convert .html cs = .ok out
  written : Written out
  dollars : '$' ∈ out → '$' ∈ cs
  first : ∀ a ∈ ligatureChars, a ∈ out.head? → a ∈ (dropGap cs).head?
  settled : Apart cs → Settled out

/-- Only for the escapes that vanish is nothing written. -/
theorem vanishes_of_nil : ∀ row ∈ table .html, row.2.toList = [] →
    ∃ d ∈ vanishingChars, row.1.toList = ['\\', d] := by decide

namespace Turn

variable {cs text rest out : List Char}

theorem length_lt (turn : Turn cs text rest) : rest.length < cs.length := by
  cases turn with
  | entry listed _ front =>
    obtain ⟨a, as, written, -⟩ := starts_table .html _ listed
    rw [front, written, List.length_append, List.length_cons]
    omega
  | pass => exact Nat.lt_succ_self _
  | inline | display =>
    simp only [List.length_cons, List.length_append]
    omega

theorem suffix (turn : Turn cs text rest) : rest <:+ cs := by
  cases turn with
  | @entry row _ _ _ _ front => exact ⟨row.1.toList, front.symm⟩
  | @pass c => exact List.suffix_cons c rest
  | @inline tex => exact ⟨'$' :: tex ++ ['$'], by simp⟩
  | @display tex => exact ⟨'$' :: '$' :: tex ++ ['$', '$'], by simp⟩

theorem clean (turn : Turn cs text rest) (clean : Clean cs) : Clean rest := by
  cases turn with
  | entry listed inert front =>
    rw [front] at clean
    exact clean.behind_row listed inert
  | pass start => exact clean.tail (ne_slash start)
  | inline => exact (clean.tail (by decide)).split.2
  | display =>
    have inside := (clean.tail (by decide)).tail (by decide)
    exact inside.split.2.tail (by decide)

theorem written (turn : Turn cs text rest) (clean : Clean cs) (behind : Written out) :
    Written (text ++ out) := by
  cases turn with
  | entry _ inert => exact inert.written behind
  | pass start percent => exact .char start percent behind
  | inline => exact .inline (clean.tail (by decide)).split.1 behind
  | display => exact .display _

theorem dollars (turn : Turn cs text rest) (behind : '$' ∈ out → '$' ∈ rest)
    (member : '$' ∈ text ++ out) : '$' ∈ cs := by
  cases turn with
  | entry _ inert front =>
    obtain ⟨-, -, dollar, -⟩ := rowChars_subset
    have later := (List.mem_append.mp member).resolve_left fun inside => inert _ inside dollar
    rw [front]
    exact List.mem_append_right _ (behind later)
  | pass =>
    rcases List.mem_cons.mp member with rfl | later
    · exact List.mem_cons_self
    · exact List.mem_cons_of_mem _ (behind later)
  | inline | display => exact List.mem_cons_self

theorem first (turn : Turn cs text rest) {a : Char} (ligature : a ∈ ligatureChars)
    (behind : a ∈ out.head? → a ∈ (dropGap rest).head?) (starts : a ∈ (text ++ out).head?) :
    a ∈ (dropGap cs).head? := by
  cases turn with
  | @entry row _ _ listed inert front =>
    cases text : row.2.toList with
    | nil =>
      obtain ⟨d, vanishing, written⟩ := vanishes_of_nil row listed text
      rw [text] at starts
      rw [front, written, List.cons_append, List.singleton_append, dropGap, if_pos vanishing]
      exact behind starts
    | cons b bs =>
      rw [text] at starts inert
      obtain rfl : b = a := Option.some.inj starts
      obtain ⟨-, -, -, ligatures⟩ := rowChars_subset
      exact absurd (ligatures ligature) (inert b List.mem_cons_self)
  | pass start =>
    rw [dropGap_cons (ne_slash start)]
    exact starts
  | inline | display =>
    obtain rfl : '\\' = a := Option.some.inj starts
    exact absurd ligature (by decide)

theorem settled (turn : Turn cs text rest) (clean : Clean cs) (apart : Apart cs)
    (behind : Rewrites rest out) : Settled (text ++ out) := by
  have later := behind.settled (apart.of_suffix turn.suffix)
  cases turn with
  | entry _ inert => exact inert.settled later
  | @pass c _ start percent single unpaired =>
    refine .char (ne_slash start) (fun next ligature => ?_) ?_ later
    · exact single (apart.2.1 ligature (behind.first c ligature next)) ligature
    · rintro rfl begins
      -- With no other one next to it, a dollar sign begins no math only if no other one follows.
      have absent : '$' ∉ rest := by
        have alone := unpaired rfl
        rwa [BeginsMath, if_neg (apart.1 rfl)] at alone
      exact absent (behind.dollars begins.mem)
  | inline => exact (clean.tail (by decide)).split.1.settled_math_iff.mpr later
  | display => exact absurd rfl (apart.1 rfl)

end Turn

/-- A turn leaves a shorter clean text, and what is known of its outcome carries over. -/
theorem rewrites {cs : List Char} (clean : Clean cs) : ∃ out, Rewrites cs out := by
  induction size : cs.length using Nat.strong_induction_on generalizing cs with
  | _ n ih =>
    cases cs with
    | nil =>
      refine ⟨[], by rw [convert], .nil, id, fun a _ first => ?_, fun _ => .nil⟩
      cases first
    | cons c cs =>
      obtain ⟨text, rest, step, turn⟩ : ∃ text rest,
          convert .html (c :: cs) = (text ++ ·) <$> convert .html rest ∧
            Turn (c :: cs) text rest := by
        by_cases slash : c = '\\'
        · subst slash
          exact turn_slash clean
        · have percent : c ≠ '%' := by
            cases clean with
            | char _ percent => exact percent
            | escape | dots => decide
          exact turn_char slash percent cs
      obtain ⟨out, behind⟩ := ih _ (size ▸ turn.length_lt) (turn.clean clean) rfl
      exact ⟨text ++ out, by rw [step, behind.converted]; rfl, turn.written clean behind.written,
        turn.dollars behind.dollars, fun a ligature => turn.first ligature (behind.first a ligature),
        fun apart => turn.settled clean apart behind⟩

/-! The second pass. -/

theorem map_append_eq_ok_iff {result : Except RenderFault (List Char)} {text out : List Char} :
    (text ++ ·) <$> result = .ok (text ++ out) ↔ result = .ok out := by
  constructor
  · intro mapped
    obtain ⟨more, rfl, same⟩ := exists_of_map_ok mapped
    rw [List.append_cancel_left same]
  · rintro rfl
    rfl

section Again
variable {c : Char} {rest : List Char}

/-- What is written where a character has a turn of another kind does not start with it. -/
theorem Turn.passes {text behind out : List Char} (slash : c ≠ '\\')
    (turn : Turn (c :: rest) text behind) (same : text ++ out = c :: rest) :
    (c ∈ rest.head? → c ∉ ligatureChars) ∧ (c = '$' → ¬ BeginsMath rest) ∧
      behind = rest ∧ out = rest := by
  generalize whole : c :: rest = cs at turn same
  cases turn with
  | @entry row _ _ listed inert front =>
    obtain ⟨a, as, written, starts⟩ := starts_table .html row listed
    rw [← whole, written] at front
    obtain ⟨rfl, -⟩ := List.cons.inj front
    cases text : row.2.toList with
    | nil =>
      obtain ⟨d, -, vanishes⟩ := vanishes_of_nil row listed text
      exact absurd (List.cons.inj (written.symm.trans vanishes)).1 slash
    | cons b bs =>
      rw [text, ← whole] at same
      rw [text] at inert
      obtain rfl : b = c := (List.cons.inj same).1
      have trigger : b ∈ triggerChars := by
        obtain ⟨rows, -, -, ligatures⟩ := rowChars_subset
        exact starts.elim (@rows b) fun pair => ligatures pair.1
      exact absurd trigger (inert b List.mem_cons_self)
  | pass start percent single unpaired =>
    obtain ⟨rfl, rfl⟩ := List.cons.inj whole
    exact ⟨single, unpaired, rfl, (List.cons.inj same).2⟩
  | inline | display => exact absurd (List.cons.inj same).1 (by decide)

theorem convert_char_iff (start : c ∉ rowChars .html) (percent : c ≠ '%') :
    convert .html (c :: rest) = .ok (c :: rest) ↔ (c ∈ rest.head? → c ∉ ligatureChars) ∧
      (c = '$' → ¬ BeginsMath rest) ∧ convert .html rest = .ok rest := by
  have slash := ne_slash start
  constructor
  · intro fixed
    obtain ⟨text, behind, step, turn⟩ := turn_char slash percent rest
    rw [step] at fixed
    obtain ⟨out, converted, same⟩ := exists_of_map_ok fixed
    obtain ⟨single, unpaired, rfl, rfl⟩ := turn.passes slash same
    exact ⟨single, unpaired, converted⟩
  · rintro ⟨single, unpaired, fixed⟩
    have math : math? .html c rest = none := by
      by_cases dollar : c = '$'
      · subst dollar
        exact math?_dollar_eq_none_iff.mpr (unpaired rfl)
      · exact math?_eq_none_of_ne dollar slash
    rw [convert_put (action_char percent start math single), List.drop_zero]
    exact map_append_eq_ok_iff.mpr fixed

end Again

/-- Display math as it is written for pages of HTML is not read. -/
theorem action_bracket (rest : List Char) : action .html '\\' ('[' :: rest) = .stuck := by
  have math : math? .html '\\' ('[' :: rest) = none := math?_slash (by simp)
  have bare : Accent.decode? ('[' :: rest) = none := decode?_eq_none (by decide) rest
  unfold action
  rw [if_neg (by decide), math, if_pos rfl, bare]
  rfl

/-- The second pass leaves alone what has settled, and nothing else. -/
theorem Written.settled_iff {out : List Char} (written : Written out) :
    convert .html out = .ok out ↔ Settled out := by
  induction written with
  | nil => exact ⟨fun _ => .nil, fun _ => by rw [convert]⟩
  | char start percent _ ih =>
    have slash := ne_slash start
    rw [convert_char_iff start percent, ih]
    constructor
    · rintro ⟨single, unpaired, behind⟩
      exact .char slash single unpaired behind
    · intro settled
      cases settled with
      | math => exact absurd rfl slash
      | char _ single unpaired behind => exact ⟨single, unpaired, behind⟩
  | inline clean _ ih =>
    rw [clean.convert_math, map_append_eq_ok_iff, ih, clean.settled_math_iff]
  | display rest =>
    refine ⟨fun fixed => ?_, fun settled => ?_⟩
    · rw [convert, action_bracket] at fixed
      cases fixed
    · cases settled with
      | char slash => exact absurd rfl slash

/-- Text that was normalized can be normalized again with the same outcome exactly when it has
settled. It has if no dollar sign stood next to another one, and none of the escapes that vanish
stood between two characters that make another one. -/
theorem normalize_again_iff {pieces : List String} (fit : ∀ piece ∈ pieces, IsPiece piece) :
    ∃ y, normalize .html (.join pieces) = .ok y ∧
      (normalize .html y = .ok y ↔ Settled y.toList) ∧
      (Apart (String.join pieces).toList → Settled y.toList) := by
  obtain ⟨out, passed⟩ := rewrites (clean_join fit)
  refine ⟨.ofList out, ?_, ?_, ?_⟩
  · rw [normalize, passed.converted]
    rfl
  · rw [normalize, String.toList_ofList, ← passed.written.settled_iff]
    constructor
    · intro normalized
      obtain ⟨more, converted, same⟩ := exists_of_map_ok normalized
      rw [converted, String.ofList_injective same]
    · intro converted
      rw [converted]
      rfl
  · rw [String.toList_ofList]
    exact passed.settled

/-- Ligatures with plain dashes next to them, inert escapes, math, and a dollar sign alone. -/
theorem normalize_again_of_apart :
    let pieces := ["a", "--", "b", "-", "c", "\\\x7b", "``", "d", "''", "\\-", "-", "\\ldots", "x", "~",
      "<", "$", "y", "\\,", "z", "$", "'", "\\@", "\\/", "-", "5", "$"]
    let y := "a&ndash;b-c\x7b&ldquo;d&rdquo;-&hellip;x&nbsp;&lt;\\(y\\,z\\)'-5$"
    (∀ piece ∈ pieces, IsPiece piece) ∧ Apart (String.join pieces).toList ∧
      normalize .html (.join pieces) = .ok y ∧ normalize .html y = .ok y := by
  intro pieces y
  have fit : ∀ piece ∈ pieces, IsPiece piece := by decide +kernel
  have apart : Apart (String.join pieces).toList := by decide +kernel
  obtain ⟨out, first, again, settled⟩ := normalize_again_iff fit
  have same : normalize .html (.join pieces) = .ok y := by decide +kernel
  obtain rfl : y = out := Except.ok.inj (same.symm.trans first)
  exact ⟨fit, apart, same, again.mpr (settled apart)⟩

/-- The outcomes where an escape vanishes between two dashes, where display math is written, and
where a dollar sign that was passed is closed by one that was not. -/
theorem unsettled_of_neighbours :
    ((∀ piece ∈ ["-", "\\-", "-"], IsPiece piece) ∧
      normalize .html (.join ["-", "\\-", "-"]) = .ok "--" ∧ normalize .html "--" ≠ .ok "--") ∧
    ((∀ piece ∈ ["$", "$", "x", "$", "$"], IsPiece piece) ∧
      normalize .html (.join ["$", "$", "x", "$", "$"]) = .ok "\\[x\\]" ∧
      normalize .html "\\[x\\]" ≠ .ok "\\[x\\]") ∧
    (∀ piece ∈ ["$", "$", "x", "$", "y", "$"], IsPiece piece) ∧
      normalize .html (.join ["$", "$", "x", "$", "y", "$"]) = .ok "$\\(x\\)y$" ∧
      normalize .html "$\\(x\\)y$" ≠ .ok "$\\(x\\)y$" := by decide +kernel

end Quire.Prose
