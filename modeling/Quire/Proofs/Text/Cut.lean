import Mathlib.Data.List.Infix
import Quire.Text.Cut

/-! Cuts of a text at a pattern, and where they lie in it. -/
namespace Quire.Text

theorem take_of_prefix {front cs : List Char} (starts : front <+: cs) {n : Nat}
    (length : front.length = n) : cs.take n = front := by
  obtain ⟨rest, rfl⟩ := starts
  exact List.take_left' length

theorem take_takeWhile (p : Char → Bool) (cs : List Char) :
    cs.take (cs.takeWhile p).length = cs.takeWhile p :=
  take_of_prefix (List.takeWhile_prefix p) rfl

theorem takeWhile_append_stop {q : Char → Bool} {c : Char} (stop : q c = false)
    (cs tail : List Char) : (cs ++ c :: tail).takeWhile q = cs.takeWhile q := by
  induction cs with
  | nil => simp [stop]
  | cons d cs ih => simp [List.takeWhile_cons, ih]

theorem drop_takeWhile (p : Char → Bool) (cs : List Char) :
    cs.drop (cs.takeWhile p).length = cs.dropWhile p := by
  induction cs with
  | nil => rfl
  | cons c cs ih => by_cases fits : p c <;> simp [fits, ih]

/-- A character that a word does not hold stands behind it. -/
theorem behind_word {c : Char} {word rest front behind : List Char} (absent : c ∉ word)
    (eq : word ++ rest = front ++ c :: behind) :
    ∃ more, front = word ++ more ∧ rest = more ++ c :: behind := by
  obtain ⟨more, longer, later⟩ | ⟨more, shorter, later⟩ := List.append_eq_append_iff.mp eq
  · exact ⟨more, longer, later⟩
  · cases more with
    | nil => exact ⟨[], by simpa using shorter.symm, by simpa using later.symm⟩
    | cons d more =>
      obtain rfl := (List.cons.inj later).1
      exact absurd (by simp [shorter]) absent

/-- What starts neither a text nor what stands behind it does not start them together. -/
theorem head?_append_ne {d : Char} {cs tail rest : List Char} (first : cs.head? ≠ some d)
    (second : rest.head? ≠ some d) (shorter : tail <+: rest) : (cs ++ tail).head? ≠ some d := by
  intro next
  rw [List.head?_append, Option.or_eq_some_iff] at next
  obtain next | ⟨-, next⟩ := next
  · exact first next
  · obtain ⟨tail, rfl⟩ := List.head?_eq_some_iff.mp next
    obtain ⟨behind, rfl⟩ := shorter
    exact second rfl

/-- The text before a pattern and the pattern stand at the front. -/
theorem prefix_of_before? {p cs b : List Char} (found : before? p cs = some b) : b ++ p <+: cs := by
  induction cs generalizing b with
  | nil =>
    simp only [before?] at found
    split at found
    next none_ =>
      obtain rfl := Option.some.inj found
      obtain rfl := List.isEmpty_iff.mp none_
      exact List.prefix_rfl
    next => cases found
  | cons c cs ih =>
    simp only [before?] at found
    split at found
    next starts =>
      obtain rfl := Option.some.inj found
      exact List.isPrefixOf_iff_prefix.mp starts
    next =>
      obtain ⟨b, inner, rfl⟩ := Option.map_eq_some_iff.mp found
      exact List.cons_prefix_cons.mpr ⟨rfl, ih inner⟩

/-- Only what does not occur is not found. -/
theorem before?_eq_none_iff {p cs : List Char} : before? p cs = none ↔ ¬ p <:+: cs := by
  induction cs with
  | nil => simp [before?]
  | cons c cs ih =>
    rw [before?, List.infix_cons_iff, not_or, ← List.isPrefixOf_iff_prefix]
    split
    next starts => simp [starts]
    next misses => simp [misses, ih]

theorem before?_singleton_eq_none_iff {p : Char} {cs : List Char} :
    before? [p] cs = none ↔ p ∉ cs := by
  rw [before?_eq_none_iff, List.singleton_infix_iff]

/-- An occurrence that lies within a text does not depend on what stands behind the text. -/
theorem before?_append_iff {p cs tail b : List Char} (fits : b.length + p.length ≤ cs.length) :
    before? p (cs ++ tail) = some b ↔ before? p cs = some b := by
  induction cs generalizing b with
  | nil =>
    obtain ⟨rfl, rfl⟩ : b = [] ∧ p = [] := by
      constructor <;> apply List.eq_nil_of_length_eq_zero <;> simp only [List.length_nil] at fits <;>
        omega
    cases tail <;> simp [before?]
  | cons c cs ih =>
    have same : p.isPrefixOf (c :: (cs ++ tail)) = p.isPrefixOf (c :: cs) := by
      rw [Bool.eq_iff_iff, List.isPrefixOf_iff_prefix, List.isPrefixOf_iff_prefix, ← List.cons_append]
      refine ⟨fun starts => ?_, fun starts => starts.trans (List.prefix_append _ _)⟩
      exact List.prefix_of_prefix_length_le starts (List.prefix_append _ _) (by omega)
    rw [List.cons_append, before?, before?, same]
    split
    · rfl
    · simp only [Option.map_eq_some_iff]
      refine exists_congr fun b' => and_congr_left fun eq => ih ?_
      subst eq
      simp only [List.length_cons] at fits
      omega

/-- Where an occurrence ends in a text or is missing, the rest may be cut short behind the text. -/
theorem before?_cut {p cs tail rest : List Char}
    (near : ∀ b ∈ before? p (cs ++ rest), b.length + p.length ≤ cs.length)
    (shorter : tail <+: rest) : before? p (cs ++ tail) = before? p (cs ++ rest) := by
  cases found : before? p (cs ++ rest) with
  | none =>
    refine before?_eq_none_iff.mpr fun inside => before?_eq_none_iff.mp found (inside.trans ?_)
    exact ((List.prefix_append_right_inj cs).mpr shorter).isInfix
  | some b =>
    have fits := near b found
    exact (before?_append_iff fits).mpr ((before?_append_iff fits).mp found)

/-- A pattern whose first character does not come again is found where it ends a text, unless it
stands in front of that. -/
theorem before?_append_self {first : Char} {rest : List Char} (once : first ∉ rest)
    {body : List Char} (absent : ¬ first :: rest <:+: body) :
    before? (first :: rest) (body ++ first :: rest) = some body := by
  induction body with
  | nil => simp [before?]
  | cons c body ih =>
    have later := ih fun inside => absent (List.infix_cons inside)
    have other : ¬ (first :: rest).isPrefixOf (c :: (body ++ first :: rest)) = true := by
      intro starts
      obtain ⟨rfl, behind⟩ := List.cons_prefix_cons.mp (List.isPrefixOf_iff_prefix.mp starts)
      obtain ⟨more, whole⟩ := behind
      obtain ⟨gap, beyond, -⟩ | ⟨kept, front, beyond⟩ := List.append_eq_append_iff.mp whole
      · exact absent ⟨[], gap, by simp [beyond]⟩
      · cases kept with
        | nil => exact absent ⟨[], [], by simp [front]⟩
        | cons d kept =>
          obtain rfl : first = d := (List.cons.inj beyond).1
          exact once (by simp [front])
    rw [List.cons_append, before?, if_neg other, later]
    rfl

theorem before?_singleton {c : Char} {front : List Char} (absent : c ∉ front) (rest : List Char) :
    before? [c] (front ++ c :: rest) = some front := by
  have found : before? [c] (front ++ [c]) = some front :=
    before?_append_self List.not_mem_nil (mt (List.singleton_infix_iff _ _).mp absent)
  rw [List.append_cons]
  exact (before?_append_iff (by simp)).mpr found

/-- The text up to a character that stands in none of it. -/
theorem splitOnce?_singleton {c : Char} {front : List Char} (absent : c ∉ front)
    (rest : List Char) : splitOnce? [c] (front ++ c :: rest) = some (front, rest) := by
  rw [splitOnce?, before?_singleton absent, Option.map_some]
  simp

theorem eq_of_append_cons {c : Char} {front front' rest rest' : List Char} (absent : c ∉ front)
    (absent' : c ∉ front') (same : front ++ c :: rest = front' ++ c :: rest') :
    front = front' ∧ rest = rest' := by
  have parts := congrArg (splitOnce? [c]) same
  rw [splitOnce?_singleton absent, splitOnce?_singleton absent'] at parts
  exact Prod.mk.inj (Option.some.inj parts)

theorem splitChars_nil (p : Char → Bool) : splitChars p [] = [[]] := rfl

theorem splitChars_cons (p : Char → Bool) (c : Char) (cs : List Char) :
    splitChars p (c :: cs) = if p c then [] :: splitChars p cs else
      match splitChars p cs with
      | [] => [[c]]
      | part :: parts => (c :: part) :: parts := rfl

theorem splitChars_ne_nil (p : Char → Bool) (cs : List Char) : splitChars p cs ≠ [] := by
  cases cs with
  | nil => exact List.cons_ne_nil _ _
  | cons c cs =>
    rw [splitChars_cons]
    split
    · exact List.cons_ne_nil _ _
    · split <;> exact List.cons_ne_nil _ _

/-- The parts of a text do not hold what it is cut at. -/
theorem of_mem_splitChars {p : Char → Bool} {part cs : List Char} {d : Char}
    (member : part ∈ splitChars p cs) (inside : d ∈ part) : p d = false := by
  induction cs generalizing part with
  | nil =>
    obtain rfl : part = [] := List.mem_singleton.mp member
    cases inside
  | cons c cs ih =>
    simp only [splitChars_cons] at member
    split at member
    next =>
      obtain rfl | member := List.mem_cons.mp member
      · cases inside
      · exact ih member inside
    next other =>
      split at member
      next none_ => exact absurd none_ (splitChars_ne_nil p cs)
      next first parts eq =>
        obtain rfl | member := List.mem_cons.mp member
        · obtain rfl | inside := List.mem_cons.mp inside
          · exact Bool.eq_false_iff.mpr other
          · exact ih (eq ▸ List.mem_cons_self) inside
        · exact ih (eq ▸ List.mem_cons_of_mem _ member) inside

theorem subset_of_mem_splitChars {p : Char → Bool} {part cs : List Char}
    (member : part ∈ splitChars p cs) : part ⊆ cs := by
  induction cs generalizing part with
  | nil =>
    obtain rfl : part = [] := List.mem_singleton.mp member
    exact List.nil_subset _
  | cons c cs ih =>
    simp only [splitChars_cons] at member
    split at member
    next =>
      obtain rfl | member := List.mem_cons.mp member
      · exact List.nil_subset _
      · exact List.Subset.trans (ih member) (List.subset_cons_self c cs)
    next =>
      split at member
      next =>
        obtain rfl : part = [c] := List.mem_singleton.mp member
        exact List.cons_subset_cons c (List.nil_subset cs)
      next first parts eq =>
        obtain rfl | member := List.mem_cons.mp member
        · exact List.cons_subset_cons c (ih (eq ▸ List.mem_cons_self))
        · have later := ih (eq ▸ List.mem_cons_of_mem _ member)
          exact List.Subset.trans later (List.subset_cons_self c cs)

theorem splitChars_append {p : Char → Bool} {front : List Char} {c : Char}
    (apart : ∀ d ∈ front, p d = false) (sep : p c = true) (cs : List Char) :
    splitChars p (front ++ c :: cs) = front :: splitChars p cs := by
  induction front with
  | nil => simp [splitChars_cons, sep]
  | cons d front ih =>
    obtain ⟨other, apart⟩ := List.forall_mem_cons.mp apart
    simp [splitChars_cons, other, ih apart]

/-- A text that is cut nowhere goes in front of the first part. -/
theorem splitChars_append_of_apart {p : Char → Bool} {front cs part : List Char}
    {parts : List (List Char)} (apart : ∀ d ∈ front, p d = false)
    (split : splitChars p cs = part :: parts) :
    splitChars p (front ++ cs) = (front ++ part) :: parts := by
  induction front with
  | nil => exact split
  | cons d front ih =>
    obtain ⟨other, apart⟩ := List.forall_mem_cons.mp apart
    simp [splitChars_cons, other, ih apart]

/-- The parts on both sides of a cut. -/
theorem splitChars_append_cons {p : Char → Bool} {c : Char} (sep : p c = true)
    (front cs : List Char) :
    splitChars p (front ++ c :: cs) = splitChars p front ++ splitChars p cs := by
  induction front with
  | nil => simp [splitChars_nil, splitChars_cons, sep]
  | cons d front ih =>
    simp only [List.cons_append, splitChars_cons, ih]
    split
    · rfl
    · cases parts : splitChars p front with
      | nil => exact absurd parts (splitChars_ne_nil p front)
      | cons part parts => rfl

theorem splitChars_of_apart {p : Char → Bool} {cs : List Char} (apart : ∀ d ∈ cs, p d = false) :
    splitChars p cs = [cs] := by
  induction cs with
  | nil => rfl
  | cons d cs ih =>
    obtain ⟨other, apart⟩ := List.forall_mem_cons.mp apart
    simp [splitChars_cons, other, ih apart]

/-- Pieces that hold no separator are found again. -/
theorem splitChars_intercalate {c : Char} {piece : String} {more : List String}
    (plain : ∀ p ∈ piece :: more, c ∉ p.toList) :
    splitChars (· == c) ((String.singleton c).intercalate (piece :: more)).toList =
      (piece :: more).map String.toList := by
  induction more generalizing piece with
  | nil =>
    have apart : ∀ d ∈ piece.toList, (d == c) = false := fun d member =>
      beq_eq_false_iff_ne.mpr fun same => plain piece List.mem_cons_self (same ▸ member)
    rw [String.intercalate_singleton, splitChars_of_apart apart]
    rfl
  | cons next more ih =>
    have apart : ∀ d ∈ piece.toList, (d == c) = false := fun d member =>
      beq_eq_false_iff_ne.mpr fun same => plain piece List.mem_cons_self (same ▸ member)
    have chars : ((String.singleton c).intercalate (piece :: next :: more)).toList =
        piece.toList ++ c :: ((String.singleton c).intercalate (next :: more)).toList := by
      rw [String.intercalate_cons_cons]
      simp
    rw [chars, splitChars_append apart (beq_self_eq_true c),
      ih fun p member => plain p (List.mem_cons_of_mem _ member)]
    rfl

theorem intercalate_splitChars (c : Char) (cs : List Char) :
    (String.singleton c).intercalate ((splitChars (· == c) cs).map String.ofList) = .ofList cs := by
  induction cs with
  | nil => rfl
  | cons d cs ih =>
    simp only [splitChars_cons]
    split
    next same =>
      obtain rfl := eq_of_beq same
      cases rest : splitChars (· == d) cs with
      | nil => exact absurd rest (splitChars_ne_nil _ cs)
      | cons part parts =>
        rw [rest] at ih
        rw [List.map_cons, List.map_cons, String.intercalate_cons_cons, ← List.map_cons, ih,
          String.ofList_cons]
        rfl
    next =>
      split
      next none => exact absurd none (splitChars_ne_nil _ cs)
      next part parts rest =>
        rw [rest] at ih
        rw [List.map_cons, String.ofList_cons, String.intercalate_cons_append, ← List.map_cons, ih,
          String.ofList_cons]

/-- Parts that are put together again. -/
theorem intercalate_splitOn (c : Char) (s : String) :
    (String.singleton c).intercalate (splitOn c s) = s :=
  (intercalate_splitChars c s.toList).trans String.ofList_toList

theorem length_splitChars (p : Char → Bool) (cs : List Char) :
    (splitChars p cs).length = cs.countP p + 1 := by
  induction cs with
  | nil => rfl
  | cons c cs ih =>
    rw [splitChars_cons, List.countP_cons]
    split
    next => rw [List.length_cons, ih]
    next =>
      cases rest : splitChars p cs with
      | nil => exact absurd rest (splitChars_ne_nil p cs)
      | cons part parts => rwa [rest] at ih

/-- A line loses only white space with its carriage return. -/
theorem dropReturn_append (cs : List Char) :
    ∃ back, back.all isBlank = true ∧ dropReturn cs ++ back = cs := by
  rw [dropReturn]
  split
  next ended => exact ⟨['\r'], by decide, List.dropLast_append_getLast? _ ended⟩
  next => exact ⟨[], rfl, List.append_nil cs⟩

/-- The first line of a text. -/
theorem lines_cons {line : String} (alone : '\n' ∉ line.toList) (rest : String) :
    lines (line ++ "\n" ++ rest) = .ofList (dropReturn line.toList) :: lines rest := by
  have apart : ∀ c ∈ line.toList, (c == '\n') = false := by
    intro c member
    exact beq_false_of_ne (ne_of_mem_of_not_mem member alone)
  have split : splitChars (· == '\n') (line ++ "\n" ++ rest).toList =
      line.toList :: splitChars (· == '\n') rest.toList := by
    rw [String.toList_append, String.toList_append, List.append_assoc]
    exact splitChars_append apart rfl _
  obtain ⟨part, parts, behind⟩ :=
    List.exists_cons_of_ne_nil (splitChars_ne_nil (· == '\n') rest.toList)
  unfold lines
  rw [split, behind]
  dsimp only
  rw [List.getLast?_cons_cons, List.dropLast_cons_cons, List.map_cons]
  split <;> rfl

theorem lines_append {front : List String} (alone : ∀ line ∈ front, '\n' ∉ line.toList)
    (rest : String) : lines (.join (front.map (· ++ "\n")) ++ rest) =
      front.map (fun line => .ofList (dropReturn line.toList)) ++ lines rest := by
  induction front with
  | nil => simp [String.join]
  | cons line front ih =>
    obtain ⟨first, alone⟩ := List.forall_mem_cons.mp alone
    rw [List.map_cons, String.join_cons, String.append_assoc, lines_cons first, ih alone]
    rfl

theorem alone_of_mem_lines {line s : String} (member : line ∈ lines s) : '\n' ∉ line.toList := by
  have parts (part : List Char) (among : part ∈ splitChars (· == '\n') s.toList) : '\n' ∉ part :=
    fun inside => absurd (of_mem_splitChars among inside) (by decide)
  have ended (mapped : line ∈ (splitChars (· == '\n') s.toList).dropLast.map
      (String.ofList ∘ dropReturn)) : '\n' ∉ line.toList := by
    obtain ⟨part, among, rfl⟩ := List.mem_map.mp mapped
    obtain ⟨back, -, whole⟩ := dropReturn_append part
    rw [Function.comp_apply, String.toList_ofList]
    refine fun inside => parts part (List.mem_of_mem_dropLast among) ?_
    rw [← whole]
    exact List.mem_append_left back inside
  unfold lines at member
  dsimp only at member
  split at member
  · exact ended member
  · exact ended member
  next =>
    obtain member | member := List.mem_append.mp member
    · exact ended member
    · obtain rfl := List.mem_singleton.mp member
      rw [String.toList_ofList]
      exact parts _ (List.mem_of_getLast? ‹_›)

theorem not_mem_intercalate {c : Char} {separator : String} (other : c ∉ separator.toList)
    {pieces : List String} (plain : ∀ piece ∈ pieces, c ∉ piece.toList) :
    c ∉ (separator.intercalate pieces).toList := by
  induction pieces with
  | nil => simp
  | cons piece more ih =>
    have later := ih fun p member => plain p (List.mem_cons_of_mem _ member)
    have first := plain piece List.mem_cons_self
    cases more with
    | nil => rwa [String.intercalate_singleton]
    | cons next more =>
      rw [String.intercalate_cons_cons, String.toList_append, String.toList_append]
      simp only [List.mem_append, not_or]
      exact ⟨⟨first, other⟩, later⟩

end Quire.Text
