import Mathlib.Data.List.Chain
import Quire.Prose
import Quire.Proofs.Text.Trim

/-! Plain text: no character of it means anything but itself, in cells and in running text for
HTML. Between cells, an ampersand is no plain text. For running text, also what a step does where
math or a row of the table fits, and where nothing does. -/
namespace Quire

/-- What is asked of the characters of a text is decided on the text, not on all characters. -/
instance decidableForallChar {p : Char → Prop} [DecidablePred p] (cs : List Char) :
    Decidable (∀ c ∈ cs, p c) := List.decidableBAll p cs

instance decidableExistsChar {p : Char → Prop} [DecidablePred p] (cs : List Char) :
    Decidable (∃ c ∈ cs, p c) := List.decidableBEx p cs

theorem exists_of_map_ok {α β ε : Type} {f : α → β} {x : Except ε α} {b : β} (ran : f <$> x = .ok b) :
    ∃ a, x = .ok a ∧ f a = b := by
  cases x with
  | error e => cases ran
  | ok a => exact ⟨a, rfl, Except.ok.inj ran⟩

theorem exists_of_bind_ok {α β ε : Type} {x : Except ε α} {f : α → Except ε β} {b : β}
    (ran : x >>= f = .ok b) : ∃ a, x = .ok a ∧ f a = .ok b := by
  cases x with
  | error e => cases ran
  | ok a => exact ⟨a, rfl, ran⟩

namespace Prose

/-- Characters that are never read as themselves. -/
def markupChars : List Char := "\\\x7b\x7d$%&~<>".toList

def reservedChars : List Char := "\\\x7b\x7d$%~<>".toList

/-- Characters that make another one together with a second of their kind. -/
def ligatureChars : List Char := "-\x60'".toList

theorem reservedChars_subset : reservedChars ⊆ markupChars := by decide

def IsPlain (cs : List Char) : Prop :=
  (∀ c ∈ cs, c ∉ markupChars) ∧ cs.IsChain fun a b => a = b → a ∉ ligatureChars

instance (cs : List Char) : Decidable (IsPlain cs) :=
  @instDecidableAnd _ _ (List.decidableBAll _ cs) inferInstance

def IsOrdinary (cs : List Char) : Prop :=
  (∀ c ∈ cs, c ∉ reservedChars) ∧ cs.IsChain fun a b => a = b → a ∉ ligatureChars

instance (cs : List Char) : Decidable (IsOrdinary cs) :=
  @instDecidableAnd _ _ (List.decidableBAll _ cs) inferInstance

namespace IsPlain

variable {cs ds : List Char}

theorem append (first : IsPlain cs) (second : IsPlain ds)
    (apart : ∀ a ∈ cs.getLast?, ∀ b ∈ ds.head?, a = b → a ∉ ligatureChars) :
    IsPlain (cs ++ ds) := by
  refine ⟨fun c member => ?_, List.isChain_append.mpr ⟨first.2, second.2, apart⟩⟩
  rcases List.mem_append.mp member with front | back
  · exact first.1 c front
  · exact second.1 c back

/-- White space around a text makes no ligature with it. -/
theorem pad {lead : Char} (plain : IsPlain cs) (leading : lead = '\n' ∨ lead = ' ') :
    IsPlain (lead :: cs ++ [' ']) := by
  have front : IsPlain [lead] := by rcases leading with rfl | rfl <;> decide
  have back : IsPlain [' '] := by decide
  have solid : lead ∉ ligatureChars := by rcases leading with rfl | rfl <;> decide
  have led : IsPlain (lead :: cs) := by
    refine front.append plain fun a last b _ _ => ?_
    obtain rfl : lead = a := by simpa using last
    exact solid
  refine led.append back fun a _ b first same => ?_
  obtain rfl : ' ' = b := by simpa using first
  rw [same]
  decide

end IsPlain

/-- Characters that start an escape of a target, whatever follows them. -/
def rowChars : Target → List Char
  | .html => "\\~<>".toList
  | .quarto => "\\~".toList

theorem ne_slash {target : Target} {c : Char} (start : c ∉ rowChars target) : c ≠ '\\' := by
  rintro rfl
  exact start (by cases target <;> decide)

/-- A ligature starts with two of a kind. -/
theorem starts_table (target : Target) : ∀ row ∈ table target, ∃ a as, row.1.toList = a :: as ∧
    (a ∈ rowChars target ∨ a ∈ ligatureChars ∧ as.head? = some a) := by
  intro row member
  have starts : ∀ row ∈ table target, (row.1.toList.head?.any fun a =>
      a ∈ rowChars target || (a ∈ ligatureChars && row.1.toList.tail.head? = some a)) = true := by
    cases target <;> decide
  have start := starts row member
  cases written : row.1.toList with
  | nil => simp [written] at start
  | cons a as => exact ⟨a, as, rfl, by simpa [written] using start⟩

section Steps
variable {target : Target} {c : Char} {cs : List Char}

/-- A row that fits stands at the front, and what is read behind it is the rest. -/
theorem row_of_entry {text : List Char} {used : Nat}
    (fits : entry? target c cs = some (text, used)) :
    ∃ row ∈ table target, text = row.2.toList ∧ c :: cs = row.1.toList ++ cs.drop used := by
  obtain ⟨row, found, same⟩ := Option.map_eq_some_iff.mp fits
  cases same
  have listed := List.mem_of_find?_eq_some found
  obtain ⟨a, as, written, -⟩ := starts_table target row listed
  have starts := List.find?_some found
  dsimp only at starts
  obtain ⟨behind, eq⟩ := List.isPrefixOf_iff_prefix.mp starts
  refine ⟨row, listed, rfl, ?_⟩
  rw [written, List.cons_append] at eq
  obtain ⟨rfl, rfl⟩ := List.cons.inj eq
  rw [← String.length_toList, written, List.length_cons, Nat.add_sub_cancel, List.drop_left,
    List.cons_append]

theorem entry?_eq_none (start : c ∉ rowChars target)
    (apart : c ∈ cs.head? → c ∉ ligatureChars) : entry? target c cs = none := by
  cases fits : entry? target c cs with
  | none => rfl
  | some found =>
    obtain ⟨row, listed, -, front⟩ := row_of_entry fits
    obtain ⟨a, as, written, start'⟩ := starts_table target row listed
    rw [written, List.cons_append] at front
    obtain ⟨rfl, behind⟩ := List.cons.inj front
    rcases start' with escape | ⟨ligature, second⟩
    · exact absurd escape start
    · have next : c ∈ cs.head? := by
        rw [behind, List.head?_append, second]
        rfl
      exact absurd ligature (apart next)

/-- Where a row stands at the front, that one or an earlier one fits. -/
theorem entry?_ne_none {row : String × String} (listed : row ∈ table target)
    (starts : row.1.toList <+: c :: cs) : entry? target c cs ≠ none := by
  intro none_
  have misses := List.find?_eq_none.mp (Option.map_eq_none_iff.mp none_) row listed
  exact misses (List.isPrefixOf_iff_prefix.mpr starts)

/-- Only a dollar sign or a backslash starts math. -/
theorem math?_eq_none_of_ne (dollar : c ≠ '$') (slash : c ≠ '\\') : math? target c cs = none := by
  unfold math?
  split <;> first | contradiction | rfl

theorem math?_slash (unopened : cs.head? ≠ some '(') : math? target '\\' cs = none := by
  unfold math?
  split
  next => contradiction
  next => contradiction
  next => exact absurd rfl unopened
  next => rfl

theorem math?_single (single : cs.head? ≠ some '$') : math? target '$' cs =
    (Text.before? ['$'] cs).map fun tex => (inlineMath target tex, tex.length + 1) := by
  unfold math?
  split
  next => exact absurd rfl single
  next => rfl
  next => contradiction
  next => contradiction

theorem convert_put {text : List Char} {used : Nat} (acts : action target c cs = .put text used) :
    convert target (c :: cs) = (text ++ ·) <$> convert target (cs.drop used) := by
  rw [convert, acts]

theorem action_math {text : List Char} {used : Nat} (percent : c ≠ '%')
    (math : math? target c cs = some (text, used)) : action target c cs = .put text used := by
  unfold action
  rw [if_neg percent, math]

/-- What is neither math nor an accent may be in the table. -/
theorem action_entry {text : List Char} {used : Nat} (percent : c ≠ '%')
    (math : math? target c cs = none) (bare : c = '\\' → Accent.decode? cs = none)
    (fits : entry? target c cs = some (text, used)) : action target c cs = .put text used := by
  have unaccented : (if c = '\\' then Accent.decode? cs else none) = none := by
    split
    next slash => exact bare slash
    next => rfl
  unfold action
  rw [if_neg percent, math, unaccented, fits]

/-- What is not in the table either is written, unless it is a backslash. -/
theorem action_missing (percent : c ≠ '%') (slash : c ≠ '\\') (math : math? target c cs = none)
    (missing : entry? target c cs = none) : action target c cs = .put [c] 0 := by
  unfold action
  simp [percent, slash, math, missing]

/-- A character that starts nothing is written, whatever follows it but a second of its kind. -/
theorem action_char (percent : c ≠ '%') (start : c ∉ rowChars target)
    (math : math? target c cs = none) (apart : c ∈ cs.head? → c ∉ ligatureChars) :
    action target c cs = .put [c] 0 :=
  action_missing percent (ne_slash start) math (entry?_eq_none start apart)

theorem action_ordinary (ordinary : c ∉ reservedChars)
    (apart : c ∈ cs.head? → c ∉ ligatureChars) : action .html c cs = .put [c] 0 := by
  have among : '%' ∈ reservedChars ∧ '$' ∈ reservedChars ∧ '\\' ∈ reservedChars ∧
      rowChars .html ⊆ reservedChars := by decide
  obtain ⟨percent, dollar, slash, starts⟩ := among
  exact action_char (ne_of_mem_of_not_mem percent ordinary).symm (mt (@starts c) ordinary)
    (math?_eq_none_of_ne (ne_of_mem_of_not_mem dollar ordinary).symm
      (ne_of_mem_of_not_mem slash ordinary).symm) apart

end Steps

/-- Text without reserved characters and ligatures is written as it is. -/
theorem convert_ordinary {cs : List Char} (ordinary : IsOrdinary cs) :
    convert .html cs = .ok cs := by
  obtain ⟨unreserved, apart⟩ := ordinary
  induction cs with
  | nil => rw [convert]
  | cons c cs ih =>
    obtain ⟨first, unreserved⟩ := List.forall_mem_cons.mp unreserved
    obtain ⟨starts, apart⟩ := List.isChain_cons.mp apart
    rw [convert, action_ordinary first fun next => starts c next rfl]
    simp only [List.drop_zero, ih unreserved apart]
    rfl

theorem normalize_ordinary {raw : String} (ordinary : IsOrdinary raw.toList) :
    normalize .html raw = .ok raw := by
  rw [normalize, convert_ordinary ordinary]
  exact congrArg Except.ok (String.ofList_toList)

theorem IsPlain.ordinary {cs : List Char} (plain : IsPlain cs) : IsOrdinary cs :=
  ⟨fun c member => mt (@reservedChars_subset c) (plain.1 c member), plain.2⟩

theorem normalize_plain {raw : String} (plain : IsPlain raw.toList) :
    normalize .html raw = .ok raw :=
  normalize_ordinary plain.ordinary

end Prose
end Quire
