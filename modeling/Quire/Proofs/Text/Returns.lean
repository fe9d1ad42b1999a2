import Quire.Proofs.Text.Cut
import Quire.Proofs.Text.Trim

/-! Line feeds with carriage returns in front of them. What looks for neither of the two cuts a
text at the same places with the returns as without. -/
namespace Quire.Text

def returned (cs : List Char) : List Char :=
  cs.flatMap fun c => if c = '\n' then ['\r', '\n'] else [c]

def withReturns (s : String) : String := .ofList (returned s.toList)

variable {c : Char} {cs ds pattern : List Char} {p : Char → Bool}

@[simp] theorem returned_nil : returned [] = [] := rfl

@[simp] theorem returned_feed (cs : List Char) :
    returned ('\n' :: cs) = '\r' :: '\n' :: returned cs := rfl

theorem returned_cons (other : c ≠ '\n') (cs : List Char) :
    returned (c :: cs) = c :: returned cs := by
  simp [returned, other]

@[simp] theorem returned_append (cs ds : List Char) :
    returned (cs ++ ds) = returned cs ++ returned ds := List.flatMap_append

@[simp] theorem toList_withReturns (s : String) :
    (withReturns s).toList = returned s.toList := String.toList_ofList

@[simp] theorem withReturns_ofList (cs : List Char) :
    withReturns (.ofList cs) = .ofList (returned cs) := by
  rw [withReturns, String.toList_ofList]

@[simp] theorem withReturns_empty : withReturns "" = "" := by decide

theorem withReturns_append (s t : String) :
    withReturns (s ++ t) = withReturns s ++ withReturns t := by
  simp [withReturns]

theorem returned_eq_self (line : '\n' ∉ cs) : returned cs = cs := by
  induction cs with
  | nil => rfl
  | cons c cs ih =>
    obtain ⟨other, line⟩ := List.ne_and_not_mem_of_not_mem_cons line
    rw [returned_cons (Ne.symm other), ih line]

theorem withReturns_eq_self {s : String} (line : '\n' ∉ s.toList) : withReturns s = s := by
  rw [withReturns, returned_eq_self line, String.ofList_toList]

@[simp] theorem returned_eq_nil : returned cs = [] ↔ cs = [] := by
  cases cs with
  | nil => simp
  | cons c cs =>
    by_cases feed : c = '\n'
    · subst feed
      simp
    · simp [returned_cons feed]

theorem mem_returned (other : c ≠ '\r') : c ∈ returned cs ↔ c ∈ cs := by
  simp only [returned, List.mem_flatMap]
  constructor
  · rintro ⟨d, member, inside⟩
    split at inside
    next feed =>
      obtain rfl : c = d := by simpa [other, feed] using inside
      exact member
    next =>
      obtain rfl := List.mem_singleton.mp inside
      exact member
  · intro member
    refine ⟨c, member, ?_⟩
    split
    next feed => simp [feed]
    next => simp

/-- A front that neither holds a line feed nor ends in a carriage return was there before. -/
theorem prefix_of_prefix_returned {front : List Char} (line : '\n' ∉ front)
    (ends : front.getLast? ≠ some '\r') (starts : front <+: returned cs) : front <+: cs := by
  induction front generalizing cs with
  | nil => exact List.nil_prefix
  | cons a front ih =>
    obtain ⟨-, behind_line⟩ := List.ne_and_not_mem_of_not_mem_cons line
    have behind_ends : front.getLast? ≠ some '\r' := by
      intro last
      exact ends (by simp [List.getLast?_cons, last])
    cases cs with
    | nil => simp at starts
    | cons c cs =>
      by_cases feed : c = '\n'
      · subst feed
        rw [returned_feed] at starts
        obtain ⟨isReturn, tail⟩ := List.cons_prefix_cons.mp starts
        cases front with
        | nil => exact absurd (by rw [isReturn]; rfl) ends
        | cons b front =>
          obtain ⟨isFeed, -⟩ := List.cons_prefix_cons.mp tail
          exact absurd (isFeed ▸ List.mem_cons_self) behind_line
      · rw [returned_cons feed] at starts
        obtain ⟨rfl, tail⟩ := List.cons_prefix_cons.mp starts
        exact List.cons_prefix_cons.mpr ⟨rfl, ih behind_line behind_ends tail⟩

section Predicates

/-! A test that does not tell the two apart. -/

theorem takeWhile_returned (even : p '\r' = p '\n') (cs : List Char) :
    (returned cs).takeWhile p = returned (cs.takeWhile p) := by
  induction cs with
  | nil => rfl
  | cons c cs ih =>
    by_cases feed : c = '\n'
    · subst feed
      cases passes : p '\n' <;> simp [even, passes, ih]
    · rw [returned_cons feed, List.takeWhile_cons, List.takeWhile_cons, ih]
      split
      · rw [returned_cons feed]
      · rfl

theorem dropWhile_returned (even : p '\r' = p '\n') (cs : List Char) :
    (returned cs).dropWhile p = returned (cs.dropWhile p) := by
  have left := List.takeWhile_append_dropWhile (p := p) (l := returned cs)
  have right := congrArg returned (List.takeWhile_append_dropWhile (p := p) (l := cs))
  rw [returned_append, ← takeWhile_returned even] at right
  exact List.append_cancel_left (left.trans right.symm)

theorem all_returned (even : p '\r' = p '\n') (cs : List Char) : (returned cs).all p = cs.all p := by
  induction cs with
  | nil => rfl
  | cons c cs ih =>
    by_cases feed : c = '\n'
    · subst feed
      cases passes : p '\n' <;> simp [even, passes, ih]
    · rw [returned_cons feed, List.all_cons, List.all_cons, ih]

theorem dropEndWhile_returned (even : p '\r' = p '\n') (cs : List Char) :
    dropEndWhile p (returned cs) = returned (dropEndWhile p cs) := by
  have concat (cs : List Char) (c : Char) :
      dropEndWhile p (cs ++ [c]) = if p c then dropEndWhile p cs else cs ++ [c] :=
    List.rdropWhile_concat p cs c
  induction cs using List.reverseRecOn with
  | nil => rfl
  | append_singleton cs c ih =>
    rw [returned_append, concat]
    by_cases feed : c = '\n'
    · subst feed
      have two : returned cs ++ returned ['\n'] = (returned cs ++ ['\r']) ++ ['\n'] := by simp
      rw [two, concat, concat, even, ih]
      split <;> simp
    · rw [returned_cons feed, returned_nil, concat, ih]
      split
      · rfl
      · rw [returned_append, returned_cons feed, returned_nil]

theorem dropFront_withReturns (even : p '\r' = p '\n') (s : String) :
    dropFront p (withReturns s) = withReturns (dropFront p s) := by
  rw [dropFront, toList_withReturns, dropWhile_returned even, dropFront, withReturns_ofList]

@[simp] theorem trimStart_withReturns (s : String) :
    trimStart (withReturns s) = withReturns (trimStart s) := dropFront_withReturns rfl s

@[simp] theorem trim_withReturns (s : String) : trim (withReturns s) = withReturns (trim s) := by
  rw [trim, toList_withReturns, dropWhile_returned rfl, dropEndWhile_returned rfl,
    trim, withReturns_ofList]

@[simp] theorem allBlank_withReturns (s : String) : allBlank (withReturns s) = allBlank s := by
  rw [allBlank, toList_withReturns, all_returned rfl, allBlank]

end Predicates

section Patterns

/-- How long the front of a text is with the carriage returns. -/
def returnedLength (cs : List Char) (n : Nat) : Nat := (returned (cs.take n)).length

theorem returnedLength_cons (other : c ≠ '\n') (cs : List Char) (n : Nat) :
    returnedLength (c :: cs) (n + 1) = returnedLength cs n + 1 := by
  rw [returnedLength, List.take_succ_cons, returned_cons other]
  rfl

theorem returnedLength_feed (cs : List Char) (n : Nat) :
    returnedLength ('\n' :: cs) (n + 1) = returnedLength cs n + 2 := by
  rw [returnedLength, List.take_succ_cons, returned_feed]
  rfl

theorem returnedLength_of_prefix {front : List Char} (starts : front <+: cs) :
    returnedLength cs front.length = (returned front).length := by
  rw [returnedLength, take_of_prefix starts rfl]

/-- What comes before a place stays in front of it. -/
theorem drop_returned (n : Nat) (cs : List Char) :
    (returned cs).drop (returnedLength cs n) = returned (cs.drop n) := by
  have split := congrArg returned (List.take_append_drop n cs)
  rw [returned_append] at split
  rw [← split, returnedLength, List.drop_left]

theorem take_returned (n : Nat) (cs : List Char) :
    (returned cs).take (returnedLength cs n) = returned (cs.take n) := by
  have split := congrArg returned (List.take_append_drop n cs)
  rw [returned_append] at split
  rw [← split, returnedLength, List.take_left]

/-- A pattern that neither ends a line nor starts one. -/
def LineFree (pattern : List Char) : Prop := '\r' ∉ pattern ∧ '\n' ∉ pattern

instance (pattern : List Char) : Decidable (LineFree pattern) :=
  inferInstanceAs (Decidable (_ ∧ _))

theorem LineFree.append {front back : List Char} (first : LineFree front)
    (second : LineFree back) : LineFree (front ++ back) :=
  ⟨by simp [first.1, second.1], by simp [first.2, second.2]⟩

theorem LineFree.of_subset {front : List Char} (free : LineFree pattern) (within : front ⊆ pattern) :
    LineFree front :=
  ⟨mt (@within _) free.1, mt (@within _) free.2⟩

theorem LineFree.returned (free : LineFree pattern) : Text.returned pattern = pattern :=
  returned_eq_self free.2

theorem free_takeWhile {p : Char → Bool} (notReturn : p '\r' = false) (notFeed : p '\n' = false)
    (cs : List Char) : LineFree (cs.takeWhile p) := by
  constructor <;> intro member <;> have passes := List.mem_takeWhile_imp member
  · exact absurd (notReturn.symm.trans passes) (by decide)
  · exact absurd (notFeed.symm.trans passes) (by decide)

theorem head?_returned_iff (free : LineFree [c]) :
    (returned cs).head? = some c ↔ cs.head? = some c := by
  have notReturn : '\r' ≠ c := fun same => free.1 (same ▸ List.mem_singleton_self _)
  have notFeed : '\n' ≠ c := fun same => free.2 (same ▸ List.mem_singleton_self _)
  cases cs with
  | nil => rfl
  | cons d ds =>
    by_cases feed : d = '\n'
    · subst feed
      simp [notReturn, notFeed]
    · rw [returned_cons feed]
      rfl

/-- What comes behind a line free front. -/
theorem drop_returned_of_free {n : Nat} (free : LineFree (cs.take n)) :
    (returned cs).drop n = returned (cs.drop n) := by
  have dropped := drop_returned n cs
  rw [returnedLength, free.returned] at dropped
  by_cases fits : n ≤ cs.length
  · rwa [List.length_take_of_le fits] at dropped
  · rw [List.take_of_length_le (by omega)] at free
    rw [free.returned, List.drop_eq_nil_of_le (by omega)]
    rfl

theorem isPrefixOf?_returned (free : LineFree pattern) (cs : List Char) :
    pattern.isPrefixOf? (returned cs) = (pattern.isPrefixOf? cs).map returned := by
  induction pattern generalizing cs with
  | nil => rfl
  | cons a pattern ih =>
    obtain ⟨noReturn, noFeed⟩ := free
    obtain ⟨a_ne, noReturn⟩ := List.ne_and_not_mem_of_not_mem_cons noReturn
    obtain ⟨a_ne', noFeed⟩ := List.ne_and_not_mem_of_not_mem_cons noFeed
    cases cs with
    | nil => rfl
    | cons c cs =>
      by_cases feed : c = '\n'
      · subst feed
        simp [List.isPrefixOf?, Ne.symm a_ne, Ne.symm a_ne']
      · rw [returned_cons feed, List.isPrefixOf?, List.isPrefixOf?]
        split
        · exact ih ⟨noReturn, noFeed⟩ cs
        · rfl

theorem isPrefixOf_returned (free : LineFree pattern) (cs : List Char) :
    pattern.isPrefixOf (returned cs) = pattern.isPrefixOf cs := by
  have found (ds : List Char) : pattern.isPrefixOf ds = (pattern.isPrefixOf? ds).isSome := by
    rw [← List.isSome_isPrefixOf?_eq_isPrefixOf]
  rw [found, found, isPrefixOf?_returned free, Option.isSome_map]

theorem before?_returned (free : LineFree pattern) (some_ : pattern ≠ []) (cs : List Char) :
    before? pattern (returned cs) = (before? pattern cs).map returned := by
  obtain ⟨a, pattern, rfl⟩ := List.exists_cons_of_ne_nil some_
  have starts (c : Char) (cs : List Char) (line : c = '\r' ∨ c = '\n') :
      (a :: pattern).isPrefixOf (c :: cs) = false := by
    have differs : a ≠ c := by
      rintro rfl
      rcases line with rfl | rfl
      · exact free.1 List.mem_cons_self
      · exact free.2 List.mem_cons_self
    simp [List.isPrefixOf, differs]
  induction cs with
  | nil => rfl
  | cons c cs ih =>
    by_cases feed : c = '\n'
    · subst feed
      rw [returned_feed, before?, starts _ _ (.inl rfl), before?, starts _ _ (.inr rfl), before?,
        starts _ _ (.inr rfl), ih]
      cases before? (a :: pattern) cs <;> rfl
    · have same := isPrefixOf_returned free (c :: cs)
      rw [returned_cons feed] at same ⊢
      rw [before?, before?, same, ih]
      split
      · rfl
      · cases before? (a :: pattern) cs with
        | none => rfl
        | some before => simp [returned_cons feed]

theorem splitOnce?_returned (free : LineFree pattern) (some_ : pattern ≠ []) (cs : List Char) :
    splitOnce? pattern (returned cs) =
      (splitOnce? pattern cs).map fun parts => (returned parts.1, returned parts.2) := by
  rw [splitOnce?, splitOnce?, before?_returned free some_]
  cases found : before? pattern cs with
  | none => rfl
  | some before =>
    have split (before cs : List Char) (front : before ++ pattern <+: cs) :
        cs = before ++ pattern ++ cs.drop (before.length + pattern.length) := by
      rw [← List.length_append]
      exact List.prefix_iff_eq_append.mp front |>.symm
    have whole := congrArg Text.returned (split before cs (prefix_of_before? found))
    rw [returned_append, returned_append, free.returned] at whole
    have rest : (returned cs).drop ((returned before).length + pattern.length) =
        returned (cs.drop (before.length + pattern.length)) := by
      rw [whole, ← List.length_append, List.drop_left]
    simp [rest]

theorem splitChars_returned (even : p '\r' = p '\n') (stays : p '\n' = false) (cs : List Char) :
    splitChars p (returned cs) = (splitChars p cs).map returned := by
  have stays' : p '\r' = false := even.trans stays
  induction cs with
  | nil => rfl
  | cons c cs ih =>
    obtain ⟨part, parts, split⟩ := List.exists_cons_of_ne_nil (splitChars_ne_nil p cs)
    rw [split] at ih
    by_cases feed : c = '\n'
    · subst feed
      simp [splitChars, stays, stays', ih, split]
    · rw [returned_cons feed, splitChars, splitChars, ih, split]
      split
      · rfl
      · simp [returned_cons feed]

end Patterns

end Quire.Text
