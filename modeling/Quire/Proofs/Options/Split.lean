import Mathlib.Data.List.Infix
import Quire.Options

/-! Splitting a text at a separator that stands in no group. `Cut` says how a text is read into its
parts; whether it is depends on its braces and brackets alone, not on the separator. Options are
the parts between commas, each with the parts between its equals signs. Main statement:
`splitTopLevel_parts`. -/
namespace Quire.Options

/-- What stands open behind some characters: how many more braces and brackets they open than they
close, and whether a backslash takes the character that follows. -/
structure Reading where
  depth : Int
  escaped : Bool

namespace Reading

def after (r : Reading) (c : Char) : Reading :=
  if r.escaped then ⟨r.depth, false⟩
  else if c = '\\' then ⟨r.depth, true⟩
  else if isOpening c then ⟨r.depth + 1, false⟩
  else if isClosing c then ⟨r.depth - 1, false⟩
  else ⟨r.depth, false⟩

/-- Nowhere in a text more is closed than was opened, and all is closed at its end. -/
@[mk_iff]
structure Pairs (r : Reading) (cs : List Char) : Prop where
  nonneg : ∀ front, front <+: cs → 0 ≤ (front.foldl after r).depth
  settled : (cs.foldl after r).depth = 0

theorem pairs_nil {r : Reading} : r.Pairs [] ↔ r.depth = 0 := by
  constructor
  · intro pairs
    exact pairs.settled
  · intro settled
    refine ⟨fun front empty => ?_, settled⟩
    rw [List.prefix_nil.mp empty]
    exact Int.le_of_eq settled.symm

theorem pairs_cons {r : Reading} {c : Char} {cs : List Char} :
    r.Pairs (c :: cs) ↔ 0 ≤ r.depth ∧ (r.after c).Pairs cs := by
  constructor
  · intro pairs
    refine ⟨pairs.nonneg [] List.nil_prefix, fun front inside => ?_, pairs.settled⟩
    exact pairs.nonneg (c :: front) (List.cons_prefix_cons.mpr ⟨rfl, inside⟩)
  · rintro ⟨first, pairs⟩
    refine ⟨fun front inside => ?_, pairs.settled⟩
    rcases List.prefix_cons_iff.mp inside with rfl | ⟨behind, rfl, starts⟩
    · exact first
    · exact pairs.nonneg behind starts

theorem Pairs.nonneg_depth {r : Reading} {cs : List Char} (pairs : r.Pairs cs) : 0 ≤ r.depth :=
  pairs.nonneg [] List.nil_prefix

theorem after_shift (depth more : Int) (escaped : Bool) (c : Char) :
    after ⟨depth + more, escaped⟩ c =
      ⟨(after ⟨depth, escaped⟩ c).depth + more, (after ⟨depth, escaped⟩ c).escaped⟩ := by
  unfold after
  split
  · rfl
  split
  · rfl
  split
  · exact congrArg (Reading.mk · false) (Int.add_right_comm depth more 1)
  split
  · exact congrArg (Reading.mk · false) (Int.add_right_comm depth more (-1))
  · rfl

/-- What is open in front of a text stays open behind it. -/
theorem depth_shift (cs : List Char) (depth more : Int) (escaped : Bool) :
    (cs.foldl after ⟨depth + more, escaped⟩).depth =
      (cs.foldl after ⟨depth, escaped⟩).depth + more := by
  induction cs generalizing depth escaped with
  | nil => rfl
  | cons c cs ih =>
    rw [List.foldl_cons, List.foldl_cons, after_shift]
    exact ih _ _

/-- Where nothing is open, both sides of a text pair on their own. -/
theorem Pairs.append {r : Reading} {front back : List Char} (pairs : r.Pairs (front ++ back))
    (settled : (front.foldl after r).depth = 0) :
    r.Pairs front ∧ (front.foldl after r).Pairs back := by
  refine ⟨⟨fun first inside => ?_, settled⟩, ⟨fun first inside => ?_, ?_⟩⟩
  · exact pairs.nonneg first (inside.trans (List.prefix_append front back))
  · rw [← List.foldl_append]
    exact pairs.nonneg (front ++ first) ((List.prefix_append_right_inj front).mpr inside)
  · rw [← List.foldl_append]
    exact pairs.settled

end Reading

/-- What stands open behind a text. -/
def reading (cs : List Char) : Reading := cs.foldl Reading.after ⟨0, false⟩

@[mk_iff]
structure Ordinary (c : Char) : Prop where
  slash : c ≠ '\\'
  opening : isOpening c = false
  closing : isClosing c = false

instance (c : Char) : Decidable (Ordinary c) := decidable_of_iff' _ (ordinary_iff c)

theorem ne_slash_of_isOpening {c : Char} (opening : isOpening c) : c ≠ '\\' := by
  rintro rfl
  cases opening

theorem ne_slash_of_isClosing {c : Char} (closing : isClosing c) : c ≠ '\\' := by
  rintro rfl
  cases closing

theorem not_isOpening_of_isClosing {c : Char} (closing : isClosing c) : isOpening c = false := by
  simp only [isClosing, Bool.or_eq_true, beq_iff_eq] at closing
  rcases closing with rfl | rfl <;> rfl

namespace Reading
variable {c : Char} {depth : Int}

theorem after_opening (opening : isOpening c) : after ⟨depth, false⟩ c = ⟨depth + 1, false⟩ := by
  simp [after, opening, ne_slash_of_isOpening opening]

theorem after_closing (closing : isClosing c) : after ⟨depth, false⟩ c = ⟨depth - 1, false⟩ := by
  simp [after, closing, ne_slash_of_isClosing closing, not_isOpening_of_isClosing closing]

/-- What closes within a group leaves one level less open. -/
theorem after_closing_within (closing : isClosing c) (depth : Nat) :
    after ⟨(depth + 1 : Nat), false⟩ c = ⟨depth, false⟩ := by
  rw [after_closing closing, Int.natCast_succ, Int.add_sub_cancel]

theorem after_ordinary (ordinary : Ordinary c) : after ⟨depth, false⟩ c = ⟨depth, false⟩ := by
  simp [after, ordinary.slash, ordinary.opening, ordinary.closing]

/-- Only a backslash takes the next character. -/
theorem escaped_after (r : Reading) (c : Char) :
    (r.after c).escaped = (!r.escaped && c == '\\') := by
  unfold after
  split
  next escaped => rw [escaped]; rfl
  split
  next slash => simp_all
  split <;> try split
  all_goals simp_all

/-- A text that ends in another character leaves what follows its meaning. -/
theorem settled_concat (slash : c ≠ '\\') (cs : List Char) (r : Reading) :
    ((cs ++ [c]).foldl after r).escaped = false := by
  rw [List.foldl_append, List.foldl_cons, List.foldl_nil, escaped_after]
  simp [slash]

end Reading

/-- How a text is read at some depth into its parts, character after character. -/
inductive Cut (sep : Char) : Nat → List Char → List Char × List (List Char) → Prop
  | nil : Cut sep 0 [] ([], [])
  | trailing : Cut sep 0 ['\\'] (['\\'], [])
  | escape (c : Char) {depth : Nat} {cs : List Char} {parts : List Char × List (List Char)} :
      Cut sep depth cs parts → Cut sep depth ('\\' :: c :: cs) (prepend ['\\', c] parts)
  | opening {c : Char} {depth : Nat} {cs : List Char} {parts : List Char × List (List Char)} :
      isOpening c → Cut sep (depth + 1) cs parts → Cut sep depth (c :: cs) (prepend [c] parts)
  | closing {c : Char} {depth : Nat} {cs : List Char} {parts : List Char × List (List Char)} :
      isClosing c → Cut sep depth cs parts → Cut sep (depth + 1) (c :: cs) (prepend [c] parts)
  | separator {cs part : List Char} {parts : List (List Char)} :
      Ordinary sep → Cut sep 0 cs (part, parts) → Cut sep 0 (sep :: cs) ([], part :: parts)
  | other {c : Char} {depth : Nat} {cs : List Char} {parts : List Char × List (List Char)} :
      Ordinary c → ¬ (c = sep ∧ depth = 0) → Cut sep depth cs parts →
        Cut sep depth (c :: cs) (prepend [c] parts)

section Parts
variable {sep c : Char} {depth : Nat} {cs part : List Char} {parts : List Char × List (List Char)}

/-- The cases of a text that starts with no escape. -/
theorem topLevelParts_cons (slash : c ≠ '\\') :
    topLevelParts sep depth (c :: cs) =
      if isOpening c then (topLevelParts sep (depth + 1) cs).map (prepend [c])
      else if isClosing c then
        match depth with
        | 0 => none
        | depth + 1 => (topLevelParts sep depth cs).map (prepend [c])
      else if c = sep ∧ depth = 0 then
        (topLevelParts sep depth cs).map fun (part, parts) => ([], part :: parts)
      else (topLevelParts sep depth cs).map (prepend [c]) := by
  cases depth <;> simp [topLevelParts, slash]

theorem ordinary_of_cases (alone : c = '\\' → cs = [] → False)
    (behind : ∀ d ds, c = '\\' → cs = d :: ds → False) (opening : ¬ isOpening c = true)
    (closing : ¬ isClosing c = true) : Ordinary c where
  slash := by
    rintro rfl
    cases cs with
    | nil => exact alone rfl rfl
    | cons d ds => exact behind d ds rfl rfl
  opening := Bool.eq_false_iff.mpr opening
  closing := Bool.eq_false_iff.mpr closing

theorem topLevelParts_eq_some_iff :
    topLevelParts sep depth cs = some parts ↔ Cut sep depth cs parts := by
  constructor
  · intro found
    fun_induction topLevelParts sep depth cs generalizing parts with
    | case1 => cases found; exact .nil
    | case2 => cases found
    | case3 => cases found; exact .trailing
    | case4 => cases found
    | case5 depth c cs ih =>
      obtain ⟨inner, behind, rfl⟩ := Option.map_eq_some_iff.mp found
      exact .escape c (ih behind)
    | case6 depth c cs _ _ opening ih =>
      obtain ⟨inner, behind, rfl⟩ := Option.map_eq_some_iff.mp found
      exact .opening opening (ih behind)
    | case7 => cases found
    | case8 c cs _ _ _ closing depth ih =>
      obtain ⟨inner, behind, rfl⟩ := Option.map_eq_some_iff.mp found
      exact .closing closing (ih behind)
    | case9 depth c cs alone escapes opening closing at_sep ih =>
      obtain ⟨⟨part, parts⟩, rest, rfl⟩ := Option.map_eq_some_iff.mp found
      obtain ⟨rfl, rfl⟩ := at_sep
      exact .separator (ordinary_of_cases alone escapes opening closing) (ih rest)
    | case10 depth c cs alone escapes opening closing other ih =>
      obtain ⟨inner, behind, rfl⟩ := Option.map_eq_some_iff.mp found
      exact .other (ordinary_of_cases alone escapes opening closing) other (ih behind)
  · intro cut
    induction cut with
    | nil => simp [topLevelParts]
    | trailing => simp [topLevelParts]
    | escape c cut ih => simp [topLevelParts, ih]
    | opening opening cut ih =>
      rw [topLevelParts_cons (ne_slash_of_isOpening opening), if_pos opening, ih]
      rfl
    | closing closing cut ih =>
      rw [topLevelParts_cons (ne_slash_of_isClosing closing)]
      simp [not_isOpening_of_isClosing closing, closing, ih]
    | separator ordinary cut ih =>
      rw [topLevelParts_cons ordinary.slash]
      simp [ordinary.opening, ordinary.closing, ih]
    | other ordinary other cut ih =>
      rw [topLevelParts_cons ordinary.slash]
      simp [ordinary.opening, ordinary.closing, other, ih]

/-- A text is cut exactly if its braces and brackets pair, whatever the separator. -/
theorem exists_cut_iff : (∃ parts, Cut sep depth cs parts) ↔ Reading.Pairs ⟨depth, false⟩ cs := by
  -- The split counts in natural numbers: it stops at the first brace or bracket below zero.
  simp only [← topLevelParts_eq_some_iff, ← Option.isSome_iff_exists]
  fun_induction topLevelParts sep depth cs with
  | case1 => simp [Reading.pairs_nil]
  | case2 depth open_ => simp [Reading.pairs_nil, open_]
  | case3 => simp [Reading.pairs_cons, Reading.pairs_nil, Reading.after]
  | case4 depth open_ => simp [Reading.pairs_cons, Reading.pairs_nil, Reading.after, open_]
  | case5 depth c cs ih =>
    rw [Option.isSome_map, ih]
    simp [Reading.pairs_cons, Reading.after]
  | case6 depth c cs _ _ opening ih =>
    rw [Option.isSome_map, ih, Reading.pairs_cons, Reading.after_opening opening]
    exact (and_iff_right (Int.natCast_nonneg depth)).symm
  | case7 c cs _ _ _ closing =>
    refine iff_of_false Bool.false_ne_true fun pairs => ?_
    have nonneg := (Reading.pairs_cons.mp pairs).2.nonneg_depth
    rw [Reading.after_closing closing] at nonneg
    exact absurd nonneg (by decide)
  | case8 c cs _ _ _ closing depth ih =>
    rw [Option.isSome_map, ih, Reading.pairs_cons, Reading.after_closing_within closing]
    exact (and_iff_right (Int.natCast_nonneg (depth + 1))).symm
  | case9 depth c cs alone escapes opening closing at_sep ih =>
    have ordinary := ordinary_of_cases alone escapes opening closing
    rw [Option.isSome_map, ih, Reading.pairs_cons, Reading.after_ordinary ordinary]
    exact (and_iff_right (Int.natCast_nonneg depth)).symm
  | case10 depth c cs alone escapes opening closing other ih =>
    have ordinary := ordinary_of_cases alone escapes opening closing
    rw [Option.isSome_map, ih, Reading.pairs_cons, Reading.after_ordinary ordinary]
    exact (and_iff_right (Int.natCast_nonneg depth)).symm

namespace Cut

theorem pairs (cut : Cut sep depth cs parts) : Reading.Pairs ⟨depth, false⟩ cs :=
  exists_cut_iff.mp ⟨parts, cut⟩

/-- What is cut at one separator is cut at any other. -/
theorem exists_at (cut : Cut sep depth cs parts) (sep' : Char) : ∃ parts, Cut sep' depth cs parts :=
  exists_cut_iff.mpr cut.pairs

theorem joined (cut : Cut sep depth cs parts) : Options.joined sep parts = cs :=
  joined_topLevelParts (topLevelParts_eq_some_iff.mpr cut)

theorem unique {others : List Char × List (List Char)} (cut : Cut sep depth cs parts)
    (other : Cut sep depth cs others) : parts = others := by
  rw [← topLevelParts_eq_some_iff] at cut other
  exact Option.some.inj (cut.symm.trans other)

/-- A character without a meaning goes to the first part. -/
theorem of_ordinary (ordinary : Ordinary c) (other : c ≠ sep)
    (cut : Cut sep depth (c :: cs) parts) :
    ∃ inner, Cut sep depth cs inner ∧ parts = prepend [c] inner := by
  cases cut with
  | trailing => exact absurd rfl ordinary.slash
  | escape => exact absurd rfl ordinary.slash
  | opening opening => rw [ordinary.opening] at opening; cases opening
  | closing closing => rw [ordinary.closing] at closing; cases closing
  | separator => exact absurd rfl other
  | other _ _ cut => exact ⟨_, cut, rfl⟩

/-- No part is cut again. -/
theorem whole (cut : Cut sep depth cs parts) :
    Cut sep depth parts.1 (parts.1, []) ∧ ∀ part ∈ parts.2, Cut sep 0 part (part, []) := by
  induction cut with
  | nil => exact ⟨.nil, by simp⟩
  | trailing => exact ⟨.trailing, by simp⟩
  | escape c cut ih => exact ⟨.escape c ih.1, ih.2⟩
  | opening opening cut ih => exact ⟨.opening opening ih.1, ih.2⟩
  | closing closing cut ih => exact ⟨.closing closing ih.1, ih.2⟩
  | separator ordinary cut ih => exact ⟨.nil, List.forall_mem_cons.mpr ih⟩
  | other ordinary other cut ih => exact ⟨.other ordinary other ih.1, ih.2⟩

/-- A separator that nothing is open at cuts the text. -/
theorem append (cut : Cut sep depth cs parts) (plain : Ordinary sep)
    (settled : (cs.foldl Reading.after ⟨depth, false⟩).escaped = false) {back : List Char}
    {more : List Char × List (List Char)} (behind : Cut sep 0 back more) :
    Cut sep depth (cs ++ sep :: back) (parts.1, parts.2 ++ more.1 :: more.2) := by
  induction cut with
  | nil => exact .separator plain behind
  | trailing => cases settled
  | escape c cut ih => exact .escape c (ih settled)
  | opening opening cut ih =>
    rw [List.foldl_cons, Reading.after_opening opening] at settled
    exact .opening opening (ih settled)
  | closing closing cut ih =>
    rw [List.foldl_cons, Reading.after_closing_within closing] at settled
    exact .closing closing (ih settled)
  | separator ordinary cut ih =>
    rw [List.foldl_cons, Reading.after_ordinary ordinary] at settled
    exact .separator ordinary (ih settled)
  | other ordinary other cut ih =>
    rw [List.foldl_cons, Reading.after_ordinary ordinary] at settled
    exact .other ordinary other (ih settled)

/-- A text is not cut inside of a group, nor where it is a part of its own. -/
theorem through {sep' : Char} {deeper : Nat} (cut : Cut sep' depth cs parts)
    (kept : 0 < deeper ∨ sep' = sep ∧ parts.2 = [])
    (settled : (cs.foldl Reading.after ⟨depth, false⟩).escaped = false) {back : List Char}
    {more : List Char × List (List Char)} (behind : Cut sep deeper back more) :
    Cut sep (depth + deeper) (cs ++ back) (prepend cs more) := by
  induction cut with
  | nil => rw [Nat.zero_add]; exact behind
  | trailing => cases settled
  | escape c cut ih => exact .escape c (ih kept settled)
  | opening opening cut ih =>
    rw [List.foldl_cons, Reading.after_opening opening] at settled
    have inner := ih kept settled
    rw [Nat.add_right_comm] at inner
    exact .opening opening inner
  | closing closing cut ih =>
    rw [List.foldl_cons, Reading.after_closing_within closing] at settled
    rw [Nat.add_right_comm]
    exact .closing closing (ih kept settled)
  | separator ordinary cut ih =>
    rw [List.foldl_cons, Reading.after_ordinary ordinary] at settled
    rcases kept with within | ⟨-, alone⟩
    · exact .other ordinary (by omega) (ih (.inl within) settled)
    · cases alone
  | other ordinary other cut ih =>
    rw [List.foldl_cons, Reading.after_ordinary ordinary] at settled
    refine .other ordinary ?_ (ih kept settled)
    rintro ⟨at_sep, bare⟩
    rcases kept with within | ⟨same, -⟩
    · omega
    · exact other ⟨at_sep.trans same.symm, by omega⟩

end Cut

theorem reading_ordinary (ordinary : ∀ c ∈ cs, Ordinary c) : reading cs = ⟨0, false⟩ := by
  induction cs with
  | nil => rfl
  | cons c cs ih =>
    obtain ⟨first, ordinary⟩ := List.forall_mem_cons.mp ordinary
    rw [reading, List.foldl_cons, Reading.after_ordinary first]
    exact ih ordinary

/-- Without braces and brackets nothing is opened. -/
theorem depth_flat (flat : ∀ c ∈ cs, isOpening c = false ∧ isClosing c = false) (r : Reading) :
    (cs.foldl Reading.after r).depth = r.depth := by
  induction cs generalizing r with
  | nil => rfl
  | cons c cs ih =>
    obtain ⟨⟨opening, closing⟩, flat⟩ := List.forall_mem_cons.mp flat
    rw [List.foldl_cons, ih flat]
    simp only [Reading.after, opening, closing]
    split <;> try split
    all_goals rfl

/-- A text without separators is one part. -/
theorem cut_alone (pairs : Reading.Pairs ⟨0, false⟩ cs) (absent : sep ∉ cs) :
    Cut sep 0 cs (cs, []) := by
  obtain ⟨⟨first, more⟩, cut⟩ : ∃ parts, Cut sep 0 cs parts := exists_cut_iff.mpr pairs
  cases more with
  | nil =>
    obtain rfl : first = cs := (List.append_nil first).symm.trans cut.joined
    exact cut
  | cons part more =>
    refine absurd ?_ absent
    rw [← cut.joined]
    simp [Options.joined]

theorem pairs_flat (flat : ∀ c ∈ cs, isOpening c = false ∧ isClosing c = false) :
    Reading.Pairs ⟨0, false⟩ cs := by
  refine ⟨fun front inside => ?_, depth_flat flat _⟩
  have level := depth_flat (fun c member => flat c (inside.subset member)) ⟨0, false⟩
  exact Int.le_of_eq level.symm

end Parts

section Texts
variable {sep : Char} {s piece : String} {parts : List Char × List (List Char)}

/-- The parts of a text, each as a text. -/
def pieces (parts : List Char × List (List Char)) : List String := (parts.1 :: parts.2).map .ofList

theorem pieces_append (parts more : List Char × List (List Char)) :
    pieces (parts.1, parts.2 ++ more.1 :: more.2) = pieces parts ++ pieces more := by
  simp [pieces]

theorem intercalate_pieces (sep : Char) (parts : List Char × List (List Char)) :
    (String.singleton sep).intercalate (pieces parts) = .ofList (joined sep parts) := by
  obtain ⟨first, more⟩ := parts
  induction more generalizing first with
  | nil => simp [pieces, joined]
  | cons part more ih =>
    have behind := ih part
    rw [pieces, List.map_cons] at behind
    rw [pieces, List.map_cons, List.map_cons, String.intercalate_cons_cons, behind]
    refine String.toList_inj.mp ?_
    simp [joined]

theorem cut_of_mem_pieces {cs : List Char} (cut : Cut sep 0 cs parts)
    (member : piece ∈ pieces parts) :
    Cut sep 0 piece.toList (piece.toList, []) := by
  obtain ⟨part, inside, rfl⟩ := List.mem_map.mp member
  obtain ⟨first, more⟩ := cut.whole
  rw [String.toList_ofList]
  rcases List.mem_cons.mp inside with rfl | inside
  · exact first
  · exact more part inside

theorem splitTopLevel_of_cut (cut : Cut sep 0 s.toList parts) :
    splitTopLevel sep s = .ok (pieces parts) := by
  rw [splitTopLevel, topLevelParts_eq_some_iff.mpr cut]
  rfl

theorem splitTopLevel_eq_ok_iff {found : List String} :
    splitTopLevel sep s = .ok found ↔ ∃ parts, Cut sep 0 s.toList parts ∧ pieces parts = found := by
  constructor
  · intro split_
    unfold splitTopLevel at split_
    split at split_
    next part more cut =>
      exact ⟨_, topLevelParts_eq_some_iff.mp cut, Except.ok.inj split_⟩
    next => cases split_
  · rintro ⟨parts, cut, rfl⟩
    exact splitTopLevel_of_cut cut

theorem splitTopLevel_eq_error_iff :
    (∃ fault, splitTopLevel sep s = .error fault) ↔ ¬ Reading.Pairs ⟨0, false⟩ s.toList := by
  have cuts : (∃ parts, Cut sep 0 s.toList parts) ↔ Reading.Pairs ⟨0, false⟩ s.toList :=
    exists_cut_iff
  rw [← cuts]
  constructor
  · rintro ⟨fault, failed⟩ ⟨parts, cut⟩
    rw [splitTopLevel_of_cut cut] at failed
    cases failed
  · intro none_
    cases split_ : splitTopLevel sep s with
    | error fault => exact ⟨fault, rfl⟩
    | ok found =>
      obtain ⟨parts, cut, -⟩ := splitTopLevel_eq_ok_iff.mp split_
      exact absurd ⟨parts, cut⟩ none_

/-- The option that a part stands for: up to the first equals sign its name, behind it its value. -/
@[irreducible]
def entry (piece : String) : String × String :=
  let key := ((topLevelParts '=' 0 piece.toList).map (·.1)).getD []
  (Text.trim (.ofList key), ungroup (Text.trim (.ofList (piece.toList.drop (key.length + 1)))))

theorem entry_of_cut (cut : Cut '=' 0 piece.toList parts) :
    entry piece = (Text.trim (.ofList parts.1),
      ungroup (Text.trim (.ofList (piece.toList.drop (parts.1.length + 1))))) := by
  rw [entry, topLevelParts_eq_some_iff.mpr cut]
  rfl

theorem pair_of_cut (cut : Cut '=' 0 piece.toList parts) : pair piece = .ok (entry piece) := by
  rw [entry_of_cut cut]
  obtain ⟨key, more⟩ := parts
  simp only [pair, splitTopLevel_of_cut cut, pieces, bind, Except.bind, List.map_cons]
  cases more with
  | nil =>
    have whole : key = piece.toList := (List.append_nil key).symm.trans cut.joined
    rw [← whole, List.drop_eq_nil_of_le (Nat.le_succ _)]
    rfl
  | cons value more =>
    simp only [List.map_cons, String.length_ofList]
    rfl

def entries (found : List String) : List (String × String) :=
  (found.filter (!Text.allBlank ·)).map entry

theorem entries_append (found more : List String) :
    entries (found ++ more) = entries found ++ entries more := by
  simp [entries]

theorem mapM_eq_ok {α β ε : Type} {f : α → Except ε β} {g : α → β} {xs : List α}
    (each : ∀ x ∈ xs, f x = .ok (g x)) : xs.mapM f = .ok (xs.map g) := by
  induction xs with
  | nil => rfl
  | cons x xs ih =>
    obtain ⟨first, each⟩ := List.forall_mem_cons.mp each
    rw [List.mapM_cons, first, ih each]
    rfl

/-- Whatever is split is read: in each part the braces and brackets pair too. -/
theorem parse_of_cut (cut : Cut ',' 0 s.toList parts) : parse s = .ok ⟨entries (pieces parts)⟩ := by
  have each : ∀ piece ∈ (pieces parts).filter (!Text.allBlank ·),
      pair piece = .ok (entry piece) := by
    intro piece member
    have whole := cut_of_mem_pieces cut (List.mem_filter.mp member).1
    obtain ⟨parts, cut⟩ := whole.exists_at '='
    exact pair_of_cut cut
  simp only [parse, splitTopLevel_of_cut cut, mapM_eq_ok each, bind, Except.bind]
  rfl

theorem parse_eq_ok_iff {s : String} {options : Options} :
    parse s = .ok options ↔
      ∃ parts, Cut ',' 0 s.toList parts ∧ options = ⟨entries (pieces parts)⟩ := by
  constructor
  · intro parsed
    cases split_ : splitTopLevel ',' s with
    | error fault =>
      rw [parse, split_] at parsed
      cases parsed
    | ok found =>
      obtain ⟨parts, cut, -⟩ := splitTopLevel_eq_ok_iff.mp split_
      rw [parse_of_cut cut] at parsed
      exact ⟨parts, cut, (Except.ok.inj parsed).symm⟩
  · rintro ⟨parts, cut, rfl⟩
    exact parse_of_cut cut

/-- Splitting fails exactly if somewhere in the text more braces and brackets are closed than were
opened, or some are open at its end, escaped ones apart. The parts with the separator between them
are the text, and none of them is split again. Options are read from a text exactly if it is split
at its commas. -/
theorem splitTopLevel_parts (s : String) :
    (∀ sep,
      ((∃ fault, splitTopLevel sep s = .error fault) ↔
        (∃ front, front <+: s.toList ∧ (reading front).depth < 0) ∨
          (reading s.toList).depth ≠ 0) ∧
      ∀ found, splitTopLevel sep s = .ok found →
        (String.singleton sep).intercalate found = s ∧
          ∀ piece ∈ found, splitTopLevel sep piece = .ok [piece]) ∧
      ((∃ fault, parse s = .error fault) ↔ ∃ fault, splitTopLevel ',' s = .error fault) := by
  refine ⟨fun sep => ⟨?_, fun found split_ => ?_⟩, ?_, ?_⟩
  · rw [splitTopLevel_eq_error_iff, Reading.pairs_iff, not_and_or]
    simp only [not_forall, Int.not_le, exists_prop]
    rfl
  · obtain ⟨parts, cut, rfl⟩ := splitTopLevel_eq_ok_iff.mp split_
    refine ⟨?_, fun piece member => ?_⟩
    · rw [intercalate_pieces, cut.joined, String.ofList_toList]
    · rw [splitTopLevel_of_cut (cut_of_mem_pieces cut member), pieces, List.map_cons,
        String.ofList_toList]
      rfl
  · rintro ⟨fault, failed⟩
    cases split_ : splitTopLevel ',' s with
    | error fault => exact ⟨fault, rfl⟩
    | ok found =>
      obtain ⟨parts, cut, -⟩ := splitTopLevel_eq_ok_iff.mp split_
      rw [parse_of_cut cut] at failed
      cases failed
  · rintro ⟨fault, failed⟩
    refine ⟨fault, ?_⟩
    rw [parse, failed]
    rfl

theorem splitTopLevel_parts_of_escapes :
    splitTopLevel ',' "a,\x7bb,c\x7d,\\,\\" = .ok ["a", "\x7bb,c\x7d", "\\,\\"] ∧
      (String.singleton ',').intercalate ["a", "\x7bb,c\x7d", "\\,\\"] = "a,\x7bb,c\x7d,\\,\\" ∧
      ∀ piece ∈ ["a", "\x7bb,c\x7d", "\\,\\"], splitTopLevel ',' piece = .ok [piece] := by
  have split_ : splitTopLevel ',' "a,\x7bb,c\x7d,\\,\\" = .ok ["a", "\x7bb,c\x7d", "\\,\\"] := rfl
  exact ⟨split_, ((splitTopLevel_parts "a,\x7bb,c\x7d,\\,\\").1 ',').2 _ split_⟩

end Texts
end Quire.Options
