import Quire.Labels.Record

/-! Groups that are written in braces and read again, at any depth. The scan of a group in its place
is the scan of the group alone, one level deeper: so each group that is found can be read once more,
and the body of a record always has fields. Main statement: `parse_nested`. -/
namespace Quire.Braces

def settled : List Char → Bool
  | [] => true
  | ['\\'] => false
  | '\\' :: _ :: cs => settled cs
  | _ :: cs => settled cs

/-- Text that may stand between groups, and hides nothing of the group behind it. -/
def IsGap (gap : String) : Prop := ∀ c ∈ gap.toList, c ∉ ['\\', '\x7b', '\x7d']

instance (gap : String) : Decidable (IsGap gap) := List.decidableBAll _ _

/-- A text that can be read as groups of its own, and leaves the brace behind it its meaning. -/
structure IsGroup (group : String) : Prop where
  accepted : ∃ inner, parse group = .ok inner
  settled : settled group.toList = true

def braced (gap group : String) : String := .join [gap, "\x7b", group, "\x7d"]

def written (groups : List (String × String)) (tail : String) : String :=
  .join (groups.map fun (gap, group) => braced gap group) ++ tail

/-- With `depth` braces open in front of it, the braces of a text pair, and each of its backslashes
takes a character. -/
inductive Nested : Nat → List Char → Prop
  | nil : Nested 0 []
  | escape (c : Char) {depth : Nat} {cs : List Char} :
      Nested depth cs → Nested depth ('\\' :: c :: cs)
  | opening {depth : Nat} {cs : List Char} : Nested (depth + 1) cs → Nested depth ('\x7b' :: cs)
  | closing {depth : Nat} {cs : List Char} : Nested depth cs → Nested (depth + 1) ('\x7d' :: cs)
  | other {c : Char} {depth : Nat} {cs : List Char} (slash : c ≠ '\\') (opening : c ≠ '\x7b')
      (closing : c ≠ '\x7d') : Nested depth cs → Nested depth (c :: cs)

section Scan
variable {depth : Nat} {c : Char} {cs rest : List Char}
  {parts behind : List Char × List (List Char)}

theorem groupsAt_escape :
    groupsAt depth ('\\' :: c :: cs) = (groupsAt depth cs).map (keep depth ['\\', c]) := by
  simp [groupsAt]

theorem groupsAt_opening_within : groupsAt (depth + 1) ('\x7b' :: cs) =
    (groupsAt (depth + 2) cs).map (keep (depth + 1) ['\x7b']) := by
  simp [groupsAt]

theorem groupsAt_closing_within : groupsAt (depth + 2) ('\x7d' :: cs) =
    (groupsAt (depth + 1) cs).map (keep (depth + 2) ['\x7d']) := by
  simp [groupsAt]

theorem groupsAt_other (slash : c ≠ '\\') (opening : c ≠ '\x7b') (closing : c ≠ '\x7d') :
    groupsAt depth (c :: cs) = (groupsAt depth cs).map (keep depth [c]) := by
  rw [groupsAt.eq_def]
  simp [slash, opening, closing]

theorem isSome_opening :
    (groupsAt depth ('\x7b' :: cs)).isSome = (groupsAt (depth + 1) cs).isSome := by
  cases depth <;> simp [groupsAt]

theorem isSome_closing :
    (groupsAt (depth + 1) ('\x7d' :: cs)).isSome = (groupsAt depth cs).isSome := by
  cases depth <;> simp [groupsAt]

theorem settled_cons (slash : c ≠ '\\') : settled (c :: cs) = settled cs := by
  simp [settled, slash]

/-- A backslash has its meaning whatever follows it. -/
theorem ne_slash_of_cases (alone : c = '\\' → cs = [] → False)
    (before : ∀ d ds, c = '\\' → cs = d :: ds → False) : c ≠ '\\' := by
  rintro rfl
  cases cs with
  | nil => exact alone rfl rfl
  | cons d ds => exact before d ds rfl rfl

/-- The scan succeeds on texts whose braces pair, and on those with a backslash at their end. -/
theorem nested_iff : Nested depth cs ↔ (groupsAt depth cs).isSome ∧ settled cs = true := by
  constructor
  · intro nested
    induction nested with
    | nil => exact ⟨rfl, rfl⟩
    | escape c nested ih => rwa [groupsAt_escape, Option.isSome_map, settled]
    | opening nested ih => rwa [isSome_opening, settled_cons (by decide)]
    | closing nested ih => rwa [isSome_closing, settled_cons (by decide)]
    | other slash opening closing nested ih =>
      rwa [groupsAt_other slash opening closing, Option.isSome_map, settled_cons slash]
  · rintro ⟨accepted, whole⟩
    fun_induction groupsAt depth cs with
    | case1 => exact .nil
    | case2 => cases accepted
    | case3 => cases whole
    | case4 => cases accepted
    | case5 depth c cs ih => exact .escape c (ih (Option.isSome_map ▸ accepted) whole)
    | case6 cs _ _ ih =>
      rw [Option.isSome_map] at accepted
      exact .opening (ih accepted whole)
    | case7 cs depth _ _ ih =>
      rw [Option.isSome_map] at accepted
      exact .opening (ih accepted whole)
    | case8 => cases accepted
    | case9 cs _ _ _ ih =>
      rw [Option.isSome_map] at accepted
      exact .closing (ih accepted whole)
    | case10 cs depth _ _ _ ih =>
      rw [Option.isSome_map] at accepted
      exact .closing (ih accepted whole)
    | case11 depth c cs alone before opening closing ih =>
      have slash := ne_slash_of_cases alone before
      rw [Option.isSome_map] at accepted
      rw [settled_cons slash] at whole
      exact .other slash opening closing (ih accepted whole)

/-- A text whose braces pair at some depth is kept as it is where more is open. -/
theorem Nested.groupsAt_append (nested : Nested depth cs) (more : Nat)
    (read : groupsAt (more + 1) rest = some behind) :
    groupsAt (depth + more + 1) (cs ++ rest) = some (cs ++ behind.1, behind.2) := by
  induction nested with
  | nil => rwa [Nat.zero_add]
  | escape c nested ih =>
    rw [List.cons_append, List.cons_append, groupsAt_escape, ih]
    rfl
  | @opening depth cs nested ih =>
    have deeper : depth + more + 2 = depth + 1 + more + 1 := by omega
    rw [List.cons_append, groupsAt_opening_within, deeper, ih]
    rfl
  | @closing depth cs nested ih =>
    have here : depth + 1 + more + 1 = depth + more + 2 := by omega
    rw [List.cons_append, here, groupsAt_closing_within, ih]
    rfl
  | other slash opening closing nested ih =>
    rw [List.cons_append, groupsAt_other slash opening closing, ih]
    rfl

/-- What is read of a text pairs on its own: each of its groups, and the rest of the group that is
open in front of it, one level less deep. -/
theorem nested_of_groupsAt (read : groupsAt depth cs = some parts) :
    (∀ group ∈ parts.2, Nested 0 group) ∧ ∀ outer, depth = outer + 1 → Nested outer parts.1 := by
  fun_induction groupsAt depth cs generalizing parts with
  | case1 => cases read; simp
  | case2 => cases read
  | case3 => cases read; simp
  | case4 => cases read
  | case5 depth c cs ih =>
    obtain ⟨inner, found, rfl⟩ := Option.map_eq_some_iff.mp read
    obtain ⟨groups, open_⟩ := ih found
    cases depth with
    | zero => exact ⟨groups, open_⟩
    | succ => exact ⟨groups, fun outer same => .escape c (open_ outer same)⟩
  | case6 cs _ _ ih =>
    obtain ⟨inner, found, rfl⟩ := Option.map_eq_some_iff.mp read
    obtain ⟨groups, open_⟩ := ih found
    refine ⟨List.forall_mem_cons.mpr ⟨open_ 0 rfl, groups⟩, fun outer same => ?_⟩
    cases same
  | case7 cs depth _ _ ih =>
    obtain ⟨inner, found, rfl⟩ := Option.map_eq_some_iff.mp read
    obtain ⟨groups, open_⟩ := ih found
    refine ⟨groups, fun outer same => ?_⟩
    cases same
    exact .opening (open_ _ rfl)
  | case8 => cases read
  | case9 cs _ _ _ ih =>
    obtain ⟨inner, found, rfl⟩ := Option.map_eq_some_iff.mp read
    refine ⟨(ih found).1, fun outer same => ?_⟩
    cases same
    exact .nil
  | case10 cs depth _ _ _ ih =>
    obtain ⟨inner, found, rfl⟩ := Option.map_eq_some_iff.mp read
    obtain ⟨groups, open_⟩ := ih found
    refine ⟨groups, fun outer same => ?_⟩
    cases same
    exact .closing (open_ depth rfl)
  | case11 depth c cs alone before opening closing ih =>
    obtain ⟨inner, found, rfl⟩ := Option.map_eq_some_iff.mp read
    obtain ⟨groups, open_⟩ := ih found
    cases depth with
    | zero => exact ⟨groups, open_⟩
    | succ =>
      have slash := ne_slash_of_cases alone before
      exact ⟨groups, fun outer same => .other slash opening closing (open_ outer same)⟩

end Scan

section Text
variable {s group gap tail : String} {found : List String} {rest : List Char}

theorem parse_eq_ok_iff :
    parse s = .ok found ↔
      ∃ parts, groupsAt 0 s.toList = some parts ∧ parts.2.map .ofList = found := by
  unfold parse
  split
  next open_ groups read => simp [read]
  next failed => simp [failed]

theorem isGroup_iff : IsGroup group ↔ Nested 0 group.toList := by
  rw [nested_iff, Option.isSome_iff_exists]
  constructor
  · rintro ⟨⟨inner, read⟩, whole⟩
    obtain ⟨parts, scanned, -⟩ := parse_eq_ok_iff.mp read
    exact ⟨⟨parts, scanned⟩, whole⟩
  · rintro ⟨⟨parts, scanned⟩, whole⟩
    exact ⟨⟨_, parse_eq_ok_iff.mpr ⟨parts, scanned, rfl⟩⟩, whole⟩

theorem IsGap.groupsAt_append (isGap : IsGap gap) (rest : List Char) :
    groupsAt 0 (gap.toList ++ rest) = groupsAt 0 rest := by
  unfold IsGap at isGap
  generalize gap.toList = cs at isGap
  induction cs with
  | nil => rfl
  | cons c cs ih =>
    obtain ⟨plain, isGap⟩ := List.forall_mem_cons.mp isGap
    simp only [List.mem_cons, List.not_mem_nil, or_false, not_or] at plain
    obtain ⟨slash, opening, closing⟩ := plain
    rw [List.cons_append, groupsAt_other slash opening closing, ih isGap]
    exact Option.map_id'

theorem IsGap.groupsAt (isGap : IsGap gap) : groupsAt 0 gap.toList = some ([], []) := by
  have alone := isGap.groupsAt_append []
  rwa [List.append_nil] at alone

theorem groupsAt_braced (isGap : IsGap gap) (isGroup : IsGroup group) {groups : List (List Char)}
    (read : groupsAt 0 rest = some ([], groups)) :
    groupsAt 0 ((braced gap group).toList ++ rest) = some ([], group.toList :: groups) := by
  have chars : (braced gap group).toList ++ rest =
      gap.toList ++ '\x7b' :: (group.toList ++ '\x7d' :: rest) := by simp [braced]
  have closed : groupsAt 1 ('\x7d' :: rest) = some ([], groups) := by simp [groupsAt, read]
  have scanned := (isGroup_iff.mp isGroup).groupsAt_append 0 closed
  rw [chars, isGap.groupsAt_append]
  simp only [Nat.zero_add, List.append_nil] at scanned
  simp [Braces.groupsAt, scanned]

/-- Groups that are written in braces are read in their order, with all that they hold. -/
theorem parse_braced {groups : List (String × String)} (tailIsGap : IsGap tail)
    (fit : ∀ g ∈ groups, IsGap g.1 ∧ IsGroup g.2) :
    parse (written groups tail) = .ok (groups.map (·.2)) := by
  have scanned : groupsAt 0 (written groups tail).toList =
      some ([], groups.map (·.2.toList)) := by
    induction groups with
    | nil => simpa [written] using tailIsGap.groupsAt
    | cons g groups ih =>
      obtain ⟨⟨isGap, isGroup⟩, fit⟩ := List.forall_mem_cons.mp fit
      have chars : (written (g :: groups) tail).toList =
          (braced g.1 g.2).toList ++ (written groups tail).toList := by simp [written]
      rw [chars, groupsAt_braced isGap isGroup (ih fit)]
      rfl
  refine parse_eq_ok_iff.mpr ⟨_, scanned, ?_⟩
  simp [Function.comp_def]

theorem isGroup_of_parse (read : parse s = .ok found) : ∀ group ∈ found, IsGroup group := by
  obtain ⟨parts, scanned, rfl⟩ := parse_eq_ok_iff.mp read
  intro group member
  obtain ⟨cs, inside, rfl⟩ := List.mem_map.mp member
  have nested := (nested_of_groupsAt scanned).1 cs inside
  rwa [isGroup_iff, String.toList_ofList]

/-- Groups that are written in braces are read in their order, with all that they hold. Each group
that is read is one that can be written so. The body of a record always has fields, so that a
record says nothing only for its name or for the lack of a page. -/
theorem parse_nested :
    (∀ groups tail, (∀ g ∈ groups, IsGap g.1 ∧ IsGroup g.2) → IsGap tail →
      parse (written groups tail) = .ok (groups.map (·.2))) ∧
    (∀ s found, parse s = .ok found → ∀ group ∈ found, IsGroup group) ∧
    ∀ rest name body, parse rest = .ok [name, body] → ∃ fields, parse body = .ok fields ∧
      (Labels.Record.ofGroups? [name, body] = none ↔
        (Text.stripEnd? "@cref" name).isSome ∨ fields.length < 2) := by
  refine ⟨fun groups tail fit isGap => parse_braced isGap fit, fun s found => isGroup_of_parse,
    fun rest name body read => ?_⟩
  obtain ⟨fields, inner⟩ := (isGroup_of_parse read body (by simp)).accepted
  refine ⟨fields, inner, ?_⟩
  simp only [Labels.Record.ofGroups?, inner]
  cases Text.stripEnd? "@cref" name <;>
    rcases fields with _ | ⟨number, _ | ⟨page, more⟩⟩ <;> simp

theorem parse_nested_of_record :
    (IsGap " " ∧ IsGroup "a\x7bb\x7d\\\x7d") ∧ (IsGap "" ∧ IsGroup "") ∧ IsGap "c" ∧
      parse (written [(" ", "a\x7bb\x7d\\\x7d"), ("", "")] "c") = .ok ["a\x7bb\x7d\\\x7d", ""] ∧
      parse "\x7bsec:a\x7d\x7b\x7b1.2\x7d\x7b5\x7d\x7d" = .ok ["sec:a", "\x7b1.2\x7d\x7b5\x7d"] ∧
      ∃ fields, parse "\x7b1.2\x7d\x7b5\x7d" = .ok fields ∧
        (Labels.Record.ofGroups? ["sec:a", "\x7b1.2\x7d\x7b5\x7d"] = none ↔
          (Text.stripEnd? "@cref" "sec:a").isSome ∨ fields.length < 2) := by
  have first : IsGap " " ∧ IsGroup "a\x7bb\x7d\\\x7d" := ⟨by decide, ⟨⟨_, rfl⟩, rfl⟩⟩
  have second : IsGap "" ∧ IsGroup "" := ⟨by decide, ⟨⟨_, rfl⟩, rfl⟩⟩
  have tail : IsGap "c" := by decide
  have record : parse "\x7bsec:a\x7d\x7b\x7b1.2\x7d\x7b5\x7d\x7d" =
      .ok ["sec:a", "\x7b1.2\x7d\x7b5\x7d"] := rfl
  obtain ⟨back, -, fields⟩ := parse_nested
  refine ⟨first, second, tail, back _ _ ?_ tail, record, fields _ _ _ record⟩
  exact List.forall_mem_cons.mpr ⟨first, List.forall_mem_singleton.mpr second⟩

end Text
end Quire.Braces
