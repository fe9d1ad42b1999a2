import Quire.Proofs.Options.Split
import Quire.Proofs.Text.Trim

/-! Options that are written with each value in braces, and read again. The split takes an escaped
brace for a character without meaning; the scan that takes the braces off a value reads it like any
other. So a value comes back as it was exactly if it has as many opening as closing braces, escaped
ones included, each behind its own. Main statement: `parse_written`. -/
namespace Quire.Options

@[mk_iff]
structure IsName (name : String) : Prop where
  some_ : name ≠ ""
  trimmed : Text.trim name = name
  plain : ∀ c ∈ name.toList, c ∉ [',', '=', '\x7b', '\x7d', '[', ']', '\\']

instance (name : String) : Decidable (IsName name) :=
  @decidable_of_iff' _ _ (isName_iff name)
    (@instDecidableAnd _ _ _ (@instDecidableAnd _ _ _ (List.decidableBAll _ _)))

/-- A value that can be split, and leaves the brace behind it its meaning. -/
structure IsValue (value : String) : Prop where
  split : ∃ found, splitTopLevel ',' value = .ok found
  settled : (reading value.toList).escaped = false

def braced (value : String) : String := "\x7b" ++ value ++ "\x7d"

/-- Options as a text, with each value in braces. -/
def written (pairs : List (String × String)) : String :=
  ", ".intercalate (pairs.map fun (name, value) => name ++ "=" ++ braced value)

/-- With `depth` open braces in front of it, the braces of a text belong together. The scan behind
this reads a brace after a backslash like any other. -/
def BracesMatch (depth : Nat) (cs : List Char) : Prop :=
  (∀ front ∈ cs.inits, front.count '\x7d' ≤ depth + front.count '\x7b') ∧
    cs.count '\x7d' = depth + cs.count '\x7b'

instance (depth : Nat) (cs : List Char) : Decidable (BracesMatch depth cs) :=
  inferInstanceAs (Decidable (_ ∧ _))

def kept (value : String) : String := if BracesMatch 0 value.toList then value else braced value

section Group
variable {depth : Nat} {cs body : List Char}

/-- A group ends in front of a brace. -/
theorem prefix_of_groupBody? (found : groupBody? depth cs = some body) :
    body ++ ['\x7d'] <+: cs := by
  fun_induction groupBody? depth cs generalizing body with
  | case1 => cases found
  | case3 => cases found; exact ⟨_, rfl⟩
  | case2 | case4 | case5 =>
    rename_i ih
    obtain ⟨inner, behind, rfl⟩ := Option.map_eq_some_iff.mp found
    exact List.cons_prefix_cons.mpr ⟨rfl, ih behind⟩

theorem bracesMatch_opening : BracesMatch depth ('\x7b' :: cs) ↔ BracesMatch (depth + 1) cs := by
  simp [BracesMatch, Nat.add_assoc, Nat.add_comm 1]

theorem bracesMatch_closing :
    BracesMatch (depth + 1) ('\x7d' :: cs) ↔ BracesMatch depth cs := by
  simp [BracesMatch, Nat.add_right_comm _ 1]

theorem not_bracesMatch_closing : ¬ BracesMatch 0 ('\x7d' :: cs) := by
  intro ⟨inside, _⟩
  have first := inside ['\x7d'] (by simp)
  simp at first

theorem bracesMatch_other {c : Char} (opening : c ≠ '\x7b') (closing : c ≠ '\x7d') :
    BracesMatch depth (c :: cs) ↔ BracesMatch depth cs := by
  simp [BracesMatch, List.count_cons_of_ne opening, List.count_cons_of_ne closing]

/-- A group is closed behind a text exactly if none of its braces closes it before. -/
theorem groupBody?_eq_some_iff :
    groupBody? depth (cs ++ ['\x7d']) = some cs ↔ BracesMatch depth cs := by
  induction cs generalizing depth with
  | nil => cases depth <;> simp [groupBody?, BracesMatch]
  | cons c cs ih =>
    rw [List.cons_append]
    by_cases opening : c = '\x7b'
    · subst opening
      rw [bracesMatch_opening, ← ih]
      simp [groupBody?]
    by_cases closing : c = '\x7d'
    · subst closing
      cases depth with
      | zero => simp [groupBody?, not_bracesMatch_closing]
      | succ depth =>
        rw [bracesMatch_closing, ← ih]
        simp [groupBody?]
    · rw [bracesMatch_other opening closing, ← ih]
      simp [groupBody?, opening, closing]

theorem ungroup_braced (value : String) : ungroup (braced value) = kept value := by
  have chars : (braced value).toList = '\x7b' :: (value.toList ++ ['\x7d']) := by simp [braced]
  rw [kept, ungroup, chars]
  by_cases matched : BracesMatch 0 value.toList
  · simp [groupBody?_eq_some_iff.mpr matched, matched]
  · rw [if_neg matched]
    cases found : groupBody? 0 (value.toList ++ ['\x7d']) with
    | none => simp [found]
    | some body =>
      have shorter : body.length ≠ value.toList.length := by
        intro same
        have whole := (prefix_of_groupBody? found).eq_of_length (by simp [same])
        rw [List.append_cancel_right whole] at found
        exact matched (groupBody?_eq_some_iff.mp found)
      simp [found, shorter]

end Group

section Option
variable {name value : String} {lead : List Char}

/-- The characters of one option, behind some blanks. -/
def optionChars (lead : List Char) (option : String × String) : List Char :=
  (lead ++ option.1.toList) ++ '=' :: (braced option.2).toList

theorem toList_braced (value : String) :
    (braced value).toList = '\x7b' :: (value.toList ++ ['\x7d']) := by
  simp [braced]

/-- Nothing is cut in a value in braces. -/
theorem IsValue.cut (isValue : IsValue value) (sep : Char) :
    Cut sep 0 (braced value).toList ((braced value).toList, []) := by
  obtain ⟨found, split_⟩ := isValue.split
  obtain ⟨parts, cut, -⟩ := splitTopLevel_eq_ok_iff.mp split_
  have closed : Cut sep 1 ['\x7d'] (['\x7d'], []) := .closing rfl .nil
  have inner := cut.through (.inl Nat.one_pos) isValue.settled closed
  rw [toList_braced]
  exact .opening rfl inner

/-- Nothing is open in a name, nor in the blanks in front of it. -/
theorem IsName.ordinary (isName : IsName name) (blank : ∀ c ∈ lead, c = ' ') :
    ∀ c ∈ lead ++ name.toList, c ∉ [',', '='] ∧ Ordinary c := by
  intro c member
  rcases List.mem_append.mp member with inside | inside
  · obtain rfl := blank c inside
    exact ⟨by decide, by decide⟩
  · have plain := isName.plain c inside
    simp only [List.mem_cons, List.not_mem_nil, or_false, not_or] at plain
    obtain ⟨comma, equals, opening, closing, opening', closing', slash⟩ := plain
    exact ⟨by simp [comma, equals], slash, by simp [isOpening, opening, opening'],
      by simp [isClosing, closing, closing']⟩

theorem IsName.cut (isName : IsName name) (blank : ∀ c ∈ lead, c = ' ') {sep : Char}
    (known : sep ∈ [',', '=']) :
    Cut sep 0 (lead ++ name.toList) (lead ++ name.toList, []) ∧
      (reading (lead ++ name.toList)).escaped = false := by
  have ordinary := isName.ordinary blank
  constructor
  · refine cut_alone (pairs_flat fun c member => ?_) ?_
    · exact ⟨(ordinary c member).2.opening, (ordinary c member).2.closing⟩
    · intro inside
      exact (ordinary sep inside).1 known
  · rw [reading_ordinary fun c member => (ordinary c member).2]

/-- Between commas an option is one part. -/
theorem cut_option (isName : IsName name) (isValue : IsValue value) (blank : ∀ c ∈ lead, c = ' ') :
    Cut ',' 0 (optionChars lead (name, value)) (optionChars lead (name, value), []) := by
  have equals : Ordinary '=' := by decide
  obtain ⟨front, settled⟩ := isName.cut blank (List.mem_cons_self : ',' ∈ [',', '='])
  have behind : Cut ',' 0 ('=' :: (braced value).toList) ('=' :: (braced value).toList, []) :=
    .other equals (by decide) (isValue.cut ',')
  exact front.through (.inr ⟨rfl, rfl⟩) settled behind

theorem trim_braced (value : String) : Text.trim (braced value) = braced value := by
  have front : (braced value).toList.dropWhile Text.isBlank =
      ('\x7b' :: value.toList) ++ ['\x7d'] := by
    rw [toList_braced]
    exact List.dropWhile_cons_of_neg (by decide)
  rw [Text.trim, front, Text.dropEndWhile_append_stop (by decide)]
  refine String.toList_inj.mp ?_
  rw [toList_braced]
  simp [Text.dropEndWhile]

/-- The first equals sign of an option stands behind its name, so the option is read as it is
written, with its value as it is kept. -/
theorem entry_option (isName : IsName name) (isValue : IsValue value)
    (blank : ∀ c ∈ lead, c = ' ') :
    entry (.ofList (optionChars lead (name, value))) = (name, kept value) := by
  obtain ⟨front, settled⟩ := isName.cut blank (by decide : '=' ∈ [',', '='])
  have cut : Cut '=' 0 (String.ofList (optionChars lead (name, value))).toList
      (lead ++ name.toList, [(braced value).toList]) := by
    rw [String.toList_ofList]
    exact front.append (by decide) settled (isValue.cut '=')
  have key : Text.trim (.ofList (lead ++ name.toList)) = name := by
    have led : Text.allBlank (.ofList lead) = true := by
      rw [Text.allBlank, String.toList_ofList, List.all_eq_true]
      intro c member
      rw [blank c member]
      rfl
    have padded := Text.trim_pad led (show Text.allBlank "" = true from rfl) name
    rw [String.append_empty, isName.trimmed] at padded
    rwa [String.ofList_append, String.ofList_toList]
  have behind : (optionChars lead (name, value)).drop ((lead ++ name.toList).length + 1) =
      (braced value).toList := by
    rw [optionChars, List.drop_append]
    simp
  rw [entry_of_cut cut, key, String.toList_ofList, behind, String.ofList_toList, trim_braced,
    ungroup_braced]

end Option

section List
variable {pairs : List (String × String)}

/-- Of options with names and values the later ones stand behind a comma and a blank. -/
theorem cut_written {first : String × String} {more : List (String × String)}
    (names : ∀ option ∈ first :: more, IsName option.1)
    (values : ∀ option ∈ first :: more, IsValue option.2) {lead : List Char}
    (blank : ∀ c ∈ lead, c = ' ') :
    Cut ',' 0 (lead ++ (written (first :: more)).toList)
      (optionChars lead first, more.map (optionChars [' '])) := by
  -- The blank behind a comma is read with the next option, so the induction allows for blanks.
  induction more generalizing first lead with
  | nil =>
    have alone : lead ++ (written [first]).toList = optionChars lead first := by
      simp [written, optionChars]
    rw [alone]
    exact cut_option (names first List.mem_cons_self) (values first List.mem_cons_self) blank
  | cons next more ih =>
    obtain ⟨name, names⟩ := List.forall_mem_cons.mp names
    obtain ⟨value, values⟩ := List.forall_mem_cons.mp values
    have whole : lead ++ (written (first :: next :: more)).toList =
        optionChars lead first ++ ',' :: ([' '] ++ (written (next :: more)).toList) := by
      simp [written, optionChars, String.intercalate_cons_cons]
    have settled : (reading (optionChars lead first)).escaped = false := by
      have ended : optionChars lead first =
          (lead ++ first.1.toList ++ '=' :: '\x7b' :: first.2.toList) ++ ['\x7d'] := by
        simp [optionChars, toList_braced]
      rw [ended]
      exact Reading.settled_concat (by decide) _ _
    rw [whole]
    exact (cut_option name value blank).append (by decide) settled
      (ih names values (by simp))

theorem get?_of_last {options : Options} (option : String × String)
    {front behind : List (String × String)} (pairs : options.pairs = front ++ option :: behind)
    (last : ∀ later ∈ behind, later.1 ≠ option.1) : options.get? option.1 = some option.2 := by
  have none_ : behind.reverse.find? (·.1 == option.1) = none := by
    simpa using last
  rw [get?, pairs]
  simp [none_]

/-- The options that come back. -/
def keep (option : String × String) : String × String := (option.1, kept option.2)

theorem keep_eq_self_iff {option : String × String} :
    keep option = option ↔ BracesMatch 0 option.2.toList := by
  obtain ⟨name, value⟩ := option
  have longer : braced value ≠ value := by
    intro same
    have length := congrArg (fun s : String => s.toList.length) same
    simp [toList_braced] at length
    omega
  simp [keep, kept, longer]

theorem map_keep_iff :
    pairs.map keep = pairs ↔ ∀ option ∈ pairs, BracesMatch 0 option.2.toList := by
  have same := @List.map_inj_left _ _ pairs keep id
  rw [List.map_id] at same
  rw [same]
  exact forall₂_congr fun option _ => keep_eq_self_iff

theorem entries_written {first : String × String} {more : List (String × String)}
    (names : ∀ option ∈ first :: more, IsName option.1)
    (values : ∀ option ∈ first :: more, IsValue option.2) :
    entries (pieces (optionChars [] first, more.map (optionChars [' ']))) =
      (first :: more).map keep := by
  have solid (lead : List Char) (option : String × String) :
      (!Text.allBlank (.ofList (optionChars lead option))) = true := by
    have member : '=' ∈ optionChars lead option := List.mem_append_right _ List.mem_cons_self
    rw [Bool.not_eq_true', Text.allBlank, String.toList_ofList, List.all_eq_false]
    exact ⟨_, member, by decide⟩
  have all : (pieces (optionChars [] first, more.map (optionChars [' ']))).filter
      (!Text.allBlank ·) = pieces (optionChars [] first, more.map (optionChars [' '])) := by
    refine List.filter_eq_self.mpr fun piece member => ?_
    obtain ⟨part, inside, rfl⟩ := List.mem_map.mp member
    rcases List.mem_cons.mp inside with rfl | inside
    · exact solid [] first
    · obtain ⟨option, -, rfl⟩ := List.mem_map.mp inside
      exact solid [' '] option
  have read {lead : List Char} (blank : ∀ c ∈ lead, c = ' ') (option : String × String)
      (member : option ∈ first :: more) :
      entry (.ofList (optionChars lead option)) = keep option := by
    obtain ⟨name, value⟩ := option
    exact entry_option (names _ member) (values _ member) blank
  rw [entries, all, pieces, List.map_cons, List.map_cons, List.map_cons, List.map_map, List.map_map,
    read (by simp) first List.mem_cons_self]
  refine congrArg (keep first :: ·) (List.map_congr_left fun option member => ?_)
  exact read (by simp) option (List.mem_cons_of_mem first member)

/-- Options that are written with their values in braces are read again, in their order and with
their names, and a name finds the last of them. A value comes back as it was exactly if its braces
belong together, and in its braces otherwise. -/
theorem parse_written (names : ∀ option ∈ pairs, IsName option.1)
    (values : ∀ option ∈ pairs, IsValue option.2) :
    ∃ options, parse (written pairs) = .ok options ∧
      options.pairs = pairs.map (fun option => (option.1, kept option.2)) ∧
      (options.pairs = pairs ↔ ∀ option ∈ pairs, BracesMatch 0 option.2.toList) ∧
      ∀ front option behind, pairs = front ++ option :: behind →
        (∀ later ∈ behind, later.1 ≠ option.1) → options.get? option.1 = some (kept option.2) := by
  refine ⟨⟨pairs.map keep⟩, ?_, rfl, map_keep_iff, ?_⟩
  · cases pairs with
    | nil => rfl
    | cons first more =>
      have blank : ∀ c ∈ ([] : List Char), c = ' ' := by simp
      rw [parse_of_cut (cut_written names values blank), entries_written names values]
  · rintro front option behind rfl last
    have lasts : ∀ later ∈ behind.map keep, later.1 ≠ (keep option).1 := by
      intro later member
      obtain ⟨written, inside, rfl⟩ := List.mem_map.mp member
      exact last written inside
    exact get?_of_last (keep option) List.map_append lasts

theorem parse_written_of_escaped :
    (∀ option ∈ [("a", "b, \x7bc\x7d"), ("d", "\\\x7d"), ("a", "")], IsName option.1) ∧
      (∀ option ∈ [("a", "b, \x7bc\x7d"), ("d", "\\\x7d"), ("a", "")], IsValue option.2) ∧
      ∃ options,
        parse (written [("a", "b, \x7bc\x7d"), ("d", "\\\x7d"), ("a", "")]) = .ok options ∧
        options.pairs = [("a", "b, \x7bc\x7d"), ("d", "\x7b\\\x7d\x7d"), ("a", "")] ∧
        options.get? "a" = some "" := by
  have a : IsName "a" := by decide
  have d : IsName "d" := by decide
  have names : ∀ option ∈ [("a", "b, \x7bc\x7d"), ("d", "\\\x7d"), ("a", "")], IsName option.1 :=
    List.forall_mem_cons.mpr ⟨a, List.forall_mem_cons.mpr ⟨d, List.forall_mem_singleton.mpr a⟩⟩
  have b : IsValue "b, \x7bc\x7d" := ⟨⟨_, rfl⟩, rfl⟩
  have brace : IsValue "\\\x7d" := ⟨⟨_, rfl⟩, rfl⟩
  have empty : IsValue "" := ⟨⟨_, rfl⟩, rfl⟩
  have values : ∀ option ∈ [("a", "b, \x7bc\x7d"), ("d", "\\\x7d"), ("a", "")],
      IsValue option.2 :=
    List.forall_mem_cons.mpr ⟨b, List.forall_mem_cons.mpr ⟨brace,
      List.forall_mem_singleton.mpr empty⟩⟩
  obtain ⟨options, read, pairs, -, found⟩ := parse_written names values
  refine ⟨names, values, options, read, pairs.trans (by decide), ?_⟩
  exact found [("a", "b, \x7bc\x7d"), ("d", "\\\x7d")] ("a", "") [] rfl (by simp)

/-- Not every value comes back: the brace of the escape ends the group for the scan. -/
theorem escaped_brace_keeps_group : ¬ ∀ pairs : List (String × String),
    (∀ option ∈ pairs, IsName option.1) → (∀ option ∈ pairs, IsValue option.2) →
      parse (written pairs) = .ok ⟨pairs⟩ := by
  intro all
  have names : ∀ option ∈ [("caption", "a\\\x7db")], IsName option.1 := by
    rintro option member
    obtain rfl := List.mem_singleton.mp member
    exact (by decide : IsName "caption")
  have values : ∀ option ∈ [("caption", "a\\\x7db")], IsValue option.2 := by
    rintro option member
    obtain rfl := List.mem_singleton.mp member
    exact ⟨⟨_, rfl⟩, rfl⟩
  have read : parse (written [("caption", "a\\\x7db")]) =
      .ok ⟨[("caption", "\x7ba\\\x7db\x7d")]⟩ := rfl
  have same := read.symm.trans (all [("caption", "a\\\x7db")] names values)
  exact absurd (Except.ok.inj same) (by decide)

end List

end Quire.Options
