import Quire.Proofs.Labels.Outline

/-! Files of records that include each other. An include line is read where it stands: all lines of
the file that it names come in front of the next line. A path that was read before says nothing, and
neither does one that leads to no text. Main statement: whatever includes what, the reading ends, no
path is read twice, and the index is that of the records in this order. -/
namespace Quire

namespace Path

theorem same_iff {a b : String} :
    same a b = true ↔ isAbsolute a = isAbsolute b ∧ parts a = parts b := by
  simp [same]

theorem same_refl (a : String) : same a a = true := same_iff.mpr ⟨rfl, rfl⟩

theorem same_comm (a b : String) : same a b = same b a := by
  rw [Bool.eq_iff_iff, same_iff, same_iff, eq_comm, eq_comm (a := parts a)]

theorem same_trans {a b c : String} (first : same a b = true) (second : same b c = true) :
    same a c = true := by
  obtain ⟨start, way⟩ := same_iff.mp first
  obtain ⟨start', way'⟩ := same_iff.mp second
  exact same_iff.mpr ⟨start.trans start', way.trans way'⟩

end Path

namespace Labels

def isAmong (path : String) (paths : List String) : Bool := paths.any (Path.same path)

def linesIn (text : String) : List Line := (Text.lines text).map Line.ofString

/-- Lines of a file are read depth first. `seen` are the paths that were read before, the latest in
front, and `seen'` are those behind the lines. The records come out in the order in which they are
read, each with the path of its file. -/
inductive DepthFirst (disk : Disk) (base : String) :
    (file : String) → (seen : List String) → List Line → (seen' : List String) →
      List (String × Record) → Prop
  | nil {file : String} {seen : List String} : DepthFirst disk base file seen [] seen []
  | other {file : String} {seen seen' : List String} {lines : List Line}
      {records : List (String × Record)}
      (behind : DepthFirst disk base file seen lines seen' records) :
      DepthFirst disk base file seen (.other :: lines) seen' records
  | record {file : String} {seen seen' : List String} {lines : List Line}
      {records : List (String × Record)} (r : Record)
      (behind : DepthFirst disk base file seen lines seen' records) :
      DepthFirst disk base file seen (.record r :: lines) seen' ((file, r) :: records)
  /-- The path was read before. -/
  | again {file child : String} {seen seen' : List String} {lines : List Line}
      {records : List (String × Record)} (old : isAmong (Path.join base child) seen = true)
      (behind : DepthFirst disk base file seen lines seen' records) :
      DepthFirst disk base file seen (.include_ child :: lines) seen' records
  /-- The path leads to no text. -/
  | missing {file child : String} {seen seen' : List String} {lines : List Line}
      {records : List (String × Record)} {problem : FileProblem}
      (none : disk.readText (Path.join base child) = .error problem)
      (behind : DepthFirst disk base file seen lines seen' records) :
      DepthFirst disk base file seen (.include_ child :: lines) seen' records
  /-- The file is read, and then the lines behind. -/
  | enter {file child text : String} {seen seen' seen'' : List String} {lines : List Line}
      {records records' : List (String × Record)}
      (new : isAmong (Path.join base child) seen = false)
      (found : disk.readText (Path.join base child) = .ok text)
      (inner : DepthFirst disk base (Path.join base child) (Path.join base child :: seen)
        (linesIn text) seen' records)
      (behind : DepthFirst disk base file seen' lines seen'' records') :
      DepthFirst disk base file seen (.include_ child :: lines) seen'' (records ++ records')

def Apart (paths : List String) : Prop := paths.Pairwise fun a b => Path.same a b = false

theorem not_isAmong_iff {path : String} {paths : List String} :
    isAmong path paths = false ↔ ∀ p ∈ paths, Path.same path p = false := by
  simp [isAmong]

namespace DepthFirst

variable {disk : Disk} {base file : String} {seen seen' : List String} {lines : List Line}
  {records : List (String × Record)}

theorem seen_suffix (read : DepthFirst disk base file seen lines seen' records) :
    seen <:+ seen' := by
  induction read with
  | nil => exact List.suffix_rfl
  | other _ ih | record _ _ ih | again _ _ ih | missing _ _ ih => exact ih
  | enter _ _ _ _ inner behind => exact (List.suffix_cons _ _).trans (inner.trans behind)

/-- Each path that is read is a new one. -/
theorem apart (read : DepthFirst disk base file seen lines seen' records) (before : Apart seen) :
    Apart seen' := by
  induction read with
  | nil => exact before
  | other _ ih | record _ _ ih | again _ _ ih | missing _ _ ih => exact ih before
  | enter new _ _ _ inner behind =>
    exact behind (inner (List.pairwise_cons.mpr ⟨not_isAmong_iff.mp new, before⟩))

/-- There is one way to read lines depth first. -/
theorem unique {other : List String} {others : List (String × Record)}
    (read : DepthFirst disk base file seen lines seen' records)
    (read' : DepthFirst disk base file seen lines other others) :
    other = seen' ∧ others = records := by
  induction read generalizing other others with
  | nil =>
    cases read'
    exact ⟨rfl, rfl⟩
  | other _ ih =>
    cases read' with
    | other behind => exact ih behind
  | record r _ ih =>
    cases read' with
    | record _ behind =>
      obtain ⟨rfl, rfl⟩ := ih behind
      exact ⟨rfl, rfl⟩
  | again old _ ih =>
    cases read' with
    | again _ behind | missing _ behind => exact ih behind
    | enter new => exact nomatch new.symm.trans old
  | missing none _ ih =>
    cases read' with
    | again _ behind | missing _ behind => exact ih behind
    | enter _ found => exact nomatch found.symm.trans none
  | enter new found _ _ inner behind =>
    cases read' with
    | again old => exact nomatch new.symm.trans old
    | missing none => exact nomatch found.symm.trans none
    | enter _ found' inner' behind' =>
      obtain rfl := Except.ok.inj (found.symm.trans found')
      obtain ⟨rfl, rfl⟩ := inner inner'
      obtain ⟨rfl, rfl⟩ := behind behind'
      exact ⟨rfl, rfl⟩

end DepthFirst

/-! What is left to read. -/

/-- The paths out of `all` that were not read. -/
def unread (all seen : List String) : List String := all.filter fun p => !isAmong p seen

def Mentions (base : String) (all : List String) (lines : List Line) : Prop :=
  ∀ child, .include_ child ∈ lines → Path.join base child ∈ all

theorem dropPath_unread (file : String) (all seen : List String) :
    dropPath file (unread all seen) = unread all (file :: seen) := by
  rw [dropPath, unread, unread, List.filter_filter]
  congr 1
  funext p
  simp [isAmong, Path.same_comm file p]

theorem isAmong_unread {path : String} {all : List String} (known : path ∈ all)
    (seen : List String) :
    isAmong path (unread all seen) = !isAmong path seen := by
  cases old : isAmong path seen with
  | false => exact List.any_eq_true.mpr ⟨path, by simp [unread, known, old], Path.same_refl path⟩
  | true =>
    obtain ⟨p, member, same⟩ := List.any_eq_true.mp old
    refine not_isAmong_iff.mpr fun q unseen => ?_
    have new : isAmong q seen = false := by simpa using (List.mem_filter.mp unseen).2
    refine Bool.eq_false_iff.mpr fun same' => ?_
    have both := Path.same_trans ((Path.same_comm q path).trans same') same
    exact nomatch both.symm.trans (not_isAmong_iff.mp new p member)

theorem length_unread_le {all seen seen' : List String} (more : seen <:+ seen') :
    (unread all seen').length ≤ (unread all seen).length := by
  refine (List.monotone_filter_right all fun p new => ?_).length_le
  simp only [Bool.not_eq_true', not_isAmong_iff] at new ⊢
  exact fun q member => new q (more.subset member)

theorem length_unread_lt {path : String} {all seen : List String} (known : path ∈ all)
    (new : isAmong path seen = false) :
    (unread all (path :: seen)).length < (unread all seen).length := by
  rw [← dropPath_unread]
  refine List.length_filter_lt_length_iff_exists.mpr ⟨path, ?_, by simp [Path.same_refl]⟩
  simp [unread, known, new]

theorem linesOf_eq (file text : String) :
    linesOf file text = (linesIn text).map fun line => (file, line) := by
  rw [linesOf, linesIn, List.map_map]
  rfl

theorem newLines?_of_again (disk : Disk) {path : String} {all seen : List String}
    (known : path ∈ all) (old : isAmong path seen = true) :
    newLines? disk (unread all seen) path = none := by
  have gone := isAmong_unread known seen
  rw [old] at gone
  exact if_neg (Bool.eq_false_iff.mp gone)

theorem newLines?_of_missing {disk : Disk} {path : String} {unseen : List String}
    {problem : FileProblem} (none : disk.readText path = .error problem) :
    newLines? disk unseen path = .none := by
  rw [newLines?, none]
  exact ite_self _

theorem newLines?_of_new (disk : Disk) {path text : String} {all seen : List String}
    (known : path ∈ all) (new : isAmong path seen = false)
    (found : disk.readText path = .ok text) :
    newLines? disk (unread all seen) path = some ((linesIn text).map fun line => (path, line)) := by
  have left := isAmong_unread known seen
  rw [new] at left
  rw [newLines?, found, ← linesOf_eq]
  exact if_pos left

/-! The lines that are still to read, of whatever files, are read like those of one file. -/

section
variable {disk : Disk} {source : Source} {all : List String}
  (whole : ∀ text ∈ disk.texts, Mentions source.base all (linesIn text))
include whole

theorem readLines_of_depthFirst {file : String} {seen seen' : List String} {lines : List Line}
    {records : List (String × Record)}
    (read : DepthFirst disk source.base file seen lines seen' records)
    (known : Mentions source.base all lines) (index : LabelIndex)
    (rest : List (String × Line)) :
    readLines disk source (unread all seen) ⟨seen, index⟩
        (lines.map (fun line => (file, line)) ++ rest) =
      readLines disk source (unread all seen') ⟨seen', addRecords source index records⟩ rest := by
  have later {line : Line} {lines : List Line} (known : Mentions source.base all (line :: lines)) :
      Mentions source.base all lines :=
    fun child member => known child (List.mem_cons_of_mem _ member)
  induction read generalizing index rest with
  | nil => rfl
  | other _ ih =>
    rw [List.map_cons, List.cons_append, readLines, ih (later known)]
  | record r _ ih =>
    rw [List.map_cons, List.cons_append, readLines, ih (later known)]
    rfl
  | again old _ ih =>
    have none := newLines?_of_again disk (known _ List.mem_cons_self) old
    rw [List.map_cons, List.cons_append, readLines]
    split
    next some => cases none.symm.trans some
    next => exact ih (later known) index rest
  | missing none _ ih =>
    rw [List.map_cons, List.cons_append, readLines]
    split
    next some => cases (newLines?_of_missing none).symm.trans some
    next => exact ih (later known) index rest
  | @enter file child text _ _ _ _ records records' new found _ _ inner behind =>
    have fresh := newLines?_of_new disk (known _ List.mem_cons_self) new found
    rw [List.map_cons, List.cons_append, readLines]
    split
    next lines some =>
      obtain rfl := Option.some.inj (fresh.symm.trans some)
      rw [dropPath_unread, inner (whole text (Disk.mem_texts found)), behind (later known),
        addRecords, addRecords, addRecords, List.foldl_append]
    next none => cases fresh.symm.trans none

/-- Reading depth first ends: a file that is entered is one less to read. -/
theorem exists_depthFirst (file : String) (seen : List String) (lines : List Line)
    (known : Mentions source.base all lines) :
    ∃ seen' records, DepthFirst disk source.base file seen lines seen' records := by
  induction left : (unread all seen).length using Nat.strongRecOn
    generalizing file seen lines with
  | _ count ih =>
    induction lines with
    | nil => exact ⟨seen, [], .nil⟩
    | cons line lines ih' =>
      have later : Mentions source.base all lines :=
        fun child member => known child (List.mem_cons_of_mem _ member)
      obtain ⟨seen', records, behind⟩ := ih' later
      cases line with
      | other => exact ⟨seen', records, .other behind⟩
      | record r => exact ⟨seen', (file, r) :: records, .record r behind⟩
      | include_ child =>
        cases among : isAmong (Path.join source.base child) seen with
        | true => exact ⟨seen', records, .again among behind⟩
        | false =>
          cases found : disk.readText (Path.join source.base child) with
          | error problem => exact ⟨seen', records, .missing found behind⟩
          | ok text =>
            have fewer := length_unread_lt (known child List.mem_cons_self) among
            obtain ⟨seen₁, records₁, inner⟩ := ih _ (left ▸ fewer)
              (Path.join source.base child) (Path.join source.base child :: seen) (linesIn text)
              (whole text (Disk.mem_texts found)) rfl
            have less := Nat.lt_of_le_of_lt (length_unread_le inner.seen_suffix) fewer
            obtain ⟨seen₂, records₂, behind⟩ := ih _ (left ▸ less) file seen₁ lines later rfl
            exact ⟨seen₂, records₁ ++ records₂, .enter among found inner behind⟩

end

theorem mentions_includes {base text : String} {all : List String}
    (known : includes base text ⊆ all) : Mentions base all (linesIn text) := by
  intro child member
  obtain ⟨line, inText, read⟩ := List.mem_map.mp member
  exact known (List.mem_filterMap.mpr ⟨line, inText, by rw [read]⟩)

/-- The index of a root file that can be read is that of the records in depth-first order, and there
is one such order. The paths that were read are those that this order reads, each of them once. -/
theorem load_depthFirst {disk : Disk} {root text : String} (target : Target)
    (renames : List (String × String)) (found : disk.readText root = .ok text) :
    let source := Source.ofRoot root target renames
    ∃ seen records, DepthFirst disk source.base root [root] (linesIn text) seen records ∧
      (∀ seen' records', DepthFirst disk source.base root [root] (linesIn text) seen' records' →
        seen' = seen ∧ records' = records) ∧
      (ingest disk source root text .start).visited = seen ∧ Apart seen ∧
      load disk root target renames = .ok (addRecords source .empty records) := by
  intro source
  let all := mentioned disk source.base text
  have whole : ∀ text ∈ disk.texts, Mentions source.base all (linesIn text) := fun t member =>
    mentions_includes fun _ named =>
      List.mem_flatMap.mpr ⟨t, List.mem_cons_of_mem _ member, named⟩
  have known : Mentions source.base all (linesIn text) := mentions_includes fun _ named =>
    List.mem_flatMap.mpr ⟨text, List.mem_cons_self, named⟩
  obtain ⟨seen, records, read⟩ := exists_depthFirst whole root [root] (linesIn text) known
  have progress : ingest disk source root text .start =
      ⟨seen, addRecords source .empty records⟩ := by
    have ran := readLines_of_depthFirst whole read known .empty []
    rw [List.append_nil, ← linesOf_eq] at ran
    rw [readLines] at ran
    exact ran
  refine ⟨seen, records, read, fun _ _ => read.unique, ?_, ?_, ?_⟩
  · rw [progress]
  · exact read.apart (List.pairwise_singleton _ _)
  · rw [load, found]
    exact congrArg (fun p : Progress => Except.ok p.index) progress

/-- Two files that include each other, a root that includes itself, and a file that is missing: of
five include lines that lead to a text, two are followed. -/
theorem load_depthFirst_of_cycle :
    let text := "\\@input\x7ba.aux\x7d\n\\@input\x7bmain.aux\x7d\n\\@input\x7bb.aux\x7d\n" ++
      "\\newlabel\x7bz\x7d\x7b\x7b4\x7d\x7b1\x7d\x7d\n"
    let a := "\\newlabel\x7bx\x7d\x7b\x7b1\x7d\x7b1\x7d\x7d\n\\@input\x7bb.aux\x7d\n" ++
      "\\newlabel\x7by\x7d\x7b\x7b3\x7d\x7b1\x7d\x7d\n"
    let b := "\\@input\x7ba.aux\x7d\n\\@input\x7bgone.aux\x7d\n" ++
      "\\newlabel\x7bw\x7d\x7b\x7b2\x7d\x7b1\x7d\x7d\n"
    let disk : Disk := { Disk.empty with
      files := [(["main.aux"], ⟨.text text, 0⟩), (["a.aux"], ⟨.text a, 0⟩),
        (["b.aux"], ⟨.text b, 0⟩)] }
    let source := Source.ofRoot "main.aux" .html []
    disk.readText "main.aux" = .ok text ∧
      ∃ records, DepthFirst disk source.base "main.aux" ["main.aux"] (linesIn text)
          ["b.aux", "a.aux", "main.aux"] records ∧
        load disk "main.aux" .html [] = .ok (addRecords source .empty records) ∧
        (addRecords source .empty records).numbers =
          [("z", "4"), ("y", "3"), ("w", "2"), ("x", "1")] := by
  intro text a b disk source
  have found : disk.readText "main.aux" = .ok text := by decide +kernel
  obtain ⟨seen, records, read, -, visited, -, loaded⟩ := load_depthFirst .html [] found
  have paths : (ingest disk source "main.aux" text .start).visited =
      ["b.aux", "a.aux", "main.aux"] := by decide +kernel
  have numbers : (load disk "main.aux" .html []).toOption.map (·.numbers) =
      some [("z", "4"), ("y", "3"), ("w", "2"), ("x", "1")] := by decide +kernel
  rw [loaded] at numbers
  refine ⟨found, records, ?_, loaded, Option.some.inj numbers⟩
  rw [← paths, visited]
  exact read

end Labels
end Quire
