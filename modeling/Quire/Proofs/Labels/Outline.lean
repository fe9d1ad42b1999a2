import Mathlib.Data.List.Basic
import Mathlib.Data.List.Induction
import Mathlib.Data.List.TakeWhile
import Quire.Labels.Record

/-! What a label index holds of the records that were read. A label shows the number of its last
record; each chapter holds the units between its own record and that of the next chapter, in their
order. Main statement: so it is for every index made from texts. -/
namespace Quire

mutual
/-- An entry and all below it, each before what is below it, as entries of their own. -/
def TocEntry.preorder : TocEntry → List TocEntry
  | ⟨label, number, caption, kind, children⟩ =>
    ⟨label, number, caption, kind, []⟩ :: preorderAll children

def TocEntry.preorderAll : List TocEntry → List TocEntry
  | [] => []
  | entry :: entries => entry.preorder ++ preorderAll entries
end

/-- A chapter with its sections and all below them in one row. -/
def Chapter.flat (chapter : Chapter) : Chapter :=
  { chapter with sections := TocEntry.preorderAll chapter.sections }

namespace Labels

/-! The records of files. -/

/-- A line gives a record: it has two groups, of which the first is no name for clever references,
and the second has two groups or more. -/
inductive Accepts (line : String) : Record → Prop
  | mk {rest name body number page : String} {more : List String}
      (command : Text.stripStart? "\\newlabel" (Text.trim line) = some rest)
      (groups : Braces.parse rest = .ok [name, body])
      (plain : Text.stripEnd? "@cref" name = none)
      (fields : Braces.parse body = .ok (number :: page :: more)) :
      Accepts line ⟨name, number, (more[0]?).getD "", (more[1]?).getD ""⟩

/-- The records of lines, each with the path of its file, in the order in which they are read. An
included file is read in the place of the line that names it. -/
def recordsIn (disk : Disk) (source : Source) (unseen : List String) :
    List (String × Line) → List (String × Record)
  | [] => []
  | (_, .other) :: rest => recordsIn disk source unseen rest
  | (path, .record r) :: rest => (path, r) :: recordsIn disk source unseen rest
  | (_, .include_ child) :: rest =>
    let file := Path.join source.base child
    match _new : newLines? disk unseen file with
    | some lines => recordsIn disk source (dropPath file unseen) (lines ++ rest)
    | none => recordsIn disk source unseen rest
termination_by lines => unseen.length * (mostLines disk + 1) + lines.length
decreasing_by
  · simp
  · simp
  · have fewer := Nat.mul_le_mul_right (mostLines disk + 1) (length_dropPath_lt _new)
    have few := length_newLines_le _new
    rw [Nat.succ_mul] at fewer
    simp +zetaDelta only [List.length_append, List.length_cons] at fewer ⊢
    omega
  · simp

def ingestAll (disk : Disk) (source : Source) (texts : List (String × String)) : Progress :=
  texts.foldl (fun progress (path, text) => ingest disk source path text progress) .start

def recordsOf (disk : Disk) (source : Source) (progress : Progress) :
    List (String × String) → List (String × Record)
  | [] => []
  | (path, text) :: texts =>
    let visited := path :: progress.visited
    let unseen := (mentioned disk source.base text).filter fun p => !visited.any (Path.same p)
    recordsIn disk source unseen (linesOf path text) ++
      recordsOf disk source (ingest disk source path text progress) texts

/-! What the records say. -/

def Record.kind (r : Record) : UnitKind := UnitKind.classify r.unit r.label

def Record.isChapter (r : Record) : Bool := r.kind = .chapter

def Record.isSection (r : Record) : Bool := r.kind = .section_ || r.kind = .subsection

def Record.isFloat (r : Record) : Bool :=
  r.kind = .example_ || r.kind = .figure || r.kind = .table

def Source.entry (source : Source) (r : Record) : TocEntry :=
  ⟨r.label, r.number, cleanCaption source.target r.caption, r.kind, []⟩

/-- Each record of a chapter with the records behind it, up to the next chapter. -/
def chapterRuns : List (String × Record) → List ((String × Record) × List Record)
  | [] => []
  | e :: rest =>
    if e.2.isChapter then
      (e, (rest.takeWhile (!·.2.isChapter)).map (·.2)) :: chapterRuns rest
    else chapterRuns rest

def Source.chapter (source : Source) (i : Nat) : (String × Record) × List Record → Chapter
  | ((path, r), units) => {
      ordinal := i + 1
      number := r.number
      label := r.label
      caption := source.rename (cleanCaption source.target r.caption)
      texfile := Path.withExtension path "tex"
      sections := (units.filter (·.isSection)).map source.entry
      floats := (units.filter (·.isFloat)).map source.entry }

theorem ofGroups?_eq_some_iff {groups : List String} {r : Record} :
    Record.ofGroups? groups = some r ↔
      ∃ name body number page more, groups = [name, body] ∧
        Text.stripEnd? "@cref" name = none ∧ Braces.parse body = .ok (number :: page :: more) ∧
          r = ⟨name, number, (more[0]?).getD "", (more[1]?).getD ""⟩ := by
  constructor
  · intro found
    unfold Record.ofGroups? at found
    split at found
    next name body =>
      split at found
      next => cases found
      next plain =>
        split at found
        next number page more fields =>
          cases found
          exact ⟨name, body, number, page, more, rfl, Option.not_isSome_iff_eq_none.mp plain,
            fields, rfl⟩
        next => cases found
    next => cases found
  · rintro ⟨name, body, number, page, more, rfl, plain, fields, rfl⟩
    simp only [Record.ofGroups?, plain, fields, Option.isSome_none, Bool.false_eq_true, if_false]

/-- An include line is no record. -/
theorem stripStart?_input {line rest : String}
    (command : Text.stripStart? "\\newlabel" line = some rest) :
    Text.stripStart? "\\@input" line = none := by
  obtain ⟨cs, starts, -⟩ := Option.map_eq_some_iff.mp command
  have eq := List.isPrefixOf?_eq_some_iff_append_eq.mp starts
  rw [Text.stripStart?, Option.map_eq_none_iff, ← eq]
  rfl

theorem ofString_eq_record_iff {line : String} {r : Record} :
    Line.ofString line = .record r ↔ Accepts line r := by
  constructor
  · intro read
    simp only [Line.ofString] at read
    split at read
    next => split at read <;> cases read
    next =>
      split at read
      next rest command =>
        split at read
        next r' found =>
          cases read
          obtain ⟨groups, parsed, found⟩ := Option.bind_eq_some_iff.mp found
          obtain ⟨name, body, number, page, more, rfl, plain, fields, rfl⟩ :=
            ofGroups?_eq_some_iff.mp found
          cases two : Braces.parse rest with
          | error e =>
            rw [two] at parsed
            cases parsed
          | ok groups =>
            rw [two] at parsed
            cases parsed
            exact .mk command two plain fields
        next => cases read
      next => cases read
  · rintro ⟨command, groups, plain, fields⟩
    have found := ofGroups?_eq_some_iff.mpr ⟨_, _, _, _, _, rfl, plain, fields, rfl⟩
    simp only [Line.ofString, stripStart?_input command, command, groups, Except.toOption,
      Option.bind_eq_bind, Option.bind_some, found]

/-! The index is the fold of `addRecord` over the records. -/

/-- The index with records, each of its own file. -/
def addRecords (source : Source) (index : LabelIndex) (records : List (String × Record)) :
    LabelIndex :=
  records.foldl (fun index e => addRecord source e.1 index e.2) index

theorem index_readLines (disk : Disk) (source : Source) (unseen : List String)
    (progress : Progress) (lines : List (String × Line)) :
    (readLines disk source unseen progress lines).index =
      addRecords source progress.index (recordsIn disk source unseen lines) := by
  fun_induction readLines disk source unseen progress lines with
  | case1 => rw [recordsIn]; rfl
  | case2 unseen progress path rest ih => rw [recordsIn, ih]
  | case3 unseen progress path r rest ih => rw [recordsIn, ih]; rfl
  | case4 unseen progress path child rest file lines new ih =>
    rw [ih, recordsIn]
    split
    next lines' new' =>
      obtain rfl := Option.some.inj (new.symm.trans new')
      rfl
    next none' => exact absurd (new.symm.trans none') (by simp)
  | case5 unseen progress path child rest file none ih =>
    rw [ih, recordsIn]
    split
    next lines' new' => exact absurd (none.symm.trans new') (by simp)
    next => rfl

theorem index_ingestAll (disk : Disk) (source : Source) (texts : List (String × String)) :
    (ingestAll disk source texts).index =
      addRecords source .empty (recordsOf disk source .start texts) := by
  have general : ∀ progress : Progress,
      (texts.foldl (fun progress (path, text) => ingest disk source path text progress)
        progress).index =
        addRecords source progress.index (recordsOf disk source progress texts) := by
    induction texts with
    | nil => intro progress; rfl
    | cons first texts ih =>
      intro progress
      rw [List.foldl_cons, ih, recordsOf, addRecords, addRecords, List.foldl_append]
      congr 1
      exact index_readLines ..
  exact general .start

theorem addRecords_concat (source : Source) (index : LabelIndex)
    (records : List (String × Record)) (path : String) (r : Record) :
    addRecords source index (records ++ [(path, r)]) =
      addRecord source path (addRecords source index records) r := by
  simp [addRecords]

/-! The number of a label. -/

theorem get?_insert_of_ne {index : LabelIndex} {label other number : String}
    (differ : label ≠ other) : (index.insert label number).get? other = index.get? other := by
  have other_ne : (other == label) = false := by simpa using differ.symm
  simp only [LabelIndex.get?, LabelIndex.insert, List.lookup_cons, other_ne]
  generalize index.numbers = numbers
  induction numbers with
  | nil => rfl
  | cons entry numbers ih =>
    obtain ⟨name, shown⟩ := entry
    by_cases dropped : name = label
    · subst dropped
      simp [List.lookup_cons, ih, other_ne]
    · simp [List.lookup_cons, ih, dropped]

theorem get?_addRecord (source : Source) (path : String) (index : LabelIndex) (r : Record)
    (label : String) :
    (addRecord source path index r).get? label =
      if r.label = label then some r.number else index.get? label := by
  have numbers : (addRecord source path index r).get? label =
      (index.insert r.label r.number).get? label := by
    simp only [addRecord]
    split <;> rfl
  rw [numbers]
  by_cases same : r.label = label
  · rw [if_pos same, ← same, LabelIndex.get?_insert_self]
  · rw [if_neg same, get?_insert_of_ne same]

/-- A label shows the number of its last record. -/
theorem get?_addRecords (source : Source) (records : List (String × Record)) (label : String) :
    (addRecords source .empty records).get? label =
      ((records.filter (·.2.label = label)).getLast?).map (·.2.number) := by
  induction records using List.reverseRecOn with
  | nil => rfl
  | append_singleton records e ih =>
    obtain ⟨path, r⟩ := e
    rw [addRecords_concat, get?_addRecord, List.filter_append]
    by_cases same : r.label = label
    · simp [same]
    · simp [same, ih]

/-! The records of each chapter. -/

theorem onLast_concat (f : α → α) (xs : List α) (x : α) : onLast f (xs ++ [x]) = xs ++ [f x] := by
  induction xs with
  | nil => rfl
  | cons first xs ih =>
    cases xs with
    | nil => rfl
    | cons second xs => exact congrArg (first :: ·) ih

theorem map_onLast {f : α → α} {g : α → β} {f' : β → β} (through : ∀ x, g (f x) = f' (g x))
    (xs : List α) : (onLast f xs).map g = onLast f' (xs.map g) := by
  rcases List.eq_nil_or_concat' xs with rfl | ⟨before, last, rfl⟩
  · rfl
  · simp only [onLast_concat, List.map_append, List.map_singleton, through]

theorem mapIdx_onLast {f : α → α} {g : Nat → α → β} {f' : β → β}
    (through : ∀ i x, g i (f x) = f' (g i x)) (xs : List α) :
    (onLast f xs).mapIdx g = onLast f' (xs.mapIdx g) := by
  rcases List.eq_nil_or_concat' xs with rfl | ⟨before, last, rfl⟩
  · rfl
  · simp only [onLast_concat, List.mapIdx_concat, through]

theorem onLast_cons {f : α → α} {x : α} {xs : List α} (more : xs ≠ []) :
    onLast f (x :: xs) = x :: onLast f xs := by
  cases xs with
  | nil => exact absurd rfl more
  | cons y xs => rfl

theorem chapterRuns_eq_nil_iff {records : List (String × Record)} :
    chapterRuns records = [] ↔ ∀ e ∈ records, ¬ e.2.isChapter := by
  induction records with
  | nil => simp [chapterRuns]
  | cons e records ih =>
    rw [chapterRuns]
    split <;> simp_all

/-- A chapter record ends the run before it. -/
theorem chapterRuns_concat_chapter {e : String × Record} (chapter : e.2.isChapter)
    (records : List (String × Record)) :
    chapterRuns (records ++ [e]) = chapterRuns records ++ [(e, [])] := by
  induction records with
  | nil => simp [chapterRuns, chapter]
  | cons first records ih =>
    have stops : (records ++ [e]).takeWhile (!·.2.isChapter) =
        records.takeWhile (!·.2.isChapter) := by
      rw [List.takeWhile_append]
      split
      next all => simp [chapter, List.IsPrefix.eq_of_length (List.takeWhile_prefix _) all]
      next => rfl
    simp only [List.cons_append, chapterRuns, stops, ih]
    split <;> rfl

/-- A record of a unit goes to the last run. -/
theorem chapterRuns_concat_unit {e : String × Record} (unit : ¬ e.2.isChapter)
    (records : List (String × Record)) :
    chapterRuns (records ++ [e]) =
      onLast (fun run => (run.1, run.2 ++ [e.2])) (chapterRuns records) := by
  induction records with
  | nil => simp [chapterRuns, unit, onLast]
  | cons first records ih =>
    simp only [List.cons_append, chapterRuns, ih]
    split
    next =>
      by_cases last : chapterRuns records = []
      · have units := chapterRuns_eq_nil_iff.mp last
        have whole : records.takeWhile (!·.2.isChapter) = records :=
          List.takeWhile_eq_self_iff.mpr (by simpa using units)
        rw [last, List.takeWhile_append_of_pos (by simpa using units), whole]
        simp [onLast, unit]
      · have stops : (records ++ [e]).takeWhile (!·.2.isChapter) =
            records.takeWhile (!·.2.isChapter) := by
          rw [List.takeWhile_append, if_neg]
          intro all
          refine last (chapterRuns_eq_nil_iff.mpr ?_)
          have whole := List.IsPrefix.eq_of_length (List.takeWhile_prefix _) all
          simpa using List.takeWhile_eq_self_iff.mp whole
        rw [stops, onLast_cons last]
    next => rfl

/-! What a chapter holds. -/

theorem preorderAll_append (before behind : List TocEntry) :
    TocEntry.preorderAll (before ++ behind) =
      TocEntry.preorderAll before ++ TocEntry.preorderAll behind := by
  induction before with
  | nil => rfl
  | cons entry before ih =>
    simp only [List.cons_append, TocEntry.preorderAll, ih, List.append_assoc]

/-- An entry with nothing below it is its own preorder. -/
theorem preorderAll_leaf {entry : TocEntry} (leaf : entry.children = []) :
    TocEntry.preorderAll [entry] = [entry] := by
  obtain ⟨label, number, caption, kind, children⟩ := entry
  cases leaf
  rfl

/-- A flat chapter with a further entry in the row of its kind. -/
def Chapter.extend (entry : TocEntry) (chapter : Chapter) : Chapter :=
  match entry.kind with
  | .section_ | .subsection => { chapter with sections := chapter.sections ++ [entry] }
  | .example_ | .figure | .table => { chapter with floats := chapter.floats ++ [entry] }
  | .chapter | .other => chapter

/-- A section takes a further entry below it as its last. -/
theorem preorderAll_addChild {entry : TocEntry} (leaf : entry.children = [])
    {sections : List TocEntry} (some : sections ≠ []) :
    TocEntry.preorderAll
        (onLast (fun s => { s with children := s.children ++ [entry] }) sections) =
      TocEntry.preorderAll sections ++ [entry] := by
  obtain ⟨before, last, rfl⟩ := (List.eq_nil_or_concat' sections).resolve_left some
  obtain ⟨label, number, caption, kind, children⟩ := last
  rw [onLast_concat, preorderAll_append, preorderAll_append, List.append_assoc]
  congr 1
  simp only [TocEntry.preorderAll, TocEntry.preorder, preorderAll_append, List.append_nil,
    List.cons_append]
  rw [← preorderAll_leaf leaf]
  simp only [TocEntry.preorderAll, List.append_nil]

theorem flat_addUnit {entry : TocEntry} (leaf : entry.children = []) (chapter : Chapter) :
    (addUnit entry chapter).flat = Chapter.extend entry chapter.flat := by
  obtain ⟨label, number, caption, kind, children⟩ := entry
  cases kind with
  | section_ =>
    simp only [addUnit, Chapter.extend, Chapter.flat, preorderAll_append, preorderAll_leaf leaf]
  | subsection =>
    by_cases none : chapter.sections = []
    · simp only [addUnit, Chapter.extend, Chapter.flat, none, List.isEmpty_nil, if_true,
        preorderAll_leaf leaf, TocEntry.preorderAll, List.nil_append]
    · simp only [addUnit, Chapter.extend, Chapter.flat, List.isEmpty_iff, none, if_false,
        preorderAll_addChild leaf none]
  | example_ | figure | table | chapter | other => rfl

theorem flat_chapter_nil (source : Source) (i : Nat) (e : String × Record) :
    (source.chapter i (e, [])).flat = source.chapter i (e, []) := by
  simp only [Source.chapter, Chapter.flat, List.filter_nil, List.map_nil, TocEntry.preorderAll]

/-- A record behind those of a chapter makes one entry more. -/
theorem chapter_concat (source : Source) (i : Nat) (e : String × Record) (units : List Record)
    (r : Record) :
    source.chapter i (e, units ++ [r]) =
      Chapter.extend (source.entry r) (source.chapter i (e, units)) := by
  obtain ⟨path, chapter⟩ := e
  unfold Chapter.extend
  cases kind : r.kind <;>
    simp [Source.chapter, Source.entry, Record.isSection, Record.isFloat, kind]

theorem chapters_addRecord_chapter {r : Record} (chapter : r.isChapter) (source : Source)
    (path : String) (index : LabelIndex) :
    (addRecord source path index r).chapters =
      index.chapters ++ [source.chapter index.chapters.length ((path, r), [])] := by
  have kind : UnitKind.classify r.unit r.label = .chapter := of_decide_eq_true chapter
  simp only [addRecord, kind, if_true]
  rfl

theorem chapters_addRecord_unit {r : Record} (unit : ¬ r.isChapter) (source : Source)
    (path : String) (index : LabelIndex) :
    (addRecord source path index r).chapters =
      onLast (addUnit (source.entry r)) index.chapters := by
  have kind : UnitKind.classify r.unit r.label ≠ .chapter :=
    fun kind => unit (decide_eq_true kind)
  simp only [addRecord, if_neg kind]
  rfl

/-- The chapters, each flat, are those that the records of the runs make. -/
theorem flat_chapters_addRecords (source : Source) (records : List (String × Record)) :
    (addRecords source .empty records).chapters.map Chapter.flat =
      (chapterRuns records).mapIdx source.chapter := by
  induction records using List.reverseRecOn with
  | nil => rfl
  | append_singleton records e ih =>
    obtain ⟨path, r⟩ := e
    rw [addRecords_concat]
    by_cases chapter : r.isChapter
    · have count : (addRecords source .empty records).chapters.length =
          (chapterRuns records).length := by
        simpa using congrArg List.length ih
      rw [chapters_addRecord_chapter chapter, chapterRuns_concat_chapter (e := (path, r)) chapter,
        List.mapIdx_concat, List.map_append, ih, count, List.map_singleton, flat_chapter_nil]
    · have entry := fun c => @flat_addUnit (source.entry r) rfl c
      have unit := fun i (run : (String × Record) × List Record) =>
        chapter_concat source i run.1 run.2 r
      rw [chapters_addRecord_unit chapter, chapterRuns_concat_unit (e := (path, r)) chapter,
        map_onLast entry, ih, mapIdx_onLast unit]

/-- What is known of an index made from texts, by the records that their lines give: a label shows
the number of its last record, there is one chapter for each chapter record, in order, and the
sections and floats of a chapter, each row in preorder, are those of the records up to the next
chapter record. -/
theorem outline_ingestAll (disk : Disk) (source : Source) (texts : List (String × String)) :
    let index := (ingestAll disk source texts).index
    let records := recordsOf disk source .start texts
    (∀ line r, Line.ofString line = .record r ↔ Accepts line r) ∧
      (∀ label, index.get? label =
        ((records.filter (·.2.label = label)).getLast?).map (·.2.number)) ∧
      index.chapters.map Chapter.flat = (chapterRuns records).mapIdx source.chapter := by
  intro index records
  have fold : index = addRecords source .empty records := index_ingestAll disk source texts
  refine ⟨fun line r => ofString_eq_record_iff, fun label => ?_, ?_⟩
  · rw [fold, get?_addRecords]
  · rw [fold, flat_chapters_addRecords]

/-- Two texts: a section before any chapter is in none, a name for clever references says nothing,
a subsection goes below its section, and a label that comes twice shows its later number. -/
theorem outline_ingestAll_of_two :
    let first := "\\newlabel\x7bsec:s\x7d\x7b\x7b0.1\x7d\x7b1\x7d\x7d\n" ++
      "\\newlabel\x7bchap:c\x7d\x7b\x7b1\x7d\x7b1\x7d\x7d\n" ++
      "\\newlabel\x7bchap:c@cref\x7d\x7b\x7b1\x7d\x7b1\x7d\x7d\n" ++
      "\\newlabel\x7bsec:t\x7d\x7b\x7b1.1\x7d\x7b2\x7d\x7d\n" ++
      "\\newlabel\x7bu\x7d\x7b\x7b1.1.1\x7d\x7b2\x7d\x7b\x7d\x7bsubsection.1\x7d\x7d\n"
    let second := "\\newlabel\x7bchap:d\x7d\x7b\x7b2\x7d\x7b4\x7d\x7d\n" ++
      "\\newlabel\x7bfig:f\x7d\x7b\x7b2.1\x7d\x7b5\x7d\x7d\n" ++
      "\\newlabel\x7bsec:s\x7d\x7b\x7b2.1\x7d\x7b4\x7d\x7d"
    let source := Source.ofRoot "main.aux" .html []
    let index := (ingestAll .empty source [("one.aux", first), ("two.aux", second)]).index
    Accepts "\\newlabel\x7bsec:t\x7d\x7b\x7b1.1\x7d\x7b2\x7d\x7d" ⟨"sec:t", "1.1", "", ""⟩ ∧
      index.get? "sec:s" = some "2.1" ∧
      ((index.chapters.map Chapter.flat).map fun chapter =>
          (chapter.ordinal, chapter.label, chapter.sections.map (·.label),
            chapter.floats.map (·.label))) =
        [(1, "chap:c", ["sec:t", "u"], []), (2, "chap:d", ["sec:s"], ["fig:f"])] := by
  intro first second source index
  obtain ⟨accepted, numbers, chapters⟩ :=
    outline_ingestAll .empty source [("one.aux", first), ("two.aux", second)]
  have read : recordsOf .empty source .start [("one.aux", first), ("two.aux", second)] =
      [("one.aux", ⟨"sec:s", "0.1", "", ""⟩), ("one.aux", ⟨"chap:c", "1", "", ""⟩),
        ("one.aux", ⟨"sec:t", "1.1", "", ""⟩), ("one.aux", ⟨"u", "1.1.1", "", "subsection.1"⟩),
        ("two.aux", ⟨"chap:d", "2", "", ""⟩), ("two.aux", ⟨"fig:f", "2.1", "", ""⟩),
        ("two.aux", ⟨"sec:s", "2.1", "", ""⟩)] := by
    decide +kernel
  refine ⟨(accepted _ _).mp (by decide +kernel), ?_, ?_⟩
  · rw [numbers, read]
    decide
  · rw [chapters, read]
    decide +kernel

end Labels
end Quire
