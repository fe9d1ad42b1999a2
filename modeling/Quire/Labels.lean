import Quire.Text.Cut
import Quire.Text.Numeral

/-! The label index of a book: the number that a label shows, and the chapters with what each of
them holds. -/
namespace Quire

inductive UnitKind
  | chapter
  | section_
  | subsection
  | example_
  | figure
  | table
  | other
deriving DecidableEq, Repr

namespace UnitKind

def word : UnitKind → String
  | chapter => "Chapter"
  | section_ | subsection => "Section"
  | example_ => "Example"
  | figure => "Figure"
  | table => "Table"
  | other => ""

def counterMark : String := "tcb@cnt@"

def dropMarks : List Char → List Char
  | [] => []
  | c :: cs =>
    if counterMark.toList.isPrefixOf (c :: cs) then dropMarks (cs.drop (counterMark.length - 1))
    else c :: cs
termination_by unit => unit.length
decreasing_by simp only [List.length_drop, List.length_cons]; omega

/-- The kind that the first word of a unit such as `section.3.2` names. -/
def ofUnit? (unit : String) : Option UnitKind :=
  let rest := dropMarks unit.toList
  let name := rest.takeWhile fun c => c != '.' && c != '*'
  if name.length = rest.length then none
  else match String.ofList name with
    | "chapter" => some chapter
    | "section" => some section_
    | "subsection" => some subsection
    | "example" => some example_
    | "figure" => some figure
    | "table" => some table
    | _ => none

def labelSpace? (label : String) : Option String :=
  (Text.before? [':'] label.toList).map .ofList

def ofLabel (label : String) : UnitKind :=
  match labelSpace? label with
  | some "chap" => chapter
  | some "sec" => section_
  | some "ex" => example_
  | some "fig" => figure
  | some "tab" => table
  | _ => other

/-- The kind of a unit, or of its label when the unit says nothing. -/
def classify (unit label : String) : UnitKind := (ofUnit? unit).getD (ofLabel label)

end UnitKind

structure TocEntry where
  label : String
  number : String
  caption : String
  kind : UnitKind
  children : List TocEntry

structure Chapter where
  /-- One for the first chapter, two for the next. -/
  ordinal : Nat
  number : String
  label : String
  caption : String
  /-- The source beside the file of records in which the chapter was found. -/
  texfile : String
  sections : List TocEntry
  floats : List TocEntry

/-- The number of each label, the latest label first, and the chapters in their order. -/
structure LabelIndex where
  numbers : List (String × String)
  chapters : List Chapter

namespace LabelIndex

def empty : LabelIndex := ⟨[], []⟩

def get? (index : LabelIndex) (label : String) : Option String := index.numbers.lookup label

def insert (index : LabelIndex) (label number : String) : LabelIndex :=
  { index with numbers := (label, number) :: index.numbers.filter (·.1 != label) }

def size (index : LabelIndex) : Nat := index.numbers.length

def chapter? (index : LabelIndex) (ordinal : Nat) : Option Chapter :=
  index.chapters.find? (·.ordinal == ordinal)

def lead (number : String) : String := .ofList (number.toList.takeWhile (· != '.'))

/-- The ordinal of the chapter whose number leads a dotted number. Where no chapter has that
number, it counts as an ordinal itself. -/
def chapterOf? (index : LabelIndex) (number : String) : Option Nat :=
  match index.chapters.find? (·.number == lead number) with
  | some chapter => some chapter.ordinal
  | none => Text.count? (lead number)

@[simp] theorem get?_insert_self (index : LabelIndex) (label number : String) :
    (index.insert label number).get? label = some number := by
  simp [insert, get?]

end LabelIndex
end Quire
