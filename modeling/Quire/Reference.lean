import Quire.Labels
import Quire.Text.Letter

/-! References to labels: the label that a command means, the word and number it prints, and the
place it links to. -/
namespace Quire

inductive RefKind
  /-- A label of one kind, whose name may leave out the part before the colon. -/
  | typed (kind : UnitKind)
  /-- A number without a word. -/
  | bare
  /-- A word that follows from the label. -/
  | byLabel
deriving DecidableEq, Repr

namespace RefKind

def ofCommand : String → RefKind
  | "refchap" => typed .chapter
  | "refsec" => typed .section_
  | "reffig" => typed .figure
  | "reftab" => typed .table
  | "refex" => typed .example_
  | "ref" | "pageref" => bare
  | _ => byLabel

def labelSpace : UnitKind → String
  | .chapter => "chap"
  | .section_ | .subsection => "sec"
  | .figure => "fig"
  | .table => "tab"
  | .example_ => "ex"
  | .other => ""

/-- The full label for a name. A name with a colon is one already. -/
def label (kind : RefKind) (name : String) : String :=
  match kind with
  | typed unit => if name.toList.contains ':' then name else labelSpace unit ++ ":" ++ name
  | bare | byLabel => name

def word (kind : RefKind) (label : String) : String :=
  match kind with
  | typed unit => unit.word
  | bare => ""
  | byLabel => (UnitKind.classify "" label).word

end RefKind

namespace Reference

def unknownNumber : String := "??"

def withWord (word number : String) : String :=
  if word.isEmpty then number else word ++ " " ++ number

def chapterFile (ordinal : Nat) (extension : String) : String :=
  "chapter" ++ Text.padded 2 ordinal ++ "." ++ extension

def sectionAnchor (number : String) : String :=
  "sec-" ++ String.ofList (number.toList.map fun c => if c = '.' then '_' else c)

/-- A label with a dash for each character that an identifier cannot hold. -/
def labelId (label : String) : String :=
  .ofList (label.toList.map fun c =>
    if Text.isLetterOrNumber c || c == '-' || c == '_' then c else '-')

def anchorFor (label number : String) : String :=
  match UnitKind.labelSpace? label with
  | some "sec" | some "chap" => sectionAnchor number
  | _ => labelId label

structure Resolved where
  number : String
  href : String
deriving DecidableEq, Repr

/-- The reference to a label as seen from the chapter `current`. Within a chapter the link names
no page. -/
def resolve? (index : LabelIndex) (label : String) (current : Nat) (extension : String) :
    Option Resolved :=
  (index.get? label).map fun number =>
    let page := match index.chapterOf? number with
      | some ordinal => if ordinal = current then "" else chapterFile ordinal extension
      | none => ""
    ⟨number, page ++ "#" ++ anchorFor label number⟩

end Reference
end Quire
