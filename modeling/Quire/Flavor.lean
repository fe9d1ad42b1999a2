import Quire.Example
import Quire.Labels
import Quire.Numbering
import Quire.Target

/-! The vocabulary of a target: what it writes for each thing that a page can hold. Tables are
HTML for every target and are no part of it. -/
namespace Quire

inductive Markup
  | emphasis
  | bold
  | code
  | smallCaps
  | underline
deriving DecidableEq, Repr

def Markup.ofCommand? : String → Option Markup
  | "textit" | "emph" | "concept" => some emphasis
  | "textbf" | "paragraph" => some bold
  | "texttt" | "ttt" | "fn" | "pkg" => some code
  | "textsc" => some smallCaps
  | "underline" => some underline
  | _ => none

inductive ListKind
  | itemize
  | enumerate
  | description
deriving DecidableEq, Repr

def ListKind.ofEnvironment? : String → Option ListKind
  | "itemize" | "objectives" => some itemize
  | "enumerate" => some enumerate
  | "description" => some description
  | _ => none

structure Page where
  bookTitle : String
  chapter : Chapter
  body : String
  previous : Option Chapter
  next : Option Chapter

structure Flavor where
  target : Target
  paragraphOpen : String
  paragraphClose : String
  /-- The start of a heading, by level, anchor and number. -/
  headingOpen : Level → String → String → String
  headingClose : Level → String → String
  markupOpen : Markup → String
  markupClose : Markup → String
  /-- The start of a block of a class such as a figure. -/
  blockOpen : String → String
  blockClose : String
  /-- The start of a float's caption, by anchor and title. -/
  captionOpen : String → String → String
  captionClose : String
  listOpen : ListKind → String
  listClose : ListKind → String
  /-- The start of an item, by its title and how many lists enclose its own. -/
  itemOpen : ListKind → Option String → Nat → String
  itemClose : ListKind → String
  inlineMath : String → String
  displayMath : String → String
  inlineCode : String → String
  /-- A block of code in a language. -/
  codeBlock : String → Option String → String
  /-- A link, by its address and text. -/
  link : String → String → String
  /-- A citation, by its text and the full reference. -/
  citation : String → String → String
  /-- Text in a class such as a color, by class and text. -/
  span : String → String → String
  footnoteMarker : Nat → String
  /-- The notes at the end of a chapter, the first numbered one. -/
  footnotes : List String → String
  /-- An image, with the text that stands for it. -/
  image : ImageRef → String → String
  /-- A listing of folders, each entry with its depth. -/
  dirtree : List (Nat × String) → String
  example_ : Example.Block → String
  /-- Trusted HTML. -/
  rawHtml : String → String
  page : Page → String
  /-- The names and texts of the files about the whole book. -/
  index : String → List Chapter → List (String × String)

end Quire
