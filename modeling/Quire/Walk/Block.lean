import Quire.Node.Options
import Quire.Prose
import Quire.Text.Case
import Quire.Walk.State

/-! Headings, lists and blocks. -/
namespace Quire.Walk

open Node (Shrinks NoLarger shrinks_children)

variable {node : Node} {rest : List Node}

def labelOf? (node : Node) : Option String :=
  match node.onlyArg with
  | .ok arg => some arg.text
  | .error _ => none

/-- The label just behind a node; blanks and comments may stand before it. -/
def labelBehind? (rest : List Node) : Option String :=
  match rest.find? (!·.isBlankOrComment) with
  | some node => if node.name = "label" then labelOf? node else none
  | none => none

def titleAnchor (title : String) : String :=
  "sec-" ++ Reference.labelId (Text.replace " " "-" (Text.toLower title))

/-- Counts a heading. A label behind it decides its number if the index knows the label. -/
def headingNumber (ctx : Context) (level : Level) (rest : List Node) : Walk String := fun s =>
  let counters := s.counters.bump level
  let number := (labelBehind? rest >>= ctx.labels.get?).getD (counters.current level)
  (.ok number, { s with counters })

def heading (ctx : Context) (inside : Inside node rest) (level : Level) (starred : Bool) :
    Walk Unit := do
  let arg ← rendering node.onlyArg
  closeParagraph ctx
  let number ← if starred then pure "" else headingNumber ctx level rest
  let anchor := if starred then titleAnchor arg.text else Reference.sectionAnchor number
  write (ctx.flavor.headingOpen level anchor number)
  inlined (argument inside 0)
  write (ctx.flavor.headingClose level anchor)

def list (ctx : Context) (inside : Inside node rest) : Walk Unit := do
  let kind := (ListKind.ofEnvironment? node.name).getD .itemize
  closeParagraph ctx
  write (ctx.flavor.listOpen kind)
  within (fun s => { s with lists := kind :: s.lists })
    (fun _ t => { t with lists := t.lists.tail })
    (inside node.children (shrinks_children node rest))
  write (ctx.flavor.listClose kind)

def trimFront (nodes : List Node) : List Node :=
  match nodes.dropWhile (·.isBlank) with
  | .text content :: rest => .text (Text.trimStart content) :: rest
  | nodes => nodes

theorem noLarger_trimFront (nodes : List Node) : NoLarger (trimFront nodes) nodes := by
  have suffix := List.dropWhile_suffix (·.isBlank) (l := nodes)
  unfold trimFront
  split
  next content rest eq =>
    rw [eq] at suffix
    refine .trans ?_ (.of_suffix suffix)
    constructor <;> simp only [Node.listLongest, Node.listWeight, Node.longest, Node.weight] <;>
      omega
  next => exact .of_suffix suffix

def childrenInline (inside : Inside node rest) : Walk Unit :=
  inlined (inside (trimFront node.children)
    (.of_noLarger (noLarger_trimFront _) (shrinks_children node rest)))

def itemTitle? (ctx : Context) (inside : Inside node rest) : Walk (Option String) :=
  match h : node.optionalArg? with
  | .error e => fail (.render e)
  | .ok none => return none
  | .ok (some arg) => do
    let title ← asText ctx
      (inside arg.nodes (Node.shrinks_arg rest (Node.mem_of_optionalArg? h)))
    return some (Text.trim title)

def item (ctx : Context) (inside : Inside node rest) : Walk Unit := do
  let s ← get
  let kind := s.lists.head?.getD .itemize
  let nesting := s.lists.length - 1
  let title ← itemTitle? ctx inside
  write (ctx.flavor.itemOpen kind title nesting)
  childrenInline inside
  write (ctx.flavor.itemClose kind)

def lead (ctx : Context) (text : String) : Walk Unit := do
  write (ctx.flavor.markupOpen .bold)
  write text
  write (ctx.flavor.markupClose .bold)

def objectives (ctx : Context) (inside : Inside node rest) : Walk Unit := do
  closeParagraph ctx
  write (ctx.flavor.blockOpen "objectives")
  lead ctx "Chapter objectives:"
  list ctx inside
  write ctx.flavor.blockClose

def abstractBlock (ctx : Context) (inside : Inside node rest) : Walk Unit := do
  let title := node.requiredNodes 0
  closeParagraph ctx
  write (ctx.flavor.blockOpen "abstract")
  if !title.all (·.isBlank) then
    write (ctx.flavor.markupOpen .bold)
    inlined (argument inside 0)
    write (ctx.flavor.markupClose .bold)
    write " "
  childrenInline inside
  write ctx.flavor.blockClose

def keywordBlock (ctx : Context) (inside : Inside node rest) : Walk Unit := do
  closeParagraph ctx
  write (ctx.flavor.blockOpen "keywords")
  lead ctx "Keywords:"
  write " "
  inlined (argument inside 0)
  childrenInline inside
  write ctx.flavor.blockClose

def feature (ctx : Context) (inside : Inside node rest) : Walk Unit := do
  closeParagraph ctx
  write (ctx.flavor.blockOpen "feature")
  blocked ctx.flavor (inside node.children (shrinks_children node rest))
  write ctx.flavor.blockClose

def isLineFeed (c : Char) : Bool := c == '\n'

/-- The line feeds at both ends of a block of code mean nothing. -/
def trimLineFeeds (code : String) : String :=
  .ofList (Text.dropEndWhile isLineFeed (code.toList.dropWhile isLineFeed))

def verbatim (ctx : Context) (node : Node) : Walk Unit := do
  let options ← ofExcept node.options
  closeParagraph ctx
  write (ctx.flavor.codeBlock (trimLineFeeds (Node.sourceOf node.children))
    ((options.get? "language").map Text.toLower))

/-- An entry such as `.2 name.` of a listing of folders: its depth and name. A depth that is no
number counts as one. -/
def treeEntry? (line : List Char) : Option (Nat × List Char) :=
  match line.dropWhile Text.isBlank with
  | '.' :: rest =>
    let digits := rest.takeWhile Text.isDecimal
    let behind := rest.drop digits.length
    let name := Text.dropEndWhile Text.isBlank (behind.dropWhile Text.isBlank)
    if digits.isEmpty || !(behind.head?.map Text.isBlank).getD false || name.getLast? != some '.'
    then none
    else some ((Text.count? (.ofList digits)).getD 1, name.dropLast)
  | _ => none

/-- The entries of a listing, one a line. A percent sign starts a comment. -/
def treeEntries (target : Target) (raw : String) : Except RenderFault (List (Nat × String)) :=
  ((Text.lines raw).filterMap fun line =>
      treeEntry? (line.toList.takeWhile (· != '%'))).mapM fun (depth, name) =>
    (Prose.normalize target (.ofList name)).map (depth, ·)

def dirtree (ctx : Context) (node : Node) : Walk Unit := do
  let arg ← rendering node.onlyArg
  let entries ← rendering (treeEntries ctx.target arg.raw)
  closeParagraph ctx
  write (ctx.flavor.dirtree entries)

end Quire.Walk
