import Quire.Walk.Block

/-! Floats, their captions, and the images in them. A float shows its caption first, wherever the
source has it. -/
namespace Quire.Walk

open Node (Shrinks NoLarger listWeight listLongest shrinks_children)

variable {node : Node} {rest : List Node}

def named? (name : String) (nodes : List Node) : Option Node := nodes.find? (·.name == name)

def withoutNamed (name : String) (nodes : List Node) : List Node := nodes.eraseP (·.name == name)

def bringFront (name : String) (nodes : List Node) : List Node :=
  (named? name nodes).toList ++ withoutNamed name nodes

theorem noLarger_bringFront (name : String) (nodes : List Node) :
    NoLarger (bringFront name nodes) nodes := by
  induction nodes with
  | nil => exact .refl _
  | cons node nodes ih =>
    by_cases h : node.name = name
    · simp only [bringFront, named?, withoutNamed, List.find?_cons, List.eraseP_cons, h,
        BEq.rfl, Option.toList_some, List.singleton_append]
      exact .refl _
    · have differs : (node.name == name) = false := by simpa using h
      simp only [bringFront, named?, withoutNamed, List.find?_cons, List.eraseP_cons,
        differs] at ih ⊢
      have long := ih.longest_le
      have heavy := ih.weight_le
      constructor <;>
        simp only [Node.listLongest_append, Node.listWeight_append, listLongest, listWeight,
          cond_false] at * <;>
        omega

/-- The label of a float: its own, or the one inside its caption. -/
def floatLabel? (children : List Node) : Option String :=
  let caption := named? "caption" children
  match named? "label" (withoutNamed "caption" children) >>= labelOf? with
  | some label => some label
  | none => do
    let first ← (← caption).required.head?
    named? "label" first.nodes >>= labelOf?

/-- The children of a float with its caption in front, and its label behind the caption. -/
def captionFirst (children : List Node) : List Node :=
  (named? "caption" children).toList ++ bringFront "label" (withoutNamed "caption" children)

theorem noLarger_captionFirst (children : List Node) :
    NoLarger (captionFirst children) children :=
  .trans (.append (.refl _) (noLarger_bringFront "label" _)) (noLarger_bringFront "caption" _)

def float (ctx : Context) (inside : Inside node rest) (class_ : String) : Walk Unit := do
  closeParagraph ctx
  within
    (fun s => { s.write (ctx.flavor.blockOpen class_) with floatLabel := floatLabel? node.children })
    (fun s t => { t.write ctx.flavor.blockClose with floatLabel := s.floatLabel })
    (inside (captionFirst node.children)
      (.of_noLarger (noLarger_captionFirst _) (shrinks_children node rest)))

def captionTitle (ctx : Context) : Option String → Walk (String × String)
  | none => return ("", "")
  | some label => do
    let word := (UnitKind.classify "" label).word
    let number ← match ctx.labels.get? label with
      | some number => pure number
      | none => do
        record (.unresolved label)
        pure Reference.unknownNumber
    return (Reference.labelId label, Reference.withWord word number)

def writeCaption (ctx : Context) (label : Option String) (text : Walk Unit) : Walk Unit := do
  let (anchor, title) ← captionTitle ctx label
  write (ctx.flavor.captionOpen anchor title)
  inlined text
  write ctx.flavor.captionClose

/-- A caption has one argument. With two more, the second is the body of the float and the third
holds its notes. -/
def caption (ctx : Context) (inside : Inside node rest) : Walk Unit := do
  let count := node.required.length
  if count != 1 && count != 3 then fail (.render (node.argumentCount 1 count))
  else
    let text := node.requiredNodes 0
    let label := match named? "label" text >>= labelOf? with
      | some label => some label
      | none => labelBehind? rest
    writeCaption ctx label (argument inside 0)
    if count = 3 then
      argument inside 1
      if !(node.requiredNodes 2).all (·.isBlank) then
        write (ctx.flavor.blockOpen "table-notes")
        inlined (argument inside 2)
        write ctx.flavor.blockClose

def graphics (ctx : Context) (node : Node) : Walk Unit := do
  let arg ← rendering node.onlyArg
  let path := String.ofList (arg.text.toList.filter fun c => c != '\x7b' && c != '\x7d')
  openParagraph ctx
  match Asset.glyph? path with
  | some glyph => write glyph
  | none =>
    let image ← onDisk (Asset.publish ctx.assets path)
    write (ctx.flavor.image image "")

/-- The name of a drawing: the label of its float, or its number in the chapter. -/
def drawingName (ctx : Context) (s : State) : String :=
  match s.floatLabel with
  | some label => Reference.labelId label
  | none => "tikz-" ++ Text.padded 2 ctx.chapter ++ "-" ++ toString s.drawings

def drawing (ctx : Context) (node : Node) : Walk Unit := do
  modify fun s => { s with drawings := s.drawings + 1 }
  let s ← get
  let image ← onDisk (Asset.publishDrawing ctx.assets node.source (drawingName ctx s))
  openParagraph ctx
  write (ctx.flavor.image image "")

end Quire.Walk
