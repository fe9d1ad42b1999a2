import Quire.Citation
import Quire.Prose
import Quire.Walk.State

/-! What running text is made of besides words: markup, math, references, citations, notes, links
and colors. -/
namespace Quire.Walk

variable {node : Node} {rest : List Node}

def argumentText (ctx : Context) (inside : Inside node rest) (n : Nat) : Walk String :=
  asText ctx (argument inside n)

def markup (ctx : Context) (inside : Inside node rest) (markup : Markup) : Walk Unit := do
  openParagraph ctx
  write (ctx.flavor.markupOpen markup)
  inlined (argument inside 0)
  write (ctx.flavor.markupClose markup)

def fixed (ctx : Context) (html quarto : String) : Walk Unit := do
  openParagraph ctx
  write (match ctx.target with
    | .html => html
    | .quarto => quarto)

def isDots (tex : String) : Bool :=
  ["\\cdots", "\\ldots", "\\dots"].contains (Text.trim tex)

/-- Math in a cell is never displayed. -/
def math (ctx : Context) (display : Bool) (tex : String) : Walk Unit := do
  let s ← get
  if s.table.isSome then
    openParagraph ctx
    write (if isDots tex then "&hellip;" else ctx.flavor.inlineMath tex)
  else if display then
    closeParagraph ctx
    write (ctx.flavor.displayMath tex)
  else
    openParagraph ctx
    write (ctx.flavor.inlineMath tex)

def equation (ctx : Context) (node : Node) (inside : Option String) : Walk Unit :=
  let body := Node.sourceOf node.children
  math ctx true (match inside with
    | some name => environmentMark "begin" name ++ body ++ environmentMark "end" name
    | none => body)

def reference (ctx : Context) (node : Node) : Walk Unit := do
  let arg ← rendering node.onlyArg
  let kind := RefKind.ofCommand node.name
  let label := kind.label arg.text
  let word := kind.word label
  openParagraph ctx
  match Reference.resolve? ctx.labels label ctx.chapter ctx.target.extension with
  | some resolved =>
    write (ctx.flavor.link resolved.href (Reference.withWord word resolved.number))
  | none =>
    write (Reference.withWord word Reference.unknownNumber)
    record (.unresolved label)

def citation (ctx : Context) (node : Node) (style : CiteStyle) : Walk Unit := do
  let keys ← rendering node.onlyArg
  let entries ← rendering (Citation.entries keys.text ctx.bibliography)
  let notes ← rendering (node.optional.mapM fun arg => Prose.normalize ctx.target arg.text)
  let items := entries.map fun entry => ctx.flavor.citation (Citation.text style entry) entry.text
  openParagraph ctx
  write (Citation.assemble style items notes)

/-- A note goes to the end of the chapter and leaves its number. -/
def footnote (ctx : Context) (inside : Inside node rest) : Walk Unit := do
  let _ ← rendering node.onlyArg
  let body ← argumentText ctx inside 0
  modify fun s => { s with footnotes := s.footnotes ++ [Text.trim body] }
  openParagraph ctx
  modify (·.mark ctx.flavor body)

def dropScheme (url : List Char) : List Char :=
  let scheme := url.takeWhile Char.isLower
  if scheme.isEmpty then url
  else ("://".toList.isPrefixOf? (url.drop scheme.length)).getD url

def url (ctx : Context) (node : Node) : Walk Unit := do
  let arg ← rendering node.onlyArg
  let shown := String.ofList (dropScheme arg.text.toList)
  openParagraph ctx
  write (ctx.flavor.link arg.text (match ctx.target with
    | .html => Html.escape shown
    | .quarto => shown))

def firstOfTwo (node : Node) : Except RenderFault String :=
  (node.exactArgs 2).map fun args => (args.head?.map Arg.text).getD ""

def href (ctx : Context) (inside : Inside node rest) : Walk Unit := do
  let address ← rendering (firstOfTwo node)
  let shown ← argumentText ctx inside 1
  openParagraph ctx
  write (ctx.flavor.link address (Text.trim shown))

/-- A text in a color. Nothing is colored where there is nothing to see. -/
def colored (ctx : Context) (color text : String) : Walk Unit :=
  if Text.allBlank text then return
  else do
    openParagraph ctx
    write (ctx.flavor.span color text)

def color (ctx : Context) (inside : Inside node rest) : Walk Unit := do
  let arg ← rendering node.onlyArg
  let text ← asText ctx (inside rest (.tail node rest))
  colored ctx arg.text text

def coloredText (ctx : Context) (inside : Inside node rest) : Walk Unit := do
  let name ← rendering (firstOfTwo node)
  let text ← argumentText ctx inside 1
  colored ctx name text

def verb (ctx : Context) (node : Node) : Walk Unit := do
  let arg ← rendering node.onlyArg
  match Text.count? arg.text >>= (ctx.verbs[·]?) with
  | none => fail (.render (.badArgument "verbplaceholder" (.noVerbatim arg.text)))
  | some body =>
    openParagraph ctx
    write (ctx.flavor.inlineCode body)

end Quire.Walk
