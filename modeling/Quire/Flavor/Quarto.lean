import Quire.Flavor.Html

/-! Pages in the markdown of Quarto. -/
namespace Quire.Quarto

def attributes (inside : String) : String := "\x7b" ++ inside ++ "\x7d"

def fence (body language : String) : String :=
  "\n```" ++ language ++ "\n" ++ .ofList (Text.dropEndWhile (· == '\n') body.toList) ++ "\n```\n"

def headingOpen (level : Level) (number : String) : String :=
  "\n\n" ++ Text.repeated "#" level.rank ++ " " ++ (if number.isEmpty then "" else number ++ " ")

def headingClose (anchor : String) : String :=
  " " ++ attributes ("#" ++ anchor ++ " .unnumbered") ++ "\n"

def markupOpen : Markup → String
  | .emphasis => "*"
  | .bold => "**"
  | .code => "`"
  | .smallCaps | .underline => "["

def markupClose : Markup → String
  | .emphasis => "*"
  | .bold => "**"
  | .code => "`"
  | .smallCaps => "]" ++ attributes ".smallcaps"
  | .underline => "]" ++ attributes ".underline"

def blockOpen (class_ : String) : String := "\n\n::: " ++ attributes ("." ++ class_) ++ "\n"

def captionOpen (anchor title : String) : String :=
  "\n" ++ (if anchor.isEmpty then "" else "[]" ++ attributes ("#" ++ anchor)) ++
    (if title.isEmpty then "" else "**" ++ title ++ ".** ")

def bullet : ListKind → String
  | .enumerate => "1."
  | .itemize | .description => "-"

def itemOpen (kind : ListKind) (title : Option String) (nesting : Nat) : String :=
  Text.repeated "    " nesting ++ bullet kind ++ " " ++
    match title with
    | some title => "**" ++ title ++ "**" ++ if kind = .description then ": " else ". "
    | none => ""

def inlineMath (tex : String) : String := "$" ++ Text.trim tex ++ "$"

def displayMath (tex : String) : String := "\n$$" ++ Text.trim tex ++ "$$\n"

def inlineCode (code : String) : String :=
  if code.toList.contains '\x60' then "`` " ++ code ++ " ``" else "`" ++ code ++ "`"

def link (href text : String) : String := "[" ++ text ++ "](" ++ href ++ ")"

def citation (text reference : String) : String :=
  "[" ++ text ++ "]" ++ attributes (".cite title=\"" ++ Html.attributeText reference ++ "\"")

def span (class_ text : String) : String := "[" ++ text ++ "]" ++ attributes ("." ++ class_)

def footnoteMarker (number : Nat) : String := "[^" ++ toString number ++ "]"

def footnote (number : Nat) (note : String) : String :=
  "\n" ++ footnoteMarker number ++ ": " ++ Text.replace "\n" " " note ++ "\n"

def footnotes (notes : List String) : String :=
  "\n" ++ String.join (notes.mapIdx fun i note => footnote (i + 1) note)

def image (image : ImageRef) (alt : String) : String :=
  match image.thumbnail with
  | some thumbnail => "[![" ++ alt ++ "](" ++ thumbnail ++ ")](" ++ image.src ++ ")"
  | none => "![" ++ alt ++ "](" ++ image.src ++ ")"

def dirtree (entries : List (Nat × String)) : String :=
  "\n" ++ String.join (entries.map fun (depth, name) =>
    Text.repeated "    " (depth - 1) ++ "- " ++ name ++ "\n")

def rawHtml (html : String) : String := fence html (attributes "=html")

def cell (cell : Example.Cell) : String :=
  match cell.body with
  | .code lines =>
    fence ("\n".intercalate (lines.map (·.getD ""))) ((cell.lang.map Lang.fence).getD "")
  | .text text => fence text ""
  | .image ref => "\n" ++ image ref "" ++ "\n"
  | .html html => rawHtml html

/-- Cells side by side become tabs. -/
def row (row : List Example.Cell) : String :=
  if row.length > 1 then
    "\n::: " ++ attributes ".panel-tabset" ++ "\n" ++
      String.join (row.map fun c => "\n## " ++ c.caption.getD "" ++ "\n" ++ cell c) ++ "\n:::\n"
  else
    String.join (row.map fun c =>
      (match c.caption with
        | some caption => "\n**" ++ caption ++ "**\n"
        | none => "") ++ cell c)

mutual
def tocEntry (file : String) (nesting : Nat) : TocEntry → String
  | ⟨_, number, caption, _, children⟩ =>
    Text.repeated "  " nesting ++ "- [" ++ number ++ " " ++ caption ++ "](" ++ file ++ "#" ++
      Reference.sectionAnchor number ++ ")\n" ++ tocEntries file (nesting + 1) children

def tocEntries (file : String) (nesting : Nat) : List TocEntry → String
  | [] => ""
  | entry :: entries => tocEntry file nesting entry ++ tocEntries file nesting entries
end

def chapterFile (chapter : Chapter) : String := Reference.chapterFile chapter.ordinal "qmd"

def indexChapter (chapter : Chapter) : String :=
  "- [" ++ chapter.number ++ ". " ++ chapter.caption ++ "](" ++ chapterFile chapter ++ ")\n" ++
    tocEntries (chapterFile chapter) 1 chapter.sections

def index (title : String) (chapters : List Chapter) : String :=
  "# " ++ title ++ " " ++ attributes ".unnumbered" ++ "\n\n" ++
    String.join (chapters.map indexChapter)

def projectText (s : String) : String :=
  "\"" ++ Text.replace "&quot;" "\\\"" (Html.attributeText s) ++ "\""

def projectHead (title : String) : List String :=
  ["project:", "  type: book", "  output-dir: _book", "", "book:", "  title: " ++ projectText title,
    "  chapters:", "    - index.qmd"]

def projectFormat : List String :=
  ["", "format:", "  html:", "    theme: cosmo", "    number-sections: false"]

def project (title : String) (chapters : List Chapter) : String :=
  String.join ((projectHead title ++ chapters.map ("    - " ++ chapterFile ·) ++ projectFormat).map
    (· ++ "\n"))

def flavor : Flavor where
  target := .quarto
  paragraphOpen := "\n"
  paragraphClose := "\n"
  headingOpen := fun level _ number => headingOpen level number
  headingClose := fun _ anchor => headingClose anchor
  markupOpen := markupOpen
  markupClose := markupClose
  blockOpen := blockOpen
  blockClose := "\n:::\n\n"
  captionOpen := captionOpen
  captionClose := "\n"
  listOpen := fun _ => "\n"
  listClose := fun _ => "\n"
  itemOpen := itemOpen
  itemClose := fun _ => "\n"
  inlineMath := inlineMath
  displayMath := displayMath
  inlineCode := inlineCode
  codeBlock := fun code language => fence code (language.getD "")
  link := link
  citation := citation
  span := span
  footnoteMarker := footnoteMarker
  footnotes := footnotes
  image := image
  dirtree := dirtree
  example_ := fun block => String.join (block.map row)
  rawHtml := rawHtml
  page := fun page => Text.trim page.body ++ "\n"
  index := fun title chapters =>
    [("index.qmd", index title chapters), ("_quarto.yml", project title chapters)]

end Quire.Quarto

namespace Quire

def Target.flavor : Target → Flavor
  | .html => Html.flavor
  | .quarto => Quarto.flavor

end Quire
