import Quire.Flavor
import Quire.Flavor.Escape
import Quire.Reference

/-! Pages in HTML. -/
namespace Quire.Html

def mathHead : List String :=
  ["<script>",
   "MathJax = \x7b",
   "    tex: \x7b",
   "        inlineMath: [['\\\\(', '\\\\)']],",
   "        displayMath: [['\\\\[', '\\\\]']]",
   "    \x7d",
   "\x7d;",
   "</script>",
   "<script id=\"MathJax-script\" async src=\"https://cdn.jsdelivr.net/npm/mathjax@3/es5/tex-mml-chtml.js\"></script>"]

def styles : List String :=
  ["<style>",
   ".chapter \x7b max-width: 860px; margin: 0 auto; padding: 2em; font-family: Georgia, serif; line-height: 1.6; \x7d",
   ".chapter-nav \x7b display: flex; justify-content: space-between; max-width: 860px; margin: 1em auto; \x7d",
   ".text-muted \x7b color: #666; \x7d",
   ".figure, .code-example, .feature \x7b margin: 2em 0; \x7d",
   ".figure img \x7b max-width: 100%; \x7d",
   ".table \x7b border-collapse: collapse; margin: 1em auto; \x7d",
   ".table th, .table td \x7b border: 1px solid #ddd; padding: 0.4em 0.8em; \x7d",
   ".code-row-double \x7b display: flex; gap: 1em; \x7d",
   ".code-row-double > div \x7b flex: 1; min-width: 0; \x7d",
   ".code-caption \x7b font-weight: bold; font-size: 0.9em; \x7d",
   "pre.code, pre.output \x7b background: #f6f6f6; padding: 0.5em; overflow-x: auto; \x7d",
   "pre.code code \x7b display: block; \x7d",
   ".feature \x7b padding: 1em; background: #f8f8f8; border-left: 3px solid #333; \x7d",
   ".abstract .caption, .keywords .caption, .objectives .caption \x7b font-weight: bold; \x7d",
   ".footnotes \x7b font-size: 0.9em; color: #444; \x7d",
   ".footnote-ref \x7b font-size: 0.8em; \x7d",
   ".cite \x7b border-bottom: 1px dotted #999; \x7d",
   "</style>"]

def textOfLines (lines : List String) : String := "\n".intercalate lines

def headingOpen (level : Level) (anchor number : String) : String :=
  let opening := "\n<h" ++ toString level.rank ++ " id='" ++ anchor ++ "'>"
  if number.isEmpty then opening
  else
    opening ++ "<small class='text-muted'><a class='anchor' href='#" ++ anchor ++ "'>" ++ number ++
      "</a></small> "

def headingClose (level : Level) : String := "</h" ++ toString level.rank ++ ">\n"

def markupOpen : Markup → String
  | .emphasis => "<em>"
  | .bold => "<strong>"
  | .code => "<code>"
  | .smallCaps => "<span class='smallcaps'>"
  | .underline => "<u>"

def markupClose : Markup → String
  | .emphasis => "</em>"
  | .bold => "</strong>"
  | .code => "</code>"
  | .smallCaps => "</span>"
  | .underline => "</u>"

def blockOpen (class_ : String) : String := .join ["\n<div class='", class_, "'>\n"]

def captionOpen (anchor title : String) : String :=
  (if anchor.isEmpty then "<h4>\n" else "<h4 id='" ++ anchor ++ "'>\n") ++
    if title.isEmpty then ""
    else
      "  <small class='text-muted'><a class='anchor' href='#" ++ anchor ++ "'>" ++ title ++
        ".</a></small><br />\n"

def listTag : ListKind → String
  | .itemize => "ul"
  | .enumerate => "ol"
  | .description => "dl"

def listOpen (kind : ListKind) : String := "\n<" ++ listTag kind ++ ">"

def listClose (kind : ListKind) : String := "\n</" ++ listTag kind ++ ">\n"

def itemOpen (kind : ListKind) (title : Option String) : String :=
  match kind, title with
  | .description, title => "\n  <dt>" ++ title.getD "" ++ "</dt><dd>"
  | _, some title => "\n  <li><strong>" ++ title ++ "</strong> "
  | _, none => "\n  <li>"

def itemClose : ListKind → String
  | .description => "</dd>"
  | _ => "</li>"

def inlineMath (tex : String) : String := "\\(" ++ escape tex ++ "\\)"

def displayMath (tex : String) : String := "\\[" ++ escape tex ++ "\\]"

def inlineCode (code : String) : String := "<code>" ++ escape code ++ "</code>"

def codeBlock (code : String) (language : Option String) : String :=
  let opening := match language with
    | some language => .join ["\n<pre class='language-", language, "'>"]
    | none => "\n<pre>"
  .join [opening, escape code, "</pre>\n"]

def link (href text : String) : String := "<a href='" ++ href ++ "'>" ++ text ++ "</a>"

def citation (text reference : String) : String :=
  .join ["<span class=\"cite\" title=\"", attributeText reference, "\">", text, "</span>"]

def span (class_ text : String) : String :=
  .join ["<span class='", class_, "'>", text, "</span>"]

def footnoteMarker (number : Nat) : String :=
  let n := toString number
  .join ["<sup id=\"fnref-", n, "\" class=\"footnote-ref\"><a href=\"#fn-", n, "\">[", n,
    "]</a></sup>"]

def footnote (number : Nat) (note : String) : String :=
  let n := toString number
  .join ["<li id=\"fn-", n, "\">", note, " <a href=\"#fnref-", n,
    "\" class=\"footnote-back\">↩</a></li>\n"]

def footnotes (notes : List String) : String :=
  .join ["\n<section class=\"footnotes\">\n<hr>\n<ol>\n",
    .join (notes.mapIdx fun i note => footnote (i + 1) note), "</ol>\n</section>\n"]

def image (image : ImageRef) (alt : String) : String :=
  let alt := attributeText alt
  match image.thumbnail with
  | some thumbnail =>
    "<a href='" ++ image.src ++ "' title='Click to open full-size image'>\n  <img src='" ++
      thumbnail ++ "' alt=\"" ++ alt ++ "\" />\n</a>"
  | none => "<img src='" ++ image.src ++ "' alt=\"" ++ alt ++ "\" />"

/-- A listing of folders inside `depth` open lists. -/
def dirtreeAt (depth : Nat) : List (Nat × String) → String
  | [] => Text.repeated "</ul>\n" depth
  | (level, name) :: rest =>
    Text.repeated "<ul class='dirtree'>\n" (level - depth) ++
      Text.repeated "</ul>\n" (depth - level) ++ "<li>" ++ name ++ "</li>\n" ++
      dirtreeAt level rest

def caption (caption : Option String) : String :=
  match caption with
  | some caption => .join ["  <div class='code-caption'>", caption, "</div>\n"]
  | none => ""

def codeLine : Option String → String
  | some line => "<code>" ++ escape line ++ "</code>"
  | none => "&nbsp;"

def cell (cell : Example.Cell) : String :=
  match cell.body with
  | .code lines =>
    "<div class='code-input'>\n" ++ caption cell.caption ++ "  <pre class='code'>" ++
      "\n".intercalate (lines.map codeLine) ++ "</pre>\n</div>\n"
  | .text text =>
    "<div class='code-output'>\n" ++ caption cell.caption ++ "  <pre class='output'>" ++
      escape text ++ "</pre>\n</div>\n"
  | .image ref =>
    "<div class='code-output'>\n" ++ image ref (cell.caption.getD "") ++ "\n</div>\n"
  | .html html => "<div class='table-wrapper'>" ++ html ++ "</div>\n"

def row (row : List Example.Cell) : String :=
  .join ["<div class='", if row.length > 1 then "code-row-double" else "code-single", "'>\n",
    .join (row.map cell), "</div>\n"]

def chapterFile (chapter : Chapter) : String := Reference.chapterFile chapter.ordinal "html"

def chapterTitle (chapter : Chapter) : String := chapter.number ++ ". " ++ chapter.caption

def navLink (rel : String) (chapter : Option Chapter) : String :=
  match chapter with
  | some chapter =>
    .join ["<a rel='", rel, "' href='", chapterFile chapter, "'>", chapterTitle chapter, "</a>"]
  | none => ""

def nav (page : Page) : String :=
  .join ["<nav class='chapter-nav'>\n", navLink "prev" page.previous,
    "\n<a href='index.html'>Contents</a>\n", navLink "next" page.next, "\n</nav>\n"]

mutual
def tocEntry (file : String) : TocEntry → String
  | ⟨_, number, caption, _, children⟩ =>
    .join ["<li><a href='", file, "#", Reference.sectionAnchor number, "'>", number, " ", caption,
      "</a>",
      if children.isEmpty then "" else .join ["\n<ul>\n", tocItems file children, "</ul>\n"],
      "</li>\n"]

def tocItems (file : String) : List TocEntry → String
  | [] => ""
  | entry :: entries => tocEntry file entry ++ tocItems file entries
end

def tocEntries (file : String) (entries : List TocEntry) : String :=
  if entries.isEmpty then "" else "<ul>\n" ++ tocItems file entries ++ "</ul>\n"

def pageHead : String :=
  "<!DOCTYPE html>\n<html lang=\"en\">\n<head>\n<meta charset=\"UTF-8\">\n"

def page (page : Page) : String :=
  .join [pageHead,
    "<meta name=\"viewport\" content=\"width=device-width, initial-scale=1.0\">\n<title>",
    page.chapter.number, ". ", attributeText page.chapter.caption, " | ", escape page.bookTitle,
    "</title>\n", textOfLines mathHead, "\n", textOfLines styles, "\n</head>\n<body>\n", nav page,
    "<article class=\"chapter\">\n", Text.trim page.body, "\n</article>\n", nav page,
    "</body>\n</html>\n"]

def indexChapter (chapter : Chapter) : String :=
  .join ["<li><a href='", chapterFile chapter, "'>", chapterTitle chapter, "</a>\n",
    tocEntries (chapterFile chapter) chapter.sections, "</li>\n"]

def index (title : String) (chapters : List Chapter) : String :=
  .join [pageHead, "<title>", escape title, "</title>\n", textOfLines styles,
    "\n</head>\n<body>\n<article class=\"chapter\">\n<h1>", escape title,
    "</h1>\n<nav class=\"toc\">\n<ul>\n", .join (chapters.map indexChapter),
    "</ul>\n</nav>\n</article>\n</body>\n</html>\n"]

def flavor : Flavor where
  target := .html
  paragraphOpen := "\n<p>"
  paragraphClose := "</p>\n"
  headingOpen := headingOpen
  headingClose := fun level _ => headingClose level
  markupOpen := markupOpen
  markupClose := markupClose
  blockOpen := blockOpen
  blockClose := "\n</div>\n"
  captionOpen := captionOpen
  captionClose := "</h4>\n"
  listOpen := listOpen
  listClose := listClose
  itemOpen := fun kind title _ => itemOpen kind title
  itemClose := itemClose
  inlineMath := inlineMath
  displayMath := displayMath
  inlineCode := inlineCode
  codeBlock := codeBlock
  link := link
  citation := citation
  span := span
  footnoteMarker := footnoteMarker
  footnotes := footnotes
  image := image
  dirtree := dirtreeAt 0
  example_ := fun block => String.join (block.map row)
  rawHtml := id
  page := page
  index := fun title chapters => [("index.html", index title chapters)]

end Quire.Html
