import Quire.Citation
import Quire.Example
import Quire.Flavor
import Quire.Node

/-! What a walk does with a command or an environment, by its name. Stars at the end of a name
change nothing but the numbering of headings. -/
namespace Quire.Walk

inductive Role
  /-- Writes nothing. -/
  | ignored
  | markup (markup : Markup)
  /-- A fixed text for each target. -/
  | fixed (html quarto : String)
  | heading (level : Level)
  | citation (style : CiteStyle)
  | reference
  | footnote
  /-- A block of a class, with a caption in front. -/
  | float (class_ : String)
  | caption
  | graphics
  | drawing
  | table
  | wideCell
  | rule
  /-- A rule below some columns only. -/
  | partialRule
  | list
  | item
  | objectives
  | abstract_
  | keywords
  | feature
  /-- What is inside goes on with the text around it. -/
  | transparent
  /-- Display math, inside a further environment or none. -/
  | equation (inside : Option String)
  | verbatim
  /-- A numbered placeholder of inline verbatim text. -/
  | verb
  | dirtree
  | url
  | href
  | color
  | coloredText
  | example_
  | codeColumns
  | code
  | output (format : Example.Format)
  | outputColumns
  | raster
  | outputBox
  | unknown
deriving DecidableEq, Repr

def ignoredNames : List String :=
  ["label", "centering", "index", "noindent", "newpage", "clearpage", "toprule", "bottomrule",
   "hline", "vspace", "hspace", "hfill", "footnotesize", "nocite", "medskip", "smallskip",
   "bigskip", "protect", "phantomsection", "addcontentsline",
   "raggedright", "normalsize", "large", "Large", "bfseries", "itshape", "ttfamily", "em", "bf",
   "it", "tt"]

def fixedTexts : List (String × String × String) :=
  [("textbar", "|", "|"), ("textbackslash", "\\", "\\\\"), ("textless", "&lt;", "<"),
   ("textgreater", "&gt;", ">"), ("ldots", "&hellip;", "…"), ("dots", "&hellip;", "…"),
   ("lbrack", "[", "\\["), ("rbrack", "]", "\\]"),
   ("tidyverse", "<code>tidyverse</code>", "\x60tidyverse\x60"),
   ("pandas", "<code>pandas</code>", "\x60pandas\x60"),
   ("sklearn", "<code>scikit-learn</code>", "\x60scikit-learn\x60"),
   ("numpy", "<code>numpy</code>", "\x60numpy\x60"), ("LaTeX", "LaTeX", "LaTeX"),
   ("TeX", "TeX", "TeX")]

namespace Role

def ofWord : String → Role
  | "ref" | "pageref" | "refchap" | "refsec" | "reffig" | "reftab" | "refex" => reference
  | "footnote" => footnote
  | "figure" | "table" | "wrapfigure" => float "figure"
  | "ccsexample" => float "code-example"
  | "caption" => caption
  | "includegraphics" => graphics
  | "tikzpicture" => drawing
  | "tabular" | "tabularx" => table
  | "multicolumn" => wideCell
  | "midrule" => rule
  | "cmidrule" => partialRule
  | "itemize" | "enumerate" | "description" => list
  | "item" => item
  | "objectives" => objectives
  | "abstract" => abstract_
  | "keywords" => keywords
  | "feature" => feature
  | "document" | "center" | "quote" | "minipage" | "small" | "flushleft" => transparent
  | "equation" => equation none
  | "align" => equation (some "aligned")
  | "gather" => equation (some "gathered")
  | "verbatim" | "Verbatim" | "lstlisting" => verbatim
  | "verbplaceholder" => verb
  | "dirtree" => dirtree
  | "url" => url
  | "href" => href
  | "color" => color
  | "textcolor" => coloredText
  | "pyrex" => example_
  | "doublecodex" => codeColumns
  | "codex" => code
  | "codexoutputtable" => output .table
  | "codexoutputpng" => output .png
  | "doubleoutput" => outputColumns
  | "tcbraster" => raster
  | "tcolorbox" => outputBox
  | _ => unknown

def base (name : String) : String := .ofList (Text.dropEndWhile (· == '*') name.toList)

def isStarred (name : String) : Bool := name.toList.getLast? == some '*'

/-- The role of a name without stars. The tables come first. -/
def ofBase (name : String) : Role :=
  if ignoredNames.contains name then ignored
  else
    match Markup.ofCommand? name, fixedTexts.lookup name, Level.ofCommand? name,
      CiteStyle.ofCommand? name with
    | some m, _, _, _ => markup m
    | none, some (html, quarto), _, _ => fixed html quarto
    | none, none, some level, _ => heading level
    | none, none, none, some style => citation style
    | none, none, none, none => ofWord name

def ofName (name : String) : Role := ofBase (base name)

end Role
end Quire.Walk
