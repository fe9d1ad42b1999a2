import Quire.Prose
import Quire.Text.Letter

/-! The bibliography of a book. An entry starts with `\bibitem[SHORT]{KEY}` and goes on to the
next blank line. -/
namespace Quire

structure BibEntry where
  key : String
  /-- Author and year, as a citation prints them. -/
  short : String
  /-- The full reference. -/
  text : String
deriving DecidableEq, Repr

structure Bibliography where
  entries : List BibEntry
deriving Repr

namespace Bibliography

def empty : Bibliography := ⟨[]⟩

def insert (bib : Bibliography) (entry : BibEntry) : Bibliography :=
  ⟨entry :: bib.entries.filter (·.key != entry.key)⟩

def get? (bib : Bibliography) (key : String) : Option BibEntry :=
  bib.entries.find? (·.key == key)

def size (bib : Bibliography) : Nat := bib.entries.length

def dropBraces (cs : List Char) : List Char := cs.filter fun c => c != '\x7b' && c != '\x7d'

def year? (cs : List Char) : Option (List Char × List Char) :=
  let digits := cs.take 4
  if digits.length = 4 ∧ digits.all Text.isDecimal then
    match cs.drop 4 with
    | c :: rest => if c.isLower then some (digits ++ [c], rest) else some (digits, c :: rest)
    | [] => some (digits, [])
  else none

def yearInParens? : List Char → Option (List Char × List Char)
  | [] => none
  | c :: cs =>
    match if c = '(' then year? cs else none with
    | some (year, ')' :: _) => some ([], year)
    | _ => (yearInParens? cs).map fun (front, year) => (c :: front, year)

/-- The short form of a label such as `Smith et~al.(2020)Smith, Jones`: `Smith et~al., 2020`. -/
def shortLabel (label : String) : String :=
  let label := dropBraces label.toList
  match yearInParens? label with
  | some (front, year) => Text.trim (.ofList front) ++ ", " ++ .ofList year
  | none => .ofList label

def dropControlWords : List Char → List Char
  | [] => []
  | c :: cs =>
    let word := if c = '\\' then cs.takeWhile fun d => d.isAlpha || d == '@' else []
    if word.isEmpty then c :: dropControlWords cs
    else
      let star := if (cs.drop word.length).head? = some '*' then 1 else 0
      let rest := cs.drop (word.length + star)
      dropControlWords (rest.drop (rest.takeWhile Text.isBlank).length)
termination_by cs => cs.length
decreasing_by all_goals simp only [List.length_drop, List.length_cons]; omega

/-- Running text without braces. Control words that running text does not know are left out. -/
def cleanText (target : Target) (raw : String) : String :=
  let text := match Prose.normalize target raw with
    | .ok text => text
    | .error _ =>
      let stripped := String.ofList (dropControlWords raw.toList)
      match Prose.normalize target stripped with
      | .ok text => text
      | .error _ => stripped
  Text.trim (.ofList (dropBraces text.toList))

/-- The text up to the first bracket that no brace encloses, and what follows the bracket. -/
def bracketed? (depth : Int) : List Char → Option (List Char × List Char)
  | [] => none
  | c :: cs =>
    if c = ']' ∧ depth = 0 then some ([], cs)
    else
      let depth := if c = '\x7b' then depth + 1 else if c = '\x7d' then depth - 1 else depth
      (bracketed? depth cs).map fun (text, rest) => (c :: text, rest)

structure Item where
  short : Option (List Char)
  key : List Char
  rest : List Char

def Item.ofLine? (line : List Char) : Option Item := do
  let cs ← "\\bibitem".toList.isPrefixOf? line
  let (short, cs) := match cs with
    | '[' :: inner =>
      match bracketed? 0 inner with
      | some (short, rest) => (some short, rest)
      | none => (none, cs)
    | _ => (none, cs)
  match cs.dropWhile fun c => c == ' ' || c == '\t' with
  | '\x7b' :: inner =>
    let (key, rest) ← Text.splitOnce? ['\x7d'] inner
    some ⟨short, key, rest⟩
  | _ => none

structure Draft where
  key : String
  short : String
  lines : List String

def Draft.finish (target : Target) (draft : Draft) : BibEntry where
  key := draft.key
  short := cleanText target (shortLabel draft.short)
  text := cleanText target (" ".intercalate draft.lines)

def Draft.ofItem (item : Item) : Draft where
  key := Text.trim (.ofList item.key)
  short := .ofList (item.short.getD item.key)
  lines := if item.rest.all Text.isBlank then [] else [Text.trim (.ofList item.rest)]

def close (target : Target) (bib : Bibliography) : Option Draft → Bibliography
  | none => bib
  | some draft => bib.insert (draft.finish target)

def readLines (target : Target) (bib : Bibliography) (draft : Option Draft) :
    List String → Except IndexFault Bibliography
  | [] => .ok (bib.close target draft)
  | line :: lines =>
    let start := line.toList.dropWhile Text.isBlank
    if "\\bibitem".toList.isPrefixOf start then
      match Item.ofLine? start with
      | some item => readLines target (bib.close target draft) (some (.ofItem item)) lines
      | none => .error (.malformedItem (Text.trim line))
    else if start.isEmpty then readLines target (bib.close target draft) none lines
    else
      let draft := draft.map fun d =>
        if "\\end\x7bthebibliography\x7d".toList.isPrefixOf start then d
        else { d with lines := d.lines ++ [Text.trim line] }
      readLines target bib draft lines

def parse (target : Target) (source : String) : Except IndexFault Bibliography :=
  readLines target .empty none (Text.lines source)

end Bibliography
end Quire
