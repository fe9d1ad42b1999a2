import Quire.Text.Cut

/-! Cutting the raw text of a table at its separators. Comments go with their line end, and so
does the extra space that may follow a row separator in brackets. -/
namespace Quire.Table

inductive CellToken
  | text (content : String)
  /-- An ampersand. -/
  | column
  /-- Two backslashes. -/
  | row
deriving DecidableEq, Repr

abbrev CellParts := List Char × List CellToken

def CellParts.close : CellParts → List CellToken
  | ([], tokens) => tokens
  | (text, tokens) => .text (.ofList text) :: tokens

def CellParts.prepend (cs : List Char) (parts : CellParts) : CellParts := (cs ++ parts.1, parts.2)

def skipLength (cs : List Char) : Nat :=
  match cs with
  | '[' :: rest => ((Text.before? [']'] rest).map (·.length + 2)).getD 0
  | _ => 0

def lineLength (cs : List Char) : Nat :=
  ((Text.before? ['\n'] cs).map (·.length + 1)).getD cs.length

def cellParts : List Char → CellParts
  | [] => ([], [])
  | '\\' :: '\\' :: cs => ([], .row :: (cellParts (cs.drop (skipLength cs))).close)
  | '\\' :: c :: cs => (cellParts cs).prepend ['\\', c]
  | c :: cs =>
    if c = '%' then ([], (cellParts (cs.drop (lineLength cs))).close)
    else if c = '&' then ([], .column :: (cellParts cs).close)
    else (cellParts cs).prepend [c]
termination_by cs => cs.length
decreasing_by all_goals simp only [List.length_drop, List.length_cons]; omega

def splitCells (raw : String) : List CellToken := (cellParts raw.toList).close

end Quire.Table
