/-! What a chapter's reader should know and what does not end its rendering. -/
namespace Quire

inductive Diagnostic
  /-- A node that nothing is known about; it is left out. -/
  | unknownNode (name : String)
  /-- A label without a number. -/
  | unresolved (label : String)
deriving DecidableEq, Repr

def Diagnostic.message : Diagnostic → String
  | unknownNode name => .join ["unknown node kind: ", name]
  | unresolved label => .join ["unresolved reference: ", label]

/-- Unknown names in ascending order, and labels in the order in which they were missed, each
once. -/
structure Diagnostics where
  unknown : List String
  unresolved : List String
deriving DecidableEq, Repr

namespace Diagnostics

def empty : Diagnostics := ⟨[], []⟩

def insertName (name : String) : List String → List String
  | [] => [name]
  | other :: names =>
    if name < other then name :: other :: names
    else if name = other then other :: names
    else other :: insertName name names

def addLabel (labels : List String) (label : String) : List String :=
  if labels.contains label then labels else labels ++ [label]

def record (d : Diagnostics) : Diagnostic → Diagnostics
  | .unknownNode name => { d with unknown := insertName name d.unknown }
  | .unresolved label => { d with unresolved := addLabel d.unresolved label }

def merge (d other : Diagnostics) : Diagnostics where
  unknown := other.unknown.foldl (fun names name => insertName name names) d.unknown
  unresolved := other.unresolved.foldl addLabel d.unresolved

def isClean (d : Diagnostics) : Bool := d.unknown.isEmpty && d.unresolved.isEmpty

def size (d : Diagnostics) : Nat := d.unknown.length + d.unresolved.length

def toList (d : Diagnostics) : List Diagnostic :=
  d.unknown.map .unknownNode ++ d.unresolved.map .unresolved

end Diagnostics
end Quire
