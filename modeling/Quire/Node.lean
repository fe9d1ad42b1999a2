import Quire.Fault
import Quire.Text.Cut

/-! The tree of a LaTeX source. Text, escapes and comments stay raw, an argument keeps its exact
source beside its nodes, and `source` writes a tree back as it would be read. -/
namespace Quire

inductive Grouping
  | required
  | optional
deriving DecidableEq, Repr

mutual
inductive Node
  | text (content : String)
  | command (name : String) (args : List Arg)
  | environment (name : String) (args : List Arg) (children : List Node)
  | group (children : List Node)
  | math (display : Bool) (content : String)

/-- An argument group with the exact source between its delimiters. -/
inductive Arg
  | mk (grouping : Grouping) (nodes : List Node) (raw : String)
end

instance : Inhabited Node := ⟨.text ""⟩

namespace Arg

def grouping : Arg → Grouping | mk grouping _ _ => grouping

def nodes : Arg → List Node | mk _ nodes _ => nodes

def raw : Arg → String | mk _ _ raw => raw

def isRequired (arg : Arg) : Bool := arg.grouping == .required

def text (arg : Arg) : String := Text.trim arg.raw

def delimiters : Grouping → String × String
  | .required => ("\x7b", "\x7d")
  | .optional => ("[", "]")

def source (arg : Arg) : String :=
  (delimiters arg.grouping).1 ++ arg.raw ++ (delimiters arg.grouping).2

end Arg

namespace Node

def name : Node → String
  | text _ => "text"
  | command name _ | environment name _ _ => name
  | group _ => "group"
  | math false _ => "$"
  | math true _ => "$$"

def isText : Node → Bool
  | text _ => true
  | _ => false

def isBlank : Node → Bool
  | text content => Text.allBlank content
  | _ => false

/-- True for text whose lines hold white space and comments alone. -/
def isBlankOrComment : Node → Bool
  | text content => (Text.lines content).all fun line =>
      match line.toList.dropWhile Text.isBlank with
      | [] => true
      | c :: _ => c == '%'
  | _ => false

def args : Node → List Arg
  | command _ args | environment _ args _ => args
  | _ => []

def children : Node → List Node
  | environment _ _ children | group children => children
  | _ => []

def required (node : Node) : List Arg := node.args.filter (·.isRequired)

def optional (node : Node) : List Arg := node.args.filter (!·.isRequired)

def withoutChildren : Node → Node
  | environment name args _ => environment name args []
  | group _ => group []
  | node => node

def requiredNodes (node : Node) (n : Nat) : List Node :=
  (node.required[n]?.map Arg.nodes).getD []

/-- The environment whose nodes a list is made of. It is written with its command alone. -/
def itemName : String := "item"

mutual
def source : Node → String
  | text content => content
  | command name args => "\\" ++ name ++ String.join (args.map Arg.source)
  | environment name args children =>
    let inside := String.join (args.map Arg.source) ++ sourceOf children
    if name = itemName then "\\item" ++ inside
    else environmentMark "begin" name ++ inside ++ environmentMark "end" name
  | group children => "\x7b" ++ sourceOf children ++ "\x7d"
  | math false content => "$" ++ content ++ "$"
  | math true content => "$$" ++ content ++ "$$"

def sourceOf : List Node → String
  | [] => ""
  | node :: rest => source node ++ sourceOf rest
end

def argumentCount (node : Node) (expected found : Nat) : RenderFault :=
  .argumentCount node.name expected found node.source

def exactArgs (node : Node) (n : Nat) : Except RenderFault (List Arg) :=
  let args := node.required
  if args.length = n then .ok args else .error (node.argumentCount n args.length)

def onlyArg (node : Node) : Except RenderFault Arg :=
  match node.required with
  | [arg] => .ok arg
  | args => .error (node.argumentCount 1 args.length)

def optionalArg? (node : Node) : Except RenderFault (Option Arg) :=
  match node.optional with
  | [] => .ok none
  | [arg] => .ok (some arg)
  | args => .error (node.argumentCount 1 args.length)

theorem sourceOf_append (a b : List Node) : sourceOf (a ++ b) = sourceOf a ++ sourceOf b := by
  induction a with
  | nil => simp [sourceOf]
  | cons node rest ih => simp [sourceOf, ih, String.append_assoc]

end Node
end Quire
