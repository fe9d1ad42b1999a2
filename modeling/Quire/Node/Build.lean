import Quire.Node
import Quire.Token

/-! Building the tree of a source from its lexemes, one lexeme at a time. What is open stands on a
stack of frames; a frame keeps the siblings that were read before it and, in braces or brackets,
the exact source before it, so that an argument knows its own. -/
namespace Quire.Node

/-- Commands that never take an argument in braces: a group after one is a sibling. -/
def braceless : List String :=
  ["item", "centering", "noindent", "raggedright", "newpage", "clearpage", "midrule", "toprule",
   "bottomrule", "hline", "medskip", "smallskip", "bigskip", "hfill", "footnotesize", "em", "bf",
   "it", "tt"]

def listNames : List String := ["itemize", "enumerate", "description", "objectives"]

def splitItems : List Node → List Node × List Node
  | [] => ([], [])
  | node :: rest =>
    let (lead, items) := splitItems rest
    match node with
    | .command name args =>
      if name = itemName then ([], .environment itemName args lead :: items)
      else (node :: lead, items)
    | _ => (node :: lead, items)

/-- The children of a list: its items, after what stands in front of them and is not blank. -/
def groupItems (children : List Node) : List Node :=
  let (lead, items) := splitItems children
  lead.filter (!·.isBlank) ++ items

/-- A raw environment. The option in front of a listing's body is cut off. -/
def ofVerbatim (name body : String) : Node :=
  match body.toList with
  | '[' :: rest =>
    match if name = "lstlisting" then Text.splitOnce? [']'] rest else none with
    | some (option, code) =>
      .environment name [.mk .optional [.text (.ofList option)] (.ofList option)]
        [.text (.ofList code)]
    | none => .environment name [] [.text body]
  | _ => .environment name [] [.text body]

/-- The raw text of a backslash with one character. White space of any kind is one blank. -/
def escapeText (symbol : Char) : String :=
  if Text.isBlank symbol then "\\ " else .ofList ['\\', symbol]

inductive Owner
  | command (name : String) (args : List Arg)
  | environment (name : String) (offset : Nat) (args : List Arg)

def Owner.takesBraces : Owner → Bool
  | command name _ => !braceless.contains name
  | environment .. => true

def Owner.addArg (arg : Arg) : Owner → Owner
  | command name args => .command name (args ++ [arg])
  | environment name offset args => .environment name offset (args ++ [arg])

/-- Something open: where it was opened, and what was read before it, the latest sibling first. -/
inductive Frame
  | group (offset : Nat) (before : String) (outer : List Node)
  | argument (grouping : Grouping) (offset : Nat) (before : String) (owner : Owner)
      (outer : List Node)
  | environment (name : String) (offset : Nat) (args : List Arg) (outer : List Node)

/-- What has been read: the exact source and the siblings since the innermost frame, the latest
sibling first, and the owner of a group that may follow. -/
structure Builder where
  raw : String
  siblings : List Node
  owner : Option Owner
  frames : List Frame

namespace Builder

def start : Builder := ⟨"", [], none, []⟩

/-- No further group belongs to the last owner: a command is complete, an environment is open. -/
def settle (b : Builder) : Builder :=
  match b.owner with
  | none => b
  | some (.command name args) =>
    { b with owner := none, siblings := .command name args :: b.siblings }
  | some (.environment name offset args) =>
    { b with
      owner := none
      siblings := []
      frames := .environment name offset args b.siblings :: b.frames }

def push (node : Node) (b : Builder) : Builder := { b with siblings := node :: b.siblings }

def openGroup (offset : Nat) (b : Builder) : Builder :=
  ⟨"", [], none, .group offset b.raw b.siblings :: b.frames⟩

def openArgument (grouping : Grouping) (offset : Nat) (owner : Owner) (b : Builder) : Builder :=
  ⟨"", [], none, .argument grouping offset b.raw owner b.siblings :: b.frames⟩

def closeArgument (grouping : Grouping) (before : String) (owner : Owner) (outer : List Node)
    (frames : List Frame) (b : Builder) : Builder :=
  let arg := Arg.mk grouping b.siblings.reverse b.raw
  ⟨before ++ arg.source, outer, some (owner.addArg arg), frames⟩

def closeBrace (offset : Nat) (b : Builder) : Except Misplaced Builder :=
  match b.frames with
  | .group _ before outer :: frames =>
    .ok ⟨before ++ "\x7b" ++ b.raw ++ "\x7d", .group b.siblings.reverse :: outer, none, frames⟩
  | .argument .required _ before owner outer :: frames =>
    .ok (b.closeArgument .required before owner outer frames)
  | _ => .error ⟨offset, .unmatchedBrace⟩

/-- A bracket that closes nothing is text. -/
def closeBracket (b : Builder) : Builder :=
  match b.frames with
  | .argument .optional _ before owner outer :: frames =>
    b.closeArgument .optional before owner outer frames
  | _ => { b with raw := b.raw ++ "]", siblings := .text "]" :: b.siblings }

def closeEnvironment (name : String) (offset : Nat) (b : Builder) : Except Misplaced Builder :=
  match b.frames with
  | .environment opened _ args outer :: frames =>
    if opened = name then
      let children := b.siblings.reverse
      let children := if listNames.contains name then groupItems children else children
      .ok { b with siblings := .environment name args children :: outer, frames }
    else .error ⟨offset, .wrongEnd name opened⟩
  | _ => .error ⟨offset, .unexpectedEnd name⟩

def write (spelling : String) (b : Builder) : Builder := { b with raw := b.raw ++ spelling }

def step (b : Builder) (lexeme : Lexeme) : Except Misplaced Builder :=
  let settled := b.settle
  let leaf (node : Node) := Except.ok ((settled.write lexeme.spelling).push node)
  match lexeme.token with
  | .text content => leaf (.text content)
  | .comment content => leaf (.text ("%" ++ content))
  | .escape symbol => leaf (.text (escapeText symbol))
  | .accent mark base => leaf (.text (.ofList ['\\', mark, base]))
  | .math display content => leaf (.math display content)
  | .verbatim name body => leaf (ofVerbatim name body)
  | .openBrace =>
    match b.owner.filter (·.takesBraces) with
    | some owner => .ok (b.openArgument .required lexeme.offset owner)
    | none => .ok (settled.openGroup lexeme.offset)
  | .openBracket =>
    match b.owner with
    | some owner => .ok (b.openArgument .optional lexeme.offset owner)
    | none => leaf (.text "[")
  | .closeBrace => settled.closeBrace lexeme.offset
  | .closeBracket => .ok settled.closeBracket
  | .command name =>
    .ok { settled.write lexeme.spelling with owner := some (.command name []) }
  | .beginEnv name =>
    .ok { settled.write lexeme.spelling with owner := some (.environment name lexeme.offset []) }
  | .endEnv name => (settled.write lexeme.spelling).closeEnvironment name lexeme.offset

def unclosed : Frame → Misplaced
  | .group offset _ _ | .argument .required offset _ _ _ => ⟨offset, .unclosedGroup⟩
  | .argument .optional offset _ _ _ => ⟨offset, .unclosedOption⟩
  | .environment name offset _ _ => ⟨offset, .missingEnd name⟩

def finish (b : Builder) : Except Misplaced (List Node) :=
  match b.settle.frames with
  | [] => .ok b.settle.siblings.reverse
  | frame :: _ => .error (unclosed frame)

end Builder

def build (lexemes : List Lexeme) : Except Misplaced (List Node) :=
  lexemes.foldlM Builder.step .start >>= Builder.finish

end Quire.Node
