import Quire.Disk.Problem
import Quire.Text.Quoted
import Quire.Text.Numeral

/-! What can go wrong, by cause. A fault names the thing at fault; its wording is a function of
the cause, so that one cause has one wording. -/
namespace Quire

inductive SyntaxProblem
  | unterminatedMath
  | unexpected (c : Char)
  | unclosedGroup
  | unclosedOption
  | missingEnd (name : String)
  | unmatchedBrace
  | wrongEnd (found opened : String)
  | unexpectedEnd (name : String)
deriving DecidableEq, Repr

def environmentMark (word name : String) : String :=
  .join ["\\", word, "\x7b", name, "\x7d"]

def SyntaxProblem.message : SyntaxProblem → String
  | unterminatedMath => "unterminated math"
  | unexpected c => .join ["unexpected input ", Text.quotedLone c]
  | unclosedGroup => "unclosed group"
  | unclosedOption => "unclosed optional argument"
  | missingEnd name => .join ["missing ", environmentMark "end" name]
  | unmatchedBrace => "unmatched \x7d"
  | wrongEnd found opened =>
    .join [environmentMark "end" found, " does not close ", environmentMark "begin" opened]
  | unexpectedEnd name => .join ["unexpected ", environmentMark "end" name]

/-- A problem at a byte offset of the source. -/
structure Misplaced where
  offset : Nat
  problem : SyntaxProblem
deriving DecidableEq, Repr

inductive ReadFault
  | badSyntax (line : Nat) (problem : SyntaxProblem)
  | unbalanced (text : String)
deriving DecidableEq, Repr

def ReadFault.message : ReadFault → String
  | badSyntax line problem =>
    .join ["Syntax error at line ", toString line, ": ", problem.message]
  | unbalanced text => .join ["Unbalanced braces in: ", text]

inductive IndexFault
  | malformedItem (line : String)
deriving DecidableEq, Repr

def IndexFault.message : IndexFault → String
  | malformedItem line => .join ["Invalid bibliography: malformed \\bibitem: ", line]

inductive ArgumentProblem
  | columnCount (text : String)
  | noVerbatim (text : String)
  | unknownVariant (name : String)
  | unknownFormat (name : String)
deriving DecidableEq, Repr

def ArgumentProblem.message : ArgumentProblem → String
  | columnCount text => .join ["column count '", text, "'"]
  | noVerbatim text => .join ["no verbatim text #", text]
  | unknownVariant name => .join ["unknown variant '", name, "'"]
  | unknownFormat name => .join ["unknown output format '", name, "'"]

inductive PictureProblem
  | file (problem : FileProblem)
  /-- What the decoder says. -/
  | undecodable (message : String)
deriving DecidableEq, Repr

def PictureProblem.message : PictureProblem → String
  | file problem => problem.message
  | undecodable message => message

inductive ImageProblem
  | missing (path : String)
  | badPath (path : String)
  | unusable (path : String) (problem : PictureProblem)
deriving DecidableEq, Repr

def ImageProblem.message : ImageProblem → String
  | missing path => .join ["missing image ", path]
  | badPath path => .join ["bad image path ", path]
  | unusable path problem => .join [path, ": ", problem.message]

inductive RenderFault
  | unknownKey (key : String)
  | argumentCount (node : String) (expected found : Nat) (source : String)
  | unknownEscape (excerpt : String)
  | badArgument (node : String) (problem : ArgumentProblem)
  | missingSnippet (path : String)
  | badImage (problem : ImageProblem)
  | commandFailed (command : String) (status : Option Int)
  | commandOverdue (command : String) (seconds : Nat)
deriving DecidableEq, Repr

def statusText : Option Int → String
  | none => "None"
  | some status => .join ["Some(", toString status, ")"]

def RenderFault.message : RenderFault → String
  | unknownKey key => .join ["Unknown citation key: ", key]
  | argumentCount node expected found source =>
    .join ["\\", node, " expects ", toString expected, " argument(s), found ", toString found, ": ",
      source]
  | unknownEscape excerpt => .join ["Unrecognized escape sequence near ", Text.quoted excerpt]
  | badArgument node problem => .join ["Invalid argument to \\", node, ": ", problem.message]
  | missingSnippet path => .join ["Missing snippet file ", path]
  | badImage problem => .join ["Image error: ", problem.message]
  | commandFailed command status =>
    .join ["Command `", command, "` failed with status ", statusText status]
  | commandOverdue command seconds =>
    .join ["Command `", command, "` timed out after ", toString seconds, "s"]

inductive SettingsProblem
  | invalidToml
  | noChapter (ordinal : Nat)
deriving DecidableEq, Repr

def SettingsProblem.message : SettingsProblem → String
  | invalidToml => "Invalid TOML"
  | noChapter ordinal => .join ["No chapter with ordinal ", toString ordinal]

inductive Fault
  | read (cause : ReadFault)
  | index (cause : IndexFault)
  | render (cause : RenderFault)
  | settings (problem : SettingsProblem)
  | unreadable (path : String) (problem : FileProblem)
  | unwritable (problem : FileProblem)
deriving DecidableEq, Repr

def Fault.message : Fault → String
  | read cause => .join ["Parse error: ", cause.message]
  | index cause => .join ["Index error: ", cause.message]
  | render cause => .join ["Render error: ", cause.message]
  | settings problem => .join ["Configuration error: ", problem.message]
  | unreadable path problem => .join ["Failed to read ", path, ": ", problem.message]
  | unwritable problem => .join ["IO error: ", problem.message]

end Quire
