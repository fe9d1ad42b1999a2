import Quire.Accent
import Quire.Fault
import Quire.Target
import Quire.Text.Cut

/-! Running text for a target. One scan from the left replaces comments, math, accents, escapes
and inline markup; what it writes is never read again. The argument of inline markup is running
text of its own. A backslash that means none of these is a fault. -/
namespace Quire.Prose

/-- Escapes and ligatures of a target; of two rows that fit, the first counts. -/
def table : Target → List (String × String)
  | .html =>
    [("\\textbackslash\x7b\x7d", "\\"), ("\\textbackslash", "\\"),
     ("\\ldots\x7b\x7d", "&hellip;"), ("\\ldots", "&hellip;"), ("\\\\", "<br/>"),
     ("\\\x7b", "\x7b"), ("\\\x7d", "\x7d"), ("\\&", "&amp;"), ("\\#", "#"), ("\\%", "%"),
     ("\\_", "_"), ("\\$", "$"), ("\\^", "^"), ("\\~", "~"), ("\\ ", " "), ("\\,", "&thinsp;"),
     ("\\-", ""), ("\\@", ""), ("\\/", ""), ("---", "&mdash;"), ("--", "&ndash;"),
     ("``", "&ldquo;"), ("''", "&rdquo;"), ("~", "&nbsp;"), ("<", "&lt;"), (">", "&gt;")]
  | .quarto =>
    [("\\textbackslash\x7b\x7d", "\\\\"), ("\\textbackslash", "\\\\"),
     ("\\ldots\x7b\x7d", "…"), ("\\ldots", "…"), ("\\\\", "\\\n"),
     ("\\\x7b", "\x7b"), ("\\\x7d", "\x7d"), ("\\&", "&"), ("\\#", "\\#"), ("\\%", "%"),
     ("\\_", "_"), ("\\$", "\\$"), ("\\^", "^"), ("\\~", "~"), ("\\ ", " "),
     ("\\,", "\u2009"), ("\\-", ""), ("\\@", ""), ("\\/", ""), ("---", "—"), ("--", "–"),
     ("``", "\""), ("''", "\""), ("~", "\u00a0")]

def inlineMath : Target → List Char → List Char
  | .html, tex => ['\\', '('] ++ tex ++ ['\\', ')']
  | .quarto, tex => '$' :: tex ++ ['$']

def displayMath : Target → List Char → List Char
  | .html, tex => ['\\', '['] ++ tex ++ ['\\', ']']
  | .quarto, tex => ['$', '$'] ++ tex ++ ['$', '$']

inductive Wrap
  | emphasis
  | bold
  | code
  /-- The text is read and left out. -/
  | drop
deriving DecidableEq, Repr

def commands : List (String × Wrap) :=
  [("emph", .emphasis), ("textit", .emphasis), ("textbf", .bold), ("texttt", .code),
   ("index", .drop)]

/-- Commands that vanish together with the blanks after them. -/
def dropped : List String := ["newblock", "em", "bf", "it", "tt", "sc"]

def Wrap.around : Wrap → Target → String × String
  | emphasis, .html => ("<em>", "</em>")
  | bold, .html => ("<b>", "</b>")
  | code, .html => ("<code>", "</code>")
  | emphasis, .quarto => ("*", "*")
  | bold, .quarto => ("**", "**")
  | code, .quarto => ("`", "`")
  | drop, _ => ("", "")

def Wrap.apply (wrap : Wrap) (target : Target) (inner : List Char) : List Char :=
  match wrap with
  | drop => []
  | _ => (wrap.around target).1.toList ++ inner ++ (wrap.around target).2.toList

/-- How many characters of a group come before the brace that closes it, where `depth` further
groups are open. A character after a backslash closes nothing. -/
def groupLength? (depth : Nat) : List Char → Option Nat
  | [] => none
  | ['\\'] => none
  | '\\' :: _ :: cs => (groupLength? depth cs).map (· + 2)
  | c :: cs =>
    if c = '\x7b' then (groupLength? (depth + 1) cs).map (· + 1)
    else if c = '\x7d' then
      match depth with
      | 0 => some 0
      | depth + 1 => (groupLength? depth cs).map (· + 1)
    else (groupLength? depth cs).map (· + 1)

inductive Action
  /-- Writes a text and goes on after `used` further characters. -/
  | put (text : List Char) (used : Nat)
  /-- Wraps the `size` characters after the next `skip`, and goes on after the brace behind. -/
  | wrapGroup (wrap : Wrap) (skip size : Nat)
  | stuck

def commentLength (cs : List Char) : Nat :=
  match Text.before? ['\n'] cs with
  | some content => content.length + 1
  | none => cs.length

/-- Math that starts with `c`: what is written for it, and how many characters it takes after
`c`. -/
def math? (target : Target) (c : Char) (cs : List Char) : Option (List Char × Nat) :=
  match c, cs with
  | '$', '$' :: rest =>
    (Text.before? ['$', '$'] rest).map fun tex => (displayMath target tex, tex.length + 3)
  | '$', _ => (Text.before? ['$'] cs).map fun tex => (inlineMath target tex, tex.length + 1)
  | '\\', '(' :: rest =>
    (Text.before? ['\\', ')'] rest).map fun tex => (inlineMath target tex, tex.length + 3)
  | _, _ => none

def entry? (target : Target) (c : Char) (cs : List Char) : Option (List Char × Nat) :=
  ((table target).find? fun (written, _) => written.toList.isPrefixOf (c :: cs)).map
    fun (written, text) => (text.toList, written.length - 1)

def command (cs : List Char) : Action :=
  let name := cs.takeWhile Char.isAlpha
  let rest := cs.drop name.length
  let blanks := (rest.takeWhile (· == ' ')).length
  if dropped.contains (.ofList name) then .put [] (name.length + blanks)
  else
    match commands.lookup (.ofList name), rest.drop blanks with
    | some wrap, '\x7b' :: group =>
      match groupLength? 0 group with
      | some size => .wrapGroup wrap (name.length + blanks + 1) size
      | none => .stuck
    | _, _ => .stuck

def action (target : Target) (c : Char) (cs : List Char) : Action :=
  if c = '%' then .put [] (commentLength cs)
  else
    match math? target c cs with
    | some (text, used) => .put text used
    | none =>
      match if c = '\\' then Accent.decode? cs else none with
      | some (letter, used) => .put [letter] used
      | none =>
        match entry? target c cs with
        | some (text, used) => .put text used
        | none => if c = '\\' then command cs else .put [c] 0

def excerptLength : Nat := 24

def convert (target : Target) : List Char → Except RenderFault (List Char)
  | [] => .ok []
  | c :: cs =>
    match action target c cs with
    | .put text used => (text ++ ·) <$> convert target (cs.drop used)
    | .wrapGroup wrap skip size => do
      let inner ← convert target ((cs.drop skip).take size)
      let rest ← convert target (cs.drop (skip + size + 1))
      return wrap.apply target inner ++ rest
    | .stuck => .error (.unknownEscape (.ofList ((c :: cs).take excerptLength)))
termination_by cs => cs.length
decreasing_by all_goals simp only [List.length_drop, List.length_take, List.length_cons]; omega

def normalize (target : Target) (raw : String) : Except RenderFault String :=
  .ofList <$> convert target raw.toList

end Quire.Prose
