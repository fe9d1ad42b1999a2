import Quire.Toml.Moment
import Quire.Toml.Number

/-! The marks of a TOML text: words, strings, brackets and line ends. Blanks and comments leave no
token. A text with a character that has no place in TOML has no tokens. -/
namespace Quire.Toml

inductive Token
  /-- A run of letters, digits and the signs of keys, numbers, dates and times. A date and a time
  with one blank between them are one word. -/
  | word (word : String)
  /-- A string on one line. -/
  | quoted (text : String)
  /-- A string between three quotes on each side. -/
  | block (text : String)
  | equals
  | comma
  /-- An opening bracket; `joined` when another one follows at once. -/
  | openBracket (joined : Bool)
  | closeBracket (joined : Bool)
  | openBrace
  | closeBrace
  | newline
deriving DecidableEq, Repr

def isPlain (c : Char) : Bool :=
  c == '\t' || (0x20 ≤ c.toNat && c.toNat ≤ 0x7E) || 0x80 ≤ c.toNat

def isSpace (c : Char) : Bool := c == ' ' || c == '\t'

def isWordChar (c : Char) : Bool := c.isAlphanum || ['-', '_', '+', '.', ':'].contains c

def wordTail (c : Char) (cs : List Char) : List Char :=
  let run := cs.takeWhile isWordChar
  match date? (c :: run), cs.drop run.length with
  | some (_, []), ' ' :: h :: h' :: ':' :: rest =>
    if h.isDigit && h'.isDigit then run ++ ' ' :: h :: h' :: ':' :: rest.takeWhile isWordChar
    else run
  | _, _ => run

def codePoint? (width : Nat) (cs : List Char) : Option (Char × Nat) := do
  let digits := cs.take width
  let n ← if digits.length = width then hex? digits else none
  if n.isValidChar then some (Char.ofNat n, width + 1) else none

def escape? : List Char → Option (Char × Nat)
  | [] => none
  | c :: cs =>
    match c with
    | 'b' => some ('\x08', 1)
    | 't' => some ('\t', 1)
    | 'n' => some ('\n', 1)
    | 'f' => some ('\x0c', 1)
    | 'r' => some ('\r', 1)
    | '"' => some ('"', 1)
    | '\\' => some ('\\', 1)
    | 'u' => codePoint? 4 cs
    | 'U' => codePoint? 8 cs
    | _ => none

/-- Content of a string and the number of characters to its end, its closing quote among them. -/
abbrev Scanned := Option (List Char × Nat)

def Scanned.prepend (c : Char) (used : Nat) (rest : Scanned) : Scanned :=
  rest.map fun (text, n) => (c :: text, n + used)

def basic : List Char → Scanned
  | [] => none
  | c :: cs =>
    if c = '"' then some ([], 1)
    else if c = '\\' then
      match escape? cs with
      | some (meant, used) => .prepend meant (used + 1) (basic (cs.drop used))
      | none => none
    else if isPlain c then .prepend c 1 (basic cs)
    else none
termination_by cs => cs.length
decreasing_by all_goals simp only [List.length_drop, List.length_cons]; omega

def literal : List Char → Scanned
  | [] => none
  | c :: cs =>
    if c = '\'' then some ([], 1)
    else if isPlain c then .prepend c 1 (literal cs)
    else none

def lineEnd? : List Char → Option Nat
  | '\n' :: _ => some 1
  | '\r' :: '\n' :: _ => some 2
  | _ => none

def emptyLength : List Char → Nat
  | [] => 0
  | ['\r'] => 0
  | '\r' :: '\n' :: cs => emptyLength cs + 2
  | c :: cs => if isSpace c || c == '\n' then emptyLength cs + 1 else 0

def continuation? (cs : List Char) : Option Nat :=
  let spaces := (cs.takeWhile isSpace).length
  (lineEnd? (cs.drop spaces)).map fun _ => spaces + emptyLength (cs.drop spaces)

/-- A string between three quotes, after its opening quotes. Up to two further quotes before the
closing ones belong to it. -/
def multiline (quote : Char) : List Char → Scanned
  | [] => none
  | c :: cs =>
    if c = quote then
      let run := (cs.takeWhile (· == quote)).length + 1
      if run < 3 then .prepend c 1 (multiline quote cs)
      else some (List.replicate (min (run - 3) 2) quote, min run 5)
    else if c = '\\' ∧ quote = '"' then
      match continuation? cs with
      | some used => (multiline quote (cs.drop used)).map fun (text, n) => (text, n + used + 1)
      | none =>
        match escape? cs with
        | some (meant, used) => .prepend meant (used + 1) (multiline quote (cs.drop used))
        | none => none
    else
      match lineEnd? (c :: cs) with
      | some used => .prepend '\n' used (multiline quote (cs.drop (used - 1)))
      | none => if isPlain c then .prepend c 1 (multiline quote cs) else none
termination_by cs => cs.length
decreasing_by all_goals simp only [List.length_drop, List.length_cons]; omega

def string? (quote : Char) (cs : List Char) : Option (Token × Nat) :=
  if [quote, quote].isPrefixOf cs then
    let first := (lineEnd? (cs.drop 2)).getD 0
    (multiline quote (cs.drop (2 + first))).map fun (text, n) =>
      (.block (.ofList text), n + 2 + first)
  else
    (if quote = '"' then basic cs else literal cs).map fun (text, n) =>
      (.quoted (.ofList text), n)

def mark? (c : Char) (cs : List Char) : Option Token :=
  match c with
  | '=' => some .equals
  | ',' => some .comma
  | '[' => some (.openBracket (cs.head? == some '['))
  | ']' => some (.closeBracket (cs.head? == some ']'))
  | '\x7b' => some .openBrace
  | '\x7d' => some .closeBrace
  | '\n' => some .newline
  | _ => none

/-- The token that starts with `c`, none for a blank or a comment, and the number of characters
after `c` that belong to it. -/
def first? (c : Char) (cs : List Char) : Option (Option Token × Nat) :=
  if isSpace c then some (none, 0)
  else if c = '#' then some (none, (cs.takeWhile isPlain).length)
  else if c = '\r' ∧ cs.head? = some '\n' then some (some .newline, 1)
  else if c = '"' ∨ c = '\'' then (string? c cs).map fun (token, used) => (some token, used)
  else if isWordChar c then
    let more := wordTail c cs
    some (some (.word (.ofList (c :: more))), more.length)
  else (mark? c cs).map fun token => (some token, 0)

def scan : List Char → Option (List Token)
  | [] => some []
  | c :: cs =>
    match first? c cs with
    | none => none
    | some (token, used) => (scan (cs.drop used)).map (token.toList ++ ·)
termination_by cs => cs.length
decreasing_by simp only [List.length_drop, List.length_cons]; omega

/-- The tokens of a text. A byte order mark may stand in front. -/
def tokenize (text : String) : Option (List Token) :=
  match text.toList with
  | '\ufeff' :: cs => scan cs
  | cs => scan cs

end Quire.Toml
