import Quire.Text.Cut
import Quire.Toml.Token

/-! Settings in TOML. No setting is a float, so of a float nothing is kept but that it is one.

A table is made by a header, on the way to a header, by dotted keys or in braces. How it was made
decides what may still come into it, so it is kept with the table. -/
namespace Quire.Toml

inductive Form
  /-- By a header of its own. -/
  | header
  /-- On the way to the header of a table inside it. -/
  | implied
  /-- By dotted keys. -/
  | dotted
  /-- In braces. -/
  | inline
deriving DecidableEq, Repr

inductive Value
  | text (text : String)
  | integer (n : Int)
  | float
  | boolean (b : Bool)
  /-- A date, a time or both. -/
  | moment (text : String)
  | array (items : List Value)
  | table (form : Form) (entries : List (String × Value))
  /-- Tables under one header, the newest first. -/
  | tables (newest : List (String × Value)) (earlier : List (List (String × Value)))

abbrev Entries := List (String × Value)

namespace Entries

def replace (entries : Entries) (key : String) (value : Value) : Entries :=
  entries.map fun (k, v) => if k == key then (k, value) else (k, v)

/-- Adds a value under a key in the table that dotted keys lead to. The table they lead to has to
be one that dotted keys made, and no key may be given twice. -/
def add (key : String) (value : Value) : List String → Bool → Entries → Option Entries
  | [], open_, entries =>
    if open_ && (entries.lookup key).isNone then some (entries ++ [(key, value)]) else none
  | step :: path, _, entries =>
    match entries.lookup step with
    | none => (add key value path true []).map fun inner =>
        entries ++ [(step, .table .dotted inner)]
    | some (.table .dotted inner) => (add key value path true inner).map fun inner =>
        entries.replace step (.table .dotted inner)
    | some (.table .implied inner) => (add key value path false inner).map fun inner =>
        entries.replace step (.table .implied inner)
    | some (.tables newest earlier) => (add key value path false newest).map fun newest =>
        entries.replace step (.tables newest earlier)
    | _ => none

abbrev Pair := List String × String × Value

def addAll (pairs : List Pair) (entries : Entries) : Option Entries :=
  pairs.foldlM (fun entries (path, key, value) => add key value path true entries) entries

/-- Puts the pairs below a header in their place. A header may come after the headers of tables
inside its own, and only once. -/
def define (pairs : List Pair) (repeated : Bool) (key : String) :
    List String → Entries → Option Entries
  | [], entries =>
    match entries.lookup key, repeated with
    | none, false => (addAll pairs []).map fun body => entries ++ [(key, .table .header body)]
    | some (.table .implied body), false =>
      (addAll pairs body).map fun body => entries.replace key (.table .header body)
    | none, true => (addAll pairs []).map fun body => entries ++ [(key, .tables body [])]
    | some (.tables newest earlier), true =>
      (addAll pairs []).map fun body => entries.replace key (.tables body (newest :: earlier))
    | _, _ => none
  | step :: path, entries =>
    match entries.lookup step with
    | none => (define pairs repeated key path []).map fun inner =>
        entries ++ [(step, .table .implied inner)]
    | some (.table .inline _) => none
    | some (.table form inner) => (define pairs repeated key path inner).map fun inner =>
        entries.replace step (.table form inner)
    | some (.tables newest earlier) => (define pairs repeated key path newest).map fun newest =>
        entries.replace step (.tables newest earlier)
    | _ => none

end Entries

/-- Takes something off the front of the tokens, at least one of them. -/
abbrev Reader (α : Type) := (tokens : List Token) →
  Option (α × { rest : List Token // rest.length < tokens.length })

inductive KeyPart
  | name (name : String)
  | dot
deriving DecidableEq, Repr

def KeyPart.ofWord? (word : String) : Option (List KeyPart) :=
  if word.toList.all fun c => c.isAlphanum || c == '-' || c == '_' || c == '.' then
    let names := (Text.splitOn '.' word).map fun n => if n.isEmpty then [] else [KeyPart.name n]
    some ([KeyPart.dot].intercalate names)
  else none

def Token.isKey : Token → Bool
  | .word _ | .quoted _ => true
  | _ => false

def Token.keyParts? : Token → Option (List KeyPart)
  | .word w => KeyPart.ofWord? w
  | .quoted t => some [.name t]
  | _ => none

def names? : List KeyPart → Option (List String)
  | [.name n] => some [n]
  | .name n :: .dot :: parts => (names? parts).map (n :: ·)
  | _ => none

def maxDepth : Nat := 79

def keys : Reader (List String)
  | [] => none
  | token :: tokens => do
    let more := tokens.takeWhile Token.isKey
    let names ← ((token :: more).mapM Token.keyParts?).bind fun parts => names? parts.flatten
    if names.length ≤ maxDepth then
      some (names, ⟨tokens.drop more.length, by
        simp only [List.length_drop, List.length_cons]; omega⟩)
    else none

def splitLast : List String → List String × String
  | [] => ([], "")
  | [key] => ([], key)
  | step :: path => (step :: (splitLast path).1, (splitLast path).2)

def word? (word : String) : Option Value :=
  match word with
  | "true" => some (.boolean true)
  | "false" => some (.boolean false)
  | _ =>
    match integer? word, moment? word with
    | some n, _ => some (.integer n)
    | none, some text => some (.moment text)
    | none, none => if isFloat word then some .float else none

def skipNewlines (tokens : List Token) : List Token := tokens.dropWhile (· == Token.newline)

theorem skipNewlines_length (tokens : List Token) :
    (skipNewlines tokens).length ≤ tokens.length :=
  (List.dropWhile_suffix (· == Token.newline)).length_le

/-- The items of an array, after its opening bracket. The last comma may be one too many. -/
def items (value : Reader Value) (tokens : List Token) :
    Option (List Value × { rest : List Token // rest.length ≤ tokens.length }) :=
  have front := skipNewlines_length tokens
  match _start : skipNewlines tokens with
  | .closeBracket _ :: rest =>
    some ([], ⟨rest, by rw [_start] at front; simp only [List.length_cons] at front; omega⟩)
  | _ =>
    match value (skipNewlines tokens) with
    | none => none
    | some (item, ⟨behind, shorter⟩) =>
      have more := skipNewlines_length behind
      match _next : skipNewlines behind with
      | .closeBracket _ :: rest =>
        some ([item], ⟨rest, by rw [_next] at more; simp only [List.length_cons] at more; omega⟩)
      | .comma :: rest =>
        have less : rest.length < tokens.length := by
          rw [_next] at more
          simp only [List.length_cons] at more
          omega
        (items value rest).map fun (all, rest) =>
          (item :: all, ⟨rest.1, by have := rest.2; omega⟩)
      | _ => none
termination_by tokens.length

def pair (value : Reader Value) : Reader Entries.Pair := fun tokens =>
  match keys tokens with
  | none => none
  | some (path, ⟨.equals :: rest, less⟩) =>
    (value rest).map fun (v, behind) =>
      (((splitLast path).1, (splitLast path).2, v),
        ⟨behind.1, by have := behind.2; simp only [List.length_cons] at less; omega⟩)
  | some _ => none

def pairs (value : Reader Value) (tokens : List Token) :
    Option (List Entries.Pair × { rest : List Token // rest.length < tokens.length }) :=
  match pair value tokens with
  | none => none
  | some (first, ⟨.closeBrace :: rest, less⟩) =>
    some ([first], ⟨rest, by simp only [List.length_cons] at less; omega⟩)
  | some (first, ⟨.comma :: rest, less⟩) =>
    have less : rest.length < tokens.length := by simp only [List.length_cons] at less; omega
    (pairs value rest).map fun (all, rest) =>
      (first :: all, ⟨rest.1, by have := rest.2; omega⟩)
  | some _ => none
termination_by tokens.length

def value : Nat → Reader Value
  | _, [] => none
  | _, .word w :: rest => (word? w).map (·, ⟨rest, by simp⟩)
  | _, .quoted t :: rest => some (.text t, ⟨rest, by simp⟩)
  | _, .block t :: rest => some (.text t, ⟨rest, by simp⟩)
  | depth + 1, .openBracket _ :: rest =>
    (items (value depth) rest).map fun (all, behind) =>
      (.array all, ⟨behind.1, by have := behind.2; simp only [List.length_cons]; omega⟩)
  | _ + 1, .openBrace :: .closeBrace :: rest =>
    some (.table .inline [], ⟨rest, by simp only [List.length_cons]; omega⟩)
  | depth + 1, .openBrace :: rest =>
    match pairs (value depth) rest with
    | none => none
    | some (all, behind) =>
      (Entries.addAll all []).map fun entries =>
        (.table .inline entries,
          ⟨behind.1, by have := behind.2; simp only [List.length_cons]; omega⟩)
  | _, _ :: _ => none

inductive Statement
  | pair (pair : Entries.Pair)
  | header (repeated : Bool) (path : List String)

def header (repeated : Bool) : Reader Statement := fun tokens =>
  match keys tokens, repeated with
  | some (path, ⟨.closeBracket _ :: rest, less⟩), false =>
    some (.header false path, ⟨rest, by simp only [List.length_cons] at less; omega⟩)
  | some (path, ⟨.closeBracket true :: .closeBracket _ :: rest, less⟩), true =>
    some (.header true path, ⟨rest, by simp only [List.length_cons] at less; omega⟩)
  | _, _ => none

def statement : Reader Statement
  | .openBracket true :: .openBracket _ :: rest =>
    (header true rest).map fun (s, behind) =>
      (s, ⟨behind.1, by have := behind.2; simp only [List.length_cons]; omega⟩)
  | .openBracket _ :: rest =>
    (header false rest).map fun (s, behind) =>
      (s, ⟨behind.1, by have := behind.2; simp only [List.length_cons]; omega⟩)
  | tokens => (pair (value maxDepth) tokens).map fun (p, behind) => (.pair p, behind)

def statements (tokens : List Token) : Option (List Statement) :=
  have front := skipNewlines_length tokens
  match _start : skipNewlines tokens with
  | [] => some []
  | _ :: _ =>
    match statement (skipNewlines tokens) with
    | none => none
    | some (first, ⟨[], _⟩) => some [first]
    | some (first, ⟨.newline :: rest, less⟩) =>
      have : rest.length < tokens.length := by simp only [List.length_cons] at less; omega
      (statements rest).map (first :: ·)
    | some _ => none
termination_by tokens.length

def sections : List Statement → List Entries.Pair × List (Bool × List String × List Entries.Pair)
  | [] => ([], [])
  | .pair p :: rest => (p :: (sections rest).1, (sections rest).2)
  | .header repeated path :: rest =>
    ([], (repeated, path, (sections rest).1) :: (sections rest).2)

def parse (text : String) : Option Entries := do
  let tokens ← tokenize text
  let (top, below) := sections (← statements tokens)
  let root ← Entries.addAll top []
  below.foldlM (fun entries (repeated, path, pairs) =>
    entries.define pairs repeated (splitLast path).2 (splitLast path).1) root

end Quire.Toml
