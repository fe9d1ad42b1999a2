/-! The tokens of a LaTeX source. A token says what was written; a lexeme adds how and where. -/
namespace Quire

inductive Token
  /-- A run without any character that is special to the scanner. -/
  | text (content : String)
  /-- A backslash and a character that is no ASCII letter. -/
  | escape (symbol : Char)
  /-- An accent mark and the letter under it. -/
  | accent (mark base : Char)
  /-- What follows a percent sign, up to the end of the line. -/
  | comment (content : String)
  /-- A control word without its backslash. -/
  | command (name : String)
  | beginEnv (name : String)
  | endEnv (name : String)
  /-- An environment whose body is not read. -/
  | verbatim (name body : String)
  | math (display : Bool) (content : String)
  | openBrace
  | closeBrace
  | openBracket
  | closeBracket
deriving DecidableEq, Repr

structure Lexeme where
  token : Token
  spelling : String
  offset : Nat
deriving DecidableEq, Repr

def lineOf (source : String) (offset : Nat) : Nat :=
  go offset source.toList + 1
where
  go (left : Nat) : List Char → Nat
    | [] => 0
    | c :: cs =>
      if left = 0 then 0
      else (if c = '\n' then 1 else 0) + go (left - c.utf8Size) cs

end Quire
