import Quire.Fault
import Quire.Text.Cut
import Quire.Text.Letter
import Quire.Token

/-! Cutting a source into lexemes. Each step looks at one character and the text after it, and
answers a token with the number of further characters that belong to it. The lexemes therefore
tile the source whatever the step answers: `spellings_scan` says so. -/
namespace Quire.Token

def isSpecial (c : Char) : Bool :=
  c == '\\' || c == '\x7b' || c == '\x7d' || c == '[' || c == ']' || c == '$' || c == '%'

def isEnvChar (c : Char) : Bool := c.isAlphanum || c == '*'

def isWordChar (c : Char) : Bool := c.isAlpha || c == '@'

def isAccentMark (c : Char) : Bool :=
  c == '\'' || c == '"' || c.toNat == 96 || c == '=' || c == '~'

def verbatimNames : List String := ["verbatim", "lstlisting", "Verbatim"]

/-- A token and how many characters it takes after its first. -/
abbrev Step := Option (Token × Nat)

/-- A comment ends before a line feed, alone or with a carriage return in front of it. A lone
carriage return ends nothing and spoils the comment. -/
def comment? (cs : List Char) : Step :=
  let content := cs.takeWhile fun c => c != '\r' && c != '\n'
  match cs.drop content.length with
  | '\r' :: '\n' :: _ => some (.comment (.ofList content), content.length)
  | '\r' :: _ => none
  | _ => some (.comment (.ofList content), content.length)

/-- Math up to `close`, after an opening of `skip` further characters. -/
def mathUpTo? (display : Bool) (skip : Nat) (close cs : List Char) : Step :=
  (Text.before? close cs).map fun content =>
    (.math display (.ofList content), skip + content.length + close.length)

def dollar? (cs : List Char) : Step :=
  match cs with
  | '$' :: rest => mathUpTo? true 1 ['$', '$'] rest <|> mathUpTo? false 0 ['$'] cs
  | _ => mathUpTo? false 0 ['$'] cs

def envName? (cs : List Char) : Option (List Char) :=
  let name := cs.takeWhile isEnvChar
  if name.isEmpty || (cs.drop name.length).head? != some '\x7d' then none else some name

/-- A raw environment, up to the first closing mark with its name. -/
def verbatim? (name rest : List Char) : Step :=
  if verbatimNames.contains (.ofList name) then
    let close := "\\end\x7b".toList ++ name ++ ['\x7d']
    (Text.before? close rest).map fun body =>
      (.verbatim (.ofList name) (.ofList body), body.length + close.length)
  else none

def begin? (cs : List Char) : Step := do
  let rest ← "begin\x7b".toList.isPrefixOf? cs
  let name ← envName? rest
  let skip := "begin\x7b".length + name.length + 1
  match verbatim? name (cs.drop skip) with
  | some (token, more) => some (token, skip + more)
  | none => some (.beginEnv (.ofList name), skip)

def end? (cs : List Char) : Step := do
  let rest ← "end\x7b".toList.isPrefixOf? cs
  let name ← envName? rest
  some (.endEnv (.ofList name), "end\x7b".length + name.length + 1)

/-- The letter under an accent, with the number of its characters. A dotless i counts as i. -/
def accentBase? : List Char → Option (Char × Nat)
  | '\\' :: 'i' :: _ => some ('i', 2)
  | c :: _ => if Text.isLetter c then some (c, 1) else none
  | [] => none

def accentArgument? (cs : List Char) : Option (Char × Nat) :=
  match cs with
  | '\x7b' :: rest => do
    let (base, used) ← accentBase? rest
    if (rest.drop used).head? = some '\x7d' then some (base, used + 2) else none
  | _ => accentBase? cs

def command? (cs : List Char) : Step :=
  let word := cs.takeWhile isWordChar
  if word.isEmpty then none
  else
    let name := if (cs.drop word.length).head? = some '*' then word ++ ['*'] else word
    some (.command (.ofList name), name.length)

def accent? : List Char → Step
  | mark :: rest =>
    if isAccentMark mark then
      (accentArgument? rest).map fun (base, used) => (.accent mark base, used + 1)
    else none
  | [] => none

def escape? : List Char → Step
  | c :: _ => if c.isAlpha then none else some (.escape c, 1)
  | [] => none

def bracketMath? : List Char → Step
  | '[' :: rest => mathUpTo? true 1 ['\\', ']'] rest
  | '(' :: rest => mathUpTo? false 1 ['\\', ')'] rest
  | _ => none

def next? (c : Char) (cs : List Char) : Step :=
  if c == '%' then comment? cs
  else if c == '$' then dollar? cs
  else if c == '\\' then
    bracketMath? cs <|> begin? cs <|> end? cs <|> accent? cs <|> command? cs <|> escape? cs
  else if c == '\x7b' then some (.openBrace, 0)
  else if c == '\x7d' then some (.closeBrace, 0)
  else if c == '[' then some (.openBracket, 0)
  else if c == ']' then some (.closeBracket, 0)
  else
    let more := cs.takeWhile (!isSpecial ·)
    some (.text (.ofList (c :: more)), more.length)

def problemAt (c : Char) : SyntaxProblem :=
  if c = '$' then .unterminatedMath else .unexpected c

def scan (offset : Nat) : List Char → Except Misplaced (List Lexeme)
  | [] => .ok []
  | c :: cs =>
    match next? c cs with
    | none => .error ⟨offset, problemAt c⟩
    | some (token, more) =>
      let spelling := String.ofList (c :: cs.take more)
      (⟨token, spelling, offset⟩ :: ·) <$> scan (offset + spelling.utf8ByteSize) (cs.drop more)
termination_by cs => cs.length
decreasing_by simp only [List.length_drop, List.length_cons]; omega

def tokenize (source : String) : Except Misplaced (List Lexeme) := scan 0 source.toList

/-- Nothing is skipped, repeated or overlapped: the spellings in their order are the source. -/
theorem spellings_scan {offset : Nat} {cs : List Char} {lexemes : List Lexeme}
    (h : scan offset cs = .ok lexemes) :
    lexemes.flatMap (·.spelling.toList) = cs := by
  fun_induction scan offset cs generalizing lexemes with
  | case1 =>
    obtain rfl : [] = lexemes := by simpa using h
    rfl
  | case2 => cases h
  | case3 offset c cs token more _ spelling =>
    rename_i ih
    cases hrest : scan (offset + spelling.utf8ByteSize) (cs.drop more) with
    | error e =>
      rw [hrest] at h
      cases h
    | ok rest =>
      rw [hrest] at h
      obtain rfl := Except.ok.inj h
      simp [ih hrest, spelling]

end Quire.Token
