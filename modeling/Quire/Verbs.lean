import Quire.Text.Cut

/-! Inline verbatim text. Before a source is read, each `\verb` span gives way to a numbered
placeholder, and its body is kept under that number. Files that are read one after another share
the numbering. -/
namespace Quire.Verbs

def isFence (c : Char) : Bool := c == '|' || c == '+' || c == '!'

/-- After `\verb`: the body of the span and the number of characters that the span takes. -/
def span? (cs : List Char) : Option (List Char × Nat) :=
  let star := if cs.head? = some '*' then 1 else 0
  match cs.drop star with
  | [] => none
  | fence :: rest =>
    let body := rest.takeWhile fun c => c != fence && c != '\n'
    if isFence fence && (rest.drop body.length).head? = some fence then
      some (body, star + body.length + 2)
    else none

def placeholder (n : Nat) : String :=
  .join ["\\verbplaceholder", "\x7b", toString n, "\x7d"]

/-- The text with its spans replaced, numbered from `n`, and the bodies of the spans. -/
def extract (n : Nat) : List Char → List Char × List String
  | [] => ([], [])
  | c :: cs =>
    match if c = '\\' then "verb".toList.isPrefixOf? cs >>= span? else none with
    | some (body, used) =>
      let (text, bodies) := extract (n + 1) (cs.drop ("verb".length + used))
      ((placeholder n).toList ++ text, .ofList body :: bodies)
    | none =>
      let (text, bodies) := extract n cs
      (c :: text, bodies)
termination_by cs => cs.length
decreasing_by all_goals simp only [List.length_drop, List.length_cons]; omega

def preprocess (kept : List String) (tex : String) : String × List String :=
  let (text, bodies) := extract kept.length tex.toList
  (.ofList text, kept ++ bodies)

end Quire.Verbs
