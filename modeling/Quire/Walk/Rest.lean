import Quire.Node.Measure
import Quire.Walk.Role

/-! What is left of the neighbours after a node. Most nodes leave all of them; text takes the text
that goes on with it, some commands take the blanks or groups after them, and a transparent
environment puts its children in front. -/
namespace Quire.Walk

open Node (Shrinks NoLarger)

def roleOf? : Node → Option Role
  | .command name _ | .environment name _ _ => some (.ofName name)
  | _ => none

def dropSpaces : List Node → List Node
  | .text content :: rest =>
    let kept := Text.dropFront (fun c => c == ' ' || c == '\t') content
    if kept.isEmpty then rest else .text kept :: rest
  | rest => rest

/-- A text without white space and a text in parentheses at its front. Without an open parenthesis
it stays as it is; one that nothing closes takes all. -/
def dropParens (content : String) : String :=
  match content.toList.dropWhile Text.isBlank with
  | '(' :: inner => .ofList (((Text.splitOnce? [')'] inner).map (·.2)).getD [])
  | _ => content

def dropTrim : List Node → List Node
  | .text content :: rest => .text (dropParens content) :: rest
  | rest => rest

def dropColumns (rest : List Node) : List Node :=
  match (dropTrim rest).dropWhile (·.isBlank) with
  | .group _ :: rest => rest
  | rest => rest

def remaining (node : Node) (rest : List Node) : List Node :=
  match node with
  | .text _ => rest.dropWhile (·.isText)
  | _ =>
    match roleOf? node with
    | some (.fixed _ _) => dropSpaces rest
    | some .partialRule => dropColumns rest
    | some .transparent => node.children ++ rest
    | some .color => []
    | _ => rest

theorem noLarger_text (a b : String) (rest : List Node) :
    NoLarger (.text a :: rest) (.text b :: rest) := by
  constructor <;> simp only [Node.listLongest, Node.listWeight, Node.longest, Node.weight] <;> omega

theorem noLarger_dropSpaces (rest : List Node) : NoLarger (dropSpaces rest) rest := by
  unfold dropSpaces
  split
  next content rest =>
    dsimp only
    split
    · exact .of_suffix (List.suffix_cons _ _)
    · exact noLarger_text _ _ _
  next => exact .refl _

theorem noLarger_dropTrim (rest : List Node) : NoLarger (dropTrim rest) rest := by
  unfold dropTrim
  split
  · exact noLarger_text _ _ _
  · exact .refl _

theorem noLarger_dropColumns (rest : List Node) : NoLarger (dropColumns rest) rest := by
  have suffix := List.dropWhile_suffix (·.isBlank) (l := dropTrim rest)
  unfold dropColumns
  split
  next eq =>
    rw [eq] at suffix
    exact .trans (.of_suffix ((List.suffix_cons _ _).trans suffix)) (noLarger_dropTrim rest)
  next => exact .trans (.of_suffix suffix) (noLarger_dropTrim rest)

theorem shrinks_splice (node : Node) (rest : List Node) :
    Shrinks (node.children ++ rest) (node :: rest) := by
  refine .of_lt ?_ ?_ <;> cases node <;>
    simp only [Node.children, Node.listLongest_append, Node.listWeight_append, Node.listLongest,
      Node.listWeight, Node.longest, Node.weight, List.nil_append] <;> omega

/-- What is left is smaller than what there was. -/
theorem shrinks_remaining (node : Node) (rest : List Node) :
    Shrinks (remaining node rest) (node :: rest) := by
  unfold remaining
  split
  · exact .of_noLarger (.of_suffix (List.dropWhile_suffix _)) (.tail _ rest)
  · split
    · exact .of_noLarger (noLarger_dropSpaces rest) (.tail _ rest)
    · exact .of_noLarger (noLarger_dropColumns rest) (.tail _ rest)
    · exact shrinks_splice node rest
    · exact .nil node rest
    · exact .tail node rest

end Quire.Walk
