import Mathlib.Data.List.TakeWhile
import Quire.Flavor.Html
import Quire.Proofs.Text.Cut

/-! The first attribute of a tag, as a reader of HTML sees it. The quote that a value starts with
ends it wherever it comes next, and what stands between the quotes is decoded. -/
namespace Quire.Html

/-- What a reader makes of the characters of a value: it resolves character references and line ends,
none of which is shorter than what it stands for. -/
structure Decoding where
  run : List Char → List Char
  length_le : ∀ cs, (run cs).length ≤ cs.length

def references : List (List Char × Char) :=
  [("amp;".toList, '&'), ("lt;".toList, '<'), ("gt;".toList, '>'), ("quot;".toList, '"'),
    ("#39;".toList, '\'')]

/-- A text with its references resolved, behind as many characters that belong to one. -/
def resolve : Nat → List Char → List Char
  | _, [] => []
  | used + 1, _ :: cs => resolve used cs
  | 0, c :: cs =>
    match if c = '&' then references.find? (·.1.isPrefixOf cs) else none with
    | some (reference, meaning) => meaning :: resolve reference.length cs
    | none => c :: resolve 0 cs

theorem length_resolve_le (used : Nat) (cs : List Char) : (resolve used cs).length ≤ cs.length := by
  induction cs generalizing used with
  | nil => cases used <;> exact Nat.le_refl 0
  | cons c cs ih =>
    cases used with
    | zero =>
      simp only [resolve]
      split
      · exact Nat.succ_le_succ (ih _)
      · exact Nat.succ_le_succ (ih _)
    | succ used => exact Nat.le_succ_of_le (ih used)

def Decoding.named : Decoding := ⟨resolve 0, length_resolve_le 0⟩

structure Attribute where
  /-- The name of the tag. -/
  element : List Char
  name : List Char
  value : List Char
  /-- The text behind the quote that ends the value. -/
  behind : List Char
deriving DecidableEq

/-- The attribute of the tag at the front of a text, when a quoted one follows the name of the tag. -/
def firstAttribute? (decoding : Decoding) : List Char → Option Attribute
  | '<' :: cs => do
    let (element, cs) ← Text.splitOnce? [' '] cs
    let (name, cs) ← Text.splitOnce? ['='] cs
    if element.all Char.isAlpha && name.all Char.isAlpha then
      match cs with
      | '\'' :: cs => (Text.splitOnce? ['\''] cs).map fun (raw, behind) =>
          ⟨element, name, decoding.run raw, behind⟩
      | '"' :: cs => (Text.splitOnce? ['"'] cs).map fun (raw, behind) =>
          ⟨element, name, decoding.run raw, behind⟩
      | _ => none
    else none
  | _ => none

theorem toList_link (address shown : String) : (link address shown).toList =
    '<' :: ("a".toList ++ ' ' :: ("href".toList ++ '=' :: '\'' ::
      (address.toList ++ '\'' :: (">" ++ shown ++ "</a>").toList))) := by
  simp [link]

theorem takeWhile_of_quoteless {cs : List Char} (quoteless : '\'' ∉ cs) :
    cs.takeWhile (· != '\'') = cs :=
  List.takeWhile_eq_self_iff.mpr fun _ member =>
    bne_iff_ne.mpr (ne_of_mem_of_not_mem member quoteless)

theorem takeWhile_of_quote {front : List Char} (quoteless : '\'' ∉ front) (more : List Char) :
    (front ++ '\'' :: more).takeWhile (· != '\'') = front := by
  rw [Text.takeWhile_append_stop (by decide), takeWhile_of_quoteless quoteless]

/-- The text up to the first single quote, with one more behind it. -/
theorem splitOnce?_quote (address behind : List Char) :
    ∃ rest, Text.splitOnce? ['\''] (address ++ '\'' :: behind) =
        some (address.takeWhile (· != '\''), rest) ∧
      ('\'' ∉ address → rest = behind) := by
  by_cases quote : '\'' ∈ address
  · obtain ⟨front, more, rfl, quoteless⟩ := List.eq_append_cons_of_mem quote
    refine ⟨more ++ '\'' :: behind, ?_, fun absent => absurd quote absent⟩
    rw [takeWhile_of_quote quoteless, List.append_assoc, List.cons_append]
    exact Text.splitOnce?_singleton quoteless _
  · rw [takeWhile_of_quoteless quote]
    exact ⟨behind, Text.splitOnce?_singleton quote behind, fun _ => rfl⟩

/-- The address of a link is read up to its first single quote. -/
theorem firstAttribute?_link (decoding : Decoding) (address shown : String) :
    ∃ behind, firstAttribute? decoding (link address shown).toList =
        some ⟨"a".toList, "href".toList,
          decoding.run (address.toList.takeWhile (· != '\'')), behind⟩ ∧
      ('\'' ∉ address.toList → behind = (">" ++ shown ++ "</a>").toList) := by
  obtain ⟨behind, read, rest⟩ :=
    splitOnce?_quote address.toList (">" ++ shown ++ "</a>").toList
  refine ⟨behind, ?_, rest⟩
  rw [toList_link]
  simp only [firstAttribute?]
  rw [Text.splitOnce?_singleton (by decide)]
  simp only [Option.bind_eq_bind, Option.bind_some]
  rw [Text.splitOnce?_singleton (by decide)]
  simp only [Option.bind_some, read, Option.map_some]
  rfl

/-- A value that decoding leaves alone is read back exactly when it holds no single quote. -/
theorem run_takeWhile_eq_iff (decoding : Decoding) {address : List Char}
    (settled : decoding.run address = address) :
    decoding.run (address.takeWhile (· != '\'')) = address ↔ '\'' ∉ address := by
  constructor
  · intro same quote
    obtain ⟨front, more, rfl, quoteless⟩ := List.eq_append_cons_of_mem quote
    rw [takeWhile_of_quote quoteless] at same
    have short := decoding.length_le front
    rw [same, List.length_append, List.length_cons] at short
    omega
  · intro quoteless
    rw [takeWhile_of_quoteless quoteless, settled]

end Quire.Html
