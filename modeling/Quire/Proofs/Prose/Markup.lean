import Quire.Proofs.Prose.Tags

/-! The angle brackets of running text on pages of HTML. Where there is no math, all of them stand
in line breaks and in the tags of inline markup, and these nest well: no text brings in a tag of its
own. Main statement: `marked_normalize`. -/
namespace Quire.Prose

open Html (Reads)

def elementNames : List String := ["em", "b", "code"]

/-- Text with line breaks and elements, and with no other angle brackets. -/
inductive Marked : List Char → Prop
  | nil : Marked []
  | char {c : Char} {cs : List Char} (plain : c ∉ ['<', '>']) (rest : Marked cs) : Marked (c :: cs)
  | lineBreak {cs : List Char} (rest : Marked cs) : Marked ("<br/>".toList ++ cs)
  | element {name : String} {inner cs : List Char} (known : name ∈ elementNames)
      (within : Marked inner) (rest : Marked cs) :
      Marked (("<" ++ name ++ ">").toList ++ inner ++ ("</" ++ name ++ ">").toList ++ cs)

namespace Marked

variable {cs ds : List Char}

theorem append (first : Marked cs) (second : Marked ds) : Marked (cs ++ ds) := by
  induction first with
  | nil => exact second
  | char plain _ ih => exact .char plain ih
  | lineBreak _ ih =>
    rw [List.append_assoc]
    exact .lineBreak ih
  | element known within _ _ ih =>
    rw [List.append_assoc]
    exact .element known within ih

theorem of_plain (plain : ∀ c ∈ cs, c ∉ ['<', '>']) : Marked cs := by
  induction cs with
  | nil => exact .nil
  | cons c cs ih =>
    obtain ⟨first, rest⟩ := List.forall_mem_cons.mp plain
    exact .char first (ih rest)

/-- A reader of the tags finds each element closed where it ends. -/
theorem reads (marked : Marked cs) : Reads [] cs [] := by
  induction marked with
  | nil => rfl
  | @char c _ plain _ ih =>
    have alone : Reads [] [c] [] :=
      .of_plain (by simpa using Ne.symm (List.ne_of_not_mem_cons plain)) []
    exact alone.append ih
  | lineBreak _ ih => exact Reads.append (b := []) (by decide) ih
  | @element name inner cs known _ _ within rest =>
    have tags : ∀ name ∈ elementNames, Reads [] ("<" ++ name ++ ">").toList [name.toList] ∧
        Reads [name.toList] ("</" ++ name ++ ">").toList [] := by decide
    obtain ⟨opens, closes⟩ := tags name known
    exact ((opens.append (within.anywhere _)).append closes).append rest

end Marked

/-- Text in which nothing starts math. -/
structure Unmathed (cs : List Char) : Prop where
  dollar : '$' ∉ cs
  paren : ¬ ['\\', '('] <:+: cs

theorem Unmathed.of_infix {cs ds : List Char} (unmathed : Unmathed ds) (inside : cs <:+: ds) :
    Unmathed cs :=
  ⟨fun member => unmathed.dollar (inside.subset member),
    fun paren => unmathed.paren (paren.trans inside)⟩

section Steps
variable {c : Char} {cs : List Char}

theorem math?_unmathed (unmathed : Unmathed (c :: cs)) : math? .html c cs = none := by
  unfold math?
  split
  next => exact absurd List.mem_cons_self unmathed.dollar
  next => exact absurd List.mem_cons_self unmathed.dollar
  next rest => exact absurd ⟨[], rest, rfl⟩ unmathed.paren
  next => rfl

theorem marked_table : ∀ row ∈ table .html, Marked row.2.toList := by
  have kinds : ∀ row ∈ table .html,
      row.2 = "<br/>" ∨ ∀ c ∈ row.2.toList, c ∉ ['<', '>'] := by decide
  intro row member
  rcases kinds row member with lineBreak | plain
  · rw [lineBreak]
    exact .lineBreak .nil
  · exact .of_plain plain

theorem command_put {text : List Char} {used : Nat} (read : command cs = .put text used) :
    text = [] := by
  unfold command at read
  dsimp only at read
  split at read
  · cases read
    rfl
  split at read
  · split at read <;> cases read
  · cases read

/-- What a step writes has tags that are closed in it. -/
theorem marked_put {text : List Char} {used : Nat} (unmathed : Unmathed (c :: cs))
    (read : action .html c cs = .put text used) : Marked text := by
  unfold action at read
  rw [math?_unmathed unmathed] at read
  split at read
  next =>
    cases read
    exact .nil
  dsimp only at read
  split at read
  next letter used decoded =>
    cases read
    split at decoded
    · exact .of_plain (by simpa using decode?_letter decoded)
    · cases decoded
  split at read
  next text used fits =>
    cases read
    obtain ⟨row, listed, rfl, -⟩ := row_of_entry fits
    exact marked_table row listed
  next missing =>
    split at read
    · rw [command_put read]
      exact .nil
    · cases read
      exact .char (fun angle => entry?_angle angle cs missing) .nil

end Steps

theorem Marked.wrap {inner : List Char} (within : Marked inner) (wrap : Wrap) :
    Marked (wrap.apply .html inner) := by
  have element {name : String} (known : name ∈ elementNames) :
      Marked (("<" ++ name ++ ">").toList ++ inner ++ ("</" ++ name ++ ">").toList) := by
    simpa using Marked.element known within .nil
  cases wrap with
  | emphasis => exact @element "em" (by decide)
  | bold => exact @element "b" (by decide)
  | code => exact @element "code" (by decide)
  | drop => exact .nil

/-- The inside of a group is running text of its own, a part of the text that holds it. -/
theorem marked_convert {cs out : List Char} (unmathed : Unmathed cs)
    (converted : convert .html cs = .ok out) : Marked out := by
  fun_induction convert .html cs generalizing out with
  | case1 =>
    cases converted
    exact .nil
  | case2 c cs text used read ih =>
    have behind := unmathed.of_infix ((List.drop_suffix used cs).trans (List.suffix_cons c cs)).isInfix
    obtain ⟨more, rest, rfl⟩ := exists_of_map_ok converted
    exact (marked_put unmathed read).append (ih behind rest)
  | case3 c cs wrap skip size read inner_ih rest_ih =>
    have part {ds : List Char} (inside : ds <:+: cs) : Unmathed ds :=
      unmathed.of_infix (inside.trans (List.suffix_cons c cs).isInfix)
    obtain ⟨within, inner, converted⟩ := exists_of_bind_ok converted
    obtain ⟨more, rest, same⟩ := exists_of_bind_ok converted
    cases same
    have group : (cs.drop skip).take size <:+: cs :=
      (List.take_prefix _ _).isInfix.trans (List.drop_suffix _ _).isInfix
    exact ((inner_ih (part group) inner).wrap wrap).append
      (rest_ih (part (List.drop_suffix _ _).isInfix) rest)
  | case4 => cases converted

/-- In running text without math every angle bracket belongs to a line break or to an element of
inline markup, and a reader of the tags finds them well nested. -/
theorem marked_normalize {raw text : String} (dollar : '$' ∉ raw.toList)
    (paren : ¬ "\\(".toList <:+: raw.toList) (normalized : normalize .html raw = .ok text) :
    Marked text.toList ∧ Html.WellNested text := by
  have marked : Marked text.toList := by
    obtain ⟨out, converted, rfl⟩ := exists_of_map_ok normalized
    rw [String.toList_ofList]
    exact marked_convert ⟨dollar, paren⟩ converted
  exact ⟨marked, marked.reads⟩

/-- Markup in markup, a line break in it, a part that is left out, and brackets in all of them. -/
theorem marked_normalize_of_nested :
    let raw := "<p>\\textbf\x7ba \\emph\x7b<i>\\\\b\x7d\\index\x7b<u>\x7d\x7d \\em</p> 1\\%"
    let text := "&lt;p&gt;<b>a <em>&lt;i&gt;<br/>b</em></b> &lt;/p&gt; 1%"
    '$' ∉ raw.toList ∧ ¬ "\\(".toList <:+: raw.toList ∧ normalize .html raw = .ok text ∧
      Marked text.toList ∧ Html.WellNested text := by
  intro raw text
  have dollar : '$' ∉ raw.toList := by decide +kernel
  have paren : ¬ "\\(".toList <:+: raw.toList := by decide +kernel
  have normalized : normalize .html raw = .ok text := by decide +kernel
  exact ⟨dollar, paren, normalized, marked_normalize dollar paren normalized⟩

end Quire.Prose
