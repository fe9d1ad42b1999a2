import Quire.Proofs.Token.Spelling
import Quire.Walk

/-! Nodes that stay in one cell: no text of theirs holds a separator, and no rule is among them.
What stands inside a table of their own does not matter. -/
namespace Quire

namespace Table

/-- A text without a separator. A backslash goes with the character behind it. -/
inductive Whole : List Char → Prop
  | nil : Whole []
  | plain {c : Char} {cs : List Char} (other : c ≠ '\\' ∧ c ≠ '&') (rest : Whole cs) :
    Whole (c :: cs)
  | escaped {c : Char} {cs : List Char} (other : c ≠ '\\') (rest : Whole cs) :
    Whole ('\\' :: c :: cs)

namespace Whole

variable {cs ds : List Char}

theorem append (first : Whole cs) (second : Whole ds) : Whole (cs ++ ds) := by
  induction first with
  | nil => exact second
  | plain other _ ih => exact .plain other ih
  | escaped other _ ih => exact .escaped other ih

/-- What stands behind a character that is no backslash is whole too. -/
theorem behind {c : Char} (other : c ≠ '\\') {before : List Char}
    (whole : Whole (before ++ c :: cs)) : Whole cs := by
  generalize eq : before ++ c :: cs = all at whole
  induction whole generalizing before with
  | nil => simp at eq
  | plain _ rest ih =>
    cases before with
    | nil =>
      obtain ⟨-, rfl⟩ := List.cons.inj eq
      exact rest
    | cons d before => exact ih (List.cons.inj eq).2
  | escaped _ rest ih =>
    rcases before with _ | ⟨d, _ | ⟨e, before⟩⟩
    · exact absurd (List.cons.inj eq).1 other
    · obtain ⟨-, -, rfl⟩ : d = '\\' ∧ c = _ ∧ cs = _ := by simpa using eq
      exact rest
    · exact ih (List.cons.inj (List.cons.inj eq).2).2

theorem dropWhile {p : Char → Bool} (kept : p '\\' = false) (whole : Whole cs) :
    Whole (cs.dropWhile p) := by
  induction whole with
  | nil => exact .nil
  | plain other rest ih =>
    rw [List.dropWhile_cons]
    split
    · exact ih
    · exact .plain other rest
  | escaped other rest =>
    rw [List.dropWhile_cons_of_neg (by simp [kept])]
    exact .escaped other rest

theorem splitOnce? {c : Char} (other : c ≠ '\\') {a b : List Char} (whole : Whole cs)
    (cut : Text.splitOnce? [c] cs = some (a, b)) : Whole b := by
  obtain ⟨before, found, split⟩ := Option.map_eq_some_iff.mp cut
  obtain ⟨rfl, rfl⟩ := Prod.mk.inj split
  obtain ⟨rest, rfl⟩ := Text.prefix_of_before? found
  rw [List.append_assoc] at whole
  rw [← List.length_append, List.drop_left]
  exact whole.behind other

/-- A comment takes its line, and what stands behind the line is whole. -/
theorem dropLine (whole : Whole cs) : Whole (cs.drop (lineLength cs)) := by
  unfold lineLength
  cases line : Text.before? ['\n'] cs with
  | none =>
    rw [Option.map_none, Option.getD_none, List.drop_length]
    exact .nil
  | some before =>
    refine whole.splitOnce? (c := '\n') (a := before) (by decide) ?_
    rw [Text.splitOnce?, line]
    rfl

end Whole

def CellToken.IsText (token : CellToken) : Prop := ∃ text, token = .text text

theorem isText_close {parts : CellParts} (texts : ∀ token ∈ parts.2, token.IsText) :
    ∀ token ∈ parts.close, token.IsText := by
  obtain ⟨front, tokens⟩ := parts
  cases front with
  | nil => exact texts
  | cons c front =>
    intro token member
    rcases List.mem_cons.mp member with rfl | later
    · exact ⟨_, rfl⟩
    · exact texts token later

/-- A text without separators is cut into texts alone. -/
theorem isText_cellParts {cs : List Char} (whole : Whole cs) :
    ∀ token ∈ (cellParts cs).2, token.IsText := by
  fun_induction cellParts cs with
  | case1 => exact fun _ none => nomatch none
  | case2 cs ih =>
    cases whole with
    | plain other => exact absurd rfl other.1
    | escaped other => exact absurd rfl other
  | case3 c cs _ ih =>
    cases whole with
    | plain other => exact absurd rfl other.1
    | escaped _ rest => exact ih rest
  | case4 cs _ _ ih =>
    cases whole with
    | plain _ rest => exact isText_close (ih rest.dropLine)
  | case5 =>
    cases whole with
    | plain other => exact absurd rfl other.2
  | case6 c cs _ single _ _ ih =>
    cases whole with
    | plain _ rest => exact ih rest
    | @escaped d => exact (single d _ rfl rfl).elim

theorem isText_splitCells {raw : String} (whole : Whole raw.toList) :
    ∀ token ∈ splitCells raw, token.IsText :=
  isText_close (isText_cellParts whole)

end Table

namespace Walk

open Table (Whole)

/-- Nothing of the node ends a cell that it stands in. -/
inductive Intact : Node → Prop
  | text {content : String} (whole : Whole content.toList) : Intact (.text content)
  | math (display : Bool) (content : String) : Intact (.math display content)
  | group {children : List Node} (inside : ∀ n ∈ children, Intact n) : Intact (.group children)
  /-- The caption of an example is one of its options, which are read on their own. -/
  | ofRole {node : Node} {role : Role} (role_eq : roleOf? node = some role) (other : role ≠ .rule)
      (inside : ∀ arg ∈ node.args, ∀ n ∈ arg.nodes, Intact n)
      (below : ∀ n ∈ node.children, Intact n)
      (captioned : role = .example_ →
        ∀ nodes, node.optionNodes? "caption" = .ok (some nodes) → ∀ n ∈ nodes, Intact n) :
    Intact node
  /-- A table keeps to itself what is inside it. -/
  | table {node : Node} (role_eq : roleOf? node = some .table) : Intact node

def AllIntact (nodes : List Node) : Prop := ∀ n ∈ nodes, Intact n

variable {node : Node} {nodes rest : List Node}

namespace AllIntact

theorem nil : AllIntact [] := fun _ none => nomatch none

theorem cons (first : Intact node) (more : AllIntact rest) : AllIntact (node :: rest) := by
  intro n member
  rcases List.mem_cons.mp member with rfl | later
  · exact first
  · exact more n later

theorem tail (all : AllIntact (node :: rest)) : AllIntact rest :=
  fun n member => all n (List.mem_cons_of_mem node member)

theorem append (first : AllIntact nodes) (second : AllIntact rest) : AllIntact (nodes ++ rest) :=
  fun n member => (List.mem_append.mp member).elim (first n) (second n)

theorem of_subset (all : AllIntact rest) (sub : nodes ⊆ rest) : AllIntact nodes :=
  fun n member => all n (sub member)

end AllIntact

/-- Nodes whose first text, if they start with one, was cut at its front. -/
theorem AllIntact.cutFront {content cut : String} (all : AllIntact (.text content :: rest))
    (kept : Whole content.toList → Whole cut.toList) : AllIntact (.text cut :: rest) := by
  refine .cons ?_ all.tail
  cases all _ List.mem_cons_self with
  | text whole => exact .text (kept whole)
  | ofRole role_eq | table role_eq => cases role_eq

theorem allIntact_trimFront (all : AllIntact nodes) : AllIntact (trimFront nodes) := by
  have behind := all.of_subset (List.dropWhile_sublist (p := Node.isBlank)).subset
  unfold trimFront
  split
  next content rest eq =>
    rw [eq] at behind
    refine behind.cutFront fun whole => ?_
    rw [Text.trimStart, Text.dropFront, String.toList_ofList]
    exact whole.dropWhile (by decide)
  next => exact behind

theorem allIntact_dropSpaces (all : AllIntact rest) : AllIntact (dropSpaces rest) := by
  unfold dropSpaces
  split
  next content rest =>
    dsimp only
    split
    · exact all.tail
    · refine all.cutFront fun whole => ?_
      rw [Text.dropFront, String.toList_ofList]
      exact whole.dropWhile (by decide)
  next => exact all

theorem whole_dropParens {content : String} (whole : Whole content.toList) :
    Whole (dropParens content).toList := by
  have behind := whole.dropWhile (p := Text.isBlank) (by decide)
  unfold dropParens
  split
  next inner eq =>
    rw [eq] at behind
    rw [String.toList_ofList]
    cases cut : Text.splitOnce? [')'] inner with
    | none => exact .nil
    | some parts =>
      have inner_ : Whole inner := @Whole.behind inner '(' (by decide) [] behind
      exact inner_.splitOnce? (by decide) cut
  next => exact whole

theorem allIntact_dropColumns (all : AllIntact rest) : AllIntact (dropColumns rest) := by
  have trimmed : AllIntact (dropTrim rest) := by
    unfold dropTrim
    split
    · exact all.cutFront whole_dropParens
    · exact all
  have behind := trimmed.of_subset (List.dropWhile_sublist (p := Node.isBlank)).subset
  unfold dropColumns
  split
  next children rest eq =>
    rw [eq] at behind
    exact behind.tail
  next => exact behind

theorem Intact.children (intact : Intact node) (other : roleOf? node ≠ some .table) :
    AllIntact node.children := by
  cases intact with
  | text | math => exact .nil
  | group inside => exact inside
  | ofRole _ _ _ below => exact below
  | table role_eq => exact absurd role_eq other

theorem Intact.requiredNodes (intact : Intact node) (other : roleOf? node ≠ some .table)
    (n : Nat) : AllIntact (node.requiredNodes n) := by
  have args : ∀ arg ∈ node.args, AllIntact arg.nodes := by
    cases intact with
    | text | math | group => exact fun _ none => nomatch none
    | ofRole _ _ inside => exact inside
    | table role_eq => exact absurd role_eq other
  rw [Node.requiredNodes]
  cases found : node.required[n]? with
  | none => exact .nil
  | some arg => exact args arg (List.mem_of_mem_filter (List.mem_of_getElem? found))

theorem Intact.caption (intact : Intact node) (role_eq : roleOf? node = some .example_)
    {nodes : List Node} (found : node.optionNodes? "caption" = .ok (some nodes)) :
    AllIntact nodes := by
  cases intact with
  | text | math | group => cases role_eq
  | ofRole role_eq' _ _ _ captioned =>
    exact captioned (Option.some.inj (role_eq'.symm.trans role_eq)) nodes found
  | table role_eq' => cases role_eq'.symm.trans role_eq

theorem Intact.not_rule (intact : Intact node) : roleOf? node ≠ some .rule := by
  intro role_eq
  cases intact with
  | text | math | group => cases role_eq
  | ofRole role_eq' other => exact other (Option.some.inj (role_eq'.symm.trans role_eq))
  | table role_eq' => cases role_eq'.symm.trans role_eq

theorem allIntact_remaining (all : AllIntact (node :: rest)) : AllIntact (remaining node rest) := by
  unfold remaining
  split
  · exact all.tail.of_subset (List.dropWhile_sublist (p := Node.isText)).subset
  split
  · exact allIntact_dropSpaces all.tail
  · exact allIntact_dropColumns all.tail
  next role =>
    have first := all _ List.mem_cons_self
    exact (first.children (by rw [role]; decide)).append all.tail
  · exact .nil
  · exact all.tail

/-- The texts behind a text go on with it. -/
theorem whole_textAhead (all : AllIntact rest) : Whole (textAhead rest).toList := by
  induction rest with
  | nil => exact .nil
  | cons node rest ih =>
    cases node with
    | text content =>
      have source : textAhead (.text content :: rest) = content ++ textAhead rest := by
        simp [textAhead, Node.isText, Node.sourceOf, Node.source]
      rw [source, String.toList_append]
      cases all _ List.mem_cons_self with
      | text whole => exact whole.append (ih all.tail)
      | ofRole role_eq | table role_eq => cases role_eq
    | command | environment | group | math => exact .nil

theorem captionFirst_subset (children : List Node) : captionFirst children ⊆ children := by
  have front (name : String) (nodes : List Node) : bringFront name nodes ⊆ nodes := by
    intro n member
    rcases List.mem_append.mp member with found | other
    · exact List.mem_of_find?_eq_some (Option.mem_toList.mp found)
    · exact List.mem_of_mem_eraseP other
  intro n member
  rcases List.mem_append.mp member with found | other
  · exact List.mem_of_find?_eq_some (Option.mem_toList.mp found)
  · exact List.mem_of_mem_eraseP (front "label" _ other)

end Walk
end Quire
