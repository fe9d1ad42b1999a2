import Quire.Proofs.Node.Returns
import Quire.Proofs.Prose.Returns
import Quire.Proofs.Text.Trim
import Quire.Walk

/-! What a walk reads of the nodes of a source whose lines end in carriage returns too: the same as
without them, as long as each name stands on one line. -/
namespace Quire

open Text (returned LineFree)

namespace Text

section Lines
variable {β : Type} {f : String → Option β}

/-- The parts between line feeds, where a carriage return may end a part. -/
theorem splitChars_feed_returned (cs : List Char) :
    List.Forall₂ (fun part part' => part' = part ∨ part' = part ++ ['\r'])
      (splitChars (· == '\n') cs) (splitChars (· == '\n') (returned cs)) := by
  induction cs with
  | nil => exact .cons (.inl rfl) .nil
  | cons c cs ih =>
    by_cases feed : c = '\n'
    · subst feed
      simpa [splitChars_cons] using ih
    · obtain ⟨part, parts, split⟩ := List.exists_cons_of_ne_nil (splitChars_ne_nil (· == '\n') cs)
      obtain ⟨part', parts', split'⟩ :=
        List.exists_cons_of_ne_nil (splitChars_ne_nil (· == '\n') (returned cs))
      rw [split, split', List.forall₂_cons] at ih
      have extended (cs : List Char) (part : List Char) (parts : List (List Char))
          (split : splitChars (· == '\n') cs = part :: parts) :
          splitChars (· == '\n') (c :: cs) = (c :: part) :: parts := by
        simp [splitChars_cons, feed, split]
      rw [returned_cons feed, extended _ _ _ split, extended _ _ _ split']
      refine .cons ?_ ih.2
      rcases ih.1 with rfl | rfl
      · exact .inl rfl
      · exact .inr rfl

/-- What is found in lines is found in the parts, for those who look past a carriage return. -/
theorem filterMap_lines (none_ : f "" = none)
    (even : ∀ cs, f (.ofList (cs ++ ['\r'])) = f (.ofList cs)) (s : String) :
    (lines s).filterMap f =
      (splitChars (· == '\n') s.toList).filterMap fun part => f (.ofList part) := by
  have dropped (cs : List Char) : f (.ofList (dropReturn cs)) = f (.ofList cs) := by
    unfold dropReturn
    split
    next last =>
      obtain ⟨front, rfl⟩ := List.getLast?_eq_some_iff.mp last
      rw [List.dropLast_concat, even]
    next => rfl
  obtain ⟨front, last, split⟩ : ∃ front last, splitChars (· == '\n') s.toList = front ++ [last] :=
    ⟨_, _, (List.dropLast_append_getLast (splitChars_ne_nil _ _)).symm⟩
  have ended : (front.map (String.ofList ∘ dropReturn)).filterMap f =
      front.filterMap fun part => f (.ofList part) := by
    rw [List.filterMap_map]
    exact List.filterMap_congr fun part _ => dropped part
  unfold lines
  dsimp only
  rw [split, List.getLast?_concat, List.dropLast_concat, List.filterMap_append, ← ended]
  cases last with
  | nil => simp [none_]
  | cons c last =>
    dsimp only
    rw [List.filterMap_append]
    rfl

theorem filterMap_lines_withReturns (none_ : f "" = none)
    (even : ∀ cs, f (.ofList (cs ++ ['\r'])) = f (.ofList cs)) (s : String) :
    (lines (withReturns s)).filterMap f = (lines s).filterMap f := by
  rw [filterMap_lines none_ even, filterMap_lines none_ even, toList_withReturns]
  have parts := splitChars_feed_returned s.toList
  generalize splitChars (· == '\n') (returned s.toList) = ended at *
  generalize splitChars (· == '\n') s.toList = plain at *
  induction parts with
  | nil => rfl
  | cons first _ ih =>
    rw [List.filterMap_cons, List.filterMap_cons, ih]
    rcases first with rfl | rfl
    · rfl
    · rw [even]

theorem dropWhile_append_return (cs : List Char) : (cs ++ ['\r']).dropWhile isBlank =
    if cs.dropWhile isBlank = [] then [] else cs.dropWhile isBlank ++ ['\r'] := by
  rw [List.dropWhile_append]
  simp only [List.isEmpty_iff]
  rfl

end Lines
end Text

namespace Options

/-! The value of an option is a part of the text that it is read from. -/

theorem subset_of_mem_splitTopLevel {sep : Char} {s piece : String} {pieces : List String}
    (cut : splitTopLevel sep s = .ok pieces) (member : piece ∈ pieces) :
    piece.toList ⊆ s.toList := by
  simp only [splitTopLevel] at cut
  split at cut
  next part parts found =>
    obtain rfl := Except.ok.inj cut
    obtain ⟨cs, inside, rfl⟩ := List.mem_map.mp member
    rw [String.toList_ofList, ← joined_topLevelParts found, joined]
    rcases List.mem_cons.mp inside with rfl | inside
    · exact List.subset_append_left _ _
    · intro c member
      exact List.mem_append_right _
        (List.mem_flatMap.mpr ⟨cs, inside, List.mem_cons_of_mem sep member⟩)
  next => cases cut

theorem groupBody?_subset {depth : Nat} {cs body : List Char} (found : groupBody? depth cs = some body) :
    body ⊆ cs := by
  fun_induction groupBody? depth cs generalizing body with
  | case1 => cases found
  | case3 => cases found; exact List.nil_subset _
  | case2 | case4 | case5 =>
    rename_i ih
    obtain ⟨inner, inside, rfl⟩ := Option.map_eq_some_iff.mp found
    exact List.cons_subset_cons _ (ih inside)

theorem ungroup_subset (value : String) : (ungroup value).toList ⊆ value.toList := by
  unfold ungroup
  split
  next rest group =>
    rw [group]
    split
    next body found =>
      split
      · rw [String.toList_ofList]
        exact List.Subset.trans (groupBody?_subset found) (List.subset_cons_self _ _)
      · rw [group]
        exact List.Subset.refl _
    next => rw [group]; exact List.Subset.refl _
  next => exact List.Subset.refl _

theorem subset_of_pair {piece key value : String} (read : pair piece = .ok (key, value)) :
    value.toList ⊆ piece.toList := by
  simp only [pair, bind, Except.bind] at read
  split at read
  · cases read
  next parts _ =>
    rcases parts with _ | ⟨lead, _ | ⟨_, _⟩⟩
    · cases read; exact List.nil_subset _
    · cases read; exact List.nil_subset _
    · obtain ⟨-, rfl⟩ := Prod.mk.inj (Except.ok.inj read)
      refine List.Subset.trans (ungroup_subset _) (List.Subset.trans (Text.trim_subset _) ?_)
      rw [String.toList_ofList]
      exact (List.drop_suffix _ _).subset

theorem subset_of_get? {s key value : String} {options : Options} (parsed : parse s = .ok options)
    (found : options.get? key = some value) : value.toList ⊆ s.toList := by
  obtain ⟨⟨name, value'⟩, last, rfl⟩ := Option.map_eq_some_iff.mp found
  have member := List.mem_reverse.mp (List.mem_of_find?_eq_some last)
  simp only [parse, bind, Except.bind] at parsed
  split at parsed
  · cases parsed
  next pieces cut =>
    split at parsed
    · cases parsed
    next pairs read =>
      obtain rfl := Except.ok.inj parsed
      obtain ⟨piece, inside, read⟩ := mem_mapM_ok read member
      exact List.Subset.trans (subset_of_pair read)
        (subset_of_mem_splitTopLevel cut (List.mem_filter.mp inside).1)

end Options

namespace Node

/-- A comment is one at either line end. -/
@[simp] theorem isBlankOrComment_withReturns (node : Node) :
    node.withReturns.isBlankOrComment = node.isBlankOrComment := by
  cases node with
  | text content =>
    let isNothing (line : String) : Bool :=
      (line.toList.dropWhile Text.isBlank).head?.all (· == '%')
    let found (line : String) : Option Unit := if isNothing line then none else some ()
    have even (cs : List Char) : found (.ofList (cs ++ ['\r'])) = found (.ofList cs) := by
      simp only [found, isNothing, String.toList_ofList, Text.dropWhile_append_return]
      cases cs.dropWhile Text.isBlank <;> simp
    have all (lines : List String) : lines.all isNothing = (lines.filterMap found).isEmpty := by
      induction lines with
      | nil => rfl
      | cons line lines ih =>
        rw [List.all_cons, List.filterMap_cons, ih]
        cases nothing : isNothing line <;> simp [found, nothing]
    have whole (content : String) : (text content).isBlankOrComment =
        (Text.lines content).all isNothing := by
      unfold isBlankOrComment
      refine congrArg (Text.lines content).all (funext fun line => ?_)
      dsimp only [isNothing]
      cases line.toList.dropWhile Text.isBlank <;> rfl
    rw [withReturns_text, whole, whole, all, all, Text.filterMap_lines_withReturns rfl even]
  | command | environment | group | math => simp [isBlankOrComment]

section Options
variable {node : Node} {options : Options} {key : String}

/-- The options of a node stand on one line. -/
def OptionsOnLine (node : Node) : Prop := ∀ arg ∈ node.optional, LineFree arg.raw.toList

theorem options_cases (found : node.options = .ok options) :
    node.optionalArg? = .ok none ∧ options = ⟨[]⟩ ∨
      ∃ arg, node.optionalArg? = .ok (some arg) ∧ arg ∈ node.optional ∧
        Options.parse arg.raw = .ok options := by
  unfold Node.options at found
  split at found
  · cases found
  next none_ =>
    cases found
    exact .inl ⟨none_, rfl⟩
  next arg one =>
    have member : arg ∈ node.optional := by
      unfold optionalArg? at one
      split at one
      · cases one
      next only =>
        cases one
        rw [only]
        exact List.mem_singleton_self arg
      · cases one
    cases parsed : Options.parse arg.raw with
    | error e =>
      rw [parsed] at found
      cases found
    | ok options' =>
      rw [parsed] at found
      cases found
      exact .inr ⟨arg, one, member, parsed⟩

theorem options_withReturns (line : OptionsOnLine node) (found : node.options = .ok options) :
    node.withReturns.options = .ok options := by
  rcases options_cases found with ⟨none_, rfl⟩ | ⟨arg, one, member, parsed⟩
  · rw [Node.options, optionalArg?_withReturns none_]
    rfl
  · rw [Node.options, optionalArg?_withReturns one, Option.map_some]
    dsimp only
    rw [Arg.raw_withReturns, Text.withReturns_eq_self (line arg member).2, parsed]
    rfl

/-- The nodes of an option that stands on one line have no carriage returns. -/
theorem optionNodes?_withReturns {found : Option (List Node)} (line : OptionsOnLine node)
    (asked : node.optionNodes? key = .ok found) :
    node.withReturns.optionNodes? key = .ok found ∧
      ∀ nodes ∈ found, nodes.map withReturns = nodes := by
  unfold optionNodes? at asked ⊢
  split at asked
  · cases asked
  next options read =>
    rw [options_withReturns line read]
    dsimp only
    split at asked
    next =>
      cases asked
      exact ⟨rfl, by simp⟩
    next value value_eq =>
      split at asked
      · cases asked
      next nodes parsed =>
        cases asked
        refine ⟨rfl, fun _ member => ?_⟩
        obtain rfl := Option.mem_some_iff.mp member
        rcases options_cases read with ⟨-, rfl⟩ | ⟨arg, -, member, options_eq⟩
        · cases value_eq
        · exact map_withReturns_of_line
            ((line arg member).of_subset (Options.subset_of_get? options_eq value_eq)) parsed

end Options

end Node

namespace Walk

theorem treeEntry?_return (cs : List Char) : treeEntry? (cs ++ ['\r']) = treeEntry? cs := by
  have trimmed (behind : List Char) :
      Text.dropEndWhile Text.isBlank ((behind ++ ['\r']).dropWhile Text.isBlank) =
        Text.dropEndWhile Text.isBlank (behind.dropWhile Text.isBlank) := by
    have padded := congrArg String.toList
      (@Text.trim_pad "" "\r" rfl (by decide) (.ofList behind))
    simpa [Text.trim] using padded
  unfold treeEntry?
  rw [Text.dropWhile_append_return]
  cases cs.dropWhile Text.isBlank with
  | nil => rfl
  | cons d rest =>
    rw [if_neg (List.cons_ne_nil _ _), List.cons_append]
    by_cases dot : d = '.'
    · subst dot
      have digits : (rest ++ ['\r']).takeWhile Text.isDecimal = rest.takeWhile Text.isDecimal := by
        have stops : ['\r'].takeWhile Text.isDecimal = [] := by decide
        rw [List.takeWhile_append, stops, List.append_nil]
        split
        next all => exact ((List.takeWhile_prefix _).eq_of_length all).symm
        next => rfl
      have fits : (rest.takeWhile Text.isDecimal).length ≤ rest.length :=
        (List.takeWhile_prefix _).length_le
      simp only [digits, List.drop_append_of_le_length fits, trimmed]
      cases rest.drop (rest.takeWhile Text.isDecimal).length with
      | nil => simp [Text.dropEndWhile]
      | cons => rfl
    · split <;> simp_all

/-- A listing has the same entries at either line ends. -/
theorem treeEntries_withReturns (target : Target) (raw : String) :
    treeEntries target (Text.withReturns raw) = treeEntries target raw := by
  rw [treeEntries, treeEntries, Text.filterMap_lines_withReturns rfl]
  intro cs
  rw [String.toList_ofList, String.toList_ofList, List.takeWhile_append]
  split
  · next all =>
    rw [show ['\r'].takeWhile (· != '%') = ['\r'] from rfl, treeEntry?_return,
      (List.takeWhile_prefix _).eq_of_length all]
  · rfl

section Reading
variable {node : Node} {rest children nodes : List Node}

@[simp] theorem roleOf?_withReturns (node : Node) : roleOf? node.withReturns = roleOf? node := by
  cases node <;> simp [roleOf?]

@[simp] theorem labelOf?_withReturns (node : Node) :
    labelOf? node.withReturns = (labelOf? node).map Text.withReturns := by
  rw [labelOf?, Node.onlyArg, Node.required_withReturns, labelOf?, Node.onlyArg]
  match node.required with
  | [] => rfl
  | [arg] => simp
  | _ :: _ :: _ => rfl

@[simp] theorem named?_withReturns (name : String) (nodes : List Node) :
    named? name (nodes.map Node.withReturns) = (named? name nodes).map Node.withReturns := by
  rw [named?, List.find?_map, named?]
  congr 2
  funext node
  simp

@[simp] theorem withoutNamed_withReturns (name : String) (nodes : List Node) :
    withoutNamed name (nodes.map Node.withReturns) =
      (withoutNamed name nodes).map Node.withReturns := by
  rw [withoutNamed, List.eraseP_map, withoutNamed]
  congr 2
  funext node
  simp

@[simp] theorem bringFront_withReturns (name : String) (nodes : List Node) :
    bringFront name (nodes.map Node.withReturns) =
      (bringFront name nodes).map Node.withReturns := by
  rw [bringFront, named?_withReturns, withoutNamed_withReturns, bringFront, List.map_append]
  cases named? name nodes <;> rfl

@[simp] theorem captionFirst_withReturns (children : List Node) :
    captionFirst (children.map Node.withReturns) = (captionFirst children).map Node.withReturns := by
  rw [captionFirst, named?_withReturns, withoutNamed_withReturns, bringFront_withReturns, captionFirst,
    List.map_append]
  cases named? "caption" children <;> rfl

theorem namedLabel_withReturns (nodes : List Node) :
    (named? "label" (nodes.map Node.withReturns) >>= labelOf?) =
      (named? "label" nodes >>= labelOf?).map Text.withReturns := by
  rw [named?_withReturns]
  cases named? "label" nodes with
  | none => rfl
  | some node => exact labelOf?_withReturns node

@[simp] theorem labelBehind?_withReturns (rest : List Node) :
    labelBehind? (rest.map Node.withReturns) = (labelBehind? rest).map Text.withReturns := by
  rw [labelBehind?, List.find?_map, labelBehind?]
  have same : ((fun node : Node => !node.isBlankOrComment) ∘ Node.withReturns) =
      fun node => !node.isBlankOrComment := by
    funext node
    simp
  rw [same]
  cases rest.find? fun node => !node.isBlankOrComment with
  | none => rfl
  | some node =>
    simp only [Option.map_some, Node.name_withReturns, labelOf?_withReturns]
    split <;> rfl

@[simp] theorem floatLabel?_withReturns (children : List Node) :
    floatLabel? (children.map Node.withReturns) = (floatLabel? children).map Text.withReturns := by
  unfold floatLabel?
  dsimp only
  rw [withoutNamed_withReturns, namedLabel_withReturns, named?_withReturns]
  cases named? "label" (withoutNamed "caption" children) >>= labelOf? with
  | some label => rfl
  | none =>
    cases named? "caption" children with
    | none => rfl
    | some caption =>
      simp only [Option.map_some, Option.map_none, Option.bind_eq_bind, Option.bind_some,
        Node.required_withReturns, List.head?_map]
      cases caption.required.head? with
      | none => rfl
      | some first =>
        rw [Option.map_some, Option.bind_some, Option.bind_some, Node.nodes_arg_withReturns]
        exact namedLabel_withReturns first.nodes

@[simp] theorem all_isBlank_withReturns (nodes : List Node) :
    (nodes.map Node.withReturns).all (·.isBlank) = nodes.all (·.isBlank) := by
  simp [List.all_map, Function.comp_def]

theorem dropWhile_withReturns {p : Node → Bool} (even : ∀ node : Node, p node.withReturns = p node)
    (nodes : List Node) :
    (nodes.map Node.withReturns).dropWhile p = (nodes.dropWhile p).map Node.withReturns := by
  induction nodes with
  | nil => rfl
  | cons node nodes ih =>
    rw [List.map_cons, List.dropWhile_cons, List.dropWhile_cons, even, ih]
    split <;> rfl

@[simp] theorem trimFront_withReturns (nodes : List Node) :
    trimFront (nodes.map Node.withReturns) = (trimFront nodes).map Node.withReturns := by
  unfold trimFront
  rw [dropWhile_withReturns Node.isBlank_withReturns]
  cases nodes.dropWhile (·.isBlank) with
  | nil => rfl
  | cons node nodes => cases node <;> simp

theorem dropSpaces_withReturns (nodes : List Node) :
    dropSpaces (nodes.map Node.withReturns) = (dropSpaces nodes).map Node.withReturns := by
  unfold dropSpaces
  cases nodes with
  | nil => rfl
  | cons node nodes =>
    cases node with
    | text content =>
      have even := Text.dropFront_withReturns (p := fun c => c == ' ' || c == '\t') rfl content
      have empty (s : String) : (Text.withReturns s).isEmpty = s.isEmpty := by
        rw [Bool.eq_iff_iff]
        simp [String.isEmpty_iff, ← String.toList_eq_nil_iff]
      rw [List.map_cons, Node.withReturns_text]
      dsimp only
      rw [even, empty]
      split <;> simp
    | command | environment | group | math => simp

theorem dropParens_of_ne {content : String}
    (paren : (content.toList.dropWhile Text.isBlank).head? ≠ some '(') :
    dropParens content = content := by
  unfold dropParens
  split
  next eq => simp [eq] at paren
  next => rfl

theorem dropParens_withReturns (content : String) :
    dropParens (Text.withReturns content) = Text.withReturns (dropParens content) := by
  have front : (Text.withReturns content).toList.dropWhile Text.isBlank =
      returned (content.toList.dropWhile Text.isBlank) := by
    rw [Text.toList_withReturns, Text.dropWhile_returned rfl]
  by_cases paren : (content.toList.dropWhile Text.isBlank).head? = some '('
  · obtain ⟨inner, split⟩ := List.head?_eq_some_iff.mp paren
    rw [split, Text.returned_cons (by decide)] at front
    simp only [dropParens, front, split, Text.splitOnce?_returned (show LineFree [')'] by decide)
      (List.cons_ne_nil _ _)]
    cases Text.splitOnce? [')'] inner <;> simp
  · have paren' : ((Text.withReturns content).toList.dropWhile Text.isBlank).head? ≠ some '(' := by
      rw [front]
      exact mt (Text.head?_returned_iff (by decide)).mp paren
    rw [dropParens_of_ne paren, dropParens_of_ne paren']

theorem dropColumns_withReturns (nodes : List Node) :
    dropColumns (nodes.map Node.withReturns) = (dropColumns nodes).map Node.withReturns := by
  have trimmed : dropTrim (nodes.map Node.withReturns) = (dropTrim nodes).map Node.withReturns := by
    cases nodes with
    | nil => rfl
    | cons node nodes => cases node <;> simp [dropTrim, dropParens_withReturns]
  unfold dropColumns
  rw [trimmed, dropWhile_withReturns Node.isBlank_withReturns]
  cases (dropTrim nodes).dropWhile (·.isBlank) with
  | nil => rfl
  | cons node nodes => cases node <;> simp

theorem remaining_of_role (other : node.isText = false) (rest : List Node) :
    remaining node rest = match roleOf? node with
      | some (.fixed _ _) => dropSpaces rest
      | some .partialRule => dropColumns rest
      | some .transparent => node.children ++ rest
      | some .color => []
      | _ => rest := by
  cases node with
  | text => cases other
  | command | environment | group | math => rfl

theorem remaining_withReturns (node : Node) (rest : List Node) :
    remaining node.withReturns (rest.map Node.withReturns) =
      (remaining node rest).map Node.withReturns := by
  by_cases isText : node.isText = true
  · cases node with
    | text content =>
      rw [Node.withReturns_text]
      exact dropWhile_withReturns Node.isText_withReturns rest
    | command | environment | group | math => cases isText
  · have other := Bool.eq_false_iff.mpr isText
    rw [remaining_of_role other, remaining_of_role (by rw [Node.isText_withReturns, other]),
      roleOf?_withReturns]
    split <;> simp [dropSpaces_withReturns, dropColumns_withReturns]

theorem textAhead_withReturns (rest : List Node) :
    textAhead (rest.map Node.withReturns) = Text.withReturns (textAhead rest) := by
  unfold textAhead
  induction rest with
  | nil => rfl
  | cons node rest ih =>
    cases node with
    | text content =>
      rw [List.map_cons, Node.withReturns_text, List.takeWhile_cons_of_pos rfl,
        List.takeWhile_cons_of_pos rfl, Node.sourceOf, Node.sourceOf, ih, Node.source, Node.source,
        Text.withReturns_append]
    | command | environment | group | math => simp [Node.isText, Node.sourceOf]

end Reading

end Walk
end Quire
