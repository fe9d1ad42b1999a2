import Quire.Proofs.Node.Plain
import Quire.Proofs.Text.Relined
import Quire.Proofs.Token.Returns

/-! The tree of a source whose lines end in carriage returns too. It is the tree of the source
without them, and the returns stand in its texts. Main statement: `parse_withReturns`. -/
namespace Quire

open Text (returned LineFree)

mutual
def Node.withReturns : Node → Node
  | .text content => .text (Text.withReturns content)
  | .command name args => .command name (Arg.listWithReturns args)
  | .environment name args children =>
    .environment name (Arg.listWithReturns args) (Node.listWithReturns children)
  | .group children => .group (Node.listWithReturns children)
  | .math display content => .math display (Text.withReturns content)

def Arg.withReturns : Arg → Arg
  | .mk grouping nodes raw => .mk grouping (Node.listWithReturns nodes) (Text.withReturns raw)

def Arg.listWithReturns : List Arg → List Arg
  | [] => []
  | arg :: args => Arg.withReturns arg :: Arg.listWithReturns args

def Node.listWithReturns : List Node → List Node
  | [] => []
  | node :: nodes => Node.withReturns node :: Node.listWithReturns nodes
end

namespace Arg

@[simp] theorem listWithReturns_eq (args : List Arg) : listWithReturns args = args.map withReturns := by
  induction args with
  | nil => rw [listWithReturns, List.map_nil]
  | cons arg args ih => rw [listWithReturns, List.map_cons, ih]

variable (arg : Arg)

@[simp] theorem grouping_withReturns : arg.withReturns.grouping = arg.grouping := by
  cases arg
  rw [withReturns]
  rfl

@[simp] theorem raw_withReturns : arg.withReturns.raw = Text.withReturns arg.raw := by
  cases arg
  rw [withReturns]
  rfl

@[simp] theorem text_withReturns : arg.withReturns.text = Text.withReturns arg.text := by
  rw [text, raw_withReturns, Text.trim_withReturns, text]

@[simp] theorem isRequired_withReturns : arg.withReturns.isRequired = arg.isRequired := by
  rw [isRequired, grouping_withReturns, isRequired]

end Arg

namespace Node

@[simp] theorem listWithReturns_eq (nodes : List Node) : listWithReturns nodes = nodes.map withReturns := by
  induction nodes with
  | nil => rw [listWithReturns, List.map_nil]
  | cons node nodes ih => rw [listWithReturns, List.map_cons, ih]

@[simp] theorem withReturns_text (content : String) :
    (text content).withReturns = text (Text.withReturns content) := by
  rw [withReturns]

@[simp] theorem withReturns_math (display : Bool) (content : String) :
    (math display content).withReturns = math display (Text.withReturns content) := by
  rw [withReturns]

@[simp] theorem withReturns_group (children : List Node) :
    (group children).withReturns = group (children.map withReturns) := by
  rw [withReturns, listWithReturns_eq]

@[simp] theorem withReturns_command (name : String) (args : List Arg) :
    (command name args).withReturns = command name (args.map Arg.withReturns) := by
  rw [withReturns, Arg.listWithReturns_eq]

@[simp] theorem withReturns_environment (name : String) (args : List Arg) (children : List Node) :
    (environment name args children).withReturns =
      environment name (args.map Arg.withReturns) (children.map withReturns) := by
  rw [withReturns, Arg.listWithReturns_eq, listWithReturns_eq]

variable (node : Node)

@[simp] theorem name_withReturns : node.withReturns.name = node.name := by
  cases node with
  | math display => cases display <;> simp [name]
  | _ => simp [name]

@[simp] theorem isText_withReturns : node.withReturns.isText = node.isText := by
  cases node <;> simp [isText]

@[simp] theorem isBlank_withReturns : node.withReturns.isBlank = node.isBlank := by
  cases node <;> simp [isBlank]

@[simp] theorem args_withReturns : node.withReturns.args = node.args.map Arg.withReturns := by
  cases node <;> simp [args]

@[simp] theorem children_withReturns :
    node.withReturns.children = node.children.map withReturns := by
  cases node <;> simp [children]

@[simp] theorem required_withReturns :
    node.withReturns.required = node.required.map Arg.withReturns := by
  rw [required, args_withReturns, List.filter_map, required]
  congr 2
  funext arg
  exact arg.isRequired_withReturns

@[simp] theorem optional_withReturns :
    node.withReturns.optional = node.optional.map Arg.withReturns := by
  rw [optional, args_withReturns, List.filter_map, optional]
  congr 2
  funext arg
  exact congrArg not arg.isRequired_withReturns

end Node

/-! What a walk asks of a node. -/

namespace Node

@[simp] theorem nodes_arg_withReturns (arg : Arg) :
    arg.withReturns.nodes = arg.nodes.map withReturns := by
  cases arg
  rw [Arg.withReturns, listWithReturns_eq]
  rfl

@[simp] theorem requiredNodes_withReturns (node : Node) (n : Nat) :
    node.withReturns.requiredNodes n = (node.requiredNodes n).map withReturns := by
  rw [requiredNodes, required_withReturns, List.getElem?_map, requiredNodes]
  cases node.required[n]? <;> simp

variable {node : Node} {arg : Arg}

theorem onlyArg_withReturns (only : node.onlyArg = .ok arg) :
    node.withReturns.onlyArg = .ok arg.withReturns := by
  unfold onlyArg at only ⊢
  split at only
  next one =>
    cases only
    rw [required_withReturns, one]
    rfl
  next => cases only

theorem onlyArg_eq_ok (only : node.onlyArg = .ok arg) : node.required = [arg] := by
  unfold onlyArg at only
  split at only
  next one =>
    cases only
    exact one
  next => cases only

theorem exactArgs_withReturns {n : Nat} {args : List Arg} (exact_ : node.exactArgs n = .ok args) :
    node.withReturns.exactArgs n = .ok (args.map Arg.withReturns) := by
  unfold exactArgs at exact_ ⊢
  dsimp only at exact_ ⊢
  split at exact_
  next length =>
    cases exact_
    rw [required_withReturns, List.length_map, if_pos length]
  next => cases exact_

theorem optionalArg?_withReturns {found : Option Arg} (optional : node.optionalArg? = .ok found) :
    node.withReturns.optionalArg? = .ok (found.map Arg.withReturns) := by
  unfold optionalArg? at optional ⊢
  rw [optional_withReturns]
  split at optional
  next none_ =>
    cases optional
    rw [none_]
    rfl
  next one =>
    cases optional
    rw [one]
    rfl
  next => cases optional

open Text (Feeds)

theorem feeds_join_source (args : List Arg) : Feeds (String.join (args.map Arg.source)).toList
    (String.join ((args.map Arg.withReturns).map Arg.source)).toList := by
  induction args with
  | nil => exact .nil
  | cons arg args ih =>
    simp only [List.map_cons, String.join_cons, String.toList_append, Arg.source,
      Arg.grouping_withReturns, Arg.raw_withReturns, Text.toList_withReturns]
    exact ((((Feeds.refl _).append (.returned _)).append (.refl _))).append ih

mutual
/-- The source has its carriage returns in front of line feeds. -/
theorem feeds_source (node : Node) : Feeds node.source.toList node.withReturns.source.toList := by
  match node with
  | text content =>
    rw [withReturns_text, source, source, Text.toList_withReturns]
    exact .returned _
  | command name args =>
    rw [withReturns_command, source, source]
    simp only [String.toList_append]
    exact (Feeds.refl _).append (feeds_join_source args)
  | group children =>
    rw [withReturns_group, source, source]
    simp only [String.toList_append]
    exact ((Feeds.refl _).append (feeds_sourceOf children)).append (.refl _)
  | math false content | math true content =>
    rw [withReturns_math, source, source]
    simp only [String.toList_append, Text.toList_withReturns]
    exact ((Feeds.refl _).append (.returned _)).append (.refl _)
  | environment name args children =>
    have inside := (feeds_join_source args).append (feeds_sourceOf children)
    rw [withReturns_environment, source, source]
    split
    · simp only [String.toList_append]
      exact (Feeds.refl _).append inside
    · simp only [String.toList_append]
      exact ((Feeds.refl _).append inside).append (.refl _)

theorem feeds_sourceOf (nodes : List Node) :
    Feeds (sourceOf nodes).toList (sourceOf (nodes.map withReturns)).toList := by
  match nodes with
  | [] => exact .nil
  | node :: nodes =>
    rw [List.map_cons, sourceOf, sourceOf, String.toList_append, String.toList_append]
    exact (feeds_source node).append (feeds_sourceOf nodes)
end

end Node

namespace Token

/-- A source is cut with the carriage returns as without, where no backslash ends a line. -/
theorem cuts_returned {offset : Nat} {cs : List Char} {lexemes : List Lexeme}
    (scanned : scan offset cs = .ok lexemes) (bare : '\r' ∉ cs)
    (plain : ∀ l ∈ lexemes, l.token ≠ .escape '\n') :
    Cuts (returned cs) (lexemes.map Lexeme.withReturns) := by
  induction lexemes generalizing offset cs with
  | nil =>
    obtain rfl : cs = [] := by simpa using (spellings_scan scanned).symm
    exact .nil
  | cons l lexemes ih =>
    obtain ⟨c, rest, n, rfl, found, spelled, further, scanned⟩ := scan_eq_cons scanned
    obtain ⟨_, bare⟩ := List.ne_and_not_mem_of_not_mem_cons bare
    obtain ⟨first, plain⟩ := List.forall_mem_cons.mp plain
    obtain ⟨d, ds, m, split, found', behind⟩ := next?_returned found bare first
    have cuts := ih scanned (fun member => bare (List.mem_of_mem_drop member)) plain
    have whole : returned (c :: rest.take n) ++ returned (rest.drop n) = d :: ds := by
      rw [← split, ← Text.returned_append, List.cons_append, List.take_append_drop]
    have taken : d :: ds.take m = returned (c :: rest.take n) := by
      refine (List.append_left_inj (ds.drop m)).mp ?_
      rw [List.cons_append, List.take_append_drop, behind, whole]
    have spelling : Text.withReturns l.spelling = .ofList (d :: ds.take m) := by
      rw [spelled, Text.withReturns_ofList, taken]
    intro start
    obtain ⟨lexemes', scanned', same⟩ := Cuts.cons found' behind cuts start
    refine ⟨lexemes', split ▸ scanned', ?_⟩
    rw [same, List.map_cons, List.map_cons, List.map_cons]
    simp [Lexeme.unplaced, Lexeme.withReturns, spelling]

end Token

namespace Node

def Owner.withReturns : Owner → Owner
  | command name args => command name (args.map Arg.withReturns)
  | environment name offset args => environment name offset (args.map Arg.withReturns)

def Frame.withReturns : Frame → Frame
  | group offset before outer =>
    group offset (Text.withReturns before) (outer.map Node.withReturns)
  | argument grouping offset before owner outer =>
    argument grouping offset (Text.withReturns before) owner.withReturns
      (outer.map Node.withReturns)
  | environment name offset args outer =>
    environment name offset (args.map Arg.withReturns) (outer.map Node.withReturns)

theorem Owner.takesBraces_withReturns (owner : Owner) :
    owner.withReturns.takesBraces = owner.takesBraces := by
  cases owner <;> rfl

theorem Owner.addArg_withReturns (owner : Owner) (arg : Arg) :
    (owner.addArg arg).withReturns = owner.withReturns.addArg arg.withReturns := by
  cases owner <;> simp [addArg, withReturns]

/-- What is grouped as items is grouped so with the carriage returns. -/
theorem splitItems_withReturns (nodes : List Node) :
    splitItems (nodes.map withReturns) =
      ((splitItems nodes).1.map withReturns, (splitItems nodes).2.map withReturns) := by
  induction nodes with
  | nil => rfl
  | cons node nodes ih =>
    rw [List.map_cons, splitItems, splitItems, ih]
    cases node with
    | command name args =>
      rw [withReturns_command]
      dsimp only
      split <;> simp
    | text | environment | group | math => simp

theorem groupItems_withReturns (nodes : List Node) :
    groupItems (nodes.map withReturns) = (groupItems nodes).map withReturns := by
  have visible : ((!·.isBlank) ∘ withReturns) = fun node : Node => !node.isBlank := by
    funext node
    exact congrArg not node.isBlank_withReturns
  rw [groupItems, groupItems, splitItems_withReturns]
  simp only [List.filter_map, visible, List.map_append]

theorem ofVerbatim_withReturns (name body : String) :
    (ofVerbatim name body).withReturns = ofVerbatim name (Text.withReturns body) := by
  by_cases bracket : body.toList.head? = some '['
  · obtain ⟨rest, chars⟩ := List.head?_eq_some_iff.mp bracket
    have chars' : (Text.withReturns body).toList = '[' :: returned rest := by
      rw [Text.toList_withReturns, chars, Text.returned_cons (by decide)]
    simp only [ofVerbatim, chars, chars']
    by_cases listing : name = "lstlisting"
    · rw [if_pos listing, if_pos listing, Text.splitOnce?_returned (by decide) (by simp)]
      cases Text.splitOnce? [']'] rest <;> simp [Arg.withReturns]
    · simp [listing]
  · have bracket' : (Text.withReturns body).toList.head? ≠ some '[' := by
      rw [Text.toList_withReturns]
      exact mt (Text.head?_returned_iff (by decide)).mp bracket
    have plain (body : String) (bracket : body.toList.head? ≠ some '[') :
        ofVerbatim name body = .environment name [] [.text body] := by
      unfold ofVerbatim
      split
      next eq => simp [eq] at bracket
      next => rfl
    rw [plain body bracket, plain _ bracket']
    simp

theorem source_arg_withReturns (arg : Arg) :
    arg.withReturns.source = Text.withReturns arg.source := by
  have free (grouping : Grouping) : Text.withReturns (Arg.delimiters grouping).1 =
        (Arg.delimiters grouping).1 ∧
      Text.withReturns (Arg.delimiters grouping).2 = (Arg.delimiters grouping).2 := by
    cases grouping <;> decide
  rw [Arg.source, Arg.source, Text.withReturns_append, Text.withReturns_append, (free _).1,
    (free _).2, Arg.grouping_withReturns, Arg.raw_withReturns]

namespace Builder

def withReturns (b : Builder) : Builder :=
  ⟨Text.withReturns b.raw, b.siblings.map Node.withReturns, b.owner.map Owner.withReturns,
    b.frames.map Frame.withReturns⟩

theorem settle_withReturns (b : Builder) : b.settle.withReturns = b.withReturns.settle := by
  obtain ⟨raw, siblings, owner, frames⟩ := b
  match owner with
  | none => rfl
  | some (.command name args) => simp [settle, withReturns, Owner.withReturns]
  | some (.environment name offset args) => rfl

theorem write_withReturns (b : Builder) (spelling : String) :
    (b.write spelling).withReturns = b.withReturns.write (Text.withReturns spelling) := by
  simp only [write, withReturns, Text.withReturns_append]

theorem closeArgument_withReturns (grouping : Grouping) (before : String) (owner : Owner)
    (outer : List Node) (frames : List Frame) (b : Builder) :
    (b.closeArgument grouping before owner outer frames).withReturns =
      b.withReturns.closeArgument grouping (Text.withReturns before) owner.withReturns
        (outer.map Node.withReturns) (frames.map Frame.withReturns) := by
  have arg : (Arg.mk grouping b.siblings.reverse b.raw).withReturns =
      Arg.mk grouping (b.siblings.map Node.withReturns).reverse (Text.withReturns b.raw) := by
    rw [Arg.withReturns, listWithReturns_eq, List.map_reverse]
  simp only [closeArgument, withReturns, Text.withReturns_append, ← source_arg_withReturns, arg,
    Option.map_some, Owner.addArg_withReturns]

theorem closeBrace_withReturns (b : Builder) (offset : Nat) :
    b.withReturns.closeBrace offset = (b.closeBrace offset).map withReturns := by
  have braces : Text.withReturns "\x7b" = "\x7b" ∧ Text.withReturns "\x7d" = "\x7d" := by decide
  unfold closeBrace
  cases frames : b.frames with
  | nil => simp [withReturns, frames, Except.map]
  | cons frame rest =>
    cases frame with
    | group =>
      simp [withReturns, frames, Frame.withReturns, Except.map, Text.withReturns_append, braces]
    | environment => simp [withReturns, frames, Frame.withReturns, Except.map]
    | argument grouping =>
      cases grouping with
      | optional => simp [withReturns, frames, Frame.withReturns, Except.map]
      | required =>
        simp only [Except.map, closeArgument_withReturns]
        simp [withReturns, frames, Frame.withReturns]

theorem closeBracket_withReturns (b : Builder) :
    b.withReturns.closeBracket = b.closeBracket.withReturns := by
  have bracket : Text.withReturns "]" = "]" := by decide
  unfold closeBracket
  cases frames : b.frames with
  | nil => simp [withReturns, frames, Text.withReturns_append, bracket]
  | cons frame rest =>
    cases frame with
    | group | environment =>
      simp [withReturns, frames, Frame.withReturns, Text.withReturns_append, bracket]
    | argument grouping =>
      cases grouping with
      | required =>
        simp [withReturns, frames, Frame.withReturns, Text.withReturns_append, bracket]
      | optional =>
        simp only [closeArgument_withReturns]
        simp [withReturns, frames, Frame.withReturns]

theorem closeEnvironment_withReturns (b : Builder) (name : String) (offset : Nat) :
    b.withReturns.closeEnvironment name offset =
      (b.closeEnvironment name offset).map withReturns := by
  unfold closeEnvironment
  cases frames : b.frames with
  | nil => simp [withReturns, frames, Except.map]
  | cons frame rest =>
    cases frame with
    | group | argument => simp [withReturns, frames, Frame.withReturns, Except.map]
    | environment opened _ args outer =>
      by_cases same : opened = name
      · by_cases list : name ∈ listNames <;>
          simp [withReturns, frames, Frame.withReturns, Except.map, same, list,
            ← groupItems_withReturns]
      · simp [withReturns, frames, Frame.withReturns, Except.map, same]

/-- No accent ends a line. -/
def OnLine (l : Lexeme) : Prop := ∀ mark base, l.token = .accent mark base → LineFree [mark, base]

theorem step_withReturns (b : Builder) {l : Lexeme} (line : OnLine l) :
    b.withReturns.step l.withReturns = (b.step l).map withReturns := by
  have settled := b.settle_withReturns
  have leaf {node node' : Node} (same : node.withReturns = node') :
      Except.ok (ε := Misplaced) ((b.withReturns.settle.write l.withReturns.spelling).push node') =
        (Except.ok ((b.settle.write l.spelling).push node)).map withReturns := by
    rw [← settled, ← same]
    refine congrArg Except.ok ?_
    exact congrArg (push node.withReturns) (b.settle.write_withReturns l.spelling).symm
  cases token : l.token with
  | text content =>
    simpa only [step, Lexeme.withReturns, token, Token.withReturns] using leaf (by simp)
  | comment content =>
    have percent : Text.withReturns "%" = "%" := by decide
    simpa only [step, Lexeme.withReturns, token, Token.withReturns] using
      leaf (by simp [Text.withReturns_append, percent])
  | escape symbol =>
    have same : Text.withReturns (escapeText symbol) = escapeText symbol := by
      unfold escapeText
      split
      next => decide
      next solid =>
        refine Text.withReturns_eq_self ?_
        rw [String.toList_ofList]
        rintro (_ | ⟨_, _ | ⟨_, ⟨⟩⟩⟩)
        exact solid rfl
    simpa only [step, Lexeme.withReturns, token, Token.withReturns] using leaf (by simp [same])
  | accent mark base =>
    have same : Text.withReturns (.ofList ['\\', mark, base]) = .ofList ['\\', mark, base] := by
      refine Text.withReturns_eq_self ?_
      rw [String.toList_ofList]
      exact ((show LineFree ['\\'] by decide).append (line mark base token)).2
    simpa only [step, Lexeme.withReturns, token, Token.withReturns] using
      leaf (by rw [withReturns_text, same])
  | math display content =>
    simpa only [step, Lexeme.withReturns, token, Token.withReturns] using leaf (by simp)
  | verbatim name body =>
    simpa only [step, Lexeme.withReturns, token, Token.withReturns] using
      leaf (ofVerbatim_withReturns name body)
  | command name =>
    simp only [step, Lexeme.withReturns, token, Token.withReturns, ← settled, ← write_withReturns]
    rfl
  | beginEnv name =>
    simp only [step, Lexeme.withReturns, token, Token.withReturns, ← settled, ← write_withReturns]
    rfl
  | openBrace =>
    simp only [step, Lexeme.withReturns, token, Token.withReturns, ← settled]
    cases owner : b.owner with
    | none =>
      simp only [withReturns, owner]
      rfl
    | some owner' =>
      by_cases braces : owner'.takesBraces
      · simp [withReturns, owner, Option.filter, Owner.takesBraces_withReturns, braces, Except.map,
          openArgument, Frame.withReturns]
      · simp [withReturns, owner, Option.filter, Owner.takesBraces_withReturns, braces, Except.map,
          openGroup, Frame.withReturns]
  | openBracket =>
    have bracket : Text.withReturns "[" = "[" := by decide
    cases owner : b.owner with
    | none =>
      have leaf := @leaf (.text "[") (.text "[") (by simp [bracket])
      simpa [step, Lexeme.withReturns, token, Token.withReturns, owner, withReturns] using leaf
    | some owner' =>
      simp [step, Lexeme.withReturns, token, Token.withReturns, withReturns, owner, Except.map,
        openArgument, Frame.withReturns]
  | closeBrace =>
    simp only [step, Lexeme.withReturns, token, Token.withReturns, ← settled]
    exact b.settle.closeBrace_withReturns _
  | closeBracket =>
    simp only [step, Lexeme.withReturns, token, Token.withReturns, ← settled]
    exact congrArg Except.ok b.settle.closeBracket_withReturns
  | endEnv name =>
    simp only [step, Lexeme.withReturns, token, Token.withReturns, ← settled]
    rw [← write_withReturns]
    exact (b.settle.write l.spelling).closeEnvironment_withReturns name _

theorem foldlM_withReturns {lexemes : List Lexeme} (lines : ∀ l ∈ lexemes, OnLine l)
    (b : Builder) : (lexemes.map Lexeme.withReturns).foldlM step b.withReturns =
      (lexemes.foldlM step b).map withReturns := by
  induction lexemes generalizing b with
  | nil => rfl
  | cons l lexemes ih =>
    obtain ⟨first, lines⟩ := List.forall_mem_cons.mp lines
    rw [List.map_cons, List.foldlM_cons, List.foldlM_cons, step_withReturns b first]
    cases b.step l with
    | error => rfl
    | ok c => exact ih lines c

theorem finish_withReturns (b : Builder) :
    b.withReturns.finish = b.finish.map (List.map Node.withReturns) := by
  have complaint (frame : Frame) : unclosed frame.withReturns = unclosed frame := by
    cases frame with
    | group | environment => rfl
    | argument grouping => cases grouping <;> rfl
  rw [finish, finish, ← settle_withReturns]
  cases frames : b.settle.frames with
  | nil => simp [withReturns, frames, Except.map]
  | cons frame => simp [withReturns, frames, Except.map, complaint]

end Builder

theorem build_withReturns {lexemes : List Lexeme} (lines : ∀ l ∈ lexemes, Builder.OnLine l) :
    build (lexemes.map Lexeme.withReturns) = (build lexemes).map (List.map withReturns) := by
  have fold := Builder.foldlM_withReturns lines .start
  rw [show Builder.start.withReturns = .start from rfl] at fold
  rw [build, build, fold]
  cases lexemes.foldlM Builder.step .start with
  | error => rfl
  | ok c => exact c.finish_withReturns

/-- A source is read with carriage returns at its line ends as it is read without them, where no
backslash ends a line. -/
theorem parse_withReturns {source : String} {lexemes : List Lexeme} {nodes : List Node}
    (bare : '\r' ∉ source.toList) (cut : Token.tokenize source = .ok lexemes)
    (plain : ∀ l ∈ lexemes, l.token ≠ .escape '\n') (parsed : parse source = .ok nodes) :
    parse (Text.withReturns source) = .ok (nodes.map withReturns) := by
  have lines : ∀ l ∈ lexemes, Builder.OnLine l := by
    intro l member mark base token
    obtain ⟨c, rest, n, found, -⟩ := Token.next?_of_mem_scan cut member
    exact Token.free_accent (token ▸ found)
  obtain ⟨lexemes', cut', same⟩ := Token.cuts_returned cut bare plain 0
  have built : build lexemes = .ok nodes := by
    rw [parse, cut] at parsed
    simp only [bind, Except.bind] at parsed
    split at parsed
    next built =>
      cases parsed
      exact built
    next => cases parsed
  refine Builder.parse_of_lexemes ?_ same ?_
  · rwa [Token.tokenize, Text.toList_withReturns]
  · rw [build_withReturns lines, built]
    rfl

/-- What stands on one line is read the same. -/
theorem map_withReturns_of_line {source : String} {nodes : List Node} (line : LineFree source.toList)
    (parsed : parse source = .ok nodes) : nodes.map withReturns = nodes := by
  cases cut : Token.tokenize source with
  | error e =>
    rw [parse, cut] at parsed
    cases parsed
  | ok lexemes =>
    have plain : ∀ l ∈ lexemes, l.token ≠ .escape '\n' := by
      intro l member token
      have spelled : l.spelling = l.token.written :=
        Token.spelling_eq_written cut member (by simp [token]) (by simp [token])
      have feed : '\n' ∈ l.spelling.toList := by
        rw [spelled, token]
        simp [Token.written]
      refine line.2 ?_
      rw [← Token.spellings_scan cut]
      exact List.mem_flatMap.mpr ⟨l, member, feed⟩
    have again := parse_withReturns line.1 cut plain parsed
    rw [Text.withReturns_eq_self line.2, parsed] at again
    exact (Except.ok.inj again).symm

end Node

end Quire
