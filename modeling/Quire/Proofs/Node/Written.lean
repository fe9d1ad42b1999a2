import Quire.Proofs.Node.Frames
import Quire.Proofs.Token.Spelling

/-! What a tree is written as. A reader that forgets none of the spellings on its way can write all
that it has read: the siblings and frames of a builder are written as the source that was read into
them. Main statement: `sourceOf_parse`. -/
namespace Quire

/-- A lexeme whose spelling a tree keeps. An accent, math and white space behind a backslash have
spellings that the tree does not tell apart, and the children of a list are put in order. -/
def Lexeme.isKept (l : Lexeme) : Bool :=
  match l.token with
  | .accent .. => false
  | .escape symbol => !Text.isBlank symbol || symbol == ' '
  | .math .. => l.spelling.toList.head? == some '$'
  | .beginEnv name => !(Node.itemName :: Node.listNames).contains name
  | _ => true

namespace Node

/-- An environment that keeps its children as they are, and that is written with its marks. -/
def IsOrdinary (name : String) : Prop := name ≠ itemName ∧ listNames.contains name = false

theorem source_environment {name : String} (ordinary : IsOrdinary name) (args : List Arg)
    (children : List Node) : source (.environment name args children) =
      environmentMark "begin" name ++ String.join (args.map Arg.source) ++ sourceOf children ++
        environmentMark "end" name := by
  rw [source, if_neg ordinary.1]
  simp only [String.append_assoc]

theorem sourceOf_reverse_cons (node : Node) (before : List Node) :
    sourceOf (node :: before).reverse = sourceOf before.reverse ++ source node := by
  rw [List.reverse_cons, sourceOf_append, sourceOf, sourceOf, String.append_empty]

/-- The option that is cut off the body of a listing is written in front of the rest. -/
theorem source_ofVerbatim {name : String} (raw : name ∈ Token.verbatimNames) (body : String) :
    source (ofVerbatim name body) = (Token.verbatim name body).written := by
  have ordinary : IsOrdinary name := by
    have each : ∀ name ∈ Token.verbatimNames,
        name ≠ itemName ∧ listNames.contains name = false := by
      decide
    exact each name raw
  have whole : source (.environment name [] [.text body]) =
      (Token.verbatim name body).written := by
    rw [source_environment ordinary]
    simp [sourceOf, source, Token.written, String.join]
  unfold ofVerbatim
  split
  next rest eq =>
    split
    next option code found =>
      split at found
      next =>
        obtain ⟨option, at_, same⟩ := Option.map_eq_some_iff.mp found
        cases same
        obtain ⟨behind, rfl⟩ := Text.prefix_of_before? at_
        have cut : (option ++ [']'] ++ behind).drop (option.length + [']'].length) = behind :=
          List.drop_left' (by simp)
        rw [source_environment ordinary, cut]
        apply String.toList_injective
        simp [sourceOf, source, Token.written, String.join, Arg.source, Arg.delimiters,
          Arg.grouping, Arg.raw, eq]
      next => cases found
    next => exact whole
  next => exact whole

/-- An environment that is opened with groups to follow is ordinary. -/
def Owner.IsOrdinary : Owner → Prop
  | command .. => True
  | environment name .. => Node.IsOrdinary name

theorem Owner.isOrdinary_addArg {owner : Owner} (ordinary : owner.IsOrdinary) (arg : Arg) :
    (owner.addArg arg).IsOrdinary := by
  cases owner <;> exact ordinary

def Owner.written : Owner → String
  | command name args => "\\" ++ name ++ String.join (args.map Arg.source)
  | environment name _ args => environmentMark "begin" name ++ String.join (args.map Arg.source)

theorem Owner.written_addArg (owner : Owner) (arg : Arg) :
    (owner.addArg arg).written = owner.written ++ arg.source := by
  cases owner <;>
    simp [addArg, written, String.join, List.foldl_append, String.append_assoc]

namespace Builder

def writtenBelow : List Frame → String
  | [] => ""
  | .group _ _ outer :: frames => writtenBelow frames ++ sourceOf outer.reverse ++ "\x7b"
  | .argument grouping _ _ owner outer :: frames =>
    writtenBelow frames ++ sourceOf outer.reverse ++ owner.written ++
      (Arg.delimiters grouping).1
  | .environment name offset args outer :: frames =>
    writtenBelow frames ++ sourceOf outer.reverse ++ (Owner.environment name offset args).written

def written (b : Builder) : String :=
  writtenBelow b.frames ++ sourceOf b.siblings.reverse ++ (b.owner.map Owner.written).getD ""

/-- Where braces or brackets are open, all in front of them is written as it was read. Nothing of
the kind is asked at an environment: it has no part in the source of an argument. -/
def KeptBelow : List Frame → Prop
  | [] => True
  | .group offset before outer :: frames =>
    writtenBelow (.group offset before outer :: frames) =
      sourceBelow (.group offset before outer :: frames) ∧ KeptBelow frames
  | .argument grouping offset before owner outer :: frames =>
    writtenBelow (.argument grouping offset before owner outer :: frames) =
      sourceBelow (.argument grouping offset before owner outer :: frames) ∧
        owner.IsOrdinary ∧ KeptBelow frames
  | .environment name _ _ _ :: frames => Node.IsOrdinary name ∧ KeptBelow frames

structure Kept (b : Builder) : Prop where
  written_eq : b.written = b.sourceRead
  owner : ∀ owner ∈ b.owner, owner.IsOrdinary
  frames : KeptBelow b.frames

variable {b c : Builder} {l : Lexeme}

theorem kept_start : Kept start := ⟨rfl, by simp [start], trivial⟩

theorem written_settle (b : Builder) : b.settle.written = b.written := by
  obtain ⟨raw, siblings, owner, frames⟩ := b
  match owner with
  | none => rfl
  | some (.command name args) =>
    simp [settle, written, sourceOf_append, sourceOf, source, Owner.written, String.append_assoc]
  | some (.environment name offset args) =>
    simp [settle, written, writtenBelow, sourceOf]

/-- What a builder without an owner has read and written, its siblings apart. -/
theorem Kept.written_eq_of_none (kept : b.Kept) (none_ : b.owner = none) :
    writtenBelow b.frames ++ sourceOf b.siblings.reverse = sourceBelow b.frames ++ b.raw := by
  have eq := kept.written_eq
  simpa only [written, none_, Option.map_none, Option.getD_none, String.append_empty, sourceRead]
    using eq

theorem kept_of_none (none_ : b.owner = none)
    (eq : writtenBelow b.frames ++ sourceOf b.siblings.reverse = sourceBelow b.frames ++ b.raw)
    (frames : KeptBelow b.frames) : b.Kept := by
  refine ⟨?_, by simp [none_], frames⟩
  simpa only [written, none_, Option.map_none, Option.getD_none, String.append_empty, sourceRead]
    using eq

theorem Kept.settle (kept : b.Kept) : b.settle.Kept := by
  refine ⟨by rw [written_settle, sourceRead_settle, kept.written_eq], by simp [settle_owner], ?_⟩
  obtain ⟨raw, siblings, owner, frames⟩ := b
  match owner with
  | none => exact kept.frames
  | some (.command name args) => exact kept.frames
  | some (.environment name offset args) => exact ⟨kept.owner _ rfl, kept.frames⟩

theorem Kept.leaf (kept : b.Kept) (none_ : b.owner = none) {node : Node} {spelling : String}
    (same : source node = spelling) : ((b.write spelling).push node).Kept := by
  refine kept_of_none none_ ?_ kept.frames
  have before := kept.written_eq_of_none none_
  simp only [push, write, sourceOf_reverse_cons, same, ← String.append_assoc, before]

theorem Kept.own (kept : b.Kept) (none_ : b.owner = none) {owner : Owner} {spelling : String}
    (same : owner.written = spelling) (ordinary : owner.IsOrdinary) :
    ({ b.write spelling with owner := some owner } : Builder).Kept := by
  refine ⟨?_, by rintro _ ⟨⟩; exact ordinary, kept.frames⟩
  have before := kept.written_eq_of_none none_
  simp only [written, write, Option.map_some, Option.getD_some, same, sourceRead, before,
    ← String.append_assoc]

theorem Kept.openArgument (kept : b.Kept) {owner : Owner} (owned : b.owner = some owner)
    (grouping : Grouping) (offset : Nat) : (b.openArgument grouping offset owner).Kept := by
  have below : writtenBelow (.argument grouping offset b.raw owner b.siblings :: b.frames) =
      sourceBelow (.argument grouping offset b.raw owner b.siblings :: b.frames) := by
    have before := kept.written_eq
    simp only [written, owned, Option.map_some, Option.getD_some, sourceRead] at before
    rw [writtenBelow, before, sourceBelow]
  refine kept_of_none rfl ?_ ⟨below, kept.owner owner owned, kept.frames⟩
  simp only [Builder.openArgument, below, List.reverse_nil, sourceOf]

theorem Kept.openGroup (kept : b.Kept) (none_ : b.owner = none) (offset : Nat) :
    (b.openGroup offset).Kept := by
  have below : writtenBelow (.group offset b.raw b.siblings :: b.frames) =
      sourceBelow (.group offset b.raw b.siblings :: b.frames) := by
    rw [writtenBelow, kept.written_eq_of_none none_, sourceBelow]
  refine kept_of_none rfl ?_ ⟨below, kept.frames⟩
  simp only [Builder.openGroup, below, List.reverse_nil, sourceOf]

/-- An argument is written with its source, whatever became of the nodes in it. -/
theorem Kept.closeArgument (kept : b.Kept) {grouping : Grouping} {offset : Nat} {before : String}
    {owner : Owner} {outer : List Node} {frames : List Frame}
    (open_ : b.frames = .argument grouping offset before owner outer :: frames) :
    (b.closeArgument grouping before owner outer frames).Kept := by
  have below := kept.frames
  rw [open_] at below
  obtain ⟨eq, ordinary, frames_⟩ := below
  refine ⟨?_, ?_, frames_⟩
  · simp only [writtenBelow, sourceBelow] at eq
    simp only [written, Builder.closeArgument, sourceRead, Option.map_some, Option.getD_some,
      Owner.written_addArg, Arg.source, Arg.grouping, Arg.raw, ← String.append_assoc, eq]
  · rintro _ ⟨⟩
    exact Owner.isOrdinary_addArg ordinary _

theorem Kept.closeBrace (kept : b.Kept) (none_ : b.owner = none) {offset : Nat}
    (closed : b.closeBrace offset = .ok c) : c.Kept := by
  unfold Builder.closeBrace at closed
  split at closed
  next offset' before outer frames open_ =>
    cases closed
    have below := kept.frames
    rw [open_] at below
    refine kept_of_none rfl ?_ below.2
    have eq := kept.written_eq_of_none none_
    simp only [open_, writtenBelow, sourceBelow] at eq
    simp only [sourceOf_reverse_cons, source, ← String.append_assoc, eq]
  next open_ =>
    cases closed
    exact kept.closeArgument open_
  next => cases closed

theorem Kept.closeBracket (kept : b.Kept) (none_ : b.owner = none) : b.closeBracket.Kept := by
  unfold Builder.closeBracket
  split
  next open_ => exact kept.closeArgument open_
  next => exact kept.leaf none_ rfl

theorem Kept.closeEnvironment (kept : b.Kept) (none_ : b.owner = none) {name : String}
    {offset : Nat} (closed : (b.write (environmentMark "end" name)).closeEnvironment name offset =
      .ok c) : c.Kept := by
  unfold Builder.closeEnvironment at closed
  split at closed
  next opened offset' args outer frames open_ =>
    split at closed
    next same =>
      subst same
      cases closed
      have below := kept.frames
      rw [show b.frames = _ from open_] at below
      refine kept_of_none none_ ?_ below.2
      have eq := kept.written_eq_of_none none_
      rw [show b.frames = _ from open_] at eq
      simp only [writtenBelow, sourceBelow, Owner.written] at eq
      simp only [write, below.1.2, Bool.false_eq_true, if_false, sourceOf_reverse_cons,
        source_environment below.1, ← String.append_assoc, ← eq]
    next => cases closed
  next => cases closed

/-- A step keeps what it reads, when its lexeme is spelled as its token is written. -/
theorem Kept.step (kept : b.Kept) (spelled : l.spelling = l.token.written) (keeps : l.isKept)
    (raw : ∀ name body, l.token = .verbatim name body → name ∈ Token.verbatimNames)
    (stepped : b.step l = .ok c) : c.Kept := by
  have settled := kept.settle
  have none_ := settle_owner b
  have leaf {node : Node} (same : source node = l.token.written)
      (eq : .ok ((b.settle.write l.spelling).push node) = Except.ok (ε := Misplaced) c) :
      c.Kept := by
    rw [← Except.ok.inj eq, spelled]
    exact settled.leaf none_ same
  unfold Builder.step at stepped
  cases token : l.token with
  | text content =>
    simp only [token] at stepped leaf
    exact leaf rfl stepped
  | comment content =>
    simp only [token] at stepped leaf
    exact leaf rfl stepped
  | escape symbol =>
    simp only [token] at stepped leaf
    refine leaf ?_ stepped
    simp only [Lexeme.isKept, token, Bool.or_eq_true, Bool.not_eq_true', beq_iff_eq] at keeps
    rw [source, escapeText, Token.written]
    rcases keeps with visible | rfl
    · rw [if_neg (by simp [visible])]
    · rfl
  | accent mark base => simp [Lexeme.isKept, token] at keeps
  | math display content =>
    simp only [token] at stepped leaf
    exact leaf (by cases display <;> rfl) stepped
  | verbatim name body =>
    simp only [token] at stepped leaf
    exact leaf (source_ofVerbatim (raw name body token) body) stepped
  | command name =>
    simp only [token] at stepped
    cases stepped
    rw [spelled, token]
    exact settled.own none_ (by simp [Owner.written, Token.written, String.join]) trivial
  | beginEnv name =>
    simp only [token] at stepped
    cases stepped
    have ordinary : IsOrdinary name := by
      simpa [Lexeme.isKept, token, IsOrdinary] using keeps
    rw [spelled, token]
    exact settled.own none_ (by simp [Owner.written, Token.written, String.join]) ordinary
  | openBrace =>
    simp only [token] at stepped
    split at stepped
    next owner taker =>
      cases stepped
      exact kept.openArgument (Option.filter_eq_some_iff.mp taker).1 _ _
    next =>
      cases stepped
      exact settled.openGroup none_ _
  | openBracket =>
    simp only [token] at stepped leaf
    split at stepped
    next owner owned =>
      cases stepped
      exact kept.openArgument owned _ _
    next => exact leaf rfl stepped
  | closeBrace =>
    simp only [token] at stepped
    exact settled.closeBrace none_ stepped
  | closeBracket =>
    simp only [token] at stepped
    cases stepped
    exact settled.closeBracket none_
  | endEnv name =>
    simp only [token, spelled, Token.written] at stepped
    exact settled.closeEnvironment none_ stepped

theorem Kept.run {lexemes : List Lexeme} (kept : b.Kept)
    (spelled : ∀ l ∈ lexemes, l.spelling = l.token.written) (keeps : ∀ l ∈ lexemes, l.isKept)
    (raw : ∀ l ∈ lexemes, ∀ name body, l.token = .verbatim name body → name ∈ Token.verbatimNames)
    (run : lexemes.foldlM Builder.step b = .ok c) : c.Kept := by
  induction lexemes generalizing b with
  | nil =>
    cases run
    exact kept
  | cons l lexemes ih =>
    obtain ⟨d, first, others⟩ := foldlM_cons_eq_ok run
    rw [List.forall_mem_cons] at spelled keeps raw
    exact ih (kept.step spelled.1 keeps.1 raw.1 first) spelled.2 keeps.2 raw.2 others

end Builder

/-- Writing a tree gives the source back that it was read from, when the tree keeps the spelling of
each lexeme. -/
theorem sourceOf_parse {source : String} {lexemes : List Lexeme} {nodes : List Node}
    (cut : Token.tokenize source = .ok lexemes) (keeps : ∀ l ∈ lexemes, l.isKept)
    (parsed : parse source = .ok nodes) : sourceOf nodes = source := by
  have spelled : ∀ l ∈ lexemes, l.spelling = l.token.written := by
    intro l member
    have kept := keeps l member
    apply Token.spelling_eq_written cut member
    · intro mark base token
      simp [Lexeme.isKept, token] at kept
    · intro display content token
      simpa [Lexeme.isKept, token] using kept
  unfold parse at parsed
  simp only [cut, build, bind, Except.bind] at parsed
  cases run : lexemes.foldlM Builder.step .start with
  | error e =>
    rw [run] at parsed
    cases parsed
  | ok b =>
    have kept := Builder.kept_start.run spelled keeps
      (fun l member name body => Token.mem_verbatimNames cut member) run
    have delimiters : ∀ l ∈ lexemes, ∀ d, l.token.delimiter? = some d → l.spelling = .ofList [d] :=
      fun l member d => Token.spelling_delimiter cut member
    have read := Builder.sourceRead_foldlM delimiters run
    rw [Token.spellings_scan cut] at read
    simp only [run, Builder.finish] at parsed
    cases frames : b.settle.frames with
    | cons frame rest =>
      rw [frames] at parsed
      cases parsed
    | nil =>
      rw [frames] at parsed
      cases parsed
      have eq := kept.settle.written_eq_of_none (Builder.settle_owner b)
      rw [frames, Builder.writtenBelow, String.empty_append] at eq
      rw [← Builder.sourceRead_settle, Builder.sourceRead, frames, ← eq] at read
      apply String.toList_injective
      simpa [Builder.sourceRead, Builder.sourceBelow, Builder.start] using read

/-- A listing with an option, a group behind a command that takes none, brackets in three roles and
a comment, inside one another. -/
theorem sourceOf_parse_of_nested :
    let source := "\\item[\\emph\x7b$]$\x7d]\x7ba\\ b[c]\x7d% d\x7d\n" ++
      "\\begin\x7bcenter\x7d[t]\\begin\x7blstlisting\x7d[x]y]" ++
      "\\end\x7blstlisting\x7d\\end\x7bcenter\x7d"
    ∃ lexemes nodes, Token.tokenize source = .ok lexemes ∧ (∀ l ∈ lexemes, l.isKept) ∧
      parse source = .ok nodes ∧ sourceOf nodes = source := by
  intro source
  have tokens : (Token.tokenize source).toOption.any (·.all Lexeme.isKept) = true := by
    decide +kernel
  have tree : (parse source).toOption.isSome = true := by decide +kernel
  cases cut : Token.tokenize source with
  | error e =>
    rw [cut] at tokens
    cases tokens
  | ok lexemes =>
    rw [cut] at tokens
    have keeps : ∀ l ∈ lexemes, l.isKept := List.all_eq_true.mp tokens
    cases parsed : parse source with
    | error e =>
      rw [parsed] at tree
      cases tree
    | ok nodes => exact ⟨lexemes, nodes, rfl, keeps, rfl, sourceOf_parse cut keeps parsed⟩

end Node
end Quire
