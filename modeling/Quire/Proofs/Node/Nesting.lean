import Quire.Node.Bound

/-! Which sources are read as nodes. The tokens are scanned from left to right with a stack of what
is open, and nothing else decides: `parse_ok_iff`. -/
namespace Quire.Node

/-- Something open. A group remembers whose argument it is: none for a group of its own, otherwise
whether the owner takes arguments in braces. -/
inductive Opening
  | brace (owner : Option Bool)
  | bracket (owner : Bool)
  | environment (name : String)
deriving DecidableEq

/-- The innermost opening comes first. The owner is set only directly behind a command, behind the
opening of an environment, and behind the close of an argument of one of these. -/
structure Nesting where
  stack : List Opening
  owner : Option Bool
deriving DecidableEq

namespace Nesting

def step (s : Nesting) : Token → Option Nesting
  | .openBrace => some ⟨.brace (s.owner.filter id) :: s.stack, none⟩
  | .openBracket =>
    match s.owner with
    | some braces => some ⟨.bracket braces :: s.stack, none⟩
    | none => some ⟨s.stack, none⟩
  | .closeBrace =>
    match s.stack with
    | .brace owner :: stack => some ⟨stack, owner⟩
    | _ => none
  | .closeBracket =>
    match s.stack with
    | .bracket braces :: stack => some ⟨stack, some braces⟩
    | _ => some ⟨s.stack, none⟩
  | .command name => some ⟨s.stack, some (!braceless.contains name)⟩
  | .beginEnv name => some ⟨.environment name :: s.stack, some true⟩
  | .endEnv name =>
    match s.stack with
    | .environment opened :: stack => if opened = name then some ⟨stack, none⟩ else none
    | _ => none
  | .text _ | .escape _ | .accent .. | .comment _ | .verbatim .. | .math .. => some ⟨s.stack, none⟩

def accepts (tokens : List Token) : Bool :=
  (tokens.foldlM step ⟨[], none⟩).any (·.stack.isEmpty)

end Nesting

def Owner.openings : Owner → List Opening
  | command .. => []
  | environment name .. => [.environment name]

def Frame.openings : Frame → List Opening
  | group .. => [.brace none]
  | argument .required _ _ owner _ => .brace (some owner.takesBraces) :: owner.openings
  | argument .optional _ _ owner _ => .bracket owner.takesBraces :: owner.openings
  | environment name .. => [.environment name]

namespace Builder

def nesting (b : Builder) : Nesting :=
  ⟨(b.owner.map Owner.openings).getD [] ++ b.frames.flatMap Frame.openings,
    b.owner.map Owner.takesBraces⟩

theorem nesting_settle (b : Builder) : b.settle.nesting = { b.nesting with owner := none } := by
  obtain ⟨raw, siblings, owner, frames⟩ := b
  match owner with
  | none => rfl
  | some (.command name args) => rfl
  | some (.environment name offset args) => rfl

/-- A builder is settled before anything but an argument is opened or closed. -/
theorem nesting_settled (b : Builder) (none_ : b.owner = none) :
    b.nesting = ⟨b.frames.flatMap Frame.openings, none⟩ := by
  simp [nesting, none_]

theorem openings_settle (b : Builder) :
    b.settle.frames.flatMap Frame.openings = b.nesting.stack := by
  have := b.nesting_settle
  rw [nesting_settled _ b.settle_owner] at this
  exact congrArg Nesting.stack this

theorem nesting_push (b : Builder) (spelling : String) (node : Node) :
    ((b.settle.write spelling).push node).nesting = { b.nesting with owner := none } :=
  b.nesting_settle

theorem nesting_closeArgument (b : Builder) (grouping : Grouping) (before : String) (owner : Owner)
    (outer : List Node) (frames : List Frame) :
    (b.closeArgument grouping before owner outer frames).nesting =
      ⟨owner.openings ++ frames.flatMap Frame.openings, some owner.takesBraces⟩ := by
  cases owner <;> rfl

theorem nesting_closeBrace (b : Builder) (none_ : b.owner = none) (offset : Nat) :
    (match b.nesting.stack with
      | .brace owner :: stack => some ⟨stack, owner⟩
      | _ => none) = (b.closeBrace offset).toOption.map nesting := by
  rw [b.nesting_settled none_]
  cases frames : b.frames with
  | nil => simp [closeBrace, frames, Except.toOption]
  | cons frame rest =>
    cases frame with
    | group => simp [closeBrace, frames, Except.toOption, Frame.openings, nesting]
    | argument grouping at_ before owner outer =>
      cases grouping with
      | required =>
        simp [closeBrace, frames, Except.toOption, Frame.openings, nesting_closeArgument]
      | optional => simp [closeBrace, frames, Except.toOption, Frame.openings]
    | environment => simp [closeBrace, frames, Except.toOption, Frame.openings]

theorem nesting_closeBracket (b : Builder) (none_ : b.owner = none) :
    (match b.nesting.stack with
      | .bracket braces :: stack => some ⟨stack, some braces⟩
      | _ => some ⟨b.nesting.stack, none⟩) = some b.closeBracket.nesting := by
  rw [b.nesting_settled none_]
  cases frames : b.frames with
  | nil => simp [closeBracket, frames, nesting, none_]
  | cons frame rest =>
    cases frame with
    | group => simp [closeBracket, frames, Frame.openings, nesting, none_]
    | argument grouping at_ before owner outer =>
      cases grouping with
      | required => simp [closeBracket, frames, Frame.openings, nesting, none_]
      | optional => simp [closeBracket, frames, Frame.openings, nesting_closeArgument]
    | environment => simp [closeBracket, frames, Frame.openings, nesting, none_]

theorem nesting_closeEnvironment (b : Builder) (none_ : b.owner = none) (name : String)
    (offset : Nat) :
    (match b.nesting.stack with
      | .environment opened :: stack => if opened = name then some ⟨stack, none⟩ else none
      | _ => none) = (b.closeEnvironment name offset).toOption.map nesting := by
  rw [b.nesting_settled none_]
  cases frames : b.frames with
  | nil => simp [closeEnvironment, frames, Except.toOption]
  | cons frame rest =>
    cases frame with
    | group => simp [closeEnvironment, frames, Except.toOption, Frame.openings]
    | argument grouping at_ before owner outer =>
      cases grouping <;> simp [closeEnvironment, frames, Except.toOption, Frame.openings]
    | environment opened at_ args outer =>
      by_cases same : opened = name <;>
        simp [closeEnvironment, frames, Except.toOption, Frame.openings, same, nesting, none_]

theorem nesting_step (b : Builder) (l : Lexeme) :
    b.nesting.step l.token = (b.step l).toOption.map nesting := by
  have settled := b.settle_owner
  have leaf (node : Node) : some (Nesting.mk b.nesting.stack none) =
      (Except.ok (ε := Misplaced) ((b.settle.write l.spelling).push node)).toOption.map nesting := by
    simp [Except.toOption, nesting_push]
  cases token : l.token with
  | text content => simpa only [Builder.step, Nesting.step, token] using leaf _
  | comment content => simpa only [Builder.step, Nesting.step, token] using leaf _
  | escape symbol => simpa only [Builder.step, Nesting.step, token] using leaf _
  | accent mark base => simpa only [Builder.step, Nesting.step, token] using leaf _
  | math display content => simpa only [Builder.step, Nesting.step, token] using leaf _
  | verbatim name body => simpa only [Builder.step, Nesting.step, token] using leaf _
  | command name | beginEnv name =>
    simp [Builder.step, Nesting.step, token, Except.toOption, nesting, write, Owner.openings,
      Owner.takesBraces, openings_settle]
  | openBrace =>
    simp only [Builder.step, Nesting.step, token]
    cases owner : b.owner with
    | none =>
      rw [show b.settle = b by simp [settle, owner]]
      simp [nesting, owner, Except.toOption, openGroup, Frame.openings]
    | some owner' =>
      by_cases braces : owner'.takesBraces
      · simp [nesting, owner, braces, Except.toOption, openArgument, Frame.openings, Option.filter]
      · have group : (b.settle.openGroup l.offset).nesting =
            ⟨.brace none :: b.settle.frames.flatMap Frame.openings, none⟩ := rfl
        rw [openings_settle] at group
        simp only [nesting, owner] at group
        simp [nesting, owner, braces, Except.toOption, group, Option.filter]
  | openBracket =>
    simp only [Builder.step, Nesting.step, token]
    cases owner : b.owner with
    | none => simpa [nesting, owner] using leaf (.text "[")
    | some owner' =>
      simp [nesting, owner, Except.toOption, openArgument, Frame.openings]
  | closeBrace =>
    have := b.settle.nesting_closeBrace settled l.offset
    rw [nesting_settle] at this
    simpa only [Builder.step, Nesting.step, token] using this
  | closeBracket =>
    have := b.settle.nesting_closeBracket settled
    rw [nesting_settle] at this
    simpa only [Builder.step, Nesting.step, token, Except.toOption, Option.map_some] using this
  | endEnv name =>
    have := (b.settle.write l.spelling).nesting_closeEnvironment settled name l.offset
    rw [show (b.settle.write l.spelling).nesting = b.settle.nesting from rfl, nesting_settle] at this
    simpa only [Builder.step, Nesting.step, token] using this

theorem nesting_foldlM (b : Builder) (lexemes : List Lexeme) :
    (lexemes.map (·.token)).foldlM Nesting.step b.nesting =
      (lexemes.foldlM Builder.step b).toOption.map nesting := by
  induction lexemes generalizing b with
  | nil => rfl
  | cons l lexemes ih =>
    rw [List.map_cons, List.foldlM_cons, List.foldlM_cons, nesting_step]
    cases first : b.step l with
    | error e => rfl
    | ok c => exact ih c

/-- The nodes can be had exactly where nothing is open. -/
theorem isOk_finish (b : Builder) : b.finish.isOk = b.nesting.stack.isEmpty := by
  rw [← openings_settle, finish]
  cases frames : b.settle.frames with
  | nil => rfl
  | cons frame rest =>
    have open_ : frame.openings ≠ [] := by
      cases frame with
      | argument grouping => cases grouping <;> simp [Frame.openings]
      | group | environment => simp [Frame.openings]
    simp [Except.isOk, Except.toBool, open_]

theorem isOk_build (lexemes : List Lexeme) :
    (build lexemes).isOk = Nesting.accepts (lexemes.map (·.token)) := by
  have fold := nesting_foldlM start lexemes
  rw [show start.nesting = ⟨[], none⟩ from rfl] at fold
  rw [Nesting.accepts, fold, build]
  cases lexemes.foldlM Builder.step start with
  | error e => rfl
  | ok b => exact isOk_finish b

end Builder

/-- A source is read as nodes exactly when it is cut into lexemes and the scan of their tokens
gets through. -/
theorem parse_ok_iff (source : String) :
    (∃ nodes, parse source = .ok nodes) ↔
      ∃ lexemes, Token.tokenize source = .ok lexemes ∧
        Nesting.accepts (lexemes.map (·.token)) = true := by
  rw [parse]
  cases tokenized : Token.tokenize source with
  | error e => simp [bind, Except.bind]
  | ok lexemes =>
    simp only [bind, Except.bind, ← Builder.isOk_build]
    cases built : build lexemes <;> simp [Except.isOk, Except.toBool, built]

end Quire.Node
