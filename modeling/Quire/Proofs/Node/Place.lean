import Quire.Proofs.Token.Slice

/-! Places in a source. A builder remembers where things were opened for its complaints alone: what
lexemes are read as does not depend on where they stand. Main statement: `build_congr`. -/
namespace Quire.Node

def Owner.unplaced : Owner → Owner
  | command name args => command name args
  | environment name _ args => environment name 0 args

def Frame.unplaced : Frame → Frame
  | group _ before outer => group 0 before outer
  | argument grouping _ before owner outer => argument grouping 0 before owner.unplaced outer
  | environment name _ args outer => environment name 0 args outer

theorem Owner.takesBraces_unplaced (owner : Owner) :
    owner.unplaced.takesBraces = owner.takesBraces := by
  cases owner <;> rfl

theorem Owner.addArg_unplaced (owner : Owner) (arg : Arg) :
    (owner.addArg arg).unplaced = owner.unplaced.addArg arg := by
  cases owner <;> rfl

namespace Builder

def unplaced (b : Builder) : Builder :=
  ⟨b.raw, b.siblings, b.owner.map Owner.unplaced, b.frames.map Frame.unplaced⟩

theorem unplaced_settle (b : Builder) : b.settle.unplaced = b.unplaced.settle := by
  obtain ⟨raw, siblings, owner, frames⟩ := b
  match owner with
  | none => rfl
  | some (.command name args) => rfl
  | some (.environment name offset args) => rfl

theorem unplaced_closeBrace (b : Builder) (offset : Nat) :
    (b.closeBrace offset).toOption.map unplaced = (b.unplaced.closeBrace 0).toOption := by
  cases frames : b.frames with
  | nil => simp [closeBrace, frames, unplaced, Except.toOption]
  | cons frame rest =>
    cases frame with
    | group => simp [closeBrace, frames, unplaced, Except.toOption, Frame.unplaced]
    | environment => simp [closeBrace, frames, unplaced, Except.toOption, Frame.unplaced]
    | argument grouping =>
      cases grouping <;>
        simp [closeBrace, frames, unplaced, Except.toOption, Frame.unplaced, closeArgument,
          Owner.addArg_unplaced]

theorem unplaced_closeBracket (b : Builder) :
    b.closeBracket.unplaced = b.unplaced.closeBracket := by
  cases frames : b.frames with
  | nil => simp [closeBracket, frames, unplaced]
  | cons frame rest =>
    cases frame with
    | group => simp [closeBracket, frames, unplaced, Frame.unplaced]
    | environment => simp [closeBracket, frames, unplaced, Frame.unplaced]
    | argument grouping =>
      cases grouping <;>
        simp [closeBracket, frames, unplaced, Frame.unplaced, closeArgument, Owner.addArg_unplaced]

theorem unplaced_closeEnvironment (b : Builder) (name : String) (offset : Nat) :
    (b.closeEnvironment name offset).toOption.map unplaced =
      (b.unplaced.closeEnvironment name 0).toOption := by
  cases frames : b.frames with
  | nil => simp [closeEnvironment, frames, unplaced, Except.toOption]
  | cons frame rest =>
    cases frame with
    | group => simp [closeEnvironment, frames, unplaced, Except.toOption, Frame.unplaced]
    | argument => simp [closeEnvironment, frames, unplaced, Except.toOption, Frame.unplaced]
    | environment opened =>
      by_cases same : opened = name <;>
        simp [closeEnvironment, frames, unplaced, Except.toOption, Frame.unplaced, same]

theorem unplaced_step (b : Builder) (l : Lexeme) :
    (b.step l).toOption.map unplaced = (b.unplaced.step l.unplaced).toOption := by
  have settled := b.unplaced_settle
  have leaf (node : Node) :
      (Except.ok (ε := Misplaced) ((b.settle.write l.spelling).push node)).toOption.map unplaced =
        (Except.ok (ε := Misplaced) ((b.unplaced.settle.write l.spelling).push node)).toOption := by
    rw [← settled]
    rfl
  cases token : l.token with
  | text content => simpa only [step, Lexeme.unplaced, token] using leaf _
  | comment content => simpa only [step, Lexeme.unplaced, token] using leaf _
  | escape symbol => simpa only [step, Lexeme.unplaced, token] using leaf _
  | accent mark base => simpa only [step, Lexeme.unplaced, token] using leaf _
  | math display content => simpa only [step, Lexeme.unplaced, token] using leaf _
  | verbatim name body => simpa only [step, Lexeme.unplaced, token] using leaf _
  | command name =>
    simp only [step, Lexeme.unplaced, token, ← settled]
    rfl
  | beginEnv name =>
    simp only [step, Lexeme.unplaced, token, ← settled]
    rfl
  | openBrace =>
    simp only [step, Lexeme.unplaced, token, ← settled]
    cases owner : b.owner with
    | none =>
      simp only [unplaced, owner]
      rfl
    | some owner' =>
      by_cases braces : owner'.takesBraces
      · simp [unplaced, owner, Option.filter, Owner.takesBraces_unplaced, braces, Except.toOption,
          openArgument, Frame.unplaced]
      · simp [unplaced, owner, Option.filter, Owner.takesBraces_unplaced, braces, Except.toOption,
          openGroup, Frame.unplaced]
  | openBracket =>
    cases owner : b.owner with
    | none => simpa [step, Lexeme.unplaced, token, owner, unplaced] using leaf (.text "[")
    | some owner' =>
      simp [step, Lexeme.unplaced, token, unplaced, owner, Except.toOption, openArgument,
        Frame.unplaced]
  | closeBrace =>
    simp only [step, Lexeme.unplaced, token, ← settled]
    exact b.settle.unplaced_closeBrace _
  | closeBracket =>
    simp only [step, Lexeme.unplaced, token, ← settled]
    exact congrArg some b.settle.unplaced_closeBracket
  | endEnv name =>
    simp only [step, Lexeme.unplaced, token, ← settled]
    exact (b.settle.write l.spelling).unplaced_closeEnvironment name _

theorem unplaced_foldlM (b : Builder) (lexemes : List Lexeme) :
    (lexemes.foldlM step b).toOption.map unplaced =
      ((lexemes.map Lexeme.unplaced).foldlM step b.unplaced).toOption := by
  induction lexemes generalizing b with
  | nil => rfl
  | cons l lexemes ih =>
    rw [List.map_cons, List.foldlM_cons, List.foldlM_cons]
    have first := b.unplaced_step l
    cases one : b.step l with
    | error e =>
      rw [one] at first
      cases other : b.unplaced.step l.unplaced with
      | error e => rfl
      | ok c =>
        rw [other] at first
        cases first
    | ok c =>
      rw [one] at first
      cases other : b.unplaced.step l.unplaced with
      | error e =>
        rw [other] at first
        cases first
      | ok c' =>
        rw [other] at first
        obtain rfl : c.unplaced = c' := Option.some.inj first
        exact ih c

theorem unplaced_finish (b : Builder) : b.unplaced.finish.toOption = b.finish.toOption := by
  rw [finish, finish, ← unplaced_settle]
  cases frames : b.settle.frames <;> simp [unplaced, frames, Except.toOption]

end Builder

/-- Whether and as what lexemes are read does not depend on where they stand. -/
theorem build_congr {a b : List Lexeme} (same : a.map Lexeme.unplaced = b.map Lexeme.unplaced) :
    (build a).toOption = (build b).toOption := by
  have both (lexemes : List Lexeme) : (build lexemes).toOption =
      ((lexemes.map Lexeme.unplaced).foldlM Builder.step .start).toOption.bind
        (·.finish.toOption) := by
    rw [build]
    have fold := Builder.unplaced_foldlM .start lexemes
    rw [show Builder.start.unplaced = .start from rfl] at fold
    rw [← fold]
    cases lexemes.foldlM Builder.step .start with
    | error e => rfl
    | ok c => exact c.unplaced_finish.symm
  rw [both, both, same]

end Quire.Node
