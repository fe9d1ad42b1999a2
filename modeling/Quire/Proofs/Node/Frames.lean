import Quire.Proofs.Token.Slice

/-! What is read above the frames of an open group. No frame below is looked at before the group is
closed, so its text is read as it would be read on its own, and that text is all that has been read
since. Main statements: `Inside.step` and `sourceRead_step`. -/
namespace Quire.Node

def Frame.isDelimited : Frame → Bool
  | environment .. => false
  | group .. | argument .. => true

namespace Builder

def onto (base : List Frame) (b : Builder) : Builder := { b with frames := b.frames ++ base }

variable {base : List Frame} {b c : Builder} {l : Lexeme}

theorem onto_settle (base : List Frame) (b : Builder) :
    (b.onto base).settle = b.settle.onto base := by
  obtain ⟨raw, siblings, owner, frames⟩ := b
  match owner with
  | none => rfl
  | some (.command name args) => rfl
  | some (.environment name offset args) => rfl

/-- A step above more frames is the step without them, or it closes the innermost of them. -/
def Above (base : List Frame) (own : Except Misplaced Builder) (c : Builder) : Prop :=
  (∃ d, own = .ok d ∧ c = d.onto base) ∨ c.frames.length < base.length

theorem onto_closeBrace {offset : Nat} (closed : (b.onto base).closeBrace offset = .ok c) :
    Above base (b.closeBrace offset) c := by
  obtain ⟨raw, siblings, owner, frames⟩ := b
  cases frames with
  | nil =>
    right
    simp only [closeBrace, onto, List.nil_append] at closed
    split at closed <;> cases closed <;> simp [closeArgument]
  | cons frame rest =>
    cases frame with
    | group => exact .inl ⟨_, rfl, (Except.ok.inj closed).symm⟩
    | environment => cases closed
    | argument grouping =>
      cases grouping with
      | required => exact .inl ⟨_, rfl, (Except.ok.inj closed).symm⟩
      | optional => cases closed

theorem onto_closeBracket : Above base (.ok b.closeBracket) (b.onto base).closeBracket := by
  obtain ⟨raw, siblings, owner, frames⟩ := b
  cases frames with
  | nil =>
    cases base with
    | nil => exact .inl ⟨_, rfl, rfl⟩
    | cons frame rest =>
      cases frame with
      | group | environment => exact .inl ⟨_, rfl, rfl⟩
      | argument grouping =>
        cases grouping with
        | required => exact .inl ⟨_, rfl, rfl⟩
        | optional => exact .inr (Nat.lt_succ_self _)
  | cons frame rest =>
    cases frame with
    | group | environment => exact .inl ⟨_, rfl, rfl⟩
    | argument grouping => cases grouping <;> exact .inl ⟨_, rfl, rfl⟩

theorem onto_closeEnvironment {name : String} {offset : Nat}
    (closed : (b.onto base).closeEnvironment name offset = .ok c) :
    Above base (b.closeEnvironment name offset) c := by
  obtain ⟨raw, siblings, owner, frames⟩ := b
  cases frames with
  | nil =>
    right
    simp only [closeEnvironment, onto, List.nil_append] at closed
    repeat' split at closed
    all_goals
      cases closed
      try simp
  | cons frame rest =>
    cases frame with
    | group | argument => cases closed
    | environment opened at_ args outer =>
      simp only [closeEnvironment, onto, List.cons_append] at closed ⊢
      split at closed
      next same => exact .inl ⟨_, if_pos same, (Except.ok.inj closed).symm⟩
      next => cases closed

theorem onto_step (stepped : (b.onto base).step l = .ok c) : Above base (b.step l) c := by
  have settled := onto_settle base b
  have leaf {node : Node} (eq : .ok (((b.settle.onto base).write l.spelling).push node) =
      Except.ok (ε := Misplaced) c) :
      Above base (.ok ((b.settle.write l.spelling).push node)) c :=
    .inl ⟨_, rfl, (Except.ok.inj eq).symm⟩
  unfold step at stepped ⊢
  simp only [settled] at stepped
  cases token : l.token with
  | text | comment | escape | accent | math | verbatim =>
    simp only [token] at stepped ⊢
    exact leaf stepped
  | command | beginEnv =>
    simp only [token] at stepped ⊢
    exact .inl ⟨_, rfl, (Except.ok.inj stepped).symm⟩
  | openBrace =>
    simp only [token] at stepped ⊢
    rw [show (b.onto base).owner = b.owner from rfl] at stepped
    cases taker : b.owner.filter (·.takesBraces) with
    | none | some =>
      rw [taker] at stepped
      exact .inl ⟨_, rfl, (Except.ok.inj stepped).symm⟩
  | openBracket =>
    simp only [token] at stepped ⊢
    rw [show (b.onto base).owner = b.owner from rfl] at stepped
    cases owner : b.owner with
    | none =>
      rw [owner] at stepped
      exact leaf stepped
    | some =>
      rw [owner] at stepped
      exact .inl ⟨_, rfl, (Except.ok.inj stepped).symm⟩
  | closeBrace =>
    simp only [token] at stepped ⊢
    exact onto_closeBrace stepped
  | closeBracket =>
    simp only [token] at stepped ⊢
    rw [← Except.ok.inj stepped]
    exact onto_closeBracket
  | endEnv =>
    simp only [token] at stepped ⊢
    exact onto_closeEnvironment stepped

theorem frames_closeBrace {offset : Nat} (closed : b.closeBrace offset = .ok c) :
    c.frames <:+ b.frames := by
  unfold closeBrace at closed
  split at closed
  next eq =>
    cases closed
    exact eq ▸ List.suffix_cons _ _
  next eq =>
    cases closed
    exact eq ▸ List.suffix_cons _ _
  next => cases closed

theorem frames_closeBracket : b.closeBracket.frames <:+ b.frames := by
  unfold closeBracket
  split
  next eq => exact eq ▸ List.suffix_cons _ _
  next => exact List.suffix_rfl

theorem frames_closeEnvironment {name : String} {offset : Nat}
    (closed : b.closeEnvironment name offset = .ok c) : c.frames <:+ b.frames := by
  unfold closeEnvironment at closed
  split at closed
  next eq =>
    split at closed <;> cases closed
    exact eq ▸ List.suffix_cons _ _
  next => cases closed

theorem frames_settle (b : Builder) : b.frames <:+ b.settle.frames := by
  obtain ⟨raw, siblings, owner, frames⟩ := b
  match owner with
  | none => exact List.suffix_rfl
  | some (.command name args) => exact List.suffix_rfl
  | some (.environment name offset args) => exact List.suffix_cons _ _

/-- Of the frames behind a step all were there before it, but for one that is new and starts
anew. -/
theorem frames_step (stepped : b.step l = .ok c) :
    c.frames <:+ b.settle.frames ∨
      ∃ frame below, c = ⟨"", [], none, frame :: below⟩ ∧ below <:+ b.settle.frames := by
  unfold step at stepped
  cases token : l.token with
  | text | comment | escape | accent | math | verbatim | command | beginEnv =>
    simp only [token] at stepped
    cases stepped
    exact .inl List.suffix_rfl
  | openBrace =>
    simp only [token] at stepped
    split at stepped
    · cases stepped
      exact .inr ⟨_, _, rfl, b.frames_settle⟩
    · cases stepped
      exact .inr ⟨_, _, rfl, List.suffix_rfl⟩
  | openBracket =>
    simp only [token] at stepped
    split at stepped
    · cases stepped
      exact .inr ⟨_, _, rfl, b.frames_settle⟩
    · cases stepped
      exact .inl List.suffix_rfl
  | closeBrace =>
    simp only [token] at stepped
    exact .inl (frames_closeBrace stepped)
  | closeBracket =>
    simp only [token] at stepped
    cases stepped
    exact .inl frames_closeBracket
  | endEnv =>
    simp only [token] at stepped
    have old : c.frames <:+ (b.settle.write l.spelling).frames := frames_closeEnvironment stepped
    exact .inl old

/-- Where a group is open, it is open before its builder settles. -/
theorem suffix_of_settle (delimited : base.head?.any Frame.isDelimited = true)
    (h : base <:+ b.settle.frames) : base <:+ b.frames := by
  obtain ⟨raw, siblings, owner, frames⟩ := b
  match owner with
  | none => exact h
  | some (.command name args) => exact h
  | some (.environment name offset args) =>
    rcases List.suffix_cons_iff.mp h with rfl | below
    · cases delimited
    · exact below

/-- What is read above the frames of an open group is what some last lexemes are read as from the
start. -/
def Inside (done : List Lexeme) (b : Builder) : Prop :=
  ∀ top base, b.frames = top ++ base → base.head?.any Frame.isDelimited = true →
    ∃ inner, inner <:+ done ∧ inner.foldlM step start = .ok { b with frames := top }

theorem inside_start : Inside [] start := by
  intro top base eq delimited
  obtain ⟨-, rfl⟩ := List.append_eq_nil_iff.mp eq.symm
  cases delimited

theorem Inside.step {done : List Lexeme} (inside : Inside done b) (stepped : b.step l = .ok c) :
    Inside (done ++ [l]) c := by
  intro top base eq delimited
  have before : base <:+ b.frames ∨ top = [] ∧ c = ⟨"", [], none, base⟩ := by
    have isSuffix : base <:+ c.frames := eq ▸ List.suffix_append _ _
    rcases frames_step stepped with old | ⟨frame, below, rfl, old⟩
    · exact .inl (suffix_of_settle delimited (isSuffix.trans old))
    · rcases List.suffix_cons_iff.mp isSuffix with rfl | isSuffix
      · exact .inr ⟨by simpa using eq, rfl⟩
      · exact .inl (suffix_of_settle delimited (isSuffix.trans old))
  rcases before with ⟨top', eq'⟩ | ⟨rfl, rfl⟩
  · obtain ⟨inner, isSuffix, run⟩ := inside top' base eq'.symm delimited
    have split_ : b = ({ b with frames := top' } : Builder).onto base := by
      simp only [onto, eq']
    rw [split_] at stepped
    rcases onto_step stepped with ⟨d, own, rfl⟩ | shorter
    · refine ⟨inner ++ [l], ?_, ?_⟩
      · obtain ⟨front, rfl⟩ := isSuffix
        exact ⟨front, by simp⟩
      · obtain rfl : d.frames = top := List.append_cancel_right eq
        simp [List.foldlM_append, run, bind, Except.bind, own, onto, pure, Except.pure]
    · rw [eq, List.length_append] at shorter
      omega
  · exact ⟨[], List.nil_suffix, rfl⟩

def sourceBelow : List Frame → String
  | [] => ""
  | .group _ before _ :: frames => sourceBelow frames ++ before ++ "\x7b"
  | .argument grouping _ before _ _ :: frames =>
    sourceBelow frames ++ before ++ (Arg.delimiters grouping).1
  | .environment .. :: frames => sourceBelow frames

def sourceRead (b : Builder) : String := sourceBelow b.frames ++ b.raw

theorem sourceRead_settle (b : Builder) : b.settle.sourceRead = b.sourceRead := by
  obtain ⟨raw, siblings, owner, frames⟩ := b
  match owner with
  | none => rfl
  | some (.command name args) => rfl
  | some (.environment name offset args) => rfl

theorem sourceRead_write (b : Builder) (spelling : String) :
    (b.settle.write spelling).sourceRead = b.sourceRead ++ spelling := by
  rw [← sourceRead_settle b]
  simp only [sourceRead, write, String.append_assoc]

theorem sourceRead_closeBrace {offset : Nat} (closed : b.closeBrace offset = .ok c) :
    c.sourceRead = b.sourceRead ++ "\x7d" := by
  unfold closeBrace at closed
  split at closed
  next eq =>
    cases closed
    simp only [sourceRead, eq, sourceBelow, String.append_assoc]
  next eq =>
    cases closed
    simp only [sourceRead, eq, sourceBelow, closeArgument, Arg.source, Arg.delimiters, Arg.grouping,
      Arg.raw, String.append_assoc]
  next => cases closed

theorem sourceRead_closeBracket (b : Builder) : b.closeBracket.sourceRead = b.sourceRead ++ "]" := by
  unfold closeBracket
  split
  next eq =>
    simp only [sourceRead, eq, sourceBelow, closeArgument, Arg.source, Arg.delimiters, Arg.grouping,
      Arg.raw, String.append_assoc]
  next => simp only [sourceRead, String.append_assoc]

theorem sourceRead_closeEnvironment {name : String} {offset : Nat}
    (closed : b.closeEnvironment name offset = .ok c) : c.sourceRead = b.sourceRead := by
  unfold closeEnvironment at closed
  split at closed
  next eq =>
    split at closed <;> cases closed
    simp only [sourceRead, eq, sourceBelow]
  next => cases closed

/-- A step adds the spelling of its lexeme to what has been read. -/
theorem sourceRead_step (spelled : ∀ d, l.token.delimiter? = some d → l.spelling = .ofList [d])
    (stepped : b.step l = .ok c) : c.sourceRead = b.sourceRead ++ l.spelling := by
  have leaf {node : Node} (eq : .ok ((b.settle.write l.spelling).push node) =
      Except.ok (ε := Misplaced) c) : c.sourceRead = b.sourceRead ++ l.spelling := by
    rw [← Except.ok.inj eq]
    exact b.sourceRead_write _
  unfold step at stepped
  cases token : l.token with
  | text | comment | escape | accent | math | verbatim =>
    simp only [token] at stepped
    exact leaf stepped
  | command | beginEnv =>
    simp only [token] at stepped
    rw [← Except.ok.inj stepped]
    exact b.sourceRead_write _
  | openBrace =>
    simp only [token] at stepped
    rw [spelled '\x7b' (by rw [token]; rfl)]
    split at stepped
    · cases stepped
      simp only [sourceRead, openArgument, sourceBelow, Arg.delimiters, String.append_assoc,
        String.append_empty]
    · cases stepped
      rw [← sourceRead_settle b]
      simp only [sourceRead, openGroup, sourceBelow, String.append_assoc, String.append_empty]
  | openBracket =>
    simp only [token] at stepped
    split at stepped
    · cases stepped
      rw [spelled '[' (by rw [token]; rfl)]
      simp only [sourceRead, openArgument, sourceBelow, Arg.delimiters, String.append_assoc,
        String.append_empty]
    · exact leaf stepped
  | closeBrace =>
    simp only [token] at stepped
    rw [sourceRead_closeBrace stepped, sourceRead_settle, spelled '\x7d' (by rw [token]; rfl)]
  | closeBracket =>
    simp only [token] at stepped
    cases stepped
    rw [sourceRead_closeBracket, sourceRead_settle, spelled ']' (by rw [token]; rfl)]
  | endEnv =>
    simp only [token] at stepped
    rw [sourceRead_closeEnvironment stepped, sourceRead_write]

/-- A run reads the spellings of its lexemes. -/
theorem sourceRead_foldlM {lexemes : List Lexeme}
    (spelled : ∀ l ∈ lexemes, ∀ d, l.token.delimiter? = some d → l.spelling = .ofList [d])
    (run : lexemes.foldlM step b = .ok c) :
    c.sourceRead.toList = b.sourceRead.toList ++ lexemes.flatMap (·.spelling.toList) := by
  induction lexemes generalizing b with
  | nil =>
    cases run
    simp
  | cons l lexemes ih =>
    obtain ⟨d, first, others⟩ := foldlM_cons_eq_ok run
    rw [ih (fun m member => spelled m (by simp [member])) others,
      sourceRead_step (spelled l (by simp)) first]
    simp

end Builder

end Quire.Node
