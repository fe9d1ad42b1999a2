import Mathlib
import Quire.Proofs.Node.Frames
import Quire.Proofs.Node.Place

/-! The source of an argument and its nodes. An argument is read from its own source as it was read
within the whole source, at any depth. Only the option cut off a listing's body is kept unread.
Main statement: `parse_raw`. -/
namespace Quire

open Node in
/-- An argument of one of the nodes, or of a node that these hold in an argument or as a child. The
option cut off a listing's body is none. -/
inductive Arg.Within (arg : Arg) : List Node → Prop
  | own {nodes : List Node} {node : Node} (member : node ∈ nodes) (arg_mem : arg ∈ node.args)
      (read : ∀ body, node ≠ ofVerbatim "lstlisting" body) : Within arg nodes
  | inArg {nodes : List Node} {node : Node} {outer : Arg} (member : node ∈ nodes)
      (outer_mem : outer ∈ node.args) (within : Within arg outer.nodes) : Within arg nodes
  | inChildren {nodes : List Node} {node : Node} (member : node ∈ nodes)
      (within : Within arg node.children) : Within arg nodes

namespace Node

/-- Every argument in the nodes is read from its source as it stands there. -/
def Reread (nodes : List Node) : Prop :=
  ∀ arg : Arg, arg.Within nodes → parse arg.raw = .ok arg.nodes

structure RereadArg (arg : Arg) : Prop where
  own : parse arg.raw = .ok arg.nodes
  inside : Reread arg.nodes

theorem within_iff {arg : Arg} {nodes : List Node} :
    arg.Within nodes ↔ ∃ node ∈ nodes, arg.Within [node] := by
  constructor
  · intro within
    cases within with
    | own member arg_mem read => exact ⟨_, member, .own (by simp) arg_mem read⟩
    | inArg member outer_mem within => exact ⟨_, member, .inArg (by simp) outer_mem within⟩
    | inChildren member within => exact ⟨_, member, .inChildren (by simp) within⟩
  · rintro ⟨node, member, within⟩
    cases within with
    | own member' arg_mem read =>
      obtain rfl := List.mem_singleton.mp member'
      exact .own member arg_mem read
    | inArg member' outer_mem within =>
      obtain rfl := List.mem_singleton.mp member'
      exact .inArg member outer_mem within
    | inChildren member' within =>
      obtain rfl := List.mem_singleton.mp member'
      exact .inChildren member within

theorem reread_iff {nodes : List Node} : Reread nodes ↔ ∀ node ∈ nodes, Reread [node] := by
  constructor
  · intro reread node member arg within
    exact reread arg (within_iff.mpr ⟨node, member, within⟩)
  · intro each arg within
    obtain ⟨node, member, within⟩ := within_iff.mp within
    exact each node member arg within

theorem reread_node {node : Node} (args : ∀ arg ∈ node.args, RereadArg arg)
    (children : Reread node.children) : Reread [node] := by
  intro arg within
  cases within with
  | own member arg_mem =>
    obtain rfl := List.mem_singleton.mp member
    exact (args arg arg_mem).own
  | inArg member outer_mem within =>
    obtain rfl := List.mem_singleton.mp member
    exact (args _ outer_mem).inside arg within
  | inChildren member within =>
    obtain rfl := List.mem_singleton.mp member
    exact children arg within

theorem reread_nil : Reread [] := by
  intro arg within
  obtain ⟨node, member, -⟩ := within_iff.mp within
  cases member

theorem reread_cons {node : Node} {nodes : List Node} :
    Reread (node :: nodes) ↔ Reread [node] ∧ Reread nodes := by
  rw [reread_iff, List.forall_mem_cons, ← reread_iff]

theorem reread_text (content : String) : Reread [.text content] :=
  reread_node (by simp [args]) reread_nil

theorem reread_math (display : Bool) (content : String) : Reread [.math display content] :=
  reread_node (by simp [args]) reread_nil

theorem reread_reverse {nodes : List Node} : Reread nodes.reverse ↔ Reread nodes := by
  rw [reread_iff, reread_iff]
  simp only [List.mem_reverse]

/-- A raw environment has no argument, or it is a listing and has the option of its body. -/
theorem ofVerbatim_eq (name body : String) :
    ofVerbatim name body = .environment name [] [.text body] ∨
      name = "lstlisting" ∧ ∃ option code, ofVerbatim name body =
        .environment name [.mk .optional [.text option] option] [.text code] := by
  unfold ofVerbatim
  split
  next =>
    split
    next found =>
      split at found
      next listing => exact .inr ⟨listing, _, _, rfl⟩
      next => cases found
    next => exact .inl rfl
  next => exact .inl rfl

/-- No argument of a raw environment counts: it has none, or a listing's option. -/
theorem reread_ofVerbatim (name body : String) : Reread [ofVerbatim name body] := by
  rcases ofVerbatim_eq name body with eq | ⟨rfl, option, code, eq⟩
  · rw [eq]
    exact reread_node (by simp [args]) (reread_text body)
  · intro arg within
    cases within with
    | own member _ read =>
      exact absurd (List.mem_singleton.mp member) (read body)
    | inArg member outer_mem within =>
      obtain rfl := List.mem_singleton.mp member
      rw [eq] at outer_mem
      obtain rfl := List.mem_singleton.mp outer_mem
      exact reread_text _ arg within
    | inChildren member within =>
      obtain rfl := List.mem_singleton.mp member
      rw [eq] at within
      exact reread_text _ arg within

theorem ofVerbatim_ne_command {name body command : String} {args : List Arg} :
    ofVerbatim name body ≠ .command command args := by
  rcases ofVerbatim_eq name body with eq | ⟨-, option, code, eq⟩ <;> rw [eq] <;> rintro ⟨⟩

/-- The arguments of a command are read whatever its name. -/
theorem rereadArg_of_command {name : String} {args : List Arg} (reread : Reread [.command name args]) :
    ∀ arg ∈ args, RereadArg arg := by
  intro arg member
  constructor
  · refine reread arg (.own (List.mem_singleton.mpr rfl) member fun body eq => ?_)
    exact ofVerbatim_ne_command eq.symm
  · intro inner within
    exact reread inner (.inArg (List.mem_singleton.mpr rfl) member within)

theorem reread_splitItems {children : List Node} (reread : Reread children) :
    Reread (splitItems children).1 ∧ Reread (splitItems children).2 := by
  induction children with
  | nil => exact ⟨reread_nil, reread_nil⟩
  | cons node rest ih =>
    obtain ⟨first, others⟩ := reread_cons.mp reread
    obtain ⟨lead, items⟩ := ih others
    simp only [splitItems]
    split
    next name args =>
      split
      · refine ⟨reread_nil, reread_cons.mpr ⟨?_, items⟩⟩
        exact reread_node (rereadArg_of_command first) lead
      · exact ⟨reread_cons.mpr ⟨first, lead⟩, items⟩
    next => exact ⟨reread_cons.mpr ⟨first, lead⟩, items⟩

theorem reread_groupItems {children : List Node} (reread : Reread children) :
    Reread (groupItems children) := by
  obtain ⟨lead, items⟩ := reread_splitItems reread
  rw [reread_iff] at lead items ⊢
  intro node member
  rcases List.mem_append.mp member with before | item
  · exact lead node (List.mem_filter.mp before).1
  · exact items node item

/-- The same of what a frame keeps. -/
def Frame.Reread : Frame → Prop
  | group _ _ outer => Node.Reread outer
  | argument _ _ _ owner outer => (∀ arg ∈ owner.args, RereadArg arg) ∧ Node.Reread outer
  | environment _ _ args outer => (∀ arg ∈ args, RereadArg arg) ∧ Node.Reread outer

namespace Builder

structure Reread (b : Builder) : Prop where
  siblings : Node.Reread b.siblings
  owner : ∀ owner, b.owner = some owner → ∀ arg ∈ owner.args, RereadArg arg
  frames : ∀ frame ∈ b.frames, frame.Reread

variable {b c : Builder} {l : Lexeme}

theorem reread_start : Reread start :=
  ⟨reread_nil, by simp [start], by simp [start]⟩

theorem Reread.settle (reread : b.Reread) : b.settle.Reread := by
  obtain ⟨raw, siblings, owner, frames⟩ := b
  obtain ⟨siblings_, owner_, frames_⟩ := reread
  match owner with
  | none => exact ⟨siblings_, owner_, frames_⟩
  | some (.command name args) =>
    refine ⟨reread_cons.mpr ⟨?_, siblings_⟩, by simp [Builder.settle], frames_⟩
    exact reread_node (owner_ _ rfl) reread_nil
  | some (.environment name offset args) =>
    refine ⟨reread_nil, by simp [Builder.settle], ?_⟩
    exact List.forall_mem_cons.mpr ⟨⟨owner_ _ rfl, siblings_⟩, frames_⟩

theorem Reread.leaf (reread : b.Reread) {node : Node} (own : Node.Reread [node]) (spelling : String) :
    ((b.write spelling).push node).Reread :=
  ⟨reread_cons.mpr ⟨own, reread.siblings⟩, reread.owner, reread.frames⟩

theorem Reread.closeArgument {grouping : Grouping} {before : String} {owner : Owner}
    {outer : List Node} {frames : List Frame} (own : parse b.raw = .ok b.siblings.reverse)
    (siblings : Node.Reread b.siblings) (args : ∀ arg ∈ owner.args, RereadArg arg)
    (outer_ : Node.Reread outer) (frames_ : ∀ frame ∈ frames, frame.Reread) :
    (b.closeArgument grouping before owner outer frames).Reread := by
  refine ⟨outer_, ?_, frames_⟩
  have new : RereadArg (.mk grouping b.siblings.reverse b.raw) :=
    ⟨own, reread_reverse.mpr siblings⟩
  have all : ∀ arg ∈ owner.args ++ [.mk grouping b.siblings.reverse b.raw], RereadArg arg := by
    intro arg member
    rcases List.mem_append.mp member with old | last
    · exact args arg old
    · exact List.mem_singleton.mp last ▸ new
  rintro owner' ⟨⟩
  cases owner <;> exact all

theorem Reread.closeBrace {offset : Nat} (reread : b.Reread)
    (own : b.frames.head?.any Frame.isDelimited = true → parse b.raw = .ok b.siblings.reverse)
    (closed : b.closeBrace offset = .ok c) : c.Reread := by
  unfold Builder.closeBrace at closed
  split at closed
  next at_ before outer frames eq =>
    cases closed
    have kept := reread.frames
    rw [eq, List.forall_mem_cons] at kept
    refine ⟨reread_cons.mpr ⟨?_, kept.1⟩, by simp, kept.2⟩
    exact reread_node (by simp [args]) (reread_reverse.mpr reread.siblings)
  next eq =>
    cases closed
    have kept := reread.frames
    rw [eq, List.forall_mem_cons] at kept
    rw [eq] at own
    exact .closeArgument (own rfl) reread.siblings kept.1.1 kept.1.2 kept.2
  next => cases closed

theorem Reread.closeBracket (reread : b.Reread)
    (own : b.frames.head?.any Frame.isDelimited = true → parse b.raw = .ok b.siblings.reverse) :
    b.closeBracket.Reread := by
  unfold Builder.closeBracket
  split
  next eq =>
    have kept := reread.frames
    rw [eq, List.forall_mem_cons] at kept
    rw [eq] at own
    exact .closeArgument (own rfl) reread.siblings kept.1.1 kept.1.2 kept.2
  next => exact reread.leaf (reread_text "]") "]"

theorem Reread.closeEnvironment {name : String} {offset : Nat} (reread : b.Reread)
    (closed : b.closeEnvironment name offset = .ok c) : c.Reread := by
  unfold Builder.closeEnvironment at closed
  split at closed
  next eq =>
    split at closed <;> cases closed
    have kept := reread.frames
    rw [eq, List.forall_mem_cons] at kept
    refine ⟨reread_cons.mpr ⟨reread_node kept.1.1 ?_, kept.1.2⟩, reread.owner, kept.2⟩
    have children := reread_reverse.mpr reread.siblings
    simp only [Node.children]
    split
    · exact reread_groupItems children
    · exact children
  next => cases closed

/-- What holds before a step holds behind it, when a group that it closes is read from its own
source as it was read here. -/
theorem Reread.step (reread : b.Reread)
    (own : l.token = .closeBrace ∨ l.token = .closeBracket →
      b.settle.frames.head?.any Frame.isDelimited = true →
        parse b.settle.raw = .ok b.settle.siblings.reverse)
    (stepped : b.step l = .ok c) : c.Reread := by
  have settled := reread.settle
  unfold Builder.step at stepped
  cases token : l.token with
  | text | comment | escape | accent =>
    simp only [token] at stepped
    cases stepped
    exact settled.leaf (reread_text _) _
  | math =>
    simp only [token] at stepped
    cases stepped
    exact settled.leaf (reread_math _ _) _
  | verbatim name body =>
    simp only [token] at stepped
    cases stepped
    exact settled.leaf (reread_ofVerbatim name body) _
  | command | beginEnv =>
    simp only [token] at stepped
    cases stepped
    refine ⟨settled.siblings, ?_, settled.frames⟩
    rintro owner ⟨⟩
    simp [Owner.args]
  | openBrace =>
    simp only [token] at stepped
    split at stepped
    next owner taker =>
      cases stepped
      obtain ⟨owned, -⟩ := Option.filter_eq_some_iff.mp taker
      refine ⟨reread_nil, by simp [openArgument], ?_⟩
      exact List.forall_mem_cons.mpr ⟨⟨reread.owner owner owned, reread.siblings⟩, reread.frames⟩
    next =>
      cases stepped
      refine ⟨reread_nil, by simp [openGroup], ?_⟩
      exact List.forall_mem_cons.mpr ⟨settled.siblings, settled.frames⟩
  | openBracket =>
    simp only [token] at stepped
    split at stepped
    next owner owned =>
      cases stepped
      refine ⟨reread_nil, by simp [openArgument], ?_⟩
      exact List.forall_mem_cons.mpr ⟨⟨reread.owner owner owned, reread.siblings⟩, reread.frames⟩
    next =>
      cases stepped
      exact settled.leaf (reread_text _) _
  | closeBrace =>
    simp only [token] at stepped
    exact settled.closeBrace (own (.inl token)) stepped
  | closeBracket =>
    simp only [token] at stepped
    cases stepped
    exact settled.closeBracket (own (.inr token))
  | endEnv =>
    simp only [token] at stepped
    refine Reread.closeEnvironment ?_ stepped
    exact ⟨settled.siblings, settled.owner, settled.frames⟩

/-- What is read with no frame below is read so, but for the frames, with some. -/
theorem finish_alone (settled : b.settle.frames = b.frames) :
    ({ b with frames := [] } : Builder).finish = .ok b.settle.siblings.reverse ∧
      b.settle.raw = b.raw := by
  obtain ⟨raw, siblings, owner, frames⟩ := b
  match owner with
  | none => exact ⟨rfl, rfl⟩
  | some (.command name args) => exact ⟨rfl, rfl⟩
  | some (.environment name offset args) => exact absurd settled (List.cons_ne_self _ _)

theorem parse_of_lexemes {source : String} {inner lexemes : List Lexeme} {nodes : List Node}
    (cut : Token.tokenize source = .ok lexemes)
    (same : lexemes.map Lexeme.unplaced = inner.map Lexeme.unplaced)
    (built : build inner = .ok nodes) : parse source = .ok nodes := by
  have alike := build_congr same
  rw [built] at alike
  rw [parse, cut]
  simp only [bind, Except.bind]
  cases other : build lexemes with
  | error e =>
    rw [other] at alike
    cases alike
  | ok nodes' =>
    rw [other] at alike
    obtain rfl : nodes' = nodes := Option.some.inj alike
    rfl

/-- At a closing brace or bracket the source of the group that is open is read as it was read in
its place. -/
theorem parse_inside {source : String} {done back : List Lexeme}
    (tokenized : Token.tokenize source = .ok (done ++ l :: back)) (inside : Inside done b)
    (close : l.token = .closeBrace ∨ l.token = .closeBracket)
    (delimited : b.settle.frames.head?.any Frame.isDelimited = true) :
    parse b.settle.raw = .ok b.settle.siblings.reverse := by
  have frames : b.settle.frames = b.frames :=
    (suffix_of_settle delimited List.suffix_rfl).eq_of_length_le b.frames_settle.length_le
  rw [frames] at delimited
  obtain ⟨inner, ⟨front, rfl⟩, run⟩ := inside [] b.frames rfl delimited
  obtain ⟨finished, raw⟩ := finish_alone frames
  rw [List.append_assoc] at tokenized
  have spelled : b.raw.toList = inner.flatMap (·.spelling.toList) := by
    have spellings : ∀ m ∈ inner, ∀ d, m.token.delimiter? = some d → m.spelling = .ofList [d] :=
      fun m member d => Token.spelling_delimiter tokenized (by simp [member])
    simpa [sourceRead, sourceBelow, start] using sourceRead_foldlM spellings run
  obtain ⟨lexemes, cut, same⟩ := Token.scan_slice tokenized close
  rw [← spelled] at cut
  have built : build inner = .ok b.settle.siblings.reverse := by
    rw [build, run]
    exact finished
  rw [raw]
  exact parse_of_lexemes cut same built

theorem reread_run {source : String} {read todo : List Lexeme}
    (tokenized : Token.tokenize source = .ok (read ++ todo)) (inside : Inside read b)
    (reread : b.Reread) (run : todo.foldlM Builder.step b = .ok c) : c.Reread := by
  induction todo generalizing b read with
  | nil =>
    cases run
    exact reread
  | cons l todo ih =>
    obtain ⟨d, first, others⟩ := foldlM_cons_eq_ok run
    have next : d.Reread := by
      apply reread.step ?_ first
      intro close delimited
      exact parse_inside tokenized inside close delimited
    apply ih ?_ (inside.step first) next others
    rwa [List.append_assoc]

end Builder

theorem reread_of_parse {source : String} {nodes : List Node} (parsed : parse source = .ok nodes) :
    Reread nodes := by
  unfold parse at parsed
  cases tokenized : Token.tokenize source with
  | error e =>
    rw [tokenized] at parsed
    cases parsed
  | ok lexemes =>
    simp only [tokenized, build, bind, Except.bind] at parsed
    cases run : lexemes.foldlM Builder.step .start with
    | error e =>
      rw [run] at parsed
      cases parsed
    | ok b =>
      have reread := Builder.reread_run tokenized Builder.inside_start Builder.reread_start run
      simp only [run, Builder.finish] at parsed
      cases frames : b.settle.frames with
      | nil =>
        rw [frames] at parsed
        cases parsed
        exact reread_reverse.mpr reread.settle.siblings
      | cons frame rest =>
        rw [frames] at parsed
        cases parsed

/-- The source of every argument in a tree is read as the nodes that the argument holds. -/
theorem parse_raw {source : String} {nodes : List Node} {arg : Arg}
    (parsed : parse source = .ok nodes) (within : arg.Within nodes) :
    parse arg.raw = .ok arg.nodes :=
  reread_of_parse parsed arg within

/-- An argument in the option of an item: its math hides a bracket, and a comment hides another
behind it. -/
theorem parse_raw_of_nested : ∃ nodes,
    parse "\\item[\\emph\x7b$]$\x7d%]\n]" = .ok nodes ∧
      (Arg.mk .required [.math false "]"] "$]$").Within nodes ∧
        parse "$]$" = .ok [.math false "]"] := by
  have found : ∃ nodes, parse "\\item[\\emph\x7b$]$\x7d%]\n]" = .ok nodes ∧
      (Arg.mk .required [.math false "]"] "$]$").Within nodes := by
    refine ⟨[.command "item" [.mk .optional
      [.command "emph" [.mk .required [.math false "]"] "$]$"], .text "%]", .text "\n"]
      "\\emph\x7b$]$\x7d%]\n"]], by cbv, ?_⟩
    refine .inArg (.head _) (.head _) (.own (.head _) (.head _) fun body eq => ?_)
    exact ofVerbatim_ne_command eq.symm
  obtain ⟨nodes, parsed, within⟩ := found
  exact ⟨nodes, parsed, within, parse_raw parsed within⟩

end Node
end Quire
