import Quire.Node.Measure
import Quire.Node.Parse

/-! No argument of a tree is longer than the source that the tree was read from. A walk that reads
the source of an argument anew therefore comes to an end. Main statement: `longest_parse_le`. -/
namespace Quire

structure Lexeme.Fits (lexeme : Lexeme) : Prop where
  pos : 1 ≤ lexeme.spelling.length
  body_le : ∀ name body, lexeme.token = .verbatim name body → body.length ≤ lexeme.spelling.length

namespace Token

theorem verbatim?_fits {name cs : List Char} {skip more : Nat} {token : Token}
    (h : verbatim? name (cs.drop skip) = some (token, more)) :
    ∃ body, token = .verbatim (.ofList name) (.ofList body) ∧ body.length ≤ more ∧
      skip + more ≤ cs.length := by
  simp only [verbatim?] at h
  split at h
  · obtain ⟨body, hbody, heq⟩ := Option.map_eq_some_iff.mp h
    have := Text.before?_length hbody
    obtain ⟨rfl, rfl⟩ := Prod.mk.inj heq
    refine ⟨body, rfl, by omega, ?_⟩
    simp only [List.length_drop, List.length_append, List.length_cons] at this ⊢
    omega
  · cases h

def isPlain : Token → Bool
  | .verbatim .. | .openBrace | .closeBrace | .openBracket | .closeBracket => false
  | _ => true

theorem mathUpTo?_plain {display : Bool} {skip more : Nat} {close cs : List Char} {token : Token}
    (h : mathUpTo? display skip close cs = some (token, more)) : token.isPlain = true := by
  obtain ⟨_, _, heq⟩ := Option.map_eq_some_iff.mp h
  obtain ⟨rfl, -⟩ := Prod.mk.inj heq
  rfl

theorem comment?_plain {cs : List Char} {token : Token} {more : Nat}
    (h : comment? cs = some (token, more)) : token.isPlain = true := by
  simp only [comment?] at h
  split at h <;> cases h <;> rfl

theorem dollar?_plain {cs : List Char} {token : Token} {more : Nat}
    (h : dollar? cs = some (token, more)) : token.isPlain = true := by
  simp only [dollar?] at h
  split at h
  · simp only [Option.orElse_eq_orElse, Option.orElse_eq_or, Option.or_eq_some_iff] at h
    rcases h with h | ⟨-, h⟩ <;> exact mathUpTo?_plain h
  · exact mathUpTo?_plain h

theorem bracketMath?_plain {cs : List Char} {token : Token} {more : Nat}
    (h : bracketMath? cs = some (token, more)) : token.isPlain = true := by
  simp only [bracketMath?] at h
  split at h
  · exact mathUpTo?_plain h
  · exact mathUpTo?_plain h
  · cases h

theorem end?_plain {cs : List Char} {token : Token} {more : Nat}
    (h : end? cs = some (token, more)) : token.isPlain = true := by
  simp only [end?, bind, Option.bind_eq_some_iff] at h
  obtain ⟨_, _, _, _, h⟩ := h
  cases h
  rfl

theorem accent?_plain {cs : List Char} {token : Token} {more : Nat}
    (h : accent? cs = some (token, more)) : token.isPlain = true := by
  simp only [accent?] at h
  split at h
  · split at h
    · obtain ⟨_, _, heq⟩ := Option.map_eq_some_iff.mp h
      cases heq
      rfl
    · cases h
  · cases h

theorem command?_plain {cs : List Char} {token : Token} {more : Nat}
    (h : command? cs = some (token, more)) : token.isPlain = true := by
  simp only [command?] at h
  split at h <;> cases h
  rfl

theorem escape?_plain {cs : List Char} {token : Token} {more : Nat}
    (h : escape? cs = some (token, more)) : token.isPlain = true := by
  simp only [escape?] at h
  split at h
  · split at h <;> cases h
    rfl
  · cases h

/-- The body of a raw environment lies within the characters that its token takes. -/
theorem begin?_body_le {cs : List Char} {name body : String} {more : Nat}
    (h : begin? cs = some (.verbatim name body, more)) :
    body.length ≤ more ∧ more ≤ cs.length := by
  simp only [begin?, bind, Option.bind_eq_some_iff] at h
  obtain ⟨_, _, env, _, h⟩ := h
  split at h
  next token k hv =>
    obtain ⟨body', rfl, le, fits⟩ := verbatim?_fits hv
    cases h
    exact ⟨by simpa using Nat.le_trans le (Nat.le_add_left _ _), fits⟩
  next => cases h

theorem next?_body_le {c : Char} {cs : List Char} {name body : String} {more : Nat}
    (h : next? c cs = some (.verbatim name body, more)) :
    body.length ≤ more ∧ more ≤ cs.length := by
  have impossible {p : Prop} (h : isPlain (.verbatim name body) = true) : p := by cases h
  simp only [next?] at h
  split at h
  · exact impossible (comment?_plain h)
  split at h
  · exact impossible (dollar?_plain h)
  split at h
  · simp only [Option.orElse_eq_orElse, Option.orElse_eq_or, Option.or_eq_some_iff] at h
    rcases h with h | ⟨-, h | ⟨-, h | ⟨-, h | ⟨-, h | ⟨-, h⟩⟩⟩⟩⟩
    · exact impossible (bracketMath?_plain h)
    · exact begin?_body_le h
    · exact impossible (end?_plain h)
    · exact impossible (accent?_plain h)
    · exact impossible (command?_plain h)
    · exact impossible (escape?_plain h)
  repeat' split at h
  all_goals cases h

theorem fits_scan {offset : Nat} {cs : List Char} {lexemes : List Lexeme}
    (h : scan offset cs = .ok lexemes) : ∀ lexeme ∈ lexemes, lexeme.Fits := by
  fun_induction scan offset cs generalizing lexemes with
  | case1 =>
    obtain rfl : [] = lexemes := by simpa using h
    simp
  | case2 => cases h
  | case3 offset c cs token more hnext spelling =>
    rename_i ih
    cases hrest : scan (offset + spelling.utf8ByteSize) (cs.drop more) with
    | error e =>
      rw [hrest] at h
      cases h
    | ok rest =>
      rw [hrest] at h
      obtain rfl := Except.ok.inj h
      intro lexeme member
      rcases List.mem_cons.mp member with rfl | member
      · refine ⟨by simp [spelling], ?_⟩
        rintro name body rfl
        have := next?_body_le hnext
        simp only [spelling, String.length_ofList, List.length_cons, List.length_take]
        omega
      · exact ih hrest lexeme member

end Token

namespace Node

theorem listLongest_le_iff {nodes : List Node} {n : Nat} :
    listLongest nodes ≤ n ↔ ∀ node ∈ nodes, longest node ≤ n := by
  induction nodes with
  | nil => simp [listLongest]
  | cons node nodes ih => simp only [listLongest, Nat.max_le, ih, List.forall_mem_cons]

theorem argsLongest_append (a b : List Arg) :
    argsLongest (a ++ b) = max (argsLongest a) (argsLongest b) := by
  induction a with
  | nil => simp [argsLongest]
  | cons arg args ih => simp [argsLongest, ih, Nat.max_assoc]

theorem listLongest_reverse (nodes : List Node) : listLongest nodes.reverse = listLongest nodes := by
  induction nodes with
  | nil => rfl
  | cons node nodes ih => simp [listLongest, ih, Nat.max_comm]

theorem longest_splitItems {children : List Node} {n : Nat} (h : listLongest children ≤ n) :
    listLongest (splitItems children).1 ≤ n ∧ listLongest (splitItems children).2 ≤ n := by
  induction children with
  | nil => simp [splitItems, listLongest]
  | cons node rest ih =>
    simp only [listLongest, Nat.max_le] at h
    obtain ⟨lead, items⟩ := ih h.2
    simp only [splitItems]
    split
    · split
      · have := h.1
        simp only [longest] at this
        simp only [listLongest, longest, Nat.max_le]
        exact ⟨Nat.zero_le n, ⟨this, lead⟩, items⟩
      · simp only [listLongest, Nat.max_le]
        exact ⟨⟨h.1, lead⟩, items⟩
    · simp only [listLongest, Nat.max_le]
      exact ⟨⟨h.1, lead⟩, items⟩

theorem longest_groupItems {children : List Node} {n : Nat} (h : listLongest children ≤ n) :
    listLongest (groupItems children) ≤ n := by
  obtain ⟨lead, items⟩ := longest_splitItems h
  simp only [groupItems, listLongest_append, Nat.max_le]
  refine ⟨listLongest_le_iff.mpr fun node member => ?_, items⟩
  exact listLongest_le_iff.mp lead node (List.mem_filter.mp member).1

theorem longest_ofVerbatim (name body : String) : longest (ofVerbatim name body) ≤ body.length := by
  simp only [ofVerbatim]
  split
  next rest hbody =>
    have size : body.length = rest.length + 1 := by
      rw [← String.length_toList, hbody, List.length_cons]
    split
    next option code hcut =>
      split at hcut
      · obtain ⟨before, hbefore, heq⟩ := Option.map_eq_some_iff.mp hcut
        have := Text.before?_length hbefore
        obtain ⟨rfl, -⟩ := Prod.mk.inj heq
        simp only [longest, listLongest, argsLongest, argLongest, String.length_ofList]
        omega
      · cases hcut
    next => simp [longest, listLongest, argsLongest]
  next => simp [longest, listLongest, argsLongest]

def Owner.args : Owner → List Arg
  | command _ args | environment _ _ args => args

/-- The sources kept by the frames, with one character for each delimiter that is open. -/
def framesLength : List Frame → Nat
  | [] => 0
  | .group _ before _ :: frames => before.length + 1 + framesLength frames
  | .argument _ _ before _ _ :: frames => before.length + 1 + framesLength frames
  | .environment .. :: frames => framesLength frames

/-- The argument sources in what a frame keeps are no longer than `n`. -/
def Frame.Bounded (n : Nat) : Frame → Prop
  | group _ _ outer => listLongest outer ≤ n
  | argument _ _ _ owner outer => argsLongest owner.args ≤ n ∧ listLongest outer ≤ n
  | environment _ _ args outer => argsLongest args ≤ n ∧ listLongest outer ≤ n

namespace Builder

/-- What holds of a builder after `n` characters: it keeps no more of the source than these, and no
argument is longer. -/
structure Bounded (n : Nat) (b : Builder) : Prop where
  raw_le : b.raw.length + framesLength b.frames ≤ n
  siblings_le : listLongest b.siblings ≤ n
  owner_le : ∀ owner, b.owner = some owner → argsLongest owner.args ≤ n
  frames_le : ∀ frame ∈ b.frames, frame.Bounded n

theorem bounded_start : Bounded 0 start := by
  constructor <;> simp [start, framesLength, listLongest]

theorem Frame.Bounded.mono {n m : Nat} (h : n ≤ m) {frame : Frame} (b : frame.Bounded n) :
    frame.Bounded m := by
  cases frame <;> simp only [Frame.Bounded] at * <;> omega

theorem Bounded.mono {n m : Nat} (h : n ≤ m) {b : Builder} (k : Bounded n b) : Bounded m b where
  raw_le := Nat.le_trans k.raw_le h
  siblings_le := Nat.le_trans k.siblings_le h
  owner_le := fun owner eq => Nat.le_trans (k.owner_le owner eq) h
  frames_le := fun frame member => Frame.Bounded.mono h (k.frames_le frame member)

theorem Bounded.settle {n : Nat} {b : Builder} (k : Bounded n b) : Bounded n b.settle := by
  obtain ⟨raw, siblings, owner, frames⟩ := b
  obtain ⟨raw_le, siblings_le, owner_le, frames_le⟩ := k
  match owner with
  | none => exact ⟨raw_le, siblings_le, owner_le, frames_le⟩
  | some (.command name args) =>
    have := owner_le _ rfl
    refine ⟨raw_le, ?_, by simp [Builder.settle], frames_le⟩
    simp only [Builder.settle, listLongest, longest, Nat.max_le]
    exact ⟨this, siblings_le⟩
  | some (.environment name offset args) =>
    have := owner_le _ rfl
    refine ⟨raw_le, by simp [Builder.settle, listLongest], by simp [Builder.settle], ?_⟩
    simp only [Builder.settle, List.forall_mem_cons]
    exact ⟨⟨this, siblings_le⟩, frames_le⟩

/-- Reading further characters that make a node. -/
theorem Bounded.leaf {n : Nat} {b : Builder} (k : Bounded n b) (spelling : String) (node : Node)
    (h : longest node ≤ n + spelling.length) :
    Bounded (n + spelling.length) ((b.write spelling).push node) := by
  obtain ⟨raw_le, siblings_le, owner_le, frames_le⟩ := k.mono (Nat.le_add_right n spelling.length)
  refine ⟨?_, ?_, owner_le, frames_le⟩
  · have := k.raw_le
    simp only [write, push, String.length_append]
    omega
  · simp only [write, push, listLongest, Nat.max_le]
    exact ⟨h, siblings_le⟩

theorem Bounded.write {n : Nat} {b : Builder} (k : Bounded n b) (spelling : String) :
    Bounded (n + spelling.length) (b.write spelling) := by
  obtain ⟨raw_le, siblings_le, owner_le, frames_le⟩ := k.mono (Nat.le_add_right n spelling.length)
  refine ⟨?_, siblings_le, owner_le, frames_le⟩
  have := k.raw_le
  simp only [Builder.write, String.length_append]
  omega

theorem Bounded.openArgument {n : Nat} {b : Builder} (k : Bounded n b) (grouping : Grouping)
    (offset : Nat) (owner : Owner) (h : argsLongest owner.args ≤ n) :
    Bounded (n + 1) (b.openArgument grouping offset owner) := by
  obtain ⟨raw_le, siblings_le, owner_le, frames_le⟩ := k.mono (Nat.le_add_right n 1)
  have := k.raw_le
  refine ⟨?_, by simp [Builder.openArgument, listLongest], by simp [Builder.openArgument], ?_⟩
  · simp only [Builder.openArgument, framesLength, String.length_empty]
    omega
  · simp only [Builder.openArgument, List.forall_mem_cons]
    exact ⟨⟨Nat.le_succ_of_le h, siblings_le⟩, frames_le⟩

theorem Bounded.openGroup {n : Nat} {b : Builder} (k : Bounded n b) (offset : Nat) :
    Bounded (n + 1) (b.openGroup offset) := by
  obtain ⟨raw_le, siblings_le, owner_le, frames_le⟩ := k.mono (Nat.le_add_right n 1)
  have := k.raw_le
  refine ⟨?_, by simp [Builder.openGroup, listLongest], by simp [Builder.openGroup], ?_⟩
  · simp only [Builder.openGroup, framesLength, String.length_empty]
    omega
  · simp only [Builder.openGroup, List.forall_mem_cons]
    exact ⟨siblings_le, frames_le⟩

theorem length_source (arg : Arg) : arg.source.length = arg.raw.length + 2 := by
  have length (a b : String) (h : a.length = 1) (k : b.length = 1) (raw : String) :
      (a ++ raw ++ b).length = raw.length + 2 := by
    simp only [String.length_append, h, k]
    omega
  obtain ⟨grouping, nodes, raw⟩ := arg
  cases grouping
  · exact length "\x7b" "\x7d" rfl rfl raw
  · exact length "[" "]" rfl rfl raw

theorem Bounded.closeArgument {n : Nat} {b : Builder} (k : Bounded n b) {grouping : Grouping}
    {offset : Nat} {before : String} {owner : Owner} {outer : List Node} {frames : List Frame}
    (h : b.frames = .argument grouping offset before owner outer :: frames) :
    Bounded (n + 1) (b.closeArgument grouping before owner outer frames) := by
  obtain ⟨raw_le, siblings_le, -, frames_le⟩ := k
  rw [h] at raw_le frames_le
  simp only [List.forall_mem_cons, Frame.Bounded, framesLength] at frames_le raw_le
  obtain ⟨⟨args_le, outer_le⟩, frames_le⟩ := frames_le
  refine ⟨?_, Nat.le_succ_of_le outer_le, ?_, fun frame member =>
    Frame.Bounded.mono (Nat.le_succ n) (frames_le frame member)⟩
  · simp only [Builder.closeArgument, String.length_append, length_source, Arg.raw]
    omega
  · intro o eq
    obtain rfl := Option.some.inj eq
    have : argLongest (.mk grouping b.siblings.reverse b.raw) ≤ n + 1 := by
      simp only [argLongest, listLongest_reverse]
      omega
    cases owner <;> simp only [Owner.addArg, Owner.args, argsLongest_append, argsLongest] at * <;>
      omega

theorem Bounded.closeBrace {n offset : Nat} {b c : Builder} (k : Bounded n b)
    (h : b.closeBrace offset = .ok c) : Bounded (n + 1) c := by
  simp only [Builder.closeBrace] at h
  split at h
  next at_ before outer frames eq =>
    obtain ⟨raw_le, siblings_le, -, frames_le⟩ := k
    rw [eq] at raw_le frames_le
    simp only [List.forall_mem_cons, Frame.Bounded, framesLength] at frames_le raw_le
    obtain rfl := Except.ok.inj h
    refine ⟨?_, ?_, by simp, fun frame member =>
      Frame.Bounded.mono (Nat.le_succ n) (frames_le.2 frame member)⟩
    · have one : "\x7b".length = 1 ∧ "\x7d".length = 1 := ⟨rfl, rfl⟩
      simp only [String.length_append, one.1, one.2]
      omega
    · simp only [listLongest, longest, listLongest_reverse]
      omega
  next eq =>
    obtain rfl := Except.ok.inj h
    exact k.closeArgument eq
  next => cases h

theorem Bounded.closeBracket {n : Nat} {b : Builder} (k : Bounded n b) :
    Bounded (n + 1) b.closeBracket := by
  simp only [Builder.closeBracket]
  split
  next eq => exact k.closeArgument eq
  next => exact k.leaf "]" (.text "]") (by simp [longest])

theorem Bounded.closeEnvironment {n offset : Nat} {name : String} {b c : Builder}
    (k : Bounded n b) (none_owner : b.owner = none)
    (h : b.closeEnvironment name offset = .ok c) : Bounded n c := by
  simp only [Builder.closeEnvironment] at h
  split at h
  next opened at_ args outer frames eq =>
    split at h
    · obtain ⟨raw_le, siblings_le, -, frames_le⟩ := k
      rw [eq] at raw_le frames_le
      simp only [List.forall_mem_cons, Frame.Bounded, framesLength] at frames_le raw_le
      obtain rfl := Except.ok.inj h
      refine ⟨raw_le, ?_, by simp [none_owner], frames_le.2⟩
      have grouped : listLongest (groupItems b.siblings.reverse) ≤ n :=
        longest_groupItems (by rwa [listLongest_reverse])
      simp only [listLongest, longest]
      split
      · omega
      · rw [listLongest_reverse]
        omega
    · cases h
  next => cases h

theorem settle_owner (b : Builder) : b.settle.owner = none := by
  unfold Builder.settle
  split
  next h => exact h
  next => rfl
  next => rfl

theorem Bounded.step {n : Nat} {b c : Builder} {lexeme : Lexeme} (k : Bounded n b)
    (fits : lexeme.Fits) (h : b.step lexeme = .ok c) : Bounded (n + lexeme.spelling.length) c := by
  have le : n + 1 ≤ n + lexeme.spelling.length := Nat.add_le_add_left fits.pos n
  have settled := k.settle
  have leaf (node : Node) (small : longest node ≤ n + lexeme.spelling.length)
      (h : (Except.ok ((b.settle.write lexeme.spelling).push node) : Except Misplaced Builder) =
        .ok c) :
      Bounded (n + lexeme.spelling.length) c := by
    obtain rfl := Except.ok.inj h
    exact settled.leaf lexeme.spelling node small
  cases token : lexeme.token with
  | text content => exact leaf (.text content) (by simp [longest]) (by simpa only [Builder.step, token] using h)
  | comment content =>
    exact leaf (.text ("%" ++ content)) (by simp [longest]) (by simpa only [Builder.step, token] using h)
  | escape symbol =>
    exact leaf (.text (escapeText symbol)) (by simp [longest]) (by simpa only [Builder.step, token] using h)
  | accent mark base =>
    exact leaf (.text (.ofList ['\\', mark, base])) (by simp [longest])
      (by simpa only [Builder.step, token] using h)
  | math display content =>
    exact leaf (.math display content) (by simp [longest]) (by simpa only [Builder.step, token] using h)
  | verbatim name body =>
    have small := Nat.le_trans (longest_ofVerbatim name body) (fits.body_le name body token)
    exact leaf (ofVerbatim name body) (Nat.le_trans small (Nat.le_add_left _ n))
      (by simpa only [Builder.step, token] using h)
  | openBrace =>
    simp only [Builder.step, token] at h
    split at h
    next owner eq =>
      obtain ⟨eq, -⟩ := Option.filter_eq_some_iff.mp eq
      obtain rfl := Except.ok.inj h
      exact (k.openArgument .required lexeme.offset owner (k.owner_le owner eq)).mono le
    next =>
      obtain rfl := Except.ok.inj h
      exact (settled.openGroup lexeme.offset).mono le
  | openBracket =>
    simp only [Builder.step, token] at h
    split at h
    next owner eq =>
      obtain rfl := Except.ok.inj h
      exact (k.openArgument .optional lexeme.offset owner (k.owner_le owner eq)).mono le
    next => exact leaf (.text "[") (by simp [longest]) h
  | closeBrace =>
    simp only [Builder.step, token] at h
    exact (settled.closeBrace h).mono le
  | closeBracket =>
    simp only [Builder.step, token] at h
    obtain rfl := Except.ok.inj h
    exact settled.closeBracket.mono le
  | command name =>
    simp only [Builder.step, token] at h
    obtain rfl := Except.ok.inj h
    have written := settled.write lexeme.spelling
    refine ⟨written.raw_le, written.siblings_le, ?_, written.frames_le⟩
    intro owner eq
    obtain rfl := Option.some.inj eq
    simp [Owner.args, argsLongest]
  | beginEnv name =>
    simp only [Builder.step, token] at h
    obtain rfl := Except.ok.inj h
    have written := settled.write lexeme.spelling
    refine ⟨written.raw_le, written.siblings_le, ?_, written.frames_le⟩
    intro owner eq
    obtain rfl := Option.some.inj eq
    simp [Owner.args, argsLongest]
  | endEnv name =>
    simp only [Builder.step, token] at h
    exact (settled.write lexeme.spelling).closeEnvironment b.settle_owner h

theorem foldlM_cons_eq_ok {b c : Builder} {l : Lexeme} {lexemes : List Lexeme}
    (run : (l :: lexemes).foldlM Builder.step b = .ok c) :
    ∃ d, b.step l = .ok d ∧ lexemes.foldlM Builder.step d = .ok c := by
  rw [List.foldlM_cons] at run
  cases first : b.step l with
  | error e =>
    rw [first] at run
    cases run
  | ok d =>
    rw [first] at run
    exact ⟨d, rfl, run⟩

theorem Bounded.run {n : Nat} {b c : Builder} {lexemes : List Lexeme} (k : Bounded n b)
    (fits : ∀ lexeme ∈ lexemes, lexeme.Fits) (h : lexemes.foldlM Builder.step b = .ok c) :
    Bounded (n + (lexemes.flatMap (·.spelling.toList)).length) c := by
  induction lexemes generalizing n b with
  | nil =>
    obtain rfl := Except.ok.inj h
    exact k
  | cons lexeme lexemes ih =>
    obtain ⟨middle, first, others⟩ := foldlM_cons_eq_ok h
    have := ih (k.step (fits lexeme (by simp)) first)
      (fun l member => fits l (List.mem_cons_of_mem _ member)) others
    rwa [List.flatMap_cons, List.length_append, String.length_toList, ← Nat.add_assoc]

end Builder

/-- No argument is longer than the source. -/
theorem longest_parse_le {source : String} {nodes : List Node} (h : parse source = .ok nodes) :
    listLongest nodes ≤ source.length := by
  simp only [parse, Token.tokenize, bind, Except.bind] at h
  cases scanned : Token.scan 0 source.toList with
  | error e => simp [scanned] at h
  | ok lexemes =>
    simp only [scanned, build, bind, Except.bind] at h
    cases built : lexemes.foldlM Builder.step Builder.start with
    | error e => simp [built] at h
    | ok b =>
      simp only [built] at h
      have bounded := (Builder.bounded_start.run (Token.fits_scan scanned) built).settle
      rw [Token.spellings_scan scanned, Nat.zero_add, String.length_toList] at bounded
      simp only [Builder.finish] at h
      split at h
      next finished =>
        split at finished
        · cases finished
          cases h
          rw [listLongest_reverse]
          exact bounded.siblings_le
        · cases finished
      next => cases h

end Node
end Quire
