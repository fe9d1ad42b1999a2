import Quire.Node

/-! What gets smaller when a list of nodes is walked. Going into a node leaves fewer nodes;
reading the source of an argument anew leaves shorter sources, with whatever number of nodes.
`Shrinks` puts the two together, and nothing can shrink without end. -/
namespace Quire.Node

mutual
def weight : Node → Nat
  | text _ | math _ _ => 1
  | command _ args => 1 + argsWeight args
  | environment _ args children => 1 + argsWeight args + listWeight children
  | group children => 1 + listWeight children

def argWeight : Arg → Nat
  | .mk _ nodes _ => listWeight nodes

def argsWeight : List Arg → Nat
  | [] => 0
  | arg :: args => argWeight arg + argsWeight args

def listWeight : List Node → Nat
  | [] => 0
  | node :: nodes => weight node + listWeight nodes
end

mutual
def longest : Node → Nat
  | text _ | math _ _ => 0
  | command _ args => argsLongest args
  | environment _ args children => max (argsLongest args) (listLongest children)
  | group children => listLongest children

def argLongest : Arg → Nat
  | .mk _ nodes raw => max raw.length (listLongest nodes)

def argsLongest : List Arg → Nat
  | [] => 0
  | arg :: args => max (argLongest arg) (argsLongest args)

def listLongest : List Node → Nat
  | [] => 0
  | node :: nodes => max (longest node) (listLongest nodes)
end

/-- Shorter sources, or no longer ones and fewer nodes. -/
def Shrinks (a b : List Node) : Prop :=
  Prod.Lex (· < ·) (· < ·) (listLongest a, listWeight a) (listLongest b, listWeight b)

theorem shrinks_wf : WellFounded Shrinks :=
  InvImage.wf (fun nodes => (listLongest nodes, listWeight nodes)) (Prod.lex Nat.lt_wfRel Nat.lt_wfRel).wf

/-- A recursion that goes down along `Shrinks` ends. The first `n` steps down do not look at the
reason, so that the kernel can evaluate such a recursion on a closed list. -/
theorem accessible_within (n : Nat) : ∀ nodes, Acc Shrinks nodes :=
  n.rec shrinks_wf.apply fun _ further nodes => .intro nodes fun smaller _ => further smaller

/-- No longer sources and no more nodes. -/
structure NoLarger (a b : List Node) : Prop where
  longest_le : listLongest a ≤ listLongest b
  weight_le : listWeight a ≤ listWeight b

theorem NoLarger.refl (a : List Node) : NoLarger a a := ⟨Nat.le_refl _, Nat.le_refl _⟩

theorem NoLarger.trans {a b c : List Node} (h : NoLarger a b) (k : NoLarger b c) : NoLarger a c :=
  ⟨Nat.le_trans h.1 k.1, Nat.le_trans h.2 k.2⟩

theorem Shrinks.of_lt {a b : List Node} (h : listLongest a ≤ listLongest b)
    (k : listWeight a < listWeight b) : Shrinks a b := by
  rcases Nat.lt_or_eq_of_le h with lt | eq
  · exact .left _ _ lt
  · unfold Shrinks
    rw [eq]
    exact .right _ k

theorem Shrinks.of_longest_lt {a b : List Node} (h : listLongest a < listLongest b) :
    Shrinks a b := .left _ _ h

theorem Shrinks.of_noLarger {a b c : List Node} (h : NoLarger a b) (k : Shrinks b c) :
    Shrinks a c := by
  unfold Shrinks at k
  rw [Prod.lex_def] at k
  rcases k with lt | ⟨eq, lt⟩
  · exact .left _ _ (Nat.lt_of_le_of_lt h.1 lt)
  · exact .of_lt (Nat.le_trans h.1 (Nat.le_of_eq eq)) (Nat.lt_of_le_of_lt h.2 lt)

theorem weight_pos (node : Node) : 0 < node.weight := by
  cases node <;> simp only [weight] <;> omega

@[simp] theorem listWeight_append (a b : List Node) :
    listWeight (a ++ b) = listWeight a + listWeight b := by
  induction a with
  | nil => simp [listWeight]
  | cons node nodes ih => simp [listWeight, ih, Nat.add_assoc]

@[simp] theorem listLongest_append (a b : List Node) :
    listLongest (a ++ b) = max (listLongest a) (listLongest b) := by
  induction a with
  | nil => simp [listLongest]
  | cons node nodes ih => simp [listLongest, ih, Nat.max_assoc]

theorem NoLarger.append {a b c d : List Node} (h : NoLarger a b) (k : NoLarger c d) :
    NoLarger (a ++ c) (b ++ d) := by
  constructor
  · simp only [listLongest_append]
    have := h.1
    have := k.1
    omega
  · simp only [listWeight_append]
    have := h.2
    have := k.2
    omega

theorem NoLarger.of_suffix {a b : List Node} (h : a <:+ b) : NoLarger a b := by
  obtain ⟨front, rfl⟩ := h
  constructor
  · simp only [listLongest_append]
    omega
  · simp only [listWeight_append]
    omega

theorem Shrinks.nil (node : Node) (rest : List Node) : Shrinks [] (node :: rest) := by
  have := weight_pos node
  refine .of_lt (Nat.zero_le _) ?_
  simp only [listWeight]
  omega

theorem Shrinks.tail (node : Node) (rest : List Node) : Shrinks rest (node :: rest) := by
  have := weight_pos node
  refine .of_lt ?_ ?_
  · simp only [listLongest]
    omega
  · simp only [listWeight]
    omega

theorem argLongest_le {args : List Arg} {arg : Arg} (member : arg ∈ args) :
    argLongest arg ≤ argsLongest args := by
  induction member with
  | head => simp only [argsLongest]; omega
  | tail _ _ ih => simp only [argsLongest]; omega

theorem argWeight_le {args : List Arg} {arg : Arg} (member : arg ∈ args) :
    argWeight arg ≤ argsWeight args := by
  induction member with
  | head => simp only [argsWeight]; omega
  | tail _ _ ih => simp only [argsWeight]; omega

theorem longest_le {nodes : List Node} {node : Node} (member : node ∈ nodes) :
    longest node ≤ listLongest nodes := by
  induction member with
  | head => simp only [listLongest]; omega
  | tail _ _ ih => simp only [listLongest]; omega

/-- The nodes of an argument are fewer than those of the node it belongs to. -/
theorem shrinks_arg {node : Node} {arg : Arg} (rest : List Node) (member : arg ∈ node.args) :
    Shrinks arg.nodes (node :: rest) := by
  have long := argLongest_le member
  have heavy := argWeight_le member
  obtain ⟨grouping, nodes, raw⟩ := arg
  simp only [argLongest, argWeight] at long heavy
  refine .of_lt ?_ ?_ <;> cases node <;>
    simp only [args, Arg.nodes, listLongest, listWeight, longest, weight, argsLongest,
      argsWeight] at * <;> omega

theorem shrinks_children (node : Node) (rest : List Node) :
    Shrinks node.children (node :: rest) := by
  refine .of_lt ?_ ?_ <;> cases node <;>
    simp only [children, listLongest, listWeight, longest, weight] <;> omega

theorem shrinks_required (node : Node) (rest : List Node) (n : Nat) :
    Shrinks (node.requiredNodes n) (node :: rest) := by
  unfold requiredNodes
  cases h : node.required[n]? with
  | none => exact .nil node rest
  | some arg =>
    exact shrinks_arg rest (List.mem_filter.mp (List.mem_of_getElem? h)).1

/-- The source of an argument is no longer than the longest in its node. -/
theorem raw_length_le {node : Node} {arg : Arg} (rest : List Node) (member : arg ∈ node.args) :
    arg.raw.length ≤ listLongest (node :: rest) := by
  have long := argLongest_le member
  obtain ⟨grouping, nodes, raw⟩ := arg
  simp only [argLongest] at long
  cases node <;> simp only [args, Arg.raw, listLongest, longest, argsLongest] at * <;> omega

theorem child_longest_le {node child : Node} (rest : List Node) (member : child ∈ node.children) :
    longest child ≤ listLongest (node :: rest) := by
  have long := longest_le member
  cases node <;> simp only [children, listLongest, longest] at * <;> omega

end Quire.Node
