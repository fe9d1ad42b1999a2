import Quire.Node.Bound
import Quire.Node.Measure
import Quire.Options

/-! The options of a node, which its optional argument holds, and an option's value read as
nodes. Those nodes have shorter arguments than the node itself. -/
namespace Quire.Node

def options (node : Node) : Except Fault Options :=
  match node.optionalArg? with
  | .error e => .error (.render e)
  | .ok none => .ok ⟨[]⟩
  | .ok (some arg) => (Options.parse arg.raw).mapError .read

def optionNodes? (node : Node) (key : String) : Except Fault (Option (List Node)) :=
  match node.options with
  | .error e => .error e
  | .ok options =>
    match options.get? key with
    | none => .ok none
    | some value =>
      match parse value with
      | .error e => .error (.read e)
      | .ok nodes => .ok (some nodes)

theorem parse_empty : parse "" = .ok [] := by
  have scanned : Token.tokenize "" = .ok [] := by rw [Token.tokenize, Token.scan.eq_def]; rfl
  simp only [parse, scanned]
  rfl

theorem mem_of_optionalArg? {node : Node} {arg : Arg} (h : node.optionalArg? = .ok (some arg)) :
    arg ∈ node.args := by
  unfold optionalArg? at h
  split at h
  · cases h
  next only eq =>
    obtain rfl := Option.some.inj (Except.ok.inj h)
    exact (List.mem_filter.mp (by rw [← optional, eq]; simp)).1
  · cases h

theorem raw_length_le_longest {node : Node} {arg : Arg} (member : arg ∈ node.args) :
    arg.raw.length ≤ node.longest := by
  simpa [listLongest] using raw_length_le [] member

/-- The value of an option is empty or shorter than the longest argument of its node. -/
theorem get?_options {node : Node} {options : Options} {key value : String}
    (h : node.options = .ok options) (k : options.get? key = some value) :
    value = "" ∨ value.length < node.longest := by
  unfold Node.options at h
  split at h
  · cases h
  · obtain rfl := Except.ok.inj h
    simp [Options.get?] at k
  next arg eq =>
    cases parsed : Options.parse arg.raw with
    | error e =>
      rw [parsed] at h
      cases h
    | ok found =>
      rw [parsed] at h
      obtain rfl : found = options := Except.ok.inj h
      refine (Options.get?_length parsed k).imp id fun lt => ?_
      exact Nat.lt_of_lt_of_le lt (raw_length_le_longest (mem_of_optionalArg? eq))

theorem shrinks_option {owner node : Node} {rest nodes : List Node} {key : String}
    (small : owner.longest ≤ listLongest (node :: rest))
    (h : owner.optionNodes? key = .ok (some nodes)) : Shrinks nodes (node :: rest) := by
  unfold optionNodes? at h
  split at h
  · cases h
  next options eq =>
    split at h
    · cases h
    next value found =>
      split at h
      · cases h
      next inner parsed =>
        obtain rfl := Option.some.inj (Except.ok.inj h)
        rcases get?_options eq found with rfl | lt
        · obtain rfl := Except.ok.inj (parse_empty.symm.trans parsed)
          exact .nil node rest
        · exact .of_longest_lt (Nat.lt_of_le_of_lt (longest_parse_le parsed)
            (Nat.lt_of_lt_of_le lt small))

theorem longest_le_self (node : Node) (rest : List Node) :
    node.longest ≤ listLongest (node :: rest) := by
  simp only [listLongest]
  omega

end Quire.Node
