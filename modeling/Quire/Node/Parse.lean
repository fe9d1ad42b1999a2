import Quire.Node.Build
import Quire.Token.Scan

/-! Reading a source as nodes. A problem is reported with its line. -/
namespace Quire.Node

def parse (source : String) : Except ReadFault (List Node) :=
  match Token.tokenize source >>= build with
  | .ok nodes => .ok nodes
  | .error ⟨offset, problem⟩ => .error (.badSyntax (lineOf source offset) problem)

end Quire.Node
