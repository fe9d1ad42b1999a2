import Quire.Disk

/-! The files as a job sees them that may not be the only one at work. Between two of its accesses
the other jobs may have changed the tree. -/
namespace Quire

structure Desk where
  /-- The tree after the last access. -/
  disk : Disk
  /-- The trees that the next accesses find. Behind the last one nobody else is at work. -/
  found : List Disk := []
  /-- The trees before and after the accesses so far. -/
  visits : List (Disk × Disk) := []

namespace Desk

def alone (disk : Disk) : Desk := { disk }

def next (desk : Desk) : Disk := desk.found.headD desk.disk

def proceed (desk : Desk) (after : Disk) : Desk :=
  ⟨after, desk.found.tail, desk.visits ++ [(desk.next, after)]⟩

def visit (job : Disk → α × Disk) (desk : Desk) : α × Desk :=
  let (result, after) := job desk.next
  (result, desk.proceed after)

end Desk
end Quire
