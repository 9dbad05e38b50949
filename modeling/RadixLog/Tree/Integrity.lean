/-
**The integrity check.**

Every invariant of a tree that a walk over its nodes can check, and one report per violation, in the
order of the walk. On a damaged tree each report names the path of the node it is about.

* `Violation`: what can be wrong;
* `Visit.violations`: what is wrong at one node;
* `Tree.violations`: what is wrong with a tree.
-/

import RadixLog.Tree.Outline
import RadixLog.Text.Quoted

namespace RadixLog

/-- A broken invariant. -/
inductive Violation where
  /-- The node at this path has no value and fewer than two children. -/
  | sparseBranch (path : Bytes) (children : Nat)
  /-- The node at this path is not the root and has an empty label. -/
  | emptyLabel (path : Bytes)
  /-- The child table of the node at this path is not in strictly ascending order. -/
  | unsorted (path : Bytes)
  /-- The node at this path has a child under a byte that its label does not start with. -/
  | misplaced (path : Bytes) (byte : UInt8) (first : Option UInt8)
  /-- Not all nodes in use are reachable from the root. -/
  | unreachable (allocated reachable : Nat)
  /-- The size of the tree is not its number of keys. -/
  | miscounted (size keys : Nat)
  deriving DecidableEq, Repr

namespace Violation

/-- A path in a message: printable, and quoted once more. -/
def place (path : Bytes) : String := String.ofList (Text.quoted (Bytes.escaped path))

/-- A byte in a message. -/
def hexByte (byte : UInt8) : String := "0x" ++ String.ofList (Bytes.hexDigits byte)

/-- A first byte in a message, if there is one. -/
def firstByte : Option UInt8 → String
  | none => "None"
  | some byte => "Some(" ++ toString byte.toNat ++ ")"

/-- The wording of a report. -/
def message : Violation → String
  | .sparseBranch path children =>
    "valueless node at " ++ place path ++ " has " ++ toString children ++ " children"
  | .emptyLabel path => "non-root node at " ++ place path ++ " has an empty label"
  | .unsorted path => "children of " ++ place path ++ " are not strictly sorted"
  | .misplaced path byte first =>
    "child of " ++ place path ++ " indexed by " ++ hexByte byte ++ " starts with " ++ firstByte first
  | .unreachable allocated reachable =>
    toString allocated ++ " nodes allocated but " ++ toString reachable ++ " reachable"
  | .miscounted size keys => "len is " ++ toString size ++ " but " ++ toString keys ++ " keys found"

end Violation

/-- Whether each entry of a child table has a lower byte than the one after it. -/
def ascending : List Edge → Bool
  | a :: b :: edges => a.byte < b.byte && ascending (b :: edges)
  | _ => true

variable {α : Type}

/-- The report on one entry of the child table of the node at `path`. -/
def Arena.edgeViolation (arena : Arena α) (path : Bytes) (edge : Edge) :
    Except Fault (List Violation) := do
  let first := (← arena.node edge.child).label.head?
  return if first = some edge.byte then [] else [.misplaced path edge.byte first]

/-- The reports on one node of a tree with the given root. -/
def Visit.violations (arena : Arena α) (root : Option NodeRef) (visit : Visit α) :
    Except Fault (List Violation) := do
  let node := visit.node
  let sparse : List Violation :=
    if !node.keyed && node.children.length < 2 then
      [.sparseBranch visit.path node.children.length] else []
  let unlabelled : List Violation :=
    if root ≠ some visit.id ∧ node.label = [] then [.emptyLabel visit.path] else []
  let unsorted : List Violation := if ascending node.children then [] else [.unsorted visit.path]
  let misplaced ← node.children.mapM (arena.edgeViolation visit.path)
  return sparse ++ unlabelled ++ unsorted ++ misplaced.flatten

/-- The reports on a tree: node by node, then on the number of nodes, then on the number of keys. -/
def Tree.violations (tree : Tree α) : Except Fault (List Violation) := do
  let visits ← tree.visits
  let nodewise ← visits.mapM (Visit.violations tree.arena tree.root)
  let keys := visits.countP (·.node.keyed)
  let unreachable : List Violation :=
    if visits.length = tree.nodeCount then [] else [.unreachable tree.nodeCount visits.length]
  let miscounted : List Violation :=
    if keys = tree.size then [] else [.miscounted tree.size keys]
  return nodewise.flatten ++ unreachable ++ miscounted

end RadixLog
