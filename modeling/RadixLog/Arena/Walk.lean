/-
**The walk over all nodes.**

Every node reachable from a root is visited once, parents before children and children in the order of
their table, together with the bytes its path spells and its depth. The text outline and the integrity
check are read off this one list.
-/

import RadixLog.Arena

namespace RadixLog

/-- A node met on a walk: its slot, the node, the bytes spelled from the root through its label, and
its distance from the root. -/
structure Visit (α : Type) where
  id : NodeRef
  node : Node α
  path : Bytes
  depth : Nat
  deriving Repr

namespace Arena

variable {α : Type}

/-- The visits of the nodes under `id`, itself first, given the bytes spelled above it. -/
def visitsFrom (arena : Arena α) :
    (fuel : Nat) → (id : NodeRef) → (spelled : Bytes) → (depth : Nat) → Except Fault (List (Visit α))
  | 0, _, _, _ => .error .endless
  | fuel + 1, id, spelled, depth => do
    let node ← arena.node id
    let path := spelled ++ node.label
    let below ← node.children.mapM fun edge => arena.visitsFrom fuel edge.child path (depth + 1)
    return ⟨id, node, path, depth⟩ :: below.flatten

/-- The walk from a root, in preorder. A path visits no slot twice, so the number of slots bounds the
depth. -/
def visits (arena : Arena α) (root : Option NodeRef) : Except Fault (List (Visit α)) :=
  match root with
  | none => .ok []
  | some root => arena.visitsFrom arena.slots.size root [] 0

end Arena

end RadixLog
