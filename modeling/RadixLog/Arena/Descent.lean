/-
**Where a key leads.**

Going down from the root by the bytes of a key ends in one of three ways: at the node whose path
spells the key, inside the edge into a node, or at a node none of whose children continues the key.
Looking up, inserting, removing and seeking all start from this one descent:

* `Trail`: a path from the root, as a cursor keeps it;
* `Landing`: the three ways a descent ends;
* `Arena.descend`: the descent of a key.
-/

import RadixLog.Arena

namespace RadixLog

/-- A node on a path and its place in its parent's child table; the root has place 0. -/
structure Link where
  node : NodeRef
  slot : Nat
  deriving DecidableEq, Repr

/-- A path from the root down to a node: its last link, the links above it from the nearest on,
and the bytes that the labels along it spell. -/
structure Trail where
  top : Link
  above : List Link
  key : Bytes
  deriving DecidableEq, Repr

/-- How a descent ends at the last node it visits. -/
inductive Landing where
  /-- The path spells the whole key. -/
  | exact
  /-- The key leaves the edge into the node, or ends inside it, after `common` bytes of the label;
  `rest` is what was left of the key before that edge. -/
  | inside (common : Nat) (rest : Bytes)
  /-- The key goes on past the node with `rest`, and no child continues it: such a child would stand
  at `slot`. -/
  | between (slot : Nat) (rest : Bytes)
  deriving DecidableEq, Repr

/-- A finished descent: the path to the last node visited, that node, and how the key ends there. -/
structure Descent (α : Type) where
  trail : Trail
  node : Node α
  landing : Landing

namespace Arena

variable {α : Type}

/-- Continues a descent into the node of `link`, with `spelled` spelled above it and `rest` of the
key left. -/
def descendFrom (arena : Arena α) :
    (fuel : Nat) → (link : Link) → (above : List Link) → (spelled rest : Bytes) →
      Except Fault (Descent α)
  | 0, _, _, _, _ => .error .endless
  | fuel + 1, link, above, spelled, rest => do
    let node ← arena.node link.node
    let spelled := spelled ++ node.label
    let trail : Trail := ⟨link, above, spelled⟩
    let common := Bytes.common node.label rest
    if common < node.label.length then
      return ⟨trail, node, .inside common rest⟩
    else match rest.drop common with
      | [] => return ⟨trail, node, .exact⟩
      | byte :: rest =>
        match probe node.children byte with
        | .missing slot => return ⟨trail, node, .between slot (byte :: rest)⟩
        | .found slot child =>
          arena.descendFrom fuel ⟨child, slot⟩ (link :: above) spelled (byte :: rest)

/-- The descent of a key from a root. A path visits no slot twice, so the number of slots bounds
it. -/
def descend (arena : Arena α) (root : NodeRef) (key : Bytes) : Except Fault (Descent α) :=
  arena.descendFrom arena.slots.size ⟨root, 0⟩ [] [] key

end Arena

end RadixLog
