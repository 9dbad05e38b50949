/-
**Damage.**

Ways to break a tree on purpose, to see what the integrity check reports. Each touches one node,
named by the child slots that lead to it from the root, and leaves the size, the generation and all
other nodes as they are. Where there is no such node, nothing happens.
-/

import RadixLog.Tree

namespace RadixLog

/-- What to do to a node. -/
inductive Damage (α : Type) where
  /-- Take its value. -/
  | dropValue
  /-- Give it a value. -/
  | putValue (value : α)
  /-- Change its label, and not the byte its parent branches on. -/
  | setLabel (label : Bytes)
  /-- Exchange two entries of its child table. -/
  | swap (first second : Nat)
  /-- Change the byte of an entry of its child table. -/
  | setByte (slot : Nat) (byte : UInt8)
  /-- Take an entry out of its child table; the nodes under it stay in use. -/
  | unlink (slot : Nat)
  /-- Take a slot into use for a leaf that nothing leads to. -/
  | orphan (label : Bytes) (value : α)

namespace Damage

variable {α : Type}

/-- Two entries of a table exchanged, if both exist. -/
def exchange (edges : List Edge) (first second : Nat) : Option (List Edge) := do
  let a ← edges[first]?
  let b ← edges[second]?
  return (edges.set first b).set second a

/-- The node that child slots lead to. -/
def reach (arena : Arena α) : NodeRef → List Nat → Option NodeRef
  | id, [] => some id
  | id, slot :: path =>
    match arena.node id with
    | .ok node =>
      match node.children[slot]? with
      | some edge => reach arena edge.child path
      | none => none
    | .error _ => none

/-- The node after the damage, unless the damage does not apply to it. -/
def node (node : Node α) : Damage α → Option (Node α)
  | .dropValue => some { node with value := none }
  | .putValue value => some { node with value := some value }
  | .setLabel label => some { node with label }
  | .swap first second => do
    return { node with children := ← exchange node.children first second }
  | .setByte slot byte => do
    let edge ← node.children[slot]?
    return { node with children := node.children.set slot { edge with byte } }
  | .unlink slot =>
    if slot < node.children.length then
      some { node with children := node.children.eraseIdx slot }
    else none
  | .orphan _ _ => some node

/-- The arena after the damage to a node. -/
def arena (arena : Arena α) (id : NodeRef) (damage : Damage α) : Option (Arena α) :=
  match damage with
  | .orphan label value =>
    match arena.alloc (.leaf label value) with
    | .ok (_, arena) => some arena
    | .error _ => none
  | _ =>
    match arena.node id with
    | .ok old => (node old damage).map (arena.put id)
    | .error _ => none

end Damage

/-- The tree after damage to the node at a path, if there is such a node. -/
def Tree.damage {α : Type} (tree : Tree α) (path : List Nat) (damage : Damage α) :
    Option (Tree α) := do
  let root ← tree.root
  let id ← Damage.reach tree.arena root path
  let arena ← Damage.arena tree.arena id damage
  return { tree with arena }

end RadixLog
