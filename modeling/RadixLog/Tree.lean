/-
**The ordered map from byte strings.**

A tree keeps values under byte strings in a path-compressed trie: a node without a value has at least
two children. Each change answers with the changed tree, what it replaced or removed, and the
reshapings it went through, in order:

* `Tree.find?`: the value under a key;
* `Tree.insert`, `Tree.remove`, `Tree.assign`: changes of one key;
* `Tree.insertAll`, `Tree.clear`, `Tree.shrink`, `Tree.copy`: changes of the whole.

The generation counts the changes after which a path remembered from before may be wrong: a key
gained, a key lost, and clearing.
-/

import RadixLog.Arena.Descent

namespace RadixLog

/-- What a change does to the shape of a tree. -/
inductive Reshape where
  /-- The edge into `node` was cut after `cut` bytes, under the new node `parent`. -/
  | split (node : NodeRef) (cut : Nat) (parent : NodeRef)
  /-- The node `child` was folded into its parent `node`. -/
  | merged (child node : NodeRef)
  /-- The leaf of a key of `length` bytes was taken away. -/
  | pruned (length : Nat)
  deriving DecidableEq, Repr

/-- The number of nodes a tree has room for from the start. -/
structure TreeOptions where
  capacity : Nat := 64
  deriving DecidableEq, Repr

/-- An ordered map from byte strings. `size` is the number of keys, `generation` counts the changes
of the set of keys, and `identity` tells trees apart. -/
structure Tree (α : Type) where
  arena : Arena α
  root : Option NodeRef
  size : Nat
  generation : Nat
  identity : Nat
  deriving Repr

/-- A finished change: the tree after it, the value that was there before, and the reshapings in the
order they happened. -/
structure Change (α : Type) where
  tree : Tree α
  previous : Option α
  reshapes : List Reshape

namespace Tree

variable {α : Type}

/-- A tree without keys. -/
def empty (options : TreeOptions) (identity : Nat) : Tree α :=
  ⟨.empty options.capacity, none, 0, 0, identity⟩

/-- Whether the tree has no keys. -/
def isEmpty (tree : Tree α) : Bool := tree.size == 0

/-- The number of nodes in use. -/
def nodeCount (tree : Tree α) : Nat := tree.arena.live

/-! ### Looking up -/

/-- Where a key leads, unless the tree has no nodes. -/
def descend? (tree : Tree α) (key : Bytes) : Except Fault (Option (Descent α)) :=
  match tree.root with
  | none => .ok none
  | some root => some <$> tree.arena.descend root key

/-- The value under a key. -/
def find? (tree : Tree α) (key : Bytes) : Except Fault (Option α) := do
  match ← tree.descend? key with
  | some ⟨_, node, .exact⟩ => return node.value
  | _ => return none

/-- Whether a key is present. -/
def contains (tree : Tree α) (key : Bytes) : Except Fault Bool :=
  Option.isSome <$> tree.find? key

/-! ### Inserting -/

/-- One key more. -/
def gained (tree : Tree α) : Tree α :=
  { tree with size := tree.size + 1, generation := tree.generation + 1 }

/-- Lets the link that a path followed into its last node lead to another node. -/
def relink (tree : Tree α) (trail : Trail) (id : NodeRef) : Except Fault (Tree α) := do
  match trail.above with
  | [] => return { tree with root := some id }
  | parent :: _ =>
    return { tree with arena := ← tree.arena.redirect parent.node trail.top.slot id }

/-- Hangs a new leaf under a node. -/
def addLeaf (tree : Tree α) (parent : NodeRef) (label : Bytes) (value : α) :
    Except Fault (Tree α) := do
  let (leaf, arena) ← tree.arena.alloc (.leaf label value)
  return { tree with arena := ← arena.attach parent leaf }

/-- Puts a value under a key. The previous value of a present key is replaced without reshaping. A
key that ends at a branch makes it a key; one that leaves an edge cuts the edge there; one that goes
on past a node hangs a leaf under it. -/
def insert (tree : Tree α) (key : Bytes) (value : α) : Except Fault (Change α) := do
  match ← tree.descend? key with
  | none =>
    let (leaf, arena) ← tree.arena.alloc (.leaf key value)
    return ⟨{ tree with arena, root := some leaf }.gained, none, []⟩
  | some ⟨trail, node, .exact⟩ =>
    let tree := { tree with arena := tree.arena.put trail.top.node { node with value := some value } }
    return ⟨if node.keyed then tree else tree.gained, node.value, []⟩
  | some ⟨trail, _, .between _ rest⟩ =>
    return ⟨(← tree.addLeaf trail.top.node rest value).gained, none, []⟩
  | some ⟨trail, _, .inside common rest⟩ =>
    let (branch, arena) ← tree.arena.cutEdge trail.top.node common
    let tree ← { tree with arena }.relink trail branch
    let tree ← match rest.drop common with
      | [] => do
        let node ← tree.arena.node branch
        pure { tree with arena := tree.arena.put branch { node with value := some value } }
      | byte :: rest => tree.addLeaf branch (byte :: rest) value
    return ⟨tree.gained, none, [.split trail.top.node common branch]⟩

/-! ### Removing -/

/-- One key fewer. -/
def lost (tree : Tree α) : Tree α :=
  { tree with size := tree.size - 1, generation := tree.generation + 1 }

/-- Folds the child of a node into it. -/
def merge (tree : Tree α) (id : NodeRef) : Except Fault (Tree α × List Reshape) := do
  let (child, arena) ← tree.arena.absorb id
  return ({ tree with arena }, [.merged child id])

/-- Takes away the childless node at the end of a path. A branch above it that is left without a
value and with a single child is folded together with that child. -/
def prune (tree : Tree α) (trail : Trail) : Except Fault (Tree α × List Reshape) := do
  let (_, arena) ← tree.arena.release trail.top.node
  match trail.above with
  | [] => return ({ tree with arena, root := none }, [])
  | parent :: _ =>
    let tree := { tree with arena := ← arena.detach parent.node trail.top.slot }
    let node ← tree.arena.node parent.node
    if !node.keyed && node.children.length == 1 then tree.merge parent.node
    else return (tree, [])

/-- Takes a key away. Its node is taken away if it has no children, folded together with its child
if it has one, and stays as a branch if it has more. -/
def remove (tree : Tree α) (key : Bytes) : Except Fault (Change α) := do
  match ← tree.descend? key with
  | some ⟨trail, ⟨label, children, some value⟩, .exact⟩ =>
    let id := trail.top.node
    let tree := { tree with arena := tree.arena.put id ⟨label, children, none⟩ }.lost
    match children with
    | [] =>
      let (tree, reshapes) ← tree.prune trail
      return ⟨tree, some value, reshapes ++ [.pruned key.length]⟩
    | [_] =>
      let (tree, reshapes) ← tree.merge id
      return ⟨tree, some value, reshapes⟩
    | _ => return ⟨tree, some value, []⟩
  | _ => return ⟨tree, none, []⟩

/-! ### Other changes -/

/-- Writes the value of a present key, and does nothing else. -/
def assign (tree : Tree α) (key : Bytes) (value : α) : Except Fault (Change α) := do
  match ← tree.descend? key with
  | some ⟨trail, ⟨label, children, some previous⟩, .exact⟩ =>
    let arena := tree.arena.put trail.top.node ⟨label, children, some value⟩
    return ⟨{ tree with arena }, some previous, []⟩
  | _ => return ⟨tree, none, []⟩

/-- Inserts entries one after the other. -/
def insertAll (tree : Tree α) : List (Bytes × α) → Except Fault (Tree α × List Reshape)
  | [] => .ok (tree, [])
  | (key, value) :: entries => do
    let change ← tree.insert key value
    let (tree, reshapes) ← change.tree.insertAll entries
    return (tree, change.reshapes ++ reshapes)

/-- Takes away all keys and keeps the room. -/
def clear (tree : Tree α) : Tree α :=
  { tree with arena := tree.arena.clear, root := none, size := 0, generation := tree.generation + 1 }

/-- Gives up spare room. -/
def shrink (tree : Tree α) : Tree α := { tree with arena := tree.arena.shrink }

/-- A tree of its own with the same contents, at generation 0. -/
def copy (tree : Tree α) (identity : Nat) : Tree α :=
  { tree with arena := tree.arena.copy, generation := 0, identity }

end Tree

end RadixLog
