/-
**The node arena.**

Nodes live in numbered slots and refer to each other by slot number. A freed slot is reused before a
new one is added, the last freed one first. The arena is read through one function, `Arena.node`, and
written through one, `Arena.put`; every reshaping is built from these two, `Arena.alloc` and
`Arena.release`:

* `Arena.alloc`, `Arena.release`: a slot is taken into use and given back;
* `Arena.attach`, `Arena.detach`, `Arena.redirect`: one child table changes;
* `Arena.cutEdge`, `Arena.absorb`: an edge is cut in two, and two edges become one.
-/

import RadixLog.Bytes
import RadixLog.Fault

namespace RadixLog

/-- An entry of a child table: the byte a node branches on and the child it leads to. -/
structure Edge where
  byte : UInt8
  child : NodeRef
  deriving DecidableEq, Repr

/-- A node: the bytes of the edge that leads into it, its child table in order of branching byte,
and the value of the key that ends here, if one does. -/
structure Node (α : Type) where
  label : Bytes
  children : List Edge
  value : Option α
  deriving DecidableEq, Repr

namespace Node

variable {α : Type}

/-- A node with a value and no children. -/
def leaf (label : Bytes) (value : α) : Node α := ⟨label, [], some value⟩

/-- Whether a key ends at the node. -/
def keyed (node : Node α) : Bool := node.value.isSome

end Node

/-! ### Search in a child table -/

/-- The outcome of a search in a child table: the place and the child of the entry sought, or the
place where such an entry belongs. -/
inductive Probe where
  | found (slot : Nat) (child : NodeRef)
  | missing (slot : Nat)
  deriving DecidableEq, Repr

/-- Halves the `size` entries from `base` on until one is left, keeping the upper half unless it
starts above `byte`. -/
def narrow (edges : List Edge) (byte : UInt8) : (fuel base size : Nat) → Nat
  | 0, base, _ => base
  | fuel + 1, base, size =>
    if size ≤ 1 then base else
      let half := size / 2
      let base := match edges[base + half]? with
        | some edge => if byte < edge.byte then base else base + half
        | none => base
      narrow edges byte fuel base (size - half)

/-- Binary search for the entry of `byte`. -/
def probe (edges : List Edge) (byte : UInt8) : Probe :=
  let slot := narrow edges byte edges.length 0 edges.length
  match edges[slot]? with
  | none => .missing 0
  | some edge =>
    if edge.byte = byte then .found slot edge.child
    else if edge.byte < byte then .missing (slot + 1)
    else .missing slot

/-! ### Slots -/

/-- Numbered slots, each vacant or holding a node. `free` lists the vacant slots, the last freed
first, `live` counts the occupied ones, and the two rooms are the numbers of places for which the
slot table and the free list hold memory. -/
structure Arena (α : Type) where
  slots : Array (Option (Node α))
  free : List NodeRef
  live : Nat
  slotRoom : Nat
  freeRoom : Nat
  deriving Repr

namespace Arena

variable {α : Type}

/-- No slots, with room for `capacity` of them. -/
def empty (capacity : Nat) : Arena α := ⟨#[], [], 0, capacity, 0⟩

/-- The node in a slot. -/
def node (arena : Arena α) (id : NodeRef) : Except Fault (Node α) :=
  match arena.slots[id]? with
  | some (some node) => .ok node
  | _ => .error (.vacant id)

/-- Writes a node into an existing slot. -/
def put (arena : Arena α) (id : NodeRef) (node : Node α) : Arena α :=
  { arena with slots := arena.slots.setIfInBounds id (some node) }

/-- Takes a slot into use for a node: the last freed one, else a new one at the end. -/
def alloc (arena : Arena α) (node : Node α) : Except Fault (NodeRef × Arena α) :=
  match arena.free with
  | id :: free =>
    if id < arena.slots.size then
      .ok (id, { arena.put id node with free, live := arena.live + 1 })
    else
      .error (.noSlot id)
  | [] =>
    let slots := arena.slots.push (some node)
    .ok (arena.slots.size,
      { arena with slots, live := arena.live + 1, slotRoom := max arena.slotRoom slots.size })

/-- Takes a node out of its slot and puts the slot at the head of the free list. -/
def release (arena : Arena α) (id : NodeRef) : Except Fault (Node α × Arena α) := do
  let node ← arena.node id
  let free := id :: arena.free
  return (node, { arena with
    slots := arena.slots.setIfInBounds id none
    free
    live := arena.live - 1
    freeRoom := max arena.freeRoom free.length })

/-- Vacates everything and keeps the room. -/
def clear (arena : Arena α) : Arena α := { arena with slots := #[], free := [], live := 0 }

/-- The slots up to the last occupied one. -/
def occupiedPart (slots : Array (Option (Node α))) : Array (Option (Node α)) :=
  (slots.toList.reverse.dropWhile Option.isNone).reverse.toArray

/-- Gives up the vacant slots at the end, their places in the free list and all spare room. -/
def shrink (arena : Arena α) : Arena α :=
  let slots := occupiedPart arena.slots
  let free := arena.free.filter (· < slots.size)
  { arena with slots, free, slotRoom := slots.size, freeRoom := free.length }

/-- A copy, which has room for what it holds and no more. -/
def copy (arena : Arena α) : Arena α :=
  { arena with slotRoom := arena.slots.size, freeRoom := arena.free.length }

/-- Whether the slot table or the free list holds memory. -/
def holdsMemory (arena : Arena α) : Bool := arena.slotRoom != 0 || arena.freeRoom != 0

/-! ### Reshaping -/

/-- Hangs a child under a parent, by its first label byte, keeping the table sorted. -/
def attach (arena : Arena α) (parent child : NodeRef) : Except Fault (Arena α) := do
  match (← arena.node child).label with
  | [] => .error (.emptyLabel child)
  | byte :: _ =>
    let node ← arena.node parent
    match probe node.children byte with
    | .found _ _ => .error (.duplicateByte byte)
    | .missing slot =>
      return arena.put parent { node with children := node.children.insertIdx slot ⟨byte, child⟩ }

/-- Takes an entry out of a parent's child table. -/
def detach (arena : Arena α) (parent : NodeRef) (slot : Nat) : Except Fault (Arena α) := do
  let node ← arena.node parent
  if slot < node.children.length then
    return arena.put parent { node with children := node.children.eraseIdx slot }
  else
    .error (.noChild parent slot)

/-- Points an entry of a parent's child table at another node, under the same byte. -/
def redirect (arena : Arena α) (parent : NodeRef) (slot : Nat) (child : NodeRef) :
    Except Fault (Arena α) := do
  let node ← arena.node parent
  match node.children[slot]? with
  | none => .error (.noChild parent slot)
  | some edge =>
    return arena.put parent { node with children := node.children.set slot { edge with child } }

/-- Cuts the edge into a node after `cut` bytes: a new node without a value takes the first part of
the label and has the old node, with the rest of it, as its only child. The caller links the new
node where the old one used to hang. -/
def cutEdge (arena : Arena α) (id : NodeRef) (cut : Nat) : Except Fault (NodeRef × Arena α) := do
  let node ← arena.node id
  match node.label.drop cut with
  | [] => .error (.emptyLabel id)
  | byte :: rest =>
    (arena.put id { node with label := byte :: rest }).alloc
      ⟨node.label.take cut, [⟨byte, id⟩], none⟩

/-- Folds the first child of a node into it: the node keeps its slot, takes the joined label and the
child's value and children, and the child's slot, which is returned, becomes vacant. -/
def absorb (arena : Arena α) (id : NodeRef) : Except Fault (NodeRef × Arena α) := do
  match (← arena.node id).children with
  | [] => .error (.barrenBranch id)
  | edge :: _ =>
    let (child, arena) ← arena.release edge.child
    let node ← arena.node id
    return (edge.child, arena.put id { child with label := node.label ++ child.label })

end Arena

end RadixLog
