/-
**Faults.**

A fault is a contradiction met while following references: a link to nothing, a table that cannot be
what the tree promises. The operations of the library are written so that each place where one could
arise says so, instead of inventing an answer. On a well-formed tree none arises.
-/

namespace RadixLog

/-- The index of a node's slot in its arena. -/
abbrev NodeRef := Nat

/-- A contradiction met while following references. -/
inductive Fault where
  /-- No node lives in this slot. -/
  | vacant (id : NodeRef)
  /-- The free list names a slot that there is not. -/
  | noSlot (id : NodeRef)
  /-- A node's child table has no entry in this place. -/
  | noChild (id : NodeRef) (slot : Nat)
  /-- A child is to be added under a byte its parent already branches on. -/
  | duplicateByte (byte : UInt8)
  /-- A node that needs a first label byte has an empty label. -/
  | emptyLabel (id : NodeRef)
  /-- A node without a value has no child to lead to a key. -/
  | barrenBranch (id : NodeRef)
  /-- A node's label is longer than the key its path spells. -/
  | shortKey (id : NodeRef)
  /-- Following links visits more nodes than there are slots. -/
  | endless
  /-- A key of a journal has `length` bytes, which no encoded identifier has. -/
  | strayKey (length : Nat)
  /-- No tree, cursor or handle has this number. -/
  | unknown (index : Nat)
  deriving DecidableEq, Repr

end RadixLog
