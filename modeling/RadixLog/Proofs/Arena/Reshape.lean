/-
**What reshaping stores.**

Each reshaping of an arena, said in terms of the nodes it stores before and after: the nodes it is
about stand first, and all others are those of `rest`.
-/

import RadixLog.Proofs.Arena.Probe
import RadixLog.Proofs.Arena.Stores
import RadixLog.Proofs.Fault

namespace RadixLog.Arena

variable {α : Type} {arena : Arena α} {id parent child : NodeRef} {node leaf : Node α}
  {rest : List (NodeRef × Node α)} {left right : List Edge} {edge : Edge} {byte : UInt8}

theorem insertIdx_length_append (left right : List Edge) (edge : Edge) :
    (left ++ right).insertIdx left.length edge = left ++ edge :: right := by
  induction left with
  | nil => rfl
  | cons first left ih => simp [ih]

/-- **A child is hung under its parent**, between the children under lower and higher bytes. -/
theorem Stores.attach (stores : arena.Stores ((child, leaf) :: (parent, node) :: rest))
    (headed : leaf.label.head? = some byte) (children : node.children = left ++ right)
    (sorted : Edge.Sorted (left ++ right)) (lower : ∀ edge ∈ left, edge.byte < byte)
    (higher : ∀ edge ∈ right, byte < edge.byte) :
    ∃ after, arena.attach parent child = .ok after ∧ after.Stores ((child, leaf) ::
      (parent, { node with children := left ++ ⟨byte, child⟩ :: right }) :: rest) := by
  obtain ⟨tail, label⟩ := List.head?_eq_some_iff.mp headed
  have turned := stores.perm (.swap _ _ _)
  refine ⟨_, ?_, (turned.put _).perm (.swap _ _ _)⟩
  rw [Arena.attach, stores.read_head, ok_bind, label]
  simp only
  rw [turned.read_head, ok_bind, children, probe_eq_missing sorted lower higher,
    ← insertIdx_length_append]
  rfl

/-- **An entry of a child table is taken out.** -/
theorem Stores.detach (stores : arena.Stores ((parent, node) :: rest))
    (children : node.children = left ++ edge :: right) :
    ∃ after, arena.detach parent left.length = .ok after ∧
      after.Stores ((parent, { node with children := left ++ right }) :: rest) := by
  refine ⟨_, ?_, stores.put _⟩
  rw [Arena.detach, stores.read_head, ok_bind, children, if_pos (by simp)]
  simp [List.eraseIdx_append_of_length_le]

/-- **An entry of a child table is led to another node.** -/
theorem Stores.redirect (stores : arena.Stores ((parent, node) :: rest))
    (children : node.children = left ++ edge :: right) (child : NodeRef) :
    ∃ after, arena.redirect parent left.length child = .ok after ∧ after.Stores
      ((parent, { node with children := left ++ { edge with child } :: right }) :: rest) := by
  refine ⟨_, ?_, stores.put _⟩
  rw [Arena.redirect, stores.read_head, ok_bind, children]
  simp

/-- **An edge is cut in two** with a new node in between. -/
theorem Stores.cutEdge (stores : arena.Stores ((id, node) :: rest)) {shared tail : Bytes}
    (label : node.label = shared ++ byte :: tail) :
    ∃ branch after, arena.cutEdge id shared.length = .ok (branch, after) ∧
      after.Stores ((branch, ⟨shared, [⟨byte, id⟩], none⟩) ::
        (id, { node with label := byte :: tail }) :: rest) := by
  obtain ⟨branch, after, takes, stored⟩ :=
    (stores.put { node with label := byte :: tail }).exists_alloc ⟨shared, [⟨byte, id⟩], none⟩
  refine ⟨branch, after, ?_, stored⟩
  rw [Arena.cutEdge, stores.read_head, ok_bind, label]
  simpa using takes

/-- **A node takes the place of its parent**, which has no other children, and the two labels are
joined. -/
theorem Stores.absorb (stores : arena.Stores ((id, node) :: (edge.child, leaf) :: rest))
    {others : List Edge} (children : node.children = edge :: others) :
    ∃ after, arena.absorb id = .ok (edge.child, after) ∧
      after.Stores ((id, { leaf with label := node.label ++ leaf.label }) :: rest) := by
  obtain ⟨after, released, left⟩ := (stores.perm (.swap _ _ _)).release
  refine ⟨_, ?_, left.put _⟩
  rw [Arena.absorb, stores.read_head, ok_bind, children]
  simp only
  rw [released, ok_bind]
  simp only
  rw [left.read_head, ok_bind]
  rfl

end RadixLog.Arena
