/-
**Folding undoes cutting.**

Cutting the edge into a node and folding the new node again moves what the node holds from slot to
slot: cutting leaves it where it is, under a new node, and folding moves it up into the slot of that
one. Both need of the bookkeeping only that the free list is sound, and keep it so. After both, the
new slot holds what the old one did, the old one is vacant, and all else is as before.

* `Arena.EdgeCut`, `Arena.exists_cutEdge`: what cutting an edge leaves;
* `Arena.ChildFolded`, `Arena.exists_absorb`: what folding a child leaves;
* `Arena.folding_undoes_cutting`: the one after the other.
-/

import RadixLog.Proofs.Arena.Stores
import RadixLog.Proofs.Fault

namespace RadixLog.Arena

variable {α : Type} {arena middle after : Arena α} {id branch : NodeRef} {node child : Node α}
  {edge : Edge} {others : List Edge} {place : Nat}

/-! ### Cutting an edge -/

/-- **The edge into a node has been cut** at a place of its label, under a new node. -/
structure EdgeCut (arena : Arena α) (id : NodeRef) (node : Node α) (place : Nat) (branch : NodeRef)
    (after : Arena α) : Prop where
  /-- No node was in the slot of the new one. -/
  fresh : ∀ old, arena.node branch ≠ .ok old
  /-- That slot is one that there was, or the next one. -/
  near : branch ≤ arena.slots.size
  /-- The new node has the first part of the label and no value. The old node is its only child, under
  the byte at the place. -/
  upper : ∃ byte, node.label[place]? = some byte ∧
    after.node branch = .ok ⟨node.label.take place, [⟨byte, id⟩], none⟩
  /-- The old node keeps the rest of the label, and its children and value. -/
  lower : after.node id = .ok { node with label := node.label.drop place }
  others : ∀ other, other ≠ id → other ≠ branch → after.node other = arena.node other
  live : after.live = arena.live + 1
  listed : after.ListsVacant

/-- **Cutting an edge inside its label never fails.** -/
theorem ListsVacant.exists_cutEdge (listed : arena.ListsVacant) (found : arena.node id = .ok node)
    (inside : place < node.label.length) :
    ∃ branch after, arena.cutEdge id place = .ok (branch, after) ∧
      arena.EdgeCut id node place branch after := by
  have rest : node.label.drop place = node.label[place] :: node.label.drop (place + 1) :=
    List.drop_eq_getElem_cons inside
  -- The label is cut where it is, and only then the slot of the new node taken into use.
  let shortened := arena.put id { node with label := node.label.drop place }
  let new : Node α := ⟨node.label.take place, [⟨node.label[place], id⟩], none⟩
  have lower : shortened.node id = .ok { node with label := node.label.drop place } :=
    node_put_same found
  have listed' : shortened.ListsVacant := listed.put found _
  obtain ⟨branch, after, takes⟩ := listed'.exists_alloc new
  have apart : id ≠ branch := by
    rintro rfl
    exact listed'.node_alloc_ne takes _ lower
  have goes : arena.cutEdge id place = .ok (branch, after) := by
    rw [cutEdge, found, ok_bind, rest]
    simpa only [shortened, new, rest] using takes
  refine ⟨branch, after, goes, ?_⟩
  constructor
  case fresh =>
    intro old live
    rw [← node_put_other apart.symm] at live
    exact listed'.node_alloc_ne takes old live
  case near => exact (alloc_le_size takes).trans_eq Array.size_setIfInBounds
  case upper => exact ⟨node.label[place], List.getElem?_eq_getElem inside, node_alloc_same takes⟩
  case lower => exact (node_alloc_other takes apart).trans lower
  case others =>
    intro other notOld notNew
    rw [node_alloc_other takes notNew, node_put_other notOld]
  case live => exact (live_alloc takes :)
  case listed => exact listed'.alloc takes

/-! ### Folding a child -/

/-- **A child has been folded into its parent.** -/
structure ChildFolded (arena : Arena α) (id : NodeRef) (node : Node α) (below : NodeRef) (child : Node α)
    (after : Arena α) : Prop where
  /-- The parent has both labels, and the children and the value of the child. -/
  joined : after.node id = .ok { child with label := node.label ++ child.label }
  vacant : after.slots[below]? = some none
  others : ∀ other, other ≠ id → other ≠ below → after.node other = arena.node other
  live : after.live = arena.live - 1
  listed : after.ListsVacant

/-- **Folding a child that is in use never fails.** -/
theorem ListsVacant.exists_absorb (listed : arena.ListsVacant) (found : arena.node id = .ok node)
    (children : node.children = edge :: others) (below : arena.node edge.child = .ok child)
    (apart : edge.child ≠ id) : ∃ after, arena.absorb id = .ok (edge.child, after) ∧
      arena.ChildFolded id node edge.child child after := by
  obtain ⟨middle, gives, listed', vacant, elsewhere, live⟩ := listed.exists_release below
  have found' : middle.node id = .ok node := (elsewhere id apart.symm).trans found
  have goes : arena.absorb id =
      .ok (edge.child, middle.put id { child with label := node.label ++ child.label }) := by
    rw [absorb, found, ok_bind, children]
    dsimp only
    rw [gives, ok_bind]
    dsimp only
    rw [found']
    rfl
  refine ⟨_, goes, ?_⟩
  constructor
  case joined => exact node_put_same found'
  case vacant => rwa [Arena.put, Array.getElem?_setIfInBounds_ne apart.symm]
  case others =>
    intro other notParent notChild
    rw [node_put_other notParent, elsewhere other notChild]
  case live => exact live
  case listed => exact listed'.put found' _

/-! ### One after the other -/

/-- **A node has moved to another slot**: nothing else is different. -/
structure Relocated (arena : Arena α) (id : NodeRef) (node : Node α) (branch : NodeRef)
    (after : Arena α) : Prop where
  here : after.node branch = .ok node
  vacant : after.slots[id]? = some none
  others : ∀ other, other ≠ id → other ≠ branch → after.node other = arena.node other
  live : after.live = arena.live
  listed : after.ListsVacant

/-- **Folding undoes cutting**, wherever the edge is cut. In an arena with a sound free list and fewer
slots than 32 bits can number, cutting the edge into a node puts a new node above it, which 32 bits
can number too; and folding that one leaves it as the old node was, and the slot of the old one
vacant. Neither changes any other node. -/
theorem folding_undoes_cutting (listed : arena.ListsVacant) (room : arena.slots.size < UInt32.size)
    (found : arena.node id = .ok node) (inside : place < node.label.length) :
    ∃ branch middle after, arena.cutEdge id place = .ok (branch, middle) ∧ branch < UInt32.size ∧
      arena.EdgeCut id node place branch middle ∧
      middle.absorb branch = .ok (id, after) ∧ arena.Relocated id node branch after := by
  obtain ⟨branch, middle, cuts, isCut⟩ := listed.exists_cutEdge found inside
  obtain ⟨byte, _, upper⟩ := isCut.upper
  have apart : id ≠ branch := by
    rintro rfl
    exact isCut.fresh node found
  obtain ⟨after, folds, folded⟩ := isCut.listed.exists_absorb upper rfl isCut.lower apart
  have whole : node.label.take place ++ node.label.drop place = node.label :=
    List.take_append_drop place node.label
  refine ⟨branch, middle, after, cuts, isCut.near.trans_lt room, isCut, folds, ?_⟩
  constructor
  case here =>
    rw [folded.joined]
    dsimp only
    rw [whole]
  case vacant => exact folded.vacant
  case others =>
    intro other notOld notNew
    rw [folded.others other notNew notOld, isCut.others other notOld notNew]
  case live => rw [folded.live, isCut.live, Nat.add_sub_cancel]
  case listed => exact folded.listed

/-- The edge 7 1 8, which leads to a branch, is cut before its first byte: the vacant slot 1 is taken
into use, and after the folding slot 0 is vacant in its stead. -/
theorem cut_at_start_undone : ∃ arena middle after : Arena Nat, arena.ListsVacant ∧
    arena.node 0 = .ok ⟨[7, 1, 8], [⟨2, 2⟩, ⟨3, 3⟩], none⟩ ∧
    arena.cutEdge 0 0 = .ok (1, middle) ∧ middle.node 1 = .ok ⟨[], [⟨7, 0⟩], none⟩ ∧
    middle.absorb 1 = .ok (0, after) ∧ after.free = [0] ∧
    arena.Relocated 0 ⟨[7, 1, 8], [⟨2, 2⟩, ⟨3, 3⟩], none⟩ 1 after := by
  let arena : Arena Nat := ⟨#[some ⟨[7, 1, 8], [⟨2, 2⟩, ⟨3, 3⟩], none⟩, none,
    some ⟨[2], [], some 4⟩, some ⟨[3], [], some 5⟩], [1], 3, 4, 1⟩
  have listed : arena.ListsVacant := by
    refine ⟨fun id => ?_, by decide⟩
    rcases id with _ | _ | _ | _ | id <;> simp [arena]
  have found : arena.node 0 = .ok ⟨[7, 1, 8], [⟨2, 2⟩, ⟨3, 3⟩], none⟩ := rfl
  obtain ⟨branch, middle, after, cuts, _, _, folds, moved⟩ :=
    @folding_undoes_cutting Nat arena 0 _ 0 listed (by decide) found (by decide)
  cases cuts
  cases folds
  exact ⟨arena, _, _, listed, found, rfl, rfl, rfl, rfl, moved⟩

end RadixLog.Arena
