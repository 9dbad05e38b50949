/-
**What an arena stores.**

An arena stores a list of numbered nodes when its occupied slots hold exactly these nodes and its
bookkeeping is right: the free list names every vacant slot once, and the live count is the number
of nodes. The order of the list does not matter. Each operation takes or gives one node:

* `alloc_cases`: where a slot is taken from;
* `Stores.put`, `Stores.alloc`, `Stores.release`: a node is replaced, added, taken away;
* `Stores.clear`, `Stores.shrink`, `Stores.copy`: what is stored is given up, or kept;
* `Holds`: the part that reading needs, which damage to other slots does not break;
* `ListsVacant`: the part that taking slots into use needs, whatever is counted.
-/

import Mathlib.Data.List.DropRight
import Mathlib.Data.List.Perm.Subperm
import RadixLog.Arena

namespace RadixLog.Arena

variable {α : Type} {arena after : Arena α} {id other : NodeRef} {node old new : Node α}
  {nodes rest : List (NodeRef × Node α)}

/-! ### Reading after writing -/

theorem node_eq_ok : arena.node id = .ok node ↔ arena.slots[id]? = some (some node) := by
  unfold Arena.node
  split <;> simp_all

theorem lt_size_of_node (found : arena.node id = .ok node) : id < arena.slots.size :=
  (Array.getElem?_eq_some_iff.mp (node_eq_ok.mp found)).1

theorem node_put_same (found : arena.node id = .ok old) : (arena.put id new).node id = .ok new := by
  simp [node_eq_ok, put, lt_size_of_node found]

theorem node_put_other (different : other ≠ id) :
    (arena.put id new).node other = arena.node other := by
  simp [Arena.node, put, different.symm]

/-! ### Taking a slot into use -/

/-- **Where a slot is taken from**: the head of the free list, which must name a slot that there is; or,
with nothing on the list, from the end. -/
theorem alloc_cases (takes : arena.alloc new = .ok (id, after)) :
    (∃ others, arena.free = id :: others ∧ id < arena.slots.size ∧
      after = { arena.put id new with free := others, live := arena.live + 1 }) ∨
    (arena.free = [] ∧ id = arena.slots.size ∧
      after = { arena with
        slots := arena.slots.push (some new)
        live := arena.live + 1
        slotRoom := max arena.slotRoom (arena.slots.push (some new)).size }) := by
  unfold Arena.alloc at takes
  split at takes
  next first others free =>
    split_ifs at takes with inside
    cases takes
    exact .inl ⟨others, free, inside, rfl⟩
  next free =>
    cases takes
    exact .inr ⟨free, rfl, rfl⟩

theorem node_alloc_same (takes : arena.alloc new = .ok (id, after)) : after.node id = .ok new := by
  obtain ⟨others, -, inside, rfl⟩ | ⟨-, rfl, rfl⟩ := alloc_cases takes
  · simp [node_eq_ok, Arena.put, inside]
  · simp [node_eq_ok]

/-- Taking a slot into use changes no other one. -/
theorem node_alloc_other (takes : arena.alloc new = .ok (id, after)) (different : other ≠ id) :
    after.node other = arena.node other := by
  obtain ⟨others, -, -, rfl⟩ | ⟨-, rfl, rfl⟩ := alloc_cases takes
  · exact node_put_other different
  · unfold Arena.node
    dsimp only
    rw [Array.getElem?_push, if_neg different]

theorem live_alloc (takes : arena.alloc new = .ok (id, after)) : after.live = arena.live + 1 := by
  obtain ⟨others, -, -, rfl⟩ | ⟨-, -, rfl⟩ := alloc_cases takes <;> rfl

theorem alloc_le_size (takes : arena.alloc new = .ok (id, after)) : id ≤ arena.slots.size := by
  obtain ⟨others, -, inside, -⟩ | ⟨-, rfl, -⟩ := alloc_cases takes
  · exact Nat.le_of_lt inside
  · exact Nat.le_refl _

/-! ### The free list -/

/-- **The free list is sound**: it names the vacant slots, and each of them once. -/
structure ListsVacant (arena : Arena α) : Prop where
  vacant : ∀ id, id ∈ arena.free ↔ arena.slots[id]? = some none
  freeDistinct : arena.free.Nodup

namespace ListsVacant

/-- The first slot of the free list is there, and vacant. -/
theorem head (listed : arena.ListsVacant) {others : List NodeRef} (free : arena.free = id :: others) :
    arena.slots[id]? = some none := (listed.vacant id).mp (by simp [free])

/-- **A slot can be taken into use.** -/
theorem exists_alloc (listed : arena.ListsVacant) (new : Node α) :
    ∃ id after, arena.alloc new = .ok (id, after) := by
  unfold Arena.alloc
  cases free : arena.free with
  | cons id others =>
    have inside : id < arena.slots.size := (Array.getElem?_eq_some_iff.mp (listed.head free)).1
    exact ⟨_, _, if_pos inside⟩
  | nil => exact ⟨_, _, rfl⟩

/-- **A slot that is taken into use was vacant.** -/
theorem node_alloc_ne (listed : arena.ListsVacant) (takes : arena.alloc new = .ok (id, after))
    (old : Node α) : arena.node id ≠ .ok old := by
  obtain ⟨others, free, -, -⟩ | ⟨-, rfl, -⟩ := alloc_cases takes
  · simp [node_eq_ok, listed.head free]
  · simp [node_eq_ok]

theorem put (listed : arena.ListsVacant) (found : arena.node id = .ok old) (new : Node α) :
    (arena.put id new).ListsVacant where
  vacant := by
    intro other
    have occupied := node_eq_ok.mp found
    rw [Arena.put, listed.vacant, Array.getElem?_setIfInBounds]
    split_ifs with same <;> simp_all
  freeDistinct := listed.freeDistinct

theorem alloc (listed : arena.ListsVacant) (takes : arena.alloc new = .ok (id, after)) :
    after.ListsVacant := by
  obtain ⟨others, free, inside, rfl⟩ | ⟨free, rfl, rfl⟩ := alloc_cases takes
  · have freeDistinct := List.nodup_cons.mp (free ▸ listed.freeDistinct)
    refine ⟨fun other => ?_, freeDistinct.2⟩
    have before := listed.vacant other
    rw [free, List.mem_cons] at before
    simp only [Arena.put, Array.getElem?_setIfInBounds]
    split_ifs with same
    · simp [← same, freeDistinct.1]
    · simp [← before, Ne.symm same]
  · refine ⟨fun other => ?_, listed.freeDistinct⟩
    have before := listed.vacant other
    dsimp only
    rw [Array.getElem?_push]
    split_ifs with same
    · simp [free]
    · exact before

/-- **A slot that is given back becomes vacant**, and no other one changes. -/
theorem exists_release (listed : arena.ListsVacant) (found : arena.node id = .ok old) :
    ∃ after, arena.release id = .ok (old, after) ∧ after.ListsVacant ∧
      after.slots[id]? = some none ∧ (∀ other, other ≠ id → after.node other = arena.node other) ∧
      after.live = arena.live - 1 := by
  have inside := lt_size_of_node found
  have elsewhere : ∀ other, other ≠ id →
      (arena.slots.setIfInBounds id none)[other]? = arena.slots[other]? := by
    intro other different
    rw [Array.getElem?_setIfInBounds, if_neg different.symm]
  refine ⟨_, by rw [Arena.release, found]; rfl, ⟨fun other => ?_, ?_⟩, by simp [inside],
    fun other different => ?_, rfl⟩
  · show other ∈ id :: arena.free ↔ _
    rw [List.mem_cons, listed.vacant]
    by_cases same : other = id
    · simp [same, inside]
    · simp [same, elsewhere other same]
  · refine List.nodup_cons.mpr ⟨fun member => ?_, listed.freeDistinct⟩
    cases ((listed.vacant id).mp member).symm.trans (node_eq_ok.mp found)
  · unfold Arena.node
    dsimp only
    rw [elsewhere other different]

end ListsVacant

/-! ### Holding and storing -/

/-- These nodes live in the arena, each in a slot of its own. -/
structure Holds (arena : Arena α) (nodes : List (NodeRef × Node α)) : Prop where
  read : ∀ {id node}, (id, node) ∈ nodes → arena.node id = .ok node
  distinct : (nodes.map Prod.fst).Nodup

/-- **These nodes and no others live in the arena**, and its bookkeeping is right. -/
structure Stores (arena : Arena α) (nodes : List (NodeRef × Node α)) : Prop
    extends Holds arena nodes where
  only : ∀ {id node}, arena.node id = .ok node → (id, node) ∈ nodes
  vacant : ∀ id, id ∈ arena.free ↔ arena.slots[id]? = some none
  freeDistinct : arena.free.Nodup
  counted : arena.live = nodes.length

theorem Stores.listsVacant (stores : arena.Stores nodes) : arena.ListsVacant :=
  ⟨stores.vacant, stores.freeDistinct⟩

theorem Holds.perm (holds : arena.Holds nodes) (same : nodes.Perm rest) : arena.Holds rest :=
  ⟨fun member => holds.read (same.mem_iff.mpr member), (same.map _).nodup_iff.mp holds.distinct⟩

theorem Stores.perm (stores : arena.Stores nodes) (same : nodes.Perm rest) : arena.Stores rest :=
  { stores.toHolds.perm same with
    only := fun found => same.mem_iff.mp (stores.only found)
    vacant := stores.vacant
    freeDistinct := stores.freeDistinct
    counted := stores.counted.trans same.length_eq }

theorem Holds.length_le (holds : arena.Holds nodes) : nodes.length ≤ arena.slots.size := by
  have inside : nodes.map Prod.fst ⊆ List.range arena.slots.size := by
    intro id member
    obtain ⟨⟨_, node⟩, found, rfl⟩ := List.mem_map.mp member
    exact List.mem_range.mpr (lt_size_of_node (holds.read found))
  simpa using (List.subperm_of_subset holds.distinct inside).length_le

theorem Holds.read_head (holds : arena.Holds ((id, node) :: rest)) : arena.node id = .ok node :=
  holds.read List.mem_cons_self

theorem Holds.ne_of_mem (holds : arena.Holds ((id, node) :: rest)) (member : (other, old) ∈ rest) :
    other ≠ id := by
  rintro rfl
  exact (List.nodup_cons.mp holds.distinct).1 (List.mem_map.mpr ⟨_, member, rfl⟩)

/-! ### One node replaced, added or taken away -/

/-- **A node is replaced.** -/
theorem Stores.put (stores : arena.Stores ((id, old) :: rest)) (new : Node α) :
    (arena.put id new).Stores ((id, new) :: rest) :=
  { stores.listsVacant.put stores.read_head new with
    read := by
      intro other node member
      rcases List.mem_cons.mp member with same | later
      · obtain ⟨rfl, rfl⟩ := Prod.mk.inj same
        exact node_put_same stores.read_head
      · rw [node_put_other (stores.ne_of_mem later)]
        exact stores.read (List.mem_cons_of_mem _ later)
    distinct := stores.distinct
    only := by
      intro other node found
      by_cases same : other = id
      · subst same
        rw [node_put_same stores.read_head] at found
        simp [Except.ok.inj found]
      · rw [node_put_other same] at found
        have member := stores.only found
        simp_all
    counted := stores.counted }

/-- **A node is added**, in a slot that none of the others has. -/
theorem Stores.alloc (stores : arena.Stores nodes) (takes : arena.alloc new = .ok (id, after)) :
    after.Stores ((id, new) :: nodes) :=
  { stores.listsVacant.alloc takes with
    read := by
      intro other node member
      rcases List.mem_cons.mp member with same | later
      · obtain ⟨rfl, rfl⟩ := Prod.mk.inj same
        exact node_alloc_same takes
      · have found := stores.read later
        have different : other ≠ id :=
          fun same => stores.listsVacant.node_alloc_ne takes node (same ▸ found)
        rwa [node_alloc_other takes different]
    distinct := by
      refine List.nodup_cons.mpr ⟨fun member => ?_, stores.distinct⟩
      obtain ⟨⟨_, node⟩, found, rfl⟩ := List.mem_map.mp member
      exact stores.listsVacant.node_alloc_ne takes node (stores.read found)
    only := by
      intro other node found
      by_cases same : other = id
      · rw [same, node_alloc_same takes] at found
        simp [same, Except.ok.inj found]
      · rw [node_alloc_other takes same] at found
        exact List.mem_cons_of_mem _ (stores.only found)
    counted := by
      rw [live_alloc takes, stores.counted, List.length_cons] }

theorem Stores.exists_alloc (stores : arena.Stores nodes) (new : Node α) :
    ∃ id after, arena.alloc new = .ok (id, after) ∧ after.Stores ((id, new) :: nodes) := by
  obtain ⟨id, after, takes⟩ := stores.listsVacant.exists_alloc new
  exact ⟨id, after, takes, stores.alloc takes⟩

/-- **A node is taken away**, and its slot becomes vacant. -/
theorem Stores.release (stores : arena.Stores ((id, old) :: rest)) :
    ∃ after, arena.release id = .ok (old, after) ∧ after.Stores rest := by
  obtain ⟨after, gives, listed, vacant, elsewhere, live⟩ :=
    stores.listsVacant.exists_release stores.read_head
  refine ⟨after, gives, { listed with read := ?_, distinct := ?_, only := ?_, counted := ?_ }⟩
  · intro other node member
    rw [elsewhere other (stores.ne_of_mem member)]
    exact stores.read (List.mem_cons_of_mem _ member)
  · exact (List.nodup_cons.mp stores.distinct).2
  · intro other node found
    by_cases same : other = id
    · rw [node_eq_ok, same, vacant] at found
      cases found
    · rw [elsewhere other same] at found
      have member := stores.only found
      simp_all
  · rw [live, stores.counted, List.length_cons, Nat.add_sub_cancel]

/-! ### The whole arena -/

theorem Stores.empty (capacity : Nat) : (Arena.empty capacity : Arena α).Stores [] where
  read := by simp
  distinct := List.nodup_nil
  only := by simp [node_eq_ok, Arena.empty]
  vacant := by simp [Arena.empty]
  freeDistinct := List.nodup_nil
  counted := rfl

theorem Stores.clear (arena : Arena α) : arena.clear.Stores [] where
  read := by simp
  distinct := List.nodup_nil
  only := by simp [node_eq_ok, Arena.clear]
  vacant := by simp [Arena.clear]
  freeDistinct := List.nodup_nil
  counted := rfl

theorem Stores.copy (stores : arena.Stores nodes) : arena.copy.Stores nodes where
  read := stores.read
  distinct := stores.distinct
  only := stores.only
  vacant := stores.vacant
  freeDistinct := stores.freeDistinct
  counted := stores.counted

/-- The slots given up by shrinking are vacant ones at the end. -/
theorem exists_occupiedPart_append (slots : Array (Option (Node α))) :
    ∃ tail, slots.toList = (occupiedPart slots).toList ++ tail ∧ ∀ slot ∈ tail, slot = none :=
  ⟨slots.toList.rtakeWhile Option.isNone, List.rdropWhile_append_rtakeWhile.symm,
    fun _ member => Option.isNone_iff_eq_none.mp (List.mem_rtakeWhile_imp member)⟩

theorem getElem?_occupiedPart_eq_some (slots : Array (Option (Node α))) (id : NodeRef) :
    (occupiedPart slots)[id]? = some (some node) ↔ slots[id]? = some (some node) := by
  obtain ⟨tail, split, vacant⟩ := exists_occupiedPart_append slots
  rw [← Array.getElem?_toList, ← Array.getElem?_toList, split, List.getElem?_append]
  split_ifs with inside
  · rfl
  · rw [List.getElem?_eq_none (Nat.not_lt.mp inside)]
    refine iff_of_false (by simp) fun found => ?_
    simpa using vacant _ (List.mem_of_getElem? found)

theorem getElem?_occupiedPart_eq_none (slots : Array (Option (Node α))) (id : NodeRef) :
    (occupiedPart slots)[id]? = some none ↔
      slots[id]? = some none ∧ id < (occupiedPart slots).size := by
  obtain ⟨tail, split, _⟩ := exists_occupiedPart_append slots
  rw [← Array.getElem?_toList, ← Array.getElem?_toList, split, List.getElem?_append]
  split_ifs with inside
  · simp_all
  · rw [List.getElem?_eq_none (Nat.not_lt.mp inside)]
    simp_all

/-- Shrinking moves no node. -/
theorem node_shrink (arena : Arena α) (id : NodeRef) : arena.shrink.node id = arena.node id := by
  have same : ∀ node, arena.shrink.slots[id]? = some (some node) ↔
      arena.slots[id]? = some (some node) := fun _ => getElem?_occupiedPart_eq_some _ _
  unfold Arena.node
  cases found : arena.slots[id]? with
  | none => simp_all
  | some slot =>
    cases slot with
    | none => simp_all
    | some node => rw [(same node).mpr found]

/-- **Shrinking keeps what is stored.** -/
theorem Stores.shrink (stores : arena.Stores nodes) : arena.shrink.Stores nodes where
  read := fun member => (node_shrink arena _).trans (stores.read member)
  distinct := stores.distinct
  only := fun found => stores.only ((node_shrink arena _).symm.trans found)
  vacant := by
    intro other
    simp only [Arena.shrink, List.mem_filter, stores.vacant, decide_eq_true_eq]
    exact (getElem?_occupiedPart_eq_none _ _).symm
  freeDistinct := stores.freeDistinct.filter _
  counted := stores.counted

end RadixLog.Arena
