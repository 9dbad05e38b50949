/-
**Shrinking gives up room and nothing else.**

Shrinking drops the vacant slots at the end and what room is to spare. No node moves, so the tree
represents the same register, and trees that represent the same register cannot be told apart by
what operations answer or leave behind, though they may take different slots into use from then on.

* `Arena.back?_occupiedPart`, `Arena.shrink_shrink`: no vacant slot is left at the end, and there is
  nothing to give up twice;
* `Arena.Stores.shrink_rooms`: an arena without nodes gives up all its room;
* `Tree.Shrinks`, `Tree.Shows.shrinks`: what shrinking does to a tree;
* `Tree.Alike`, `Tree.Represents.alike`: trees that represent the same register look alike;
* `Tree.Represents.runAll_alike`: and they go on to, whatever operations follow.
-/

import RadixLog.Proofs.Cursor.Sweep
import RadixLog.Proofs.Tree.Canonical

namespace RadixLog

variable {α : Type}

/-! ### Slots -/

namespace Arena

variable {arena : Arena α} {nodes : List (NodeRef × Node α)}

theorem toList_occupiedPart (slots : Array (Option (Node α))) :
    (occupiedPart slots).toList = slots.toList.rdropWhile Option.isNone := rfl

theorem occupiedPart_occupiedPart (slots : Array (Option (Node α))) :
    occupiedPart (occupiedPart slots) = occupiedPart slots :=
  congrArg List.toArray (List.rdropWhile_idempotent Option.isNone slots.toList)

/-- **The last slot that is left is not vacant.** -/
theorem back?_occupiedPart (slots : Array (Option (Node α))) :
    (occupiedPart slots).back? ≠ some none := by
  intro last
  rw [← Array.getLast?_toList, toList_occupiedPart] at last
  have nonempty : slots.toList.rdropWhile Option.isNone ≠ [] := by
    intro bare
    rw [bare] at last
    cases last
  rw [List.getLast?_eq_some_getLast nonempty, Option.some.injEq] at last
  exact List.rdropWhile_last_not Option.isNone slots.toList nonempty
    (Option.isNone_iff_eq_none.mpr last)

/-- **Shrinking twice is shrinking once.** -/
theorem shrink_shrink (arena : Arena α) : arena.shrink.shrink = arena.shrink := by
  unfold shrink
  simp only [occupiedPart_occupiedPart, List.filter_filter, Bool.and_self]

/-- **All room is given up** if and only if there are no nodes. -/
theorem Stores.shrink_rooms (stores : arena.Stores nodes) :
    arena.shrink.slotRoom = 0 ∧ arena.shrink.freeRoom = 0 ↔ nodes = [] := by
  constructor
  · rintro ⟨bare, _⟩
    refine List.eq_nil_iff_forall_not_mem.mpr fun ⟨id, node⟩ member => ?_
    have inside : id < arena.shrink.slots.size := lt_size_of_node (stores.shrink.read member)
    exact Nat.not_lt_zero id (bare ▸ inside)
  · rintro rfl
    have bare : occupiedPart arena.slots = #[] := by
      cases last : (occupiedPart arena.slots).back? with
      | none => exact Array.back?_eq_none_iff.mp last
      | some slot =>
        cases slot with
        | none => exact absurd last (back?_occupiedPart arena.slots)
        | some node =>
          rw [Array.back?_eq_getElem?] at last
          cases stores.shrink.only (node_eq_ok.mpr last)
    have places : arena.shrink.free = [] := by
      show arena.free.filter (· < (occupiedPart arena.slots).size) = []
      rw [bare]
      exact List.filter_eq_nil_iff.mpr fun id _ => by simp
    exact ⟨congrArg Array.size bare, congrArg List.length places⟩

end Arena

namespace Tree

variable {tree other : Tree α} {trunk : Trunk α} {register : Register α}

/-! ### One tree -/

/-- A tree without keys has no nodes. -/
theorem Shows.size_eq_zero_iff (shows : tree.Shows trunk) : tree.size = 0 ↔ trunk.nodes = [] := by
  rw [shows.size]
  cases trunk with
  | none => exact iff_of_true rfl rfl
  | some whole =>
    have entries : whole.entries [] ≠ [] := (shows.sound whole rfl).entries_ne_nil []
    refine iff_of_false (mt List.length_eq_zero_iff.mp entries) ?_
    rw [Trunk.nodes, Subtree.nodes_eq]
    exact List.cons_ne_nil _ _

/-- **What shrinking does to a tree.** -/
structure Shrinks (tree : Tree α) : Prop where
  /-- Every node stays in its slot, with its label, its children and its value. -/
  nodes : ∀ id, tree.shrink.arena.node id = tree.arena.node id
  root : tree.shrink.root = tree.root
  size : tree.shrink.size = tree.size
  nodeCount : tree.shrink.nodeCount = tree.nodeCount
  generation : tree.shrink.generation = tree.generation
  identity : tree.shrink.identity = tree.identity
  /-- Only vacant slots at the end are dropped, and all of them. -/
  slots : ∃ dropped, tree.arena.slots.toList = tree.shrink.arena.slots.toList ++ dropped ∧
    ∀ slot ∈ dropped, slot = none
  last : tree.shrink.arena.slots.back? ≠ some none
  /-- The free list names the vacant slots that are left, once each and in the same order. -/
  vacant : ∀ id, id ∈ tree.shrink.arena.free ↔ tree.shrink.arena.slots[id]? = some none
  order : tree.shrink.arena.free.Sublist tree.arena.free
  once : tree.shrink.arena.free.Nodup
  twice : tree.shrink.shrink = tree.shrink
  /-- A tree without keys holds no memory, and every other one does. -/
  memory : tree.shrink.arena.holdsMemory = false ↔ tree.isEmpty = true
  bytes : ∀ slotBytes refBytes, slotBytes ≠ 0 → refBytes ≠ 0 →
    (tree.shrink.arena.slotRoom * slotBytes + tree.shrink.arena.freeRoom * refBytes = 0 ↔
      tree.isEmpty = true)

theorem Shows.shrinks (shows : tree.Shows trunk) : tree.Shrinks := by
  have stores := shows.stores.shrink
  have rooms : tree.shrink.arena.slotRoom = 0 ∧ tree.shrink.arena.freeRoom = 0 ↔
      tree.isEmpty = true := by
    rw [isEmpty, beq_iff_eq, shows.size_eq_zero_iff]
    exact shows.stores.shrink_rooms
  exact
    { nodes := Arena.node_shrink tree.arena
      root := rfl
      size := rfl
      nodeCount := rfl
      generation := rfl
      identity := rfl
      slots := Arena.exists_occupiedPart_append tree.arena.slots
      last := Arena.back?_occupiedPart tree.arena.slots
      vacant := stores.vacant
      order := List.filter_sublist
      once := stores.freeDistinct
      twice := congrArg (fun arena => { tree with arena }) (Arena.shrink_shrink tree.arena)
      memory := by rw [← rooms, Arena.holdsMemory]; simp
      bytes := by
        intro slotBytes refBytes slot ref
        rw [← rooms, Nat.add_eq_zero_iff, Nat.mul_eq_zero, Nat.mul_eq_zero,
          or_iff_left slot, or_iff_left ref] }

/-! ### Two trees -/

/-- **Two trees look alike**: their counts, their outlines and all their values are the same, and so
is all that scans of them hand out. Their nodes may be in different slots. -/
structure Alike (tree other : Tree α) : Prop where
  identity : tree.identity = other.identity
  generation : tree.generation = other.generation
  size : tree.size = other.size
  nodeCount : tree.nodeCount = other.nodeCount
  outline : ∃ text, tree.outline = .ok text ∧ other.outline = .ok text
  values : ∀ key, ∃ value, tree.find? key = .ok value ∧ other.find? key = .ok value
  scans : ∀ moves, ∃ items scan scan', (Scan.ofTree tree).runAll moves = .ok (items, scan) ∧
    (Scan.ofTree other).runAll moves = .ok (items, scan')

namespace Represents

/-- **Trees that represent the same register look alike.** -/
theorem alike (represents : tree.Represents register) (represents' : other.Represents register)
    (identity : tree.identity = other.identity) : tree.Alike other := by
  obtain ⟨trunk, shows, entries⟩ := represents.shows
  obtain ⟨trunk', shows', entries'⟩ := represents'.shows
  obtain ⟨outline, nodeCount⟩ := shows.same_shape shows' (by rw [entries, entries'])
  exact
    { identity
      generation := represents.generation.trans represents'.generation.symm
      size := represents.size.trans represents'.size.symm
      nodeCount
      outline
      values := fun key => ⟨_, represents.find? key, represents'.find? key⟩
      scans := by
        intro moves
        obtain ⟨scan, runs, _⟩ := (Scan.Sweeps.start tree trunk).runAll shows entries moves
        obtain ⟨scan', runs', _⟩ := (Scan.Sweeps.start other trunk').runAll shows' entries' moves
        exact ⟨_, scan, scan', runs, runs'⟩ }

/-- **They go on to look alike**, and answer the same, whatever operations follow. -/
theorem runAll_alike (represents : tree.Represents register)
    (represents' : other.Represents register) (identity : tree.identity = other.identity)
    (operations : List (Operation α)) : ∃ answers later later',
      Operation.runAll tree operations = .ok (later, answers) ∧
        Operation.runAll other operations = .ok (later', answers) ∧ later.Alike later' := by
  induction operations generalizing tree other register with
  | nil => exact ⟨[], tree, other, rfl, rfl, represents.alike represents' identity⟩
  | cons operation operations ih =>
    obtain ⟨change, runs, follows⟩ := represents.run operation
    obtain ⟨change', runs', follows'⟩ := represents'.run operation
    have same : change.tree.identity = change'.tree.identity :=
      follows.identity.trans (identity.trans follows'.identity.symm)
    obtain ⟨answers, later, later', goes, goes', alike⟩ :=
      ih follows.represents follows'.represents same
    refine ⟨change.previous :: answers, later, later', ?_, ?_, alike⟩
    · rw [Operation.runAll, runs, ok_bind, goes]
      rfl
    · rw [Operation.runAll, runs', ok_bind, goes', follows.previous, ← follows'.previous]
      rfl

end Represents

end Tree

end RadixLog
