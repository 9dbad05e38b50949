/-
**The integrity of trees.**

A tree is intact when a walk from its root meets every node in use exactly once and finds each as
path compression promises, and its size is the number of keys met. The integrity check reports
nothing on an intact tree, and operations keep trees intact.

* `Tree.Intact`: what a walk over the tree finds;
* `Tree.Intact.violations`: the integrity check reports nothing;
* `Tree.Shows.intact`: a tree that shows a trunk is intact;
* `Tree.Reachable.stays_intact`: so is every tree that operations lead to.
-/

import RadixLog.Proofs.Subtree.Walk
import RadixLog.Proofs.Tree.Register
import RadixLog.Tree.Integrity

namespace RadixLog

variable {α : Type}

/-- **A tree is intact**, as these visits of the walk over it show. -/
structure Tree.Intact (tree : Tree α) (visits : List (Visit α)) : Prop where
  /-- These are the visits of the walk from the root. -/
  walk : tree.visits = .ok visits
  /-- A node without a value has at least two children. -/
  full : ∀ visit ∈ visits, visit.node.value = none → 2 ≤ visit.node.children.length
  /-- A node other than the root has a label. -/
  labelled : ∀ visit ∈ visits, tree.root ≠ some visit.id → visit.node.label ≠ []
  /-- Children stand in strictly ascending order of bytes. -/
  sorted : ∀ visit ∈ visits, Edge.Sorted visit.node.children
  /-- The byte that leads to a child is the first of its label. -/
  headed : ∀ visit ∈ visits, ∀ edge ∈ visit.node.children,
    ∃ child, tree.arena.node edge.child = .ok child ∧ child.label.head? = some edge.byte
  /-- The nodes in use are those visited. -/
  live : ∀ id node, tree.arena.node id = .ok node ↔
    ∃ visit ∈ visits, visit.id = id ∧ visit.node = node
  /-- No node is visited twice. -/
  once : (visits.map Visit.id).Nodup
  nodeCount : tree.nodeCount = visits.length
  /-- The size is the number of keys. -/
  size : tree.size = visits.countP (·.node.keyed)
  rootless : tree.root = none ↔ tree.isEmpty = true

/-! ### The integrity check -/

theorem Edge.Sorted.ascending {edges : List Edge} (sorted : Edge.Sorted edges) :
    ascending edges = true := by
  induction edges with
  | nil => rfl
  | cons first edges ih =>
    cases edges with
    | nil => rfl
    | cons second edges =>
      obtain ⟨lower, rest⟩ := List.pairwise_cons.mp sorted
      rw [RadixLog.ascending, ih rest, decide_eq_true (lower second List.mem_cons_self)]
      rfl

namespace Tree.Intact

variable {tree : Tree α} {visits : List (Visit α)}

/-- At no node is there anything to report. -/
theorem visit_violations (intact : tree.Intact visits) {visit : Visit α} (member : visit ∈ visits) :
    visit.violations tree.arena tree.root = .ok [] := by
  have misplaced : visit.node.children.mapM (tree.arena.edgeViolation visit.path) =
      .ok (visit.node.children.map fun _ => []) := by
    refine mapM_eq_ok fun edge inside => ?_
    obtain ⟨child, read, first⟩ := intact.headed visit member edge inside
    rw [Arena.edgeViolation, read, ok_bind, first]
    exact congrArg Except.ok (if_pos rfl)
  have full : ¬ (!visit.node.keyed && visit.node.children.length < 2) = true := by
    intro sparse
    rw [Bool.and_eq_true, Node.keyed, Bool.not_eq_true', Option.isSome_eq_false_iff,
      Option.isNone_iff_eq_none, decide_eq_true_eq] at sparse
    exact absurd (intact.full visit member sparse.1) (Nat.not_le_of_lt sparse.2)
  have labelled : ¬ (tree.root ≠ some visit.id ∧ visit.node.label = []) :=
    fun bare => intact.labelled visit member bare.1 bare.2
  rw [Visit.violations, misplaced, ok_bind, if_neg full, if_neg labelled,
    if_pos (intact.sorted visit member).ascending]
  simp

/-- **The integrity check reports nothing on an intact tree.** -/
theorem violations (intact : tree.Intact visits) : tree.violations = .ok [] := by
  have nodewise : visits.mapM (Visit.violations tree.arena tree.root) =
      .ok (visits.map fun _ => []) := mapM_eq_ok fun _ member => intact.visit_violations member
  rw [Tree.violations, intact.walk, ok_bind, nodewise, ok_bind]
  dsimp only
  rw [if_pos intact.nodeCount.symm, if_pos intact.size.symm]
  simp

end Tree.Intact

/-! ### What a tree that shows a trunk promises -/

namespace Tree.Shows

variable {tree : Tree α} {trunk : Trunk α}

/-- The node under each entry of a child table. -/
theorem read_child {spine : Spine α} {sub child : Subtree α}
    (shows : tree.Shows (some (spine.plug sub))) (member : child ∈ sub.children) :
    tree.arena.node child.id = .ok child.top := by
  obtain ⟨left, right, split⟩ := List.append_of_mem member
  have holds : tree.arena.Holds (Spine.plug (sub.cut left right :: spine) child).nodes := by
    rw [Spine.plug, Subtree.close_cut split]
    exact shows.stores.toHolds
  exact holds.read_sub

theorem rootless (shows : tree.Shows trunk) : tree.root = none ↔ tree.isEmpty = true := by
  rw [shows.root, Tree.isEmpty, shows.size, beq_iff_eq, List.length_eq_zero_iff]
  cases trunk with
  | none => exact iff_of_true rfl rfl
  | some whole => exact iff_of_false nofun ((shows.sound whole rfl).entries_ne_nil [])

/-- **A tree that shows a trunk is intact.** -/
theorem intact (shows : tree.Shows trunk) : tree.Intact trunk.visits where
  walk := shows.visits
  full := by
    intro visit member
    obtain ⟨spine, sub, rfl, rfl⟩ := Trunk.exists_spine_of_mem_visits member
    simpa [Spine.visit] using (Spine.sound_of_plug (shows.sound _ rfl)).1.full
  labelled := by
    intro visit member elsewhere
    obtain ⟨spine, sub, rfl, rfl⟩ := Trunk.exists_spine_of_mem_visits member
    have below : spine ≠ [] := by
      rintro rfl
      exact elsewhere shows.root
    obtain ⟨rest, label⟩ := ((Spine.sound_of_plug (shows.sound _ rfl)).2 below).exists_cons
    rw [Spine.visit, Subtree.top_label, label]
    exact List.cons_ne_nil _ _
  sorted := by
    intro visit member
    obtain ⟨spine, sub, rfl, rfl⟩ := Trunk.exists_spine_of_mem_visits member
    exact (Spine.sound_of_plug (shows.sound _ rfl)).1.sorted
  headed := by
    intro visit member edge inside
    obtain ⟨spine, sub, rfl, rfl⟩ := Trunk.exists_spine_of_mem_visits member
    obtain ⟨child, found, rfl⟩ := List.mem_map.mp inside
    exact ⟨child.top, shows.read_child found,
      (Spine.sound_of_plug (shows.sound _ rfl)).1.headed child found⟩
  live := by
    intro id node
    have stored : tree.arena.node id = .ok node ↔ (id, node) ∈ trunk.nodes :=
      ⟨shows.stores.only, shows.stores.read⟩
    rw [stored, ← trunk.nodes_visits, List.mem_map]
    simp only [Prod.mk.injEq]
  once := by
    have distinct := shows.stores.distinct
    rwa [← trunk.nodes_visits, List.map_map] at distinct
  nodeCount := by
    rw [Tree.nodeCount, shows.stores.counted, ← trunk.nodes_visits, List.length_map]
  size := by rw [shows.size, ← trunk.entries_visits, Subtree.length_flatMap_own]
  rootless := shows.rootless

end Tree.Shows

/-! ### Every tree that can come about -/

/-- **Operations keep trees intact.** Every tree that can come about passes the integrity check and
is intact, and no operation on it fails: each leads to another such tree. -/
theorem Tree.Reachable.stays_intact {tree : Tree α} (reachable : tree.Reachable) :
    tree.violations = .ok [] ∧ (∃ visits, tree.Intact visits) ∧
      ∀ operation : Operation α, ∃ change, operation.run tree = .ok change ∧
        change.tree.violations = .ok [] ∧ ∃ visits, change.tree.Intact visits := by
  obtain ⟨register, represents⟩ := reachable.represents
  obtain ⟨trunk, shows, _⟩ := represents.shows
  refine ⟨shows.intact.violations, ⟨_, shows.intact⟩, fun operation => ?_⟩
  obtain ⟨change, runs, follows⟩ := represents.run operation
  obtain ⟨later, after, _⟩ := follows.represents.shows
  exact ⟨change, runs, after.intact.violations, _, after.intact⟩

/-- The keys 7 1 and 7 2 part under a branch, which goes away together with one of them. -/
theorem Tree.intact_after_folding : ∃ tree : Tree Nat, tree.Reachable ∧
    tree.find? [7, 1] = .ok none ∧ tree.find? [7, 2] = .ok (some 4) ∧ tree.nodeCount = 1 ∧
    tree.violations = .ok [] ∧ ∃ visits, tree.Intact visits := by
  have folded := (Reachable.empty (α := Nat) {} 0).runAll
    [.insert [7, 1] 3, .insert [7, 2] 4, .remove [7, 1]] rfl
  obtain ⟨unreported, intact, _⟩ := folded.stays_intact
  exact ⟨_, folded, rfl, rfl, rfl, unreported, intact⟩

end RadixLog
