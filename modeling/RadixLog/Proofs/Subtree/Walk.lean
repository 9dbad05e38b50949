/-
**The walk over a tree, node by node.**

A walk visits the node of every subtree once, parents before children, with the bytes that its path
spells and the number of nodes above it. In a sound tree the paths strictly ascend on the way.

* `Subtree.visits`: the visits of a walk over a subtree;
* `Subtree.nodes_visits`, `Subtree.entries_visits`: the nodes and the entries met on it;
* `Subtree.exists_spine_of_mem_visits`: each visit is to a subtree under its spine;
* `Subtree.Sound.ascend_visits`, `Trunk.nodup_paths`: preorder is the order of paths, and no two
  nodes have the same;
* `Tree.Shows.visits`: the walk over a tree makes these visits.
-/

import Mathlib.Data.List.Nodup
import RadixLog.Proofs.Tree.Shows
import RadixLog.Tree.Outline

namespace RadixLog

variable {α : Type}

/-- The visit to a subtree under its spine. -/
def Spine.visit (spine : Spine α) (sub : Subtree α) : Visit α :=
  ⟨sub.id, sub.top, spine.spelled ++ sub.label, spine.length⟩

namespace Subtree

/-- The visits of a walk over a subtree, given the bytes spelled above it and the number of nodes
there. -/
def visits (above : Bytes) (depth : Nat) : Subtree α → List (Visit α)
  | ⟨edge, label, value, children⟩ =>
    ⟨edge.child, ⟨label, children.map Subtree.edge, value⟩, above ++ label, depth⟩ ::
      children.flatMap (visits (above ++ label) (depth + 1))

theorem visits_eq (above : Bytes) (depth : Nat) (sub : Subtree α) : sub.visits above depth =
    ⟨sub.id, sub.top, above ++ sub.label, depth⟩ ::
      sub.children.flatMap (visits (above ++ sub.label) (depth + 1)) := by
  cases sub
  rw [visits]
  rfl

variable {sub : Subtree α} {spine : Spine α} {above : Bytes} {depth : Nat} {visit : Visit α}

/-! ### Nodes and entries -/

/-- **The nodes visited are those of the subtree**, in the same order. -/
theorem nodes_visits (sub : Subtree α) (above : Bytes) (depth : Nat) :
    (sub.visits above depth).map (fun visit => (visit.id, visit.node)) = sub.nodes := by
  induction sub using Subtree.induction generalizing above depth with
  | node edge label value children ih =>
    rw [visits, nodes, List.map_cons, List.map_flatMap]
    exact congrArg _ (List.flatMap_congr fun child member => ih child member _ _)

/-- **The entries are those of the nodes visited**, in the same order. -/
theorem entries_visits (sub : Subtree α) (above : Bytes) (depth : Nat) :
    (sub.visits above depth).flatMap (fun visit => own visit.path visit.node.value) =
      sub.entries above := by
  induction sub using Subtree.induction generalizing above depth with
  | node edge label value children ih =>
    rw [visits, entries, List.flatMap_cons, List.flatMap_assoc]
    exact congrArg _ (List.flatMap_congr fun child member => ih child member _ _)

/-- There are as many entries as nodes visited that are keys. -/
theorem length_flatMap_own (visits : List (Visit α)) :
    (visits.flatMap fun visit => own visit.path visit.node.value).length =
      visits.countP (·.node.keyed) := by
  induction visits with
  | nil => rfl
  | cons visit visits ih =>
    rw [List.flatMap_cons, List.length_append, ih, List.countP_cons, Node.keyed, Nat.add_comm]
    cases visit.node.value <;> rfl

/-! ### Visits one by one -/

/-- **Each visit is to a subtree under its spine.** -/
theorem exists_spine_of_mem_visits (spine : Spine α)
    (member : visit ∈ sub.visits spine.spelled spine.length) :
    ∃ (spine' : Spine α) (sub' : Subtree α), spine'.plug sub' = spine.plug sub ∧
      visit = spine'.visit sub' := by
  -- Going down to a child, its parent becomes a frame of the spine.
  induction sub using Subtree.induction generalizing spine with
  | node edge label value children ih =>
    rw [visits, List.mem_cons, List.mem_flatMap] at member
    rcases member with rfl | ⟨child, inside, found⟩
    · exact ⟨spine, ⟨edge, label, value, children⟩, rfl, rfl⟩
    · obtain ⟨left, right, split⟩ := List.append_of_mem inside
      let parent : Subtree α := ⟨edge, label, value, children⟩
      obtain ⟨spine', sub', whole, here⟩ :=
        ih child inside (parent.cut left right :: spine) found
      refine ⟨spine', sub', whole.trans ?_, here⟩
      rw [Spine.plug, close_cut split]

/-- A walk over a whole tree walks over each of its subtrees. -/
theorem visits_subset_plug (spine : Spine α) (sub : Subtree α) :
    sub.visits spine.spelled spine.length ⊆ (spine.plug sub).visits [] 0 := by
  induction spine generalizing sub with
  | nil => exact fun _ member => member
  | cons frame spine ih =>
    refine fun visit member => ih (frame.close sub) ?_
    have inside : sub ∈ (frame.close sub).children := by simp [Frame.close]
    rw [visits_eq]
    exact List.mem_cons_of_mem _ (List.mem_flatMap.mpr ⟨sub, inside, member⟩)

theorem visit_mem_plug (spine : Spine α) (sub : Subtree α) :
    spine.visit sub ∈ (spine.plug sub).visits [] 0 := by
  refine visits_subset_plug spine sub ?_
  rw [visits_eq]
  exact List.mem_cons_self

/-- Every path of a subtree goes on from the one to its node. -/
theorem exists_append_of_mem_visits (member : visit ∈ sub.visits above depth) :
    ∃ rest, visit.path = above ++ sub.label ++ rest := by
  induction sub using Subtree.induction generalizing above depth with
  | node edge label value children ih =>
    rw [visits, List.mem_cons, List.mem_flatMap] at member
    rcases member with rfl | ⟨child, inside, found⟩
    · exact ⟨[], (List.append_nil _).symm⟩
    · obtain ⟨rest, spelled⟩ := ih child inside found
      exact ⟨child.label ++ rest, by rw [spelled, List.append_assoc (above ++ label)]⟩

theorem Headed.exists_append_of_mem_visits (headed : sub.Headed)
    (member : visit ∈ sub.visits above depth) :
    ∃ rest, visit.path = above ++ sub.edge.byte :: rest := by
  obtain ⟨rest, spelled⟩ := Subtree.exists_append_of_mem_visits member
  obtain ⟨tail, label⟩ := headed.exists_cons
  exact ⟨tail ++ rest, by rw [spelled, label, List.append_assoc, List.cons_append]⟩

/-- **The paths of a sound subtree strictly ascend** in preorder. -/
theorem Sound.ascend_visits (sound : sub.Sound) (above : Bytes) (depth : Nat) :
    (sub.visits above depth).Pairwise fun a b => a.path < b.path := by
  induction sound generalizing above depth with
  | @node sub headed sorted _ _ ih =>
    rw [visits_eq, List.pairwise_cons, List.pairwise_flatMap]
    refine ⟨fun later member => ?_, fun child member => ih child member _ _, ?_⟩
    · obtain ⟨child, inside, found⟩ := List.mem_flatMap.mp member
      obtain ⟨rest, spelled⟩ := (headed child inside).exists_append_of_mem_visits found
      rw [spelled]
      exact Bytes.lt_append_cons _ _ _
    · refine (List.pairwise_map.mp sorted).imp_of_mem
        fun {x y} left right less a first b second => ?_
      obtain ⟨as, spelledLeft⟩ := (headed x left).exists_append_of_mem_visits first
      obtain ⟨bs, spelledRight⟩ := (headed y right).exists_append_of_mem_visits second
      rw [spelledLeft, spelledRight]
      exact Bytes.append_cons_lt _ less _ _

end Subtree

/-! ### Trunks -/

namespace Trunk

/-- All visits of a walk. -/
def visits : Trunk α → List (Visit α)
  | none => []
  | some sub => sub.visits [] 0

variable {trunk : Trunk α} {visit : Visit α}

theorem nodes_visits (trunk : Trunk α) :
    trunk.visits.map (fun visit => (visit.id, visit.node)) = trunk.nodes := by
  cases trunk with
  | none => rfl
  | some whole => exact whole.nodes_visits [] 0

theorem entries_visits (trunk : Trunk α) :
    trunk.visits.flatMap (fun visit => own visit.path visit.node.value) = trunk.entries := by
  cases trunk with
  | none => rfl
  | some whole => exact whole.entries_visits [] 0

/-- There are no more entries than nodes. -/
theorem length_entries_le (trunk : Trunk α) : trunk.entries.length ≤ trunk.nodes.length :=
  calc trunk.entries.length = trunk.visits.countP (·.node.keyed) := by
        rw [← trunk.entries_visits, Subtree.length_flatMap_own]
    _ ≤ trunk.visits.length := List.countP_le_length
    _ = trunk.nodes.length := by rw [← trunk.nodes_visits, List.length_map]

theorem exists_spine_of_mem_visits (member : visit ∈ trunk.visits) :
    ∃ (spine : Spine α) (sub : Subtree α), trunk = some (spine.plug sub) ∧
      visit = spine.visit sub := by
  cases trunk with
  | none => exact absurd member List.not_mem_nil
  | some whole =>
    obtain ⟨spine, sub, whole, here⟩ := whole.exists_spine_of_mem_visits [] member
    exact ⟨spine, sub, congrArg some whole.symm, here⟩

theorem ascend_visits (sound : ∀ sub, trunk = some sub → sub.Sound) :
    trunk.visits.Pairwise fun a b => a.path < b.path := by
  cases trunk with
  | none => exact .nil
  | some whole => exact (sound whole rfl).ascend_visits [] 0

/-- **Paths tell the nodes of a walk apart.** -/
theorem nodup_paths (sound : ∀ sub, trunk = some sub → sub.Sound) :
    (trunk.visits.map Visit.path).Nodup :=
  List.pairwise_map.mpr ((ascend_visits sound).imp fun less => ne_of_lt less)

theorem eq_of_path {other : Visit α} (sound : ∀ sub, trunk = some sub → sub.Sound)
    (member : visit ∈ trunk.visits) (member' : other ∈ trunk.visits)
    (same : visit.path = other.path) : visit = other :=
  List.inj_on_of_nodup_map (nodup_paths sound) member member' same

end Trunk

/-! ### The walk -/

/-- **The walk over nodes that an arena holds makes their visits.** -/
theorem Arena.visitsFrom_eq {arena : Arena α} {sub : Subtree α}
    (read : ∀ {id node}, (id, node) ∈ sub.nodes → arena.node id = .ok node) {fuel : Nat}
    (enough : sub.nodes.length ≤ fuel) (above : Bytes) (depth : Nat) :
    arena.visitsFrom fuel sub.id above depth = .ok (sub.visits above depth) := by
  induction sub using Subtree.induction generalizing fuel above depth with
  | node edge label value children ih =>
    have here : arena.node edge.child = .ok ⟨label, children.map Subtree.edge, value⟩ :=
      read (Subtree.top_mem_nodes ⟨edge, label, value, children⟩)
    cases fuel with
    | zero =>
      rw [Subtree.nodes] at enough
      exact absurd enough (Nat.not_succ_le_zero _)
    | succ fuel =>
      have below : (children.map Subtree.edge).mapM (fun edge =>
          arena.visitsFrom fuel edge.child (above ++ label) (depth + 1)) =
          .ok (children.map (Subtree.visits (above ++ label) (depth + 1))) := by
        rw [List.mapM_map]
        refine mapM_eq_ok fun child member => ih child member (fun found => read ?_) ?_ _ _
        · exact @Subtree.nodes_subset _ ⟨edge, label, value, children⟩ child member _ found
        · have fewer := @Subtree.length_nodes_lt _ ⟨edge, label, value, children⟩ child member
          exact Nat.le_of_lt_succ (fewer.trans_le enough)
      rw [visitsFrom, Subtree.id, here, ok_bind]
      dsimp only
      rw [below, Subtree.visits, List.flatMap_def]
      rfl

theorem Tree.Shows.visits {tree : Tree α} {trunk : Trunk α} (shows : tree.Shows trunk) :
    tree.visits = .ok trunk.visits := by
  rw [Tree.visits, shows.root]
  cases trunk with
  | none => rfl
  | some whole =>
    have holds := shows.stores.toHolds
    exact Arena.visitsFrom_eq holds.read holds.length_le [] 0

/-- A tree has no more keys than slots. -/
theorem Tree.Shows.size_le {tree : Tree α} {trunk : Trunk α} (shows : tree.Shows trunk) :
    tree.size ≤ tree.arena.slots.size :=
  calc tree.size = trunk.entries.length := shows.size
    _ ≤ trunk.nodes.length := trunk.length_entries_le
    _ ≤ tree.arena.slots.size := shows.stores.toHolds.length_le

end RadixLog
