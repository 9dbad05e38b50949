/-
**What a tree shows.**

A tree shows a trunk when its arena stores exactly the nodes of this sound subtree, its root is the
root of it, and its size is the number of its keys; an empty tree shows none. Looking up a key in
the tree is looking it up in the entries of the trunk.

* `Tree.Shows`: the invariant of all trees;
* `Tree.Shows.descend?`, `Tree.Shows.find?`: descending and looking up;
* `Arena.Stores.put_plug`: a write to one node is a change of one subtree.
-/

import RadixLog.Proofs.Arena.Reshape
import RadixLog.Proofs.Descent

namespace RadixLog

variable {α : Type}

/-- **The invariant of trees**: the arena stores a sound trunk, and the root and the
size are its. -/
structure Tree.Shows (tree : Tree α) (trunk : Trunk α) : Prop where
  root : tree.root = trunk.map Subtree.id
  stores : tree.arena.Stores trunk.nodes
  sound : ∀ sub, trunk = some sub → sub.Sound
  size : tree.size = trunk.entries.length

variable {tree : Tree α} {trunk : Trunk α} {whole sub other : Subtree α} {spine : Spine α}

/-! ### Descending and looking up -/

/-- In a tree with nodes, every descent reaches where it ends. -/
theorem Tree.Shows.descend? (shows : tree.Shows (some whole)) (key : Bytes) :
    ∃ spine sub landing, Reaches whole key spine sub landing ∧
      tree.descend? key = .ok (some ⟨spine.trail sub, sub.top, landing⟩) := by
  obtain ⟨spine, sub, landing, reaches, descends⟩ :=
    Arena.descend_reaches shows.stores.toHolds (shows.sound whole rfl) key
  exact ⟨spine, sub, landing, reaches, by rw [Tree.descend?, shows.root]; simp [descends]⟩

theorem Tree.Shows.descend?_none (shows : tree.Shows none) (key : Bytes) :
    tree.descend? key = .ok none := by
  rw [Tree.descend?, shows.root]
  rfl

/-- **A key is present, and its descent ends at the node with its value, or it is absent**, and its
descent does not end at a node with a value. -/
theorem Tree.Shows.present_or_absent (shows : tree.Shows trunk) (key : Bytes) :
    (∃ (spine : Spine α) (sub : Subtree α) (value : α), trunk = some (spine.plug sub) ∧
      spine.Brackets key ∧
      key = spine.spelled ++ sub.label ∧ sub.value = some value ∧
      tree.descend? key = .ok (some ⟨spine.trail sub, sub.top, .exact⟩)) ∨
    (∃ lower upper, Cut trunk.entries key lower none upper ∧ ∃ descent,
      tree.descend? key = .ok descent ∧
      ∀ ending, descent = some ending → ending.landing = .exact → ending.node.value = none) := by
  cases trunk with
  | none => exact .inr ⟨[], [], ⟨rfl, by simp, by simp⟩, none, shows.descend?_none key, nofun⟩
  | some whole =>
    obtain ⟨spine, sub, landing, reaches, descends⟩ := shows.descend? key
    obtain ⟨lower, upper, cut⟩ := reaches.exists_cut (shows.sound whole rfl)
    by_cases exact : landing = .exact
    · cases keyed : sub.value with
      | some value =>
        obtain ⟨rfl, brackets, lands⟩ := reaches
        subst exact
        cases lands with
        | exact spells => exact .inl ⟨spine, sub, value, rfl, brackets, spells, keyed, descends⟩
      | none =>
        rw [if_pos exact, keyed] at cut
        exact .inr ⟨lower, upper, cut, _, descends, by rintro _ ⟨⟩ _; exact keyed⟩
    · rw [if_neg exact] at cut
      exact .inr ⟨lower, upper, cut, _, descends, by rintro _ ⟨⟩ ends; exact absurd ends exact⟩

/-- **Looking up never fails, and answers what the entries give the key.** -/
theorem Tree.Shows.find? (shows : tree.Shows trunk) (key : Bytes) :
    ∃ lower value upper, Cut trunk.entries key lower value upper ∧ tree.find? key = .ok value := by
  rcases shows.present_or_absent key with
    ⟨spine, sub, value, rfl, brackets, spells, keyed, descends⟩ |
      ⟨lower, upper, cut, descent, descends, absent⟩
  · refine ⟨_, _, _, Spine.cut_exact (shows.sound _ rfl) brackets spells, ?_⟩
    rw [Tree.find?, descends]
    rfl
  · refine ⟨lower, none, upper, cut, ?_⟩
    rw [Tree.find?, descends, ok_bind]
    split
    · exact congrArg Except.ok (absent _ rfl rfl)
    · rfl

/-! ### Writing to one node -/

/-- Replacing a subtree changes nothing about what leads to the tree around it. -/
theorem Spine.plug_edge (same : other.edge = sub.edge) :
    (spine.plug other).edge = (spine.plug sub).edge := by
  induction spine generalizing sub other with
  | nil => exact same
  | cons frame spine ih => exact ih rfl

theorem Spine.plug_id (same : other.edge = sub.edge) :
    (spine.plug other).id = (spine.plug sub).id :=
  congrArg Edge.child (Spine.plug_edge same)

/-- The nodes of a tree, with the one of a subtree first. -/
theorem Spine.nodes_plug_cons (spine : Spine α) (sub : Subtree α) : (spine.plug sub).nodes.Perm
    ((sub.id, sub.top) :: (sub.children.flatMap Subtree.nodes ++ spine.nodes sub.edge)) := by
  have perm := spine.nodes_plug sub
  rwa [Subtree.nodes_eq sub] at perm

/-- **A node rewritten in place**: the subtree keeps its edge and its children. -/
theorem Arena.Stores.put_plug {arena : Arena α} (stores : arena.Stores (spine.plug sub).nodes)
    (edge : other.edge = sub.edge) (children : other.children = sub.children) :
    (arena.put sub.id other.top).Stores (spine.plug other).nodes := by
  have put := (stores.perm (spine.nodes_plug_cons sub)).put other.top
  refine put.perm (List.Perm.symm ?_)
  have perm := spine.nodes_plug_cons other
  rwa [children, edge, Subtree.id, edge] at perm

end RadixLog
