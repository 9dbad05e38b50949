/-
**As many nodes as the keys call for.**

Every key has a node of its own, and every other node joins at least two subtrees with keys in them.
Joining leaves fewer subtrees to join, so fewer nodes join than there are keys.

* `Subtree.length_flatMap_nodes_le`: a bound on each of several subtrees is one on all together;
* `Subtree.Sound.length_nodes_lt_two_mul`: the bound on a subtree;
* `Tree.node_count_bounded`: the bounds on every tree that operations lead to.
-/

import RadixLog.Proofs.Tree.Canonical

namespace RadixLog

variable {α : Type}

namespace Subtree

/-- Subtrees that each have fewer than twice as many nodes as entries fall short by one each when
they are taken together. -/
theorem length_flatMap_nodes_le {above : Bytes} (children : List (Subtree α))
    (fewer : ∀ child ∈ children, child.nodes.length < 2 * (child.entries above).length) :
    (children.flatMap nodes).length + children.length ≤
      2 * (children.flatMap (entries above)).length := by
  induction children with
  | nil => exact Nat.le_refl 0
  | cons child children ih =>
    have here := fewer child List.mem_cons_self
    have others := ih fun other member => fewer other (List.mem_cons_of_mem _ member)
    rw [List.flatMap_cons, List.flatMap_cons, List.length_append, List.length_append,
      List.length_cons]
    omega

/-- **A sound subtree has fewer than twice as many nodes as entries.** -/
theorem Sound.length_nodes_lt_two_mul {sub : Subtree α} (sound : sub.Sound) (above : Bytes) :
    sub.nodes.length < 2 * (sub.entries above).length := by
  induction sound generalizing above with
  | @node sub _ _ full _ ih =>
    have below := length_flatMap_nodes_le sub.children fun child member =>
      ih child member (above ++ sub.label)
    rw [nodes_eq, entries_eq, List.length_cons, List.length_append]
    cases keyed : sub.value with
    | some value =>
      -- The node brings an entry of its own.
      rw [own_some, List.length_singleton]
      omega
    | none =>
      -- The node has none, but joins two subtrees that fall short by one each.
      have joins : 2 ≤ sub.children.length := full keyed
      rw [own_none, List.length_nil]
      omega

end Subtree

/-- **A tree has as many nodes as its keys call for.** A tree that can come about has no nodes if it
has no keys, and otherwise at least as many nodes as keys and fewer than twice as many. -/
theorem Tree.node_count_bounded (tree : Tree α) (reachable : tree.Reachable) :
    (tree.size = 0 → tree.nodeCount = 0) ∧
      (tree.size ≠ 0 → tree.size ≤ tree.nodeCount ∧ tree.nodeCount ≤ 2 * tree.size - 1) := by
  obtain ⟨trunk, shows, _⟩ := reachable.exists_shows
  have least : trunk.entries.length ≤ trunk.nodes.length := trunk.length_entries_le
  rw [nodeCount, shows.stores.counted, shows.size]
  cases trunk with
  | none => exact ⟨fun _ => rfl, fun some => absurd rfl some⟩
  | some whole =>
    have fewer : whole.nodes.length < 2 * (whole.entries []).length :=
      (shows.sound whole rfl).length_nodes_lt_two_mul []
    refine ⟨fun bare => ?_, fun _ => ⟨least, Nat.le_pred_of_lt fewer⟩⟩
    rw [show (whole.entries []).length = 0 from bare] at fewer
    exact absurd fewer (Nat.not_lt_zero _)

/-- Two keys that part take three nodes, which is as many as two keys can take. -/
theorem Tree.nodes_of_parted_keys : ∃ tree : Tree Nat, tree.Reachable ∧ tree.size = 2 ∧
    tree.nodeCount = 3 ∧ tree.nodeCount ≤ 2 * tree.size - 1 := by
  have parted := (Reachable.empty (α := Nat) {} 0).runAll [.insert [7, 1] 3, .insert [7, 2] 4] rfl
  exact ⟨_, parted, rfl, rfl, ((node_count_bounded _ parted).2 nofun).2⟩

end RadixLog
