/-
**Changes that leave the keys alone move nothing.**

A tree that neither gains nor loses a key is not reshaped. Removing an absent key, or assigning to
one, changes nothing at all, wherever in the tree its descent ends; inserting or assigning under a
present key replaces the value in one node.

* `Tree.remove_in_place`, `Tree.insert_in_place`, `Tree.assign_in_place`: the ways out of a change
  that neither gains nor loses a key, whatever the tree;
* `Tree.Overwritten`: a value is replaced and nothing else;
* `Tree.Shows.overwritten`: writing where a descent ends is that;
* `Tree.unturned_in_place`: what holds of trees that operations lead to.
-/

import RadixLog.Proofs.Tree.Canonical

namespace RadixLog

variable {α : Type}

namespace Tree

variable {tree : Tree α} {trunk : Trunk α} {register : Register α} {key : Bytes} {value : α}
  {change : Change α} {trail : Trail} {node : Node α}

/-! ### Ways out of a change -/

/-- **A removal that answers no value** has touched nothing. -/
theorem remove_in_place (removes : tree.remove key = .ok change) (absent : change.previous = none) :
    change = ⟨tree, none, []⟩ := by
  obtain ⟨descent, _, goes⟩ := bind_eq_ok removes
  split at goes
  · -- The value has been taken: every way on from here answers it.
    dsimp only at goes
    split at goes
    · obtain ⟨⟨pruned, reshapes⟩, _, goes⟩ := bind_eq_ok goes
      cases goes
      cases absent
    · obtain ⟨⟨merged, reshapes⟩, _, goes⟩ := bind_eq_ok goes
      cases goes
      cases absent
    · cases goes
      cases absent
  · cases goes
    rfl

/-- The tree with a value written into the node at the end of a path. -/
def overwrite (tree : Tree α) (trail : Trail) (node : Node α) (value : α) : Tree α :=
  { tree with arena := tree.arena.put trail.top.node { node with value := some value } }

/-- **An insertion that answers a value** has written to the node where the descent ends. -/
theorem insert_in_place (inserts : tree.insert key value = .ok change)
    (present : change.previous ≠ none) : ∃ trail node,
      tree.descend? key = .ok (some ⟨trail, node, .exact⟩) ∧ node.keyed = true ∧
        change = ⟨tree.overwrite trail node value, node.value, []⟩ := by
  obtain ⟨descent, descends, goes⟩ := bind_eq_ok inserts
  split at goes
  · obtain ⟨⟨leaf, arena⟩, _, goes⟩ := bind_eq_ok goes
    cases goes
    exact absurd rfl present
  · rename_i trail node
    cases goes
    have keyed : node.keyed = true := Option.isSome_iff_ne_none.mpr present
    refine ⟨trail, node, descends, keyed, ?_⟩
    rw [if_pos keyed]
    rfl
  · obtain ⟨grown, _, goes⟩ := bind_eq_ok goes
    cases goes
    exact absurd rfl present
  · obtain ⟨⟨branch, arena⟩, _, goes⟩ := bind_eq_ok goes
    obtain ⟨linked, _, goes⟩ := bind_eq_ok goes
    dsimp only at goes
    split at goes
    · obtain ⟨parent, _, goes⟩ := bind_eq_ok goes
      cases goes
      exact absurd rfl present
    · obtain ⟨grown, _, goes⟩ := bind_eq_ok goes
      cases goes
      exact absurd rfl present

/-- **An assignment** has touched nothing, or written to the node where the descent ends. -/
theorem assign_in_place (assigns : tree.assign key value = .ok change) :
    change = ⟨tree, none, []⟩ ∨ ∃ trail node,
      tree.descend? key = .ok (some ⟨trail, node, .exact⟩) ∧ node.keyed = true ∧
        change = ⟨tree.overwrite trail node value, node.value, []⟩ := by
  obtain ⟨descent, descends, goes⟩ := bind_eq_ok assigns
  split at goes
  · rename_i trail label children previous
    cases goes
    exact .inr ⟨trail, ⟨label, children, some previous⟩, descends, rfl, rfl⟩
  · cases goes
    exact .inl rfl

/-! ### One value replaced -/

/-- **Only the value of this node is replaced**: it is the one node that has the key for its path. It
keeps its slot, its label and its children and is a key before and after; all other slots are the
same, and so is the rest of the tree. -/
structure Overwritten (tree : Tree α) (key : Bytes) (value : α) (visit : Visit α)
    (later : Tree α) : Prop where
  only : ∃ visits, tree.visits = .ok visits ∧
    ∀ other, other ∈ visits ∧ other.path = key ↔ other = visit
  keyed : visit.node.keyed = true
  before : tree.arena.slots[visit.id]? = some (some visit.node)
  after : later.arena.slots[visit.id]? = some (some { visit.node with value := some value })
  others : ∀ id, id ≠ visit.id → later.arena.slots[id]? = tree.arena.slots[id]?
  rest : later = { tree with arena := { tree.arena with slots := later.arena.slots } }

/-- **Writing where a descent ends** replaces only the value of the node that has the key for its
path. -/
theorem Shows.overwritten (shows : tree.Shows trunk)
    (descends : tree.descend? key = .ok (some ⟨trail, node, .exact⟩)) (keyed : node.keyed = true)
    (value : α) : ∃ visit, visit.node = node ∧
      tree.Overwritten key value visit (tree.overwrite trail node value) := by
  cases trunk with
  | none => cases (shows.descend?_none key).symm.trans descends
  | some whole =>
    obtain ⟨spine, sub, landing, ⟨rfl, _, lands⟩, descends'⟩ := shows.descend? key
    cases descends.symm.trans descends'
    cases lands with
    | exact spells =>
      have here : tree.arena.node sub.id = .ok sub.top := shows.stores.toHolds.read_sub
      have member : spine.visit sub ∈ Trunk.visits (some (spine.plug sub)) :=
        Subtree.visit_mem_plug spine sub
      refine ⟨spine.visit sub, rfl, ⟨⟨_, shows.visits, fun other => ?_⟩, keyed, ?_, ?_, ?_, rfl⟩⟩
      · constructor
        · rintro ⟨member', path⟩
          exact Trunk.eq_of_path shows.sound member' member (path.trans spells)
        · rintro rfl
          exact ⟨member, spells.symm⟩
      · exact Arena.node_eq_ok.mp here
      · exact Arena.node_eq_ok.mp (Arena.node_put_same here)
      · intro id different
        exact Array.getElem?_setIfInBounds_ne (Ne.symm different)

/-! ### Trees that operations lead to -/

/-- **What neither gains nor loses this key moves nothing.** Every change of the key is answered. -/
structure ChangesInPlace (tree : Tree α) (key : Bytes) : Prop where
  /-- Removing it when it is absent changes nothing. -/
  remove : ∃ change, tree.remove key = .ok change ∧ (change.previous = none ↔ key ∉ tree.keys) ∧
    (change.previous = none → change = ⟨tree, none, []⟩)
  /-- Inserting under it when it is present replaces its value. -/
  insert : ∀ value, ∃ change, tree.insert key value = .ok change ∧
    (change.previous = none ↔ key ∉ tree.keys) ∧
    (change.previous ≠ none → change.reshapes = [] ∧ ∃ visit,
      change.previous = visit.node.value ∧ tree.Overwritten key value visit change.tree)
  /-- Assigning changes nothing when it is absent, and replaces its value when it is present. -/
  assign : ∀ value, ∃ change, tree.assign key value = .ok change ∧
    (change.previous = none ↔ key ∉ tree.keys) ∧
    (change.previous = none → change = ⟨tree, none, []⟩) ∧
    (change.previous ≠ none → change.reshapes = [] ∧ ∃ visit,
      change.previous = visit.node.value ∧ tree.Overwritten key value visit change.tree)

namespace Represents

/-- A change that answers what the map gives a key answers no value if the key is absent. -/
theorem previous_eq_none_iff (represents : tree.Represents register)
    (previous : change.previous = register.map[key]?) :
    change.previous = none ↔ key ∉ tree.keys := by
  show _ ↔ ¬ tree.contains key = .ok true
  rw [previous, represents.contains, Except.ok.injEq, Std.ExtTreeMap.contains_eq_isSome_getElem?,
    Bool.not_eq_true, Option.isSome_eq_false_iff, Option.isNone_iff_eq_none]

theorem previous_ne_none (previous : change.previous = register.map[key]?)
    (present : key ∈ register.map) : change.previous ≠ none := by
  rw [previous, ← Option.isSome_iff_ne_none]
  exact Std.ExtTreeMap.isSome_getElem?_iff_mem.mpr present

theorem changesInPlace (represents : tree.Represents register) (key : Bytes) :
    tree.ChangesInPlace key := by
  obtain ⟨trunk, shows, _⟩ := represents.shows
  refine ⟨?_, fun value => ?_, fun value => ?_⟩
  · obtain ⟨change, removes, follows⟩ := represents.remove key
    exact ⟨change, removes, represents.previous_eq_none_iff follows.previous,
      remove_in_place removes⟩
  · obtain ⟨change, inserts, follows⟩ := represents.insert key value
    refine ⟨change, inserts, represents.previous_eq_none_iff follows.previous, fun present => ?_⟩
    obtain ⟨trail, node, descends, keyed, rfl⟩ := insert_in_place inserts present
    obtain ⟨visit, rfl, overwritten⟩ := shows.overwritten descends keyed value
    exact ⟨rfl, visit, rfl, overwritten⟩
  · obtain ⟨change, assigns, follows⟩ := represents.assign key value
    refine ⟨change, assigns, represents.previous_eq_none_iff follows.previous, ?_⟩
    rcases assign_in_place assigns with rfl | ⟨trail, node, descends, keyed, rfl⟩
    · exact ⟨fun _ => rfl, fun present => absurd rfl present⟩
    · have present : node.value ≠ none := Option.isSome_iff_ne_none.mp keyed
      obtain ⟨visit, rfl, overwritten⟩ := shows.overwritten descends keyed value
      exact ⟨fun absent => absurd absent present, fun _ => ⟨rfl, visit, rfl, overwritten⟩⟩

/-- Inserting under present keys reshapes nothing. -/
theorem insertAll_in_place (represents : tree.Represents register) (entries : List (Bytes × α))
    (present : ∀ entry ∈ entries, entry.1 ∈ register.map) :
    ∃ after, tree.insertAll entries = .ok (after, []) := by
  induction entries generalizing tree register with
  | nil => exact ⟨tree, rfl⟩
  | cons entry entries ih =>
    obtain ⟨change, inserts, follows⟩ := represents.insert entry.1 entry.2
    obtain ⟨after, goesOn⟩ := ih follows.represents fun later member =>
      Std.ExtTreeMap.mem_insert.mpr (.inr (present later (List.mem_cons_of_mem _ member)))
    have here : change.previous ≠ none :=
      previous_ne_none follows.previous (present entry List.mem_cons_self)
    obtain ⟨_, _, _, _, rfl⟩ := insert_in_place inserts here
    refine ⟨after, ?_⟩
    rw [Tree.insertAll, inserts, ok_bind, goesOn]
    rfl

/-- **An operation that leaves the generation as it is** keeps every node and reshapes nothing. -/
theorem unturned (represents : tree.Represents register) {operation : Operation α}
    (goes : operation.run tree = .ok change) (follows : change.Follows tree register operation)
    (same : change.tree.generation = tree.generation) :
    tree.Keeps change.tree ∧ change.reshapes = [] := by
  have kept : register.turns operation = false := by
    by_contra turned
    have grows := register.generation_run operation
    rw [if_pos (Bool.eq_true_of_not_eq_false turned), ← follows.represents.generation, same,
      represents.generation] at grows
    exact Nat.lt_irrefl _ grows
  refine ⟨follows.keeps kept, ?_⟩
  cases operation with
  | find key =>
    obtain ⟨found, _, goes⟩ := bind_eq_ok goes
    cases goes
    rfl
  | insert key value =>
    have present : key ∈ register.map := by simpa [Register.turns] using kept
    obtain ⟨_, _, _, _, rfl⟩ := insert_in_place goes (previous_ne_none follows.previous present)
    rfl
  | remove key =>
    have absent : change.previous = none := by
      rw [follows.previous]
      exact Std.ExtTreeMap.getElem?_eq_none_of_contains_eq_false kept
    rw [remove_in_place goes absent]
  | assign key value =>
    rcases assign_in_place goes with rfl | ⟨_, _, _, _, rfl⟩
    · rfl
    · rfl
  | insertAll entries =>
    have present : ∀ entry ∈ entries, entry.1 ∈ register.map := by
      simpa [Register.turns] using kept
    obtain ⟨after, inserts⟩ := represents.insertAll_in_place entries present
    rw [Operation.run, inserts] at goes
    cases goes
    rfl
  | clear => cases kept
  | shrink =>
    cases goes
    rfl

end Represents

/-- **Changes that leave the keys alone move nothing.** In a tree that can come about, removing an
absent key, or assigning to one, leaves the whole tree as it was, wherever the key ends or leaves the
tree; inserting or assigning under a present key answers its value and replaces it in the one node
that has the key for its path, and leaves everything else as it was. Every operation that leaves the
generation as it is keeps the root and every node where it is, with its label, its children and
whether it is a key, and reshapes nothing. -/
theorem unturned_in_place (tree : Tree α) (reachable : tree.Reachable) :
    (∀ key, tree.ChangesInPlace key) ∧
    ∀ operation : Operation α, ∃ change, operation.run tree = .ok change ∧
      (change.tree.generation = tree.generation → tree.Keeps change.tree ∧ change.reshapes = []) := by
  obtain ⟨register, represents⟩ := reachable.represents
  refine ⟨represents.changesInPlace, fun operation => ?_⟩
  obtain ⟨change, goes, follows⟩ := represents.run operation
  exact ⟨change, goes, represents.unturned goes follows⟩

/-- The branch at 7, above the keys 7 1 and 7 2, is no key: removing its path leaves the tree as it was.
Inserting under 7 1 and assigning under 7 2 replace the one value each, and keep every node. -/
theorem unturned_around_branch : ∃ tree inserted assigned : Tree Nat, tree.Reachable ∧
    tree.keys = {[7, 1], [7, 2]} ∧
    (∃ visits, tree.visits = .ok visits ∧ visits.map (fun visit => (visit.path, visit.node.value)) =
      [([7], none), ([7, 1], some 3), ([7, 2], some 4)]) ∧
    tree.remove [7] = .ok ⟨tree, none, []⟩ ∧
    tree.insert [7, 1] 5 = .ok ⟨inserted, some 3, []⟩ ∧ tree.Keeps inserted ∧
    (∃ visit, visit.node.value = some 3 ∧ tree.Overwritten [7, 1] 5 visit inserted) ∧
    tree.assign [7, 2] 6 = .ok ⟨assigned, some 4, []⟩ ∧ tree.Keeps assigned ∧
    ∃ visit, visit.node.value = some 4 ∧ tree.Overwritten [7, 2] 6 visit assigned := by
  let tree : Tree Nat := ⟨⟨#[some ⟨[1], [], some 3⟩, some ⟨[7], [⟨1, 0⟩, ⟨2, 2⟩], none⟩,
    some ⟨[2], [], some 4⟩], [], 3, 64, 0⟩, some 1, 2, 2, 0⟩
  have reachable : tree.Reachable :=
    (Reachable.empty (α := Nat) {} 0).runAll [.insert [7, 1] 3, .insert [7, 2] 4] rfl
  have visited : tree.visits = .ok [⟨1, ⟨[7], [⟨1, 0⟩, ⟨2, 2⟩], none⟩, [7], 0⟩,
    ⟨0, ⟨[1], [], some 3⟩, [7, 1], 1⟩, ⟨2, ⟨[2], [], some 4⟩, [7, 2], 1⟩] := rfl
  have keys : tree.keys = {[7, 1], [7, 2]} :=
    Set.ext fun _ => (reachable.mem_keys_iff visited).trans List.mem_pair
  obtain ⟨inPlace, unturned⟩ := unturned_in_place tree reachable
  have left : tree.remove [7] = .ok ⟨tree, none, []⟩ := by
    obtain ⟨change, removes, absent, leaves⟩ := (inPlace [7]).remove
    rw [removes, leaves (absent.mpr (by simp [keys]))]
  obtain ⟨_, inserts, _, replaces⟩ := (inPlace [7, 1]).insert 5
  cases inserts
  obtain ⟨_, inserts, keeps⟩ := unturned (.insert [7, 1] 5)
  cases inserts
  obtain ⟨_, assigns, _, _, replaces'⟩ := (inPlace [7, 2]).assign 6
  cases assigns
  obtain ⟨_, assigns, keeps'⟩ := unturned (.assign [7, 2] 6)
  cases assigns
  obtain ⟨-, visit, previous, overwritten⟩ := replaces nofun
  obtain ⟨-, visit', previous', overwritten'⟩ := replaces' nofun
  exact ⟨tree, _, _, reachable, keys, ⟨_, visited, rfl⟩, left, rfl, (keeps rfl).1,
    ⟨visit, previous.symm, overwritten⟩, rfl, (keeps' rfl).1, visit', previous'.symm, overwritten'⟩

end Tree

end RadixLog
