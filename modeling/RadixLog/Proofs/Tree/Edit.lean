/-
**Changes of one key.**

An edit of a tree at a key takes the key from having one value, or none, to having another, or none,
and leaves all other entries alone. The generation counts the edits after which the key is gained or
lost; all others leave every node where it is, with its label, its children and whether it is a key.

* `Tree.Edit`: what inserting, removing and assigning have in common;
* `Tree.Keeps`: what paths remembered from before rely on;
* `Tree.Shows.gain`, `Tree.Shows.lose`, `Tree.Shows.overwrite`: the kinds of edits;
* `Tree.Shows.assign`: assigning is an edit.
-/

import RadixLog.Proofs.Tree.Shows

namespace RadixLog

variable {α : Type}

/-! ### Nodes that stay as they are -/

/-- Every node keeps its label, its children and whether a key ends there. -/
def Arena.Keeps (arena later : Arena α) : Prop :=
  ∀ id node, arena.node id = .ok node →
    ∃ value, later.node id = .ok { node with value } ∧ value.isSome = node.keyed

namespace Arena.Keeps

variable {arena middle later : Arena α}

theorem refl (arena : Arena α) : arena.Keeps arena :=
  fun _ node found => ⟨node.value, found, rfl⟩

theorem trans (first : arena.Keeps middle) (second : middle.Keeps later) : arena.Keeps later := by
  intro id node found
  obtain ⟨value, between, keyed⟩ := first id node found
  obtain ⟨final, last, same⟩ := second id _ between
  exact ⟨final, last, same.trans keyed⟩

theorem put {id : NodeRef} {node : Node α} (found : arena.node id = .ok node) {value : Option α}
    (keyed : value.isSome = node.keyed) : arena.Keeps (arena.put id { node with value }) := by
  intro other old read
  by_cases same : other = id
  · subst same
    rw [found] at read
    cases read
    exact ⟨value, node_put_same found, keyed⟩
  · exact ⟨old.value, by rw [node_put_other same, read], rfl⟩

end Arena.Keeps

/-- The root stays, and every node keeps its label, its children and whether a key ends there. -/
def Tree.Keeps (tree later : Tree α) : Prop := later.root = tree.root ∧ tree.arena.Keeps later.arena

theorem Tree.Keeps.refl (tree : Tree α) : tree.Keeps tree := ⟨rfl, .refl _⟩

theorem Tree.Keeps.trans {tree middle later : Tree α} (first : tree.Keeps middle)
    (second : middle.Keeps later) : tree.Keeps later :=
  ⟨second.1.trans first.1, first.2.trans second.2⟩

/-! ### Edits -/

/-- **An edit at a key**, from the value it has in these entries to another: other entries stay, the
generation grows by one if the key is gained or lost, and if not, all nodes are kept. -/
structure Tree.Edit (tree : Tree α) (entries : List (Bytes × α)) (key : Bytes) (old new : Option α)
    (after : Tree α) : Prop where
  shows : ∃ lower upper trunk, Cut entries key lower old upper ∧ after.Shows trunk ∧
    trunk.entries = lower ++ (own key new ++ upper)
  generation : after.generation = tree.generation + if old.isSome = new.isSome then 0 else 1
  identity : after.identity = tree.identity
  keeps : old.isSome = new.isSome → tree.Keeps after

variable {tree : Tree α} {trunk : Trunk α} {sub : Subtree α} {spine : Spine α} {key : Bytes}
  {lower upper : List (Bytes × α)} {value previous : α} {arena : Arena α} {root : Option NodeRef}

namespace Tree.Shows

/-- An edit at an absent key may change nothing. -/
theorem leave (shows : tree.Shows trunk) (cut : Cut trunk.entries key lower none upper) :
    tree.Edit trunk.entries key none none tree where
  shows := ⟨lower, upper, trunk, cut, shows, cut.split⟩
  generation := rfl
  identity := rfl
  keeps := fun _ => .refl tree

/-- **A key is gained** with a trunk that has its entry besides the others. -/
theorem gain (shows : tree.Shows trunk) (cut : Cut trunk.entries key lower none upper)
    (other : Trunk α) (leads : root = other.map Subtree.id) (stores : arena.Stores other.nodes)
    (sound : ∀ sub, other = some sub → sub.Sound)
    (entries : other.entries = lower ++ (key, value) :: upper) :
    tree.Edit trunk.entries key none (some value) { tree with arena, root }.gained where
  shows := by
    refine ⟨lower, upper, other, cut, ⟨leads, stores, sound, ?_⟩, entries⟩
    have size := shows.size
    rw [cut.split] at size
    simp only [gained, size, entries]
    simp [Nat.add_assoc]
  generation := rfl
  identity := rfl
  keeps := nofun

/-- **A key is lost** with a trunk that has all other entries. -/
theorem lose (shows : tree.Shows trunk) (cut : Cut trunk.entries key lower (some previous) upper)
    (other : Trunk α) (leads : root = other.map Subtree.id) (stores : arena.Stores other.nodes)
    (sound : ∀ sub, other = some sub → sub.Sound) (entries : other.entries = lower ++ upper) :
    tree.Edit trunk.entries key (some previous) none { tree with arena, root }.lost where
  shows := by
    refine ⟨lower, upper, other, cut, ⟨leads, stores, sound, ?_⟩, entries⟩
    have size := shows.size
    rw [cut.split] at size
    simp only [lost, size, entries]
    simp
  generation := rfl
  identity := rfl
  keeps := nofun

/-- **The value of a key is replaced** in the node that its path ends at. -/
theorem overwrite (shows : tree.Shows (some (spine.plug sub))) (brackets : spine.Brackets key)
    (spells : key = spine.spelled ++ sub.label) (keyed : sub.value = some previous) (value : α) :
    tree.Edit ((spine.plug sub).entries []) key (some previous) (some value)
      { tree with arena := tree.arena.put sub.id { sub.top with value := some value } } where
  shows := by
    let written : Subtree α := { sub with value := some value }
    have sound := shows.sound _ rfl
    obtain ⟨soundSub, headed⟩ := Spine.sound_of_plug sound
    have cut := spine.cut_exact sound brackets spells
    have entries := spells ▸ spine.entries_plug_own written
    have stored : (tree.arena.put sub.id written.top).Stores (spine.plug written).nodes :=
      shows.stores.put_plug rfl rfl
    rw [keyed] at cut
    refine ⟨_, _, some (spine.plug written), cut, ⟨?_, ?_, ?_, ?_⟩, entries⟩
    · exact shows.root.trans (congrArg some (Spine.plug_id rfl))
    · exact stored
    · rintro _ ⟨⟩
      exact Spine.sound_plug sound
        (.node soundSub.headed soundSub.sorted nofun soundSub.child) rfl headed
    · have size := shows.size
      rw [Trunk.entries, cut.split] at size
      rw [Trunk.entries, entries, size]
      simp [written]
  generation := rfl
  identity := rfl
  keeps := fun _ =>
    ⟨rfl, .put (Arena.Holds.read_sub shows.stores.toHolds) (by simp [Node.keyed, keyed])⟩

/-! ### Assigning -/

/-- **Assigning never fails, and edits a present key only.** -/
theorem assign (shows : tree.Shows trunk) (key : Bytes) (value : α) :
    ∃ change, tree.assign key value = .ok change ∧
      tree.Edit trunk.entries key change.previous (change.previous.map fun _ => value)
        change.tree := by
  rcases shows.present_or_absent key with
    ⟨spine, sub, previous, rfl, brackets, spells, keyed, descends⟩ |
      ⟨lower, upper, cut, descent, descends, absent⟩
  · refine ⟨⟨_, some previous, []⟩, ?_, shows.overwrite brackets spells keyed value⟩
    rw [Tree.assign, descends]
    simp only [ok_bind, Subtree.top, keyed]
    rfl
  · refine ⟨⟨tree, none, []⟩, ?_, shows.leave cut⟩
    rw [Tree.assign, descends, ok_bind]
    split
    · cases absent _ rfl rfl
    · rfl

end Tree.Shows

end RadixLog
