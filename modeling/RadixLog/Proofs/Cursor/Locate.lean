/-
**Seeking.**

A descent cuts the entries of a tree at its key, and settling it comes to the first entry above the
cut or the last one below it, with or without the entry at the cut itself.

* `Arena.settleUpwards_ahead`, `Arena.settleDownwards_behind`, `Arena.settleExactly_ahead`: from a
  descent to a position;
* `Tree.Shows.locate`: where each operator comes to.
-/

import RadixLog.Cursor
import RadixLog.Proofs.Cursor.Ends
import RadixLog.Proofs.Seek
import RadixLog.Proofs.Tree.Register

namespace RadixLog

variable {α : Type} {arena : Arena α} {trunk sub : Subtree α} {spine : Spine α} {key : Bytes}
  {landing : Landing}

namespace Arena

open Subtree

/-! ### Settling a descent -/

/-- From the node of the target, upwards lie its value and what is under it. -/
theorem settleUpwards_exact (holds : arena.Holds (spine.plug sub).nodes)
    (sound : (spine.plug sub).Sound) (strict : Bool) :
    ∃ position, arena.settleUpwards ⟨spine.trail sub, sub.top, .exact⟩ strict = .ok position ∧
      position.Ahead (some (spine.plug sub))
        ((if strict then [] else own (spine.spelled ++ sub.label) sub.value) ++
          (sub.children.flatMap (entries (spine.spelled ++ sub.label)) ++ spine.after)) := by
  cases keyed : sub.value with
  | none =>
    obtain ⟨position, goes, ahead⟩ := least_ahead holds sound rfl
    refine ⟨position, ?_, ?_⟩
    · simpa [settleUpwards, Node.keyed, keyed] using goes
    · have nonempty := (Spine.sound_of_plug sound).1.entries_ne_nil spine.spelled
      have under := ahead.append nonempty spine.after
      rw [entries_eq, keyed] at under
      simpa using under
  | some value =>
    cases strict with
    | true =>
      obtain ⟨position, goes, ahead⟩ := next_ahead holds sound rfl
      refine ⟨position, ?_, by simpa using ahead⟩
      simpa [settleUpwards, Node.keyed, keyed] using goes
    | false =>
      refine ⟨.positioned (spine.trail sub), ?_, .node spine sub value rfl keyed⟩
      simp [settleUpwards, Node.keyed, keyed]

/-- **Upwards lies the first entry above the cut**, or the one at it. -/
theorem settleUpwards_ahead (holds : arena.Holds trunk.nodes) (sound : trunk.Sound)
    (reaches : Reaches trunk key spine sub landing) (strict : Bool) :
    ∃ lower value upper position, Cut (trunk.entries []) key lower value upper ∧
      arena.settleUpwards ⟨spine.trail sub, sub.top, landing⟩ strict = .ok position ∧
      position.Ahead (some trunk) ((if strict then [] else own key value) ++ upper) := by
  obtain ⟨rfl, brackets, lands⟩ := reaches
  cases lands with
  | exact spells =>
    subst spells
    obtain ⟨position, goes, ahead⟩ := settleUpwards_exact holds sound strict
    exact ⟨_, _, _, position, Spine.cut_exact sound brackets rfl, goes, ahead⟩
  | inside shared byte tail rest label spells parts _ =>
    by_cases low : Bytes.order (shared ++ rest) sub.label = .lt
    · obtain ⟨position, goes, ahead⟩ := least_ahead holds sound rfl
      have nonempty := (Spine.sound_of_plug sound).1.entries_ne_nil spine.spelled
      refine ⟨_, _, _, position, Spine.cut_inside_low brackets label spells parts low, ?_, ?_⟩
      · simpa [settleUpwards, low] using goes
      · simpa using ahead.append nonempty spine.after
    · obtain ⟨position, goes, ahead⟩ := after_ahead holds sound rfl
      refine ⟨_, _, _, position, Spine.cut_inside_high brackets label spells parts low, ?_, ?_⟩
      · simpa [settleUpwards, low] using goes
      · simpa using ahead
  | between left right byte rest children spells lower higher =>
    have cut := Spine.cut_between sound brackets children spells lower higher
    cases right with
    | nil =>
      obtain ⟨position, goes, ahead⟩ := after_ahead holds sound rfl
      refine ⟨_, _, _, position, cut, ?_, ?_⟩
      · simpa [settleUpwards, children] using goes
      · simpa using ahead
    | cons child right =>
      obtain ⟨position, goes, ahead⟩ := enter_least holds sound rfl children
      refine ⟨_, _, _, position, cut, ?_, ?_⟩
      · simpa [settleUpwards, children] using goes
      · simpa using ahead (right.flatMap (entries (spine.spelled ++ sub.label)) ++ spine.after)

/-- **Downwards from a node, itself left out or not**, lies its value and then what is before it. -/
theorem settle_node_behind (holds : arena.Holds (spine.plug sub).nodes)
    (sound : (spine.plug sub).Sound) (strict : Bool) :
    ∃ position, (if sub.top.keyed && !strict then pure (.positioned (spine.trail sub))
        else arena.before (spine.trail sub)) = .ok position ∧
      position.Behind (some (spine.plug sub))
        (spine.before ++ if strict then [] else own (spine.spelled ++ sub.label) sub.value) := by
  obtain ⟨position, goes, behind⟩ := before_behind holds sound rfl
  cases keyed : sub.value with
  | none => exact ⟨position, by simpa [Node.keyed, keyed] using goes, by simpa using behind⟩
  | some value =>
    cases strict with
    | true => exact ⟨position, by simpa using goes, by simpa using behind⟩
    | false =>
      refine ⟨.positioned (spine.trail sub), by simp [Node.keyed, keyed], ?_⟩
      exact (Position.On.node spine sub value rfl keyed).behind _

/-- **Downwards lies the last entry below the cut**, or the one at it. -/
theorem settleDownwards_behind (holds : arena.Holds trunk.nodes) (sound : trunk.Sound)
    (reaches : Reaches trunk key spine sub landing) (strict : Bool) :
    ∃ lower value upper position, Cut (trunk.entries []) key lower value upper ∧
      arena.settleDownwards ⟨spine.trail sub, sub.top, landing⟩ strict = .ok position ∧
      position.Behind (some trunk) (lower ++ if strict then [] else own key value) := by
  obtain ⟨rfl, brackets, lands⟩ := reaches
  cases lands with
  | exact spells =>
    subst spells
    obtain ⟨position, goes, behind⟩ := settle_node_behind holds sound strict
    exact ⟨_, _, _, position, Spine.cut_exact sound brackets rfl, goes, behind⟩
  | inside shared byte tail rest label spells parts _ =>
    by_cases low : Bytes.order (shared ++ rest) sub.label = .lt
    · obtain ⟨position, goes, behind⟩ := before_behind holds sound rfl
      refine ⟨_, _, _, position, Spine.cut_inside_low brackets label spells parts low, ?_, ?_⟩
      · simpa [settleDownwards, low] using goes
      · simpa using behind
    · obtain ⟨position, goes, behind⟩ := greatest_behind holds sound rfl
      have nonempty := (Spine.sound_of_plug sound).1.entries_ne_nil spine.spelled
      refine ⟨_, _, _, position, Spine.cut_inside_high brackets label spells parts low, ?_, ?_⟩
      · simpa [settleDownwards, low] using goes
      · simpa using behind.append nonempty spine.before
  | between left right byte rest children spells lower higher =>
    have cut := Spine.cut_between sound brackets children spells lower higher
    rcases List.eq_nil_or_concat left with rfl | ⟨others, child, rfl⟩
    · -- Below the first child there is only the value of the node.
      obtain ⟨position, goes, behind⟩ := settle_node_behind holds sound false
      refine ⟨_, _, _, position, cut, ?_, by simpa using behind⟩
      simpa [settleDownwards] using goes
    · rw [List.concat_eq_append, List.append_assoc] at children
      obtain ⟨position, goes, behind⟩ := enter_greatest holds sound rfl children
      refine ⟨_, _, _, position, cut, ?_, ?_⟩
      · simpa [settleDownwards, children] using goes
      · simpa [← List.append_assoc] using behind _

/-- **The target itself**, if it stands at the cut. -/
theorem settleExactly_ahead (sound : trunk.Sound) (reaches : Reaches trunk key spine sub landing) :
    ∃ lower value upper, Cut (trunk.entries []) key lower value upper ∧
      (settleExactly ⟨spine.trail sub, sub.top, landing⟩).Ahead (some trunk) (own key value) := by
  obtain ⟨lower, upper, cut⟩ := reaches.exists_cut sound
  refine ⟨lower, _, upper, cut, ?_⟩
  obtain ⟨rfl, brackets, lands⟩ := reaches
  cases lands with
  | exact spells =>
    cases keyed : sub.value with
    | none => simp [settleExactly, Node.keyed, keyed, Position.Ahead, Position.OnOr]
    | some value =>
      simp only [settleExactly, Node.keyed, Subtree.top_value, keyed, Option.isSome_some, if_true]
      exact spells ▸ .node spine sub value rfl keyed
  | inside => rfl
  | between => rfl

end Arena

/-! ### Seeking in a tree -/

/-- Where an operator comes to when no key is the one it asks for. -/
def Seek.beyond : Seek → Position
  | .lt | .le | .min => .beforeFirst
  | .eq | .gt | .ge | .max => .afterLast

namespace Tree.Shows

variable {tree : Tree α} {trunk : Trunk α} {whole : Subtree α}

theorem start (shows : tree.Shows (some whole)) :
    tree.arena.start whole.id = .ok (Spine.trail [] whole) := by
  have read : tree.arena.node whole.id = .ok whole.top := shows.stores.read whole.top_mem_nodes
  rw [Arena.start, read]
  rfl

/-- **Seeking beside a target comes to the neighbour on that side.** -/
theorem locateBeside (shows : tree.Shows trunk) (side : Arena.Side) (target : Bytes) :
    ∃ lower value upper position, Cut trunk.entries target lower value upper ∧
      tree.locateBeside side target = .ok position ∧
      match side with
      | .exactly => position.Ahead trunk (own target value)
      | .upwards strict => position.Ahead trunk ((if strict then [] else own target value) ++ upper)
      | .downwards strict =>
        position.Behind trunk (lower ++ if strict then [] else own target value) := by
  cases trunk with
  | none =>
    refine ⟨[], none, [], missing side, .nil target, ?_, ?_⟩
    · rw [Tree.locateBeside, shows.descend?_none]
      rfl
    · rcases side with _ | strict | strict
      · rfl
      · cases strict <;> rfl
      · cases strict <;> rfl
  | some whole =>
    have holds := shows.stores.toHolds
    have sound := shows.sound whole rfl
    obtain ⟨spine, sub, landing, reaches, descends⟩ := shows.descend? target
    simp only [Tree.locateBeside, descends, ok_bind]
    rcases side with _ | strict | strict
    · obtain ⟨lower, value, upper, cut, ahead⟩ := Arena.settleExactly_ahead sound reaches
      exact ⟨lower, value, upper, _, cut, rfl, ahead⟩
    · exact Arena.settleUpwards_ahead holds sound reaches strict
    · exact Arena.settleDownwards_behind holds sound reaches strict

/-- **Seeking never fails, and comes to the entry that the operator picks.** -/
theorem locate (shows : tree.Shows trunk) (op : Seek) (target : Bytes) :
    ∃ position, tree.locate op target = .ok position ∧
      position.OnOr trunk (op.pick target trunk.entries) op.beyond := by
  cases op with
  | eq =>
    obtain ⟨lower, value, upper, position, cut, goes, ahead⟩ := shows.locateBeside .exactly target
    exact ⟨position, goes, by rw [Seek.pick, cut.filter_eq_key]; exact ahead⟩
  | gt =>
    obtain ⟨lower, value, upper, position, cut, goes, ahead⟩ :=
      shows.locateBeside (.upwards true) target
    exact ⟨position, goes, by rw [Seek.pick, cut.filter_gt]; exact ahead⟩
  | ge =>
    obtain ⟨lower, value, upper, position, cut, goes, ahead⟩ :=
      shows.locateBeside (.upwards false) target
    exact ⟨position, goes, by rw [Seek.pick, cut.filter_ge]; exact ahead⟩
  | lt =>
    obtain ⟨lower, value, upper, position, cut, goes, behind⟩ :=
      shows.locateBeside (.downwards true) target
    simp only [if_true, List.append_nil] at behind
    exact ⟨position, goes, by rw [Seek.pick, cut.filter_lt]; exact behind⟩
  | le =>
    obtain ⟨lower, value, upper, position, cut, goes, behind⟩ :=
      shows.locateBeside (.downwards false) target
    exact ⟨position, goes, by rw [Seek.pick, cut.filter_le]; exact behind⟩
  | min =>
    cases trunk with
    | none => exact ⟨.beforeFirst, by rw [Tree.locate, shows.root]; rfl, rfl⟩
    | some whole =>
      have sound := shows.sound whole rfl
      obtain ⟨position, goes, ahead⟩ :=
        Arena.least_ahead shows.stores.toHolds sound (show Spine.plug [] whole = whole from rfl)
      refine ⟨position, ?_, ahead.onOr (sound.entries_ne_nil []) _⟩
      rw [Tree.locate, shows.root]
      simp [shows.start, goes]
  | max =>
    cases trunk with
    | none => exact ⟨.afterLast, by rw [Tree.locate, shows.root]; rfl, rfl⟩
    | some whole =>
      have sound := shows.sound whole rfl
      obtain ⟨position, goes, behind⟩ :=
        Arena.greatest_behind shows.stores.toHolds sound (show Spine.plug [] whole = whole from rfl)
      refine ⟨position, ?_, behind.onOr (sound.entries_ne_nil []) _⟩
      rw [Tree.locate, shows.root]
      simp [shows.start, goes]

/-! ### Reading a position -/

/-- **A position on an entry reads that entry.** -/
theorem entryAt (shows : tree.Shows trunk) {position : Position} {entry : Bytes × α}
    (on : position.On trunk entry) : tree.entryAt position = .ok (some entry) := by
  obtain ⟨spine, sub, value, rfl, keyed⟩ := on
  have read : tree.arena.node (spine.trail sub).top.node = .ok sub.top :=
    Arena.Holds.read_sub shows.stores.toHolds
  rw [Tree.entryAt, read, ok_bind, Subtree.top_value, keyed]
  rfl

end Tree.Shows

/-! ### What a seek finds -/

/-- The keys of a tree. -/
def Tree.keys (tree : Tree α) : Set Bytes := {key | tree.contains key = .ok true}

theorem Tree.Represents.keys_eq {tree : Tree α} {register : Register α}
    (represents : tree.Represents register) : tree.keys = Seek.keys register.map.toList := by
  ext key
  show tree.contains key = .ok true ↔ ∃ value, (key, value) ∈ register.map.toList
  simp only [represents.contains, Except.ok.injEq, Std.ExtTreeMap.contains_eq_isSome_getElem?,
    Option.isSome_iff_exists, Std.ExtTreeMap.mem_toList_iff_getElem?_eq_some]

/-- The cursor of a tree as it is, at a position. -/
def Tree.cursorAt (tree : Tree α) (position : Position) : Cursor :=
  ⟨position, tree.identity, tree.generation⟩

theorem Tree.current_cursorAt {tree : Tree α} {position : Position} {item? : Option (Bytes × α)}
    (reads : tree.entryAt position = .ok item?) :
    (tree.cursorAt position).current tree = .ok (.ok item?) := by
  simp [Cursor.current, Cursor.check, Cursor.checkTree, cursorAt, reads]

/-- **A seek finds the key that its operator asks for**, of all keys in the tree, with the value
under it. If no key is the one asked for, it ends beyond the end that the operator looks towards,
and reads nothing. A cursor of the tree is placed there, wherever it was before. -/
theorem Tree.seek_finds_wanted {tree : Tree α} (reachable : tree.Reachable) (op : Seek)
    (target : Bytes) : ∃ position, tree.locate op target = .ok position ∧
      (∀ cursor : Cursor, cursor.identity = tree.identity →
        cursor.seek tree op target = .ok (.ok position.onKey, tree.cursorAt position)) ∧
      ((∃ key value, op.Wants tree.keys target key ∧ tree.find? key = .ok (some value) ∧
          position.state = .positioned ∧ position.key? = some key ∧
          (tree.cursorAt position).current tree = .ok (.ok (some (key, value)))) ∨
        ((∀ key, ¬ op.Wants tree.keys target key) ∧ position = op.beyond ∧ position.key? = none ∧
          (tree.cursorAt position).current tree = .ok (.ok none))) := by
  obtain ⟨register, represents⟩ := reachable.represents
  obtain ⟨trunk, shows, entries⟩ := represents.shows
  obtain ⟨position, goes, reads⟩ := shows.locate op target
  rw [entries] at reads
  refine ⟨position, goes, fun cursor own => ?_, ?_⟩
  · rw [Cursor.seek, Cursor.checkTree, if_pos own]
    simp [goes, own, cursorAt]
  · rw [represents.keys_eq]
    cases picked : op.pick target register.map.toList with
    | some entry =>
      rw [picked] at reads
      have found := Std.ExtTreeMap.mem_toList_iff_getElem?_eq_some.mp (Seek.pick_mem picked)
      refine .inl ⟨entry.1, entry.2, Seek.wants_of_pick register.map.ascend picked, ?_, ?_, ?_,
        current_cursorAt (shows.entryAt reads)⟩
      · rw [represents.find?, found]
      · obtain ⟨spine, sub, value, _, keyed⟩ := reads
        rfl
      · obtain ⟨spine, sub, value, _, keyed⟩ := reads
        rfl
    | none =>
      rw [picked] at reads
      obtain rfl : position = op.beyond := reads
      refine .inr ⟨Seek.not_wants_of_pick picked, rfl, ?_, current_cursorAt ?_⟩ <;> cases op <;> rfl

/-- Of the keys 7, 7 1 and 7 2, the greatest below 7 1 5 is 7 1, which is where the seek ends. -/
theorem Tree.seek_finds_nearest_below : ∃ (tree : Tree Nat) (position : Position), tree.Reachable ∧
    tree.find? [7] = .ok (some 3) ∧ tree.find? [7, 1] = .ok (some 4) ∧
    tree.find? [7, 2] = .ok (some 5) ∧ tree.locate .lt [7, 1, 5] = .ok position ∧
    position.key? = some [7, 1] ∧ Seek.lt.Wants tree.keys [7, 1, 5] [7, 1] ∧
    (tree.cursorAt position).current tree = .ok (.ok (some ([7, 1], 4))) := by
  have reachable := (Reachable.empty (α := Nat) {} 0).runAll
    [.insert [7] 3, .insert [7, 1] 4, .insert [7, 2] 5] rfl
  obtain ⟨position, goes, _, found | ⟨_, beyond, _⟩⟩ := seek_finds_wanted reachable .lt [7, 1, 5]
  · obtain ⟨key, value, wants, stored, _, here, reads⟩ := found
    cases goes
    cases here
    cases stored
    exact ⟨_, _, reachable, rfl, rfl, rfl, rfl, rfl, wants, reads⟩
  · cases goes
    cases beyond

end RadixLog
