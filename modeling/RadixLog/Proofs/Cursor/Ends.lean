/-
**The ends of a subtree and what lies beyond them.**

A position is on an entry when it remembers the path to the node of that entry. Going to the least
or the greatest key under a node comes to the first or the last of its entries; leaving a subtree
comes to the first entry after it or the last one before it, or beyond the end of the tree.

* `Position.On`, `Position.Ahead`, `Position.Behind`: where a move comes to, in terms of entries;
* `Arena.least_ahead`, `Arena.greatest_behind`: the ends of a subtree;
* `Arena.after_ahead`, `Arena.before_behind`: leaving a subtree;
* `Arena.next_ahead`: going on from the key of a node.
-/

import RadixLog.Cursor.Position
import RadixLog.Proofs.Descent

namespace RadixLog

variable {α : Type} {trunk sub child : Subtree α} {spine : Spine α} {position : Position}
  {first last : List (Bytes × α)}

namespace Position

/-! ### Positions and entries -/

/-- **A position is on an entry**: it remembers the path to a subtree of the trunk, whose node has
the value of the entry and whose path spells its key. -/
inductive On (trunk : Trunk α) : Position → Bytes × α → Prop where
  | node (spine : Spine α) (sub : Subtree α) (value : α) (whole : trunk = some (spine.plug sub))
    (keyed : sub.value = some value) :
    On trunk (.positioned (spine.trail sub)) (spine.spelled ++ sub.label, value)

/-- On an entry, or beyond an end if there is none. -/
def OnOr (trunk : Trunk α) (entry : Option (Bytes × α)) (position beyond : Position) : Prop :=
  match entry with
  | some entry => position.On trunk entry
  | none => position = beyond

/-- On the first of the entries, or after the last key if there are none. -/
def Ahead (trunk : Trunk α) (entries : List (Bytes × α)) (position : Position) : Prop :=
  position.OnOr trunk entries.head? .afterLast

/-- On the last of the entries, or before the first key if there are none. -/
def Behind (trunk : Trunk α) (entries : List (Bytes × α)) (position : Position) : Prop :=
  position.OnOr trunk entries.getLast? .beforeFirst

theorem Ahead.append {trunk : Trunk α} (ahead : position.Ahead trunk first) (nonempty : first ≠ [])
    (last : List (Bytes × α)) : position.Ahead trunk (first ++ last) := by
  rwa [Ahead, List.head?_append_of_ne_nil _ nonempty]

theorem Behind.append {trunk : Trunk α} (behind : position.Behind trunk last) (nonempty : last ≠ [])
    (first : List (Bytes × α)) : position.Behind trunk (first ++ last) := by
  rwa [Behind, List.getLast?_append_of_ne_nil _ nonempty]

theorem On.behind {trunk : Trunk α} {entry : Bytes × α} (on : position.On trunk entry)
    (first : List (Bytes × α)) : position.Behind trunk (first ++ [entry]) :=
  Behind.append (show position.Behind trunk [entry] from on) (List.cons_ne_nil _ _) first

/-- If there are entries, it does not matter what lies beyond. -/
theorem Ahead.onOr {trunk : Trunk α} (ahead : position.Ahead trunk first) (nonempty : first ≠ [])
    (beyond : Position) : position.OnOr trunk first.head? beyond := by
  obtain ⟨entry, rest, rfl⟩ := List.exists_cons_of_ne_nil nonempty
  exact ahead

theorem Behind.onOr {trunk : Trunk α} (behind : position.Behind trunk last) (nonempty : last ≠ [])
    (beyond : Position) : position.OnOr trunk last.getLast? beyond := by
  rw [Behind, List.getLast?_eq_some_getLast nonempty] at behind
  rw [List.getLast?_eq_some_getLast nonempty]
  exact behind

end Position

/-! ### Neighbours among children -/

/-- The entry of a child table right after the one of a subtree. -/
theorem Frame.getElem?_next (frame : Frame α) (sub : Subtree α) :
    (frame.close sub).top.children[frame.left.length + 1]? =
      frame.right.head?.map Subtree.edge := by
  rw [Frame.close, Subtree.top_children, List.getElem?_map,
    List.getElem?_append_right (Nat.le_succ _)]
  cases frame.right <;> simp

theorem Frame.getElem?_previous {frame : Frame α} {others : List (Subtree α)}
    (left : frame.left = others ++ [child]) (sub : Subtree α) :
    (frame.close sub).top.children[others.length]? = some child.edge := by
  simp [Frame.close, left]

namespace Arena

open Subtree

variable {arena : Arena α} {left right : List (Subtree α)}

/-! ### One step along a path -/

/-- A path goes on to a child. -/
theorem enter_eq (holds : arena.Holds trunk.nodes) (whole : spine.plug sub = trunk)
    (children : sub.children = left ++ child :: right) :
    arena.enter (spine.trail sub) left.length child.id =
      .ok (Spine.trail (sub.cut left right :: spine) child) := by
  have inside : Spine.plug (sub.cut left right :: spine) child = trunk := by
    rw [Spine.plug, close_cut children, whole]
  have read : arena.node child.id = .ok child.top := Holds.read_sub (inside ▸ holds)
  rw [enter, read]
  rfl

/-- A path goes back to where its last node hangs. -/
theorem keyAbove_eq (holds : arena.Holds trunk.nodes) (whole : spine.plug sub = trunk) :
    arena.keyAbove ⟨sub.id, spine.slot⟩ (spine.spelled ++ sub.label) = .ok spine.spelled := by
  have read : arena.node sub.id = .ok sub.top := Holds.read_sub (whole ▸ holds)
  rw [keyAbove, read]
  simp

theorem Holds.length_sub_le (holds : arena.Holds trunk.nodes) (whole : spine.plug sub = trunk) :
    sub.nodes.length ≤ arena.slots.size := by
  have parts := (spine.nodes_plug sub).length_eq
  rw [whole, List.length_append] at parts
  have bound := holds.length_le
  omega

/-! ### The ends of a subtree -/

/-- **Going down first children comes to the first entry.** -/
theorem leastFrom_ahead (holds : arena.Holds trunk.nodes) (sound : trunk.Sound) {fuel : Nat}
    (whole : spine.plug sub = trunk) (enough : sub.nodes.length ≤ fuel) :
    ∃ position, arena.leastFrom fuel (spine.trail sub) = .ok position ∧
      position.Ahead (some trunk) (sub.entries spine.spelled) := by
  induction fuel generalizing spine sub with
  | zero =>
    rw [nodes_eq] at enough
    exact absurd enough (Nat.not_succ_le_zero _)
  | succ fuel ih =>
    have soundSub := (Spine.sound_of_plug (whole ▸ sound)).1
    have read : arena.node (spine.trail sub).top.node = .ok sub.top :=
      Holds.read_sub (whole ▸ holds)
    rw [leastFrom, read, ok_bind]
    cases keyed : sub.value with
    | some value =>
      rw [if_pos (by simp [Node.keyed, keyed])]
      refine ⟨_, rfl, ?_⟩
      rw [entries_eq, keyed]
      exact .node spine sub value (congrArg some whole.symm) keyed
    | none =>
      rw [if_neg (by simp [Node.keyed, keyed])]
      cases children : sub.children with
      | nil => exact absurd (soundSub.full keyed) (by simp [children])
      | cons child right =>
        have fewer := length_nodes_lt (show child ∈ sub.children by simp [children])
        obtain ⟨position, goes, ahead⟩ := @ih child (sub.cut [] right :: spine)
          (by rw [Spine.plug, close_cut (by simp [children]), whole]) (by omega)
        have nonempty := (soundSub.child child (by simp [children])).entries_ne_nil
        have enters := enter_eq holds whole (show sub.children = [] ++ child :: right from children)
        refine ⟨position, ?_, ?_⟩
        · simp only [top_children, children, List.map_cons]
          rw [show arena.enter (spine.trail sub) 0 child.edge.child = _ from enters]
          exact goes
        · rw [entries_eq, keyed, children, own_none, List.nil_append, List.flatMap_cons]
          exact ahead.append (nonempty _) _

theorem least_ahead (holds : arena.Holds trunk.nodes) (sound : trunk.Sound)
    (whole : spine.plug sub = trunk) : ∃ position, arena.least (spine.trail sub) = .ok position ∧
      position.Ahead (some trunk) (sub.entries spine.spelled) :=
  leastFrom_ahead holds sound whole (holds.length_sub_le whole)

/-- **Going down last children comes to the last entry.** -/
theorem greatestFrom_behind (holds : arena.Holds trunk.nodes) (sound : trunk.Sound) {fuel : Nat}
    (whole : spine.plug sub = trunk) (enough : sub.nodes.length ≤ fuel) :
    ∃ position, arena.greatestFrom fuel (spine.trail sub) = .ok position ∧
      position.Behind (some trunk) (sub.entries spine.spelled) := by
  induction fuel generalizing spine sub with
  | zero =>
    rw [nodes_eq] at enough
    exact absurd enough (Nat.not_succ_le_zero _)
  | succ fuel ih =>
    have soundSub := (Spine.sound_of_plug (whole ▸ sound)).1
    have read : arena.node (spine.trail sub).top.node = .ok sub.top :=
      Holds.read_sub (whole ▸ holds)
    rw [greatestFrom, read, ok_bind, top_children, List.getLast?_map, List.length_map]
    rcases List.eq_nil_or_concat sub.children with children | ⟨left, child, children⟩
    · obtain ⟨value, keyed⟩ : ∃ value, sub.value = some value :=
        Option.ne_none_iff_exists'.mp fun valueless =>
          absurd (soundSub.full valueless) (by simp [children])
      rw [children]
      refine ⟨_, rfl, ?_⟩
      rw [entries_eq, keyed, children]
      exact .node spine sub value (congrArg some whole.symm) keyed
    · rw [List.concat_eq_append] at children
      have fewer := length_nodes_lt (show child ∈ sub.children by simp [children])
      obtain ⟨position, goes, behind⟩ := @ih child (sub.cut left [] :: spine)
        (by rw [Spine.plug, close_cut children, whole]) (by omega)
      have nonempty := (soundSub.child child (by simp [children])).entries_ne_nil
      refine ⟨position, ?_, ?_⟩
      · simp only [children, List.getLast?_append, List.getLast?_singleton, Option.some_or,
          Option.map_some, List.length_append, List.length_singleton, Nat.add_sub_cancel]
        rw [show arena.enter (spine.trail sub) left.length child.edge.child = _ from
          enter_eq holds whole children]
        exact goes
      · rw [entries_eq, children, List.flatMap_append, List.flatMap_singleton, ← List.append_assoc]
        exact behind.append (nonempty _) _

theorem greatest_behind (holds : arena.Holds trunk.nodes) (sound : trunk.Sound)
    (whole : spine.plug sub = trunk) : ∃ position, arena.greatest (spine.trail sub) = .ok position ∧
      position.Behind (some trunk) (sub.entries spine.spelled) :=
  greatestFrom_behind holds sound whole (holds.length_sub_le whole)

/-! ### The ends of a child -/

/-- **A path goes on to the first entry under a child.** -/
theorem enter_least (holds : arena.Holds trunk.nodes) (sound : trunk.Sound)
    (whole : spine.plug sub = trunk) (children : sub.children = left ++ child :: right) :
    ∃ position,
      (arena.enter (spine.trail sub) left.length child.id >>= arena.least) = .ok position ∧
      ∀ rest, position.Ahead (some trunk) (child.entries (spine.spelled ++ sub.label) ++ rest) := by
  have inside : Spine.plug (sub.cut left right :: spine) child = trunk := by
    rw [Spine.plug, close_cut children, whole]
  obtain ⟨position, goes, ahead⟩ := least_ahead holds sound inside
  have nonempty := (Spine.sound_of_plug (inside ▸ sound)).1.entries_ne_nil
  exact ⟨position, by rw [enter_eq holds whole children, ok_bind, goes],
    fun rest => ahead.append (nonempty _) rest⟩

/-- **A path goes on to the last entry under a child.** -/
theorem enter_greatest (holds : arena.Holds trunk.nodes) (sound : trunk.Sound)
    (whole : spine.plug sub = trunk) (children : sub.children = left ++ child :: right) :
    ∃ position, (arena.enter (spine.trail sub) left.length child.id >>= arena.greatest) =
        .ok position ∧
      ∀ rest,
        position.Behind (some trunk) (rest ++ child.entries (spine.spelled ++ sub.label)) := by
  have inside : Spine.plug (sub.cut left right :: spine) child = trunk := by
    rw [Spine.plug, close_cut children, whole]
  obtain ⟨position, goes, behind⟩ := greatest_behind holds sound inside
  have nonempty := (Spine.sound_of_plug (inside ▸ sound)).1.entries_ne_nil
  exact ⟨position, by rw [enter_eq holds whole children, ok_bind, goes],
    fun rest => behind.append (nonempty _) rest⟩

/-! ### Leaving a subtree -/

/-- **Climbing to the first further child comes to the first entry after a subtree.** -/
theorem afterFrom_ahead (holds : arena.Holds trunk.nodes) (sound : trunk.Sound)
    (whole : spine.plug sub = trunk) :
    ∃ position, arena.afterFrom spine.links ⟨sub.id, spine.slot⟩ (spine.spelled ++ sub.label) =
        .ok position ∧ position.Ahead (some trunk) spine.after := by
  induction spine generalizing sub with
  | nil =>
    rw [Spine.links, afterFrom, keyAbove_eq holds whole]
    exact ⟨.afterLast, rfl, rfl⟩
  | cons frame spine ih =>
    have read : arena.node frame.edge.child = .ok (frame.close sub).top :=
      @Holds.read_sub α arena spine (frame.close sub) (whole ▸ holds)
    rw [Spine.links, afterFrom, keyAbove_eq holds whole, ok_bind, read, ok_bind, Spine.slot,
      frame.getElem?_next, Spine.after]
    cases right : frame.right with
    | nil => exact ih whole
    | cons child others =>
      have children : (frame.close sub).children = (frame.left ++ [sub]) ++ child :: others := by
        simp [Frame.close, right]
      obtain ⟨position, goes, ahead⟩ :=
        enter_least holds sound (show Spine.plug spine (frame.close sub) = trunk from whole)
          children
      rw [List.length_append, List.length_singleton] at goes
      refine ⟨position, goes, ?_⟩
      rw [List.flatMap_cons, List.append_assoc]
      exact ahead _

theorem after_ahead (holds : arena.Holds trunk.nodes) (sound : trunk.Sound)
    (whole : spine.plug sub = trunk) : ∃ position, arena.after (spine.trail sub) = .ok position ∧
      position.Ahead (some trunk) spine.after :=
  afterFrom_ahead holds sound whole

/-- **Climbing to the first earlier child, or the first key on the way, comes to the last entry
before a subtree.** -/
theorem beforeFrom_behind (holds : arena.Holds trunk.nodes) (sound : trunk.Sound)
    (whole : spine.plug sub = trunk) :
    ∃ position, arena.beforeFrom spine.links ⟨sub.id, spine.slot⟩ (spine.spelled ++ sub.label) =
        .ok position ∧ position.Behind (some trunk) spine.before := by
  induction spine generalizing sub with
  | nil =>
    rw [Spine.links, beforeFrom, keyAbove_eq holds whole]
    exact ⟨.beforeFirst, rfl, rfl⟩
  | cons frame spine ih =>
    have read : arena.node frame.edge.child = .ok (frame.close sub).top :=
      @Holds.read_sub α arena spine (frame.close sub) (whole ▸ holds)
    rw [Spine.links, beforeFrom, keyAbove_eq holds whole, ok_bind, read, ok_bind, Spine.slot,
      Spine.before]
    rcases List.eq_nil_or_concat frame.left with left | ⟨others, child, left⟩
    · rw [left]
      simp only [List.length_nil]
      cases keyed : frame.value with
      | some value =>
        rw [if_pos (by simp [Node.keyed, Frame.close, keyed])]
        have on := Position.On.node spine (frame.close sub) value (congrArg some whole.symm) keyed
        exact ⟨_, rfl, on.behind _⟩
      | none =>
        rw [if_neg (by simp [Node.keyed, Frame.close, keyed])]
        simp only [own_none, List.flatMap_nil, List.append_nil]
        exact ih whole
    · rw [List.concat_eq_append] at left
      have children : (frame.close sub).children = others ++ child :: (sub :: frame.right) := by
        simp [Frame.close, left]
      obtain ⟨position, goes, behind⟩ :=
        enter_greatest holds sound (show Spine.plug spine (frame.close sub) = trunk from whole)
          children
      have previous := Frame.getElem?_previous left sub
      rw [left, List.length_append, List.length_singleton]
      simp only [previous]
      refine ⟨position, goes, ?_⟩
      rw [List.flatMap_append, List.flatMap_singleton, ← List.append_assoc, ← List.append_assoc]
      exact behind _

theorem before_behind (holds : arena.Holds trunk.nodes) (sound : trunk.Sound)
    (whole : spine.plug sub = trunk) : ∃ position, arena.before (spine.trail sub) = .ok position ∧
      position.Behind (some trunk) spine.before :=
  beforeFrom_behind holds sound whole

/-! ### Going on from a key -/

/-- **The first entry after that of a node** is under its first child, or after all
under the node. -/
theorem next_ahead (holds : arena.Holds trunk.nodes) (sound : trunk.Sound)
    (whole : spine.plug sub = trunk) : ∃ position, arena.next (spine.trail sub) = .ok position ∧
      position.Ahead (some trunk)
        (sub.children.flatMap (entries (spine.spelled ++ sub.label)) ++ spine.after) := by
  have read : arena.node (spine.trail sub).top.node = .ok sub.top := Holds.read_sub (whole ▸ holds)
  rw [next, read, ok_bind, top_children]
  cases children : sub.children with
  | nil => exact after_ahead holds sound whole
  | cons child right =>
    obtain ⟨position, goes, ahead⟩ :=
      enter_least holds sound whole (show sub.children = [] ++ child :: right from children)
    refine ⟨position, goes, ?_⟩
    rw [List.flatMap_cons, List.append_assoc]
    exact ahead _

end Arena

end RadixLog
