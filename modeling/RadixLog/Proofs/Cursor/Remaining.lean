/-
**What a scan has yet to hand out.**

From the entry that it is at, a scan hands out the rest of the entries in its direction, one by one,
and then nothing more.

* `Direction.along`: the entries in the order of a direction;
* `Sweep.Leaves`, `Scan.Leaves`: what is left;
* `Scan.Leaves.next`, `Scan.Leaves.take`: the first is handed out, and the others are left;
* `Tree.Represents.scan_leaves`: what is left after a seek.
-/

import RadixLog.Proofs.Cursor.Sweep

namespace RadixLog

variable {α : Type} {map : KeyMap α} {entry : Bytes × α} {before after items : List (Bytes × α)}

/-! ### Directions -/

namespace Direction

/-- Items in the order in which a direction meets them. -/
def along {β : Type} : Direction → List β → List β
  | .forward, items => items
  | .backward, items => items.reverse

/-- The operator that asks for the next key in a direction. -/
def beyond : Direction → Seek
  | .forward => .gt
  | .backward => .lt

theorem mem_along {β : Type} {item : β} {items : List β} (direction : Direction) :
    item ∈ direction.along items ↔ item ∈ items := by
  cases direction
  · rfl
  · exact List.mem_reverse

/-- **The next entry in a direction** is the one that comes next in its order. -/
theorem pick_beyond {direction : Direction}
    (split : direction.along map.toList = before ++ entry :: after) :
    direction.beyond.pick entry.1 map.toList = after.head? := by
  cases direction with
  | forward => exact congrArg List.head? (Cut.of_split map.ascend split).filter_gt
  | backward =>
    have split' : map.toList = after.reverse ++ (own entry.1 (some entry.2) ++ before.reverse) := by
      rw [List.reverse_eq_iff.mp split]
      simp
    have below := congrArg List.getLast? (Cut.of_split map.ascend split').filter_lt
    rwa [List.getLast?_reverse] at below

theorem step_on (direction : Direction) (key : Bytes) :
    Place.step map direction (.on key) = Place.seek map direction.beyond key := by
  cases direction <;> rfl

end Direction

/-! ### Sweeps -/

namespace Sweep

/-- **What a sweep has yet to hand out.** -/
inductive Leaves (map : KeyMap α) : Sweep → List (Bytes × α) → Prop where
  /-- The entry that a seek came to, and the ones beyond it. -/
  | here {direction : Direction} {before after : List (Bytes × α)} {entry : Bytes × α}
    (split : direction.along map.toList = before ++ entry :: after) :
    Leaves map ⟨.on entry.1, direction, true⟩ (entry :: after)
  /-- The entries beyond the last one handed out. -/
  | past {direction : Direction} {before after : List (Bytes × α)} {entry : Bytes × α}
    (split : direction.along map.toList = before ++ entry :: after) :
    Leaves map ⟨.on entry.1, direction, false⟩ after
  /-- Nothing, beyond an end. -/
  | ended {sweep : Sweep} (beyond : sweep.place.onKey = false) : Leaves map sweep []

variable {sweep : Sweep} {direction : Direction}

theorem item?_on (split : direction.along map.toList = before ++ entry :: after) :
    (Place.on entry.1).item? map = some entry := by
  have member : entry ∈ map.toList := direction.mem_along.mp (split ▸ by simp)
  rw [Place.item?, Std.ExtTreeMap.mem_toList_iff_getElem?_eq_some.mp member]
  rfl

theorem item?_beyond {place : Place} (beyond : place.onKey = false) : place.item? map = none := by
  cases place with
  | on key => cases beyond
  | beforeFirst => rfl
  | afterLast => rfl

/-- Handing out an entry does not turn a sweep. -/
theorem next_direction (map : KeyMap α) (sweep : Sweep) :
    (sweep.next map).2.direction = sweep.direction := by
  unfold next
  split_ifs <;> rfl

/-- **A sweep hands out the first of what is left**, and leaves the others. -/
theorem Leaves.next (leaves : sweep.Leaves map items) :
    (sweep.next map).1 = items.head? ∧ (sweep.next map).2.Leaves map items.tail := by
  cases leaves with
  | here split => exact ⟨item?_on split, .past split⟩
  | @past direction before _ entry split =>
    have next : Place.step map direction (.on entry.1) = _ := direction.step_on entry.1
    rw [Place.seek, direction.pick_beyond split] at next
    show (Place.step map direction (.on entry.1)).item? map = items.head? ∧
      Leaves map ⟨Place.step map direction (.on entry.1), direction, false⟩ items.tail
    rw [next]
    cases items with
    | nil => cases direction <;> exact ⟨rfl, .ended rfl⟩
    | cons second items =>
      rw [← List.singleton_append, ← List.append_assoc] at split
      exact ⟨item?_on split, .past split⟩
  | ended beyond =>
    rw [Sweep.next, beyond]
    cases sweep.fresh
    · exact ⟨rfl, .ended beyond⟩
    · exact ⟨item?_beyond beyond, .ended beyond⟩

/-- **After a seek, what is left** begins with the entry that the operator picks. -/
theorem Leaves.seek {op : Seek} {target : Bytes} (suffix : items <:+ direction.along map.toList)
    (first : op.pick target map.toList = items.head?) :
    Leaves map ⟨Place.seek map op target, direction, true⟩ items := by
  rw [Place.seek, first]
  cases items with
  | nil => exact .ended (by cases op <;> rfl)
  | cons entry items =>
    obtain ⟨before, split⟩ := suffix
    exact .here split.symm

/-- **What is left is the end of all entries**, in the order of the direction. -/
theorem Leaves.suffix (leaves : sweep.Leaves map items) :
    items <:+ sweep.direction.along map.toList := by
  cases leaves with
  | here split => exact ⟨_, split.symm⟩
  | @past direction before _ entry split =>
    refine ⟨before ++ [entry], ?_⟩
    show before ++ [entry] ++ items = direction.along map.toList
    rw [split, List.append_assoc, List.singleton_append]
  | ended beyond => exact List.nil_suffix

/-- A sweep that is at no key but one of the map has something left, if only nothing. -/
theorem exists_leaves (known : ∀ key, sweep.place = .on key → key ∈ map) :
    ∃ items, sweep.Leaves map items := by
  obtain ⟨place, direction, fresh⟩ := sweep
  by_cases onKey : place.onKey = true
  · obtain ⟨key, rfl⟩ : ∃ key, place = .on key := by
      cases place with
      | on key => exact ⟨key, rfl⟩
      | beforeFirst => cases onKey
      | afterLast => cases onKey
    obtain ⟨value, found⟩ : ∃ value, map[key]? = some value :=
      Option.isSome_iff_exists.mp (Std.ExtTreeMap.isSome_getElem?_iff_mem.mpr (known key rfl))
    have present : (key, value) ∈ direction.along map.toList :=
      direction.mem_along.mpr (Std.ExtTreeMap.mem_toList_iff_getElem?_eq_some.mpr found)
    obtain ⟨before, after, split⟩ := List.append_of_mem present
    cases fresh with
    | true => exact ⟨_, .here split⟩
    | false => exact ⟨_, .past split⟩
  · exact ⟨[], .ended (Bool.eq_false_iff.mpr onKey)⟩

end Sweep

/-! ### Scans -/

namespace Scan

/-- **What a scan has yet to hand out.** -/
def Leaves (scan : Scan α) (items : List (Bytes × α)) : Prop :=
  ∃ trunk map sweep, scan.tree.Shows trunk ∧ trunk.entries = map.toList ∧
    scan.Sweeps scan.tree trunk sweep ∧ sweep.Leaves map items

variable {scan : Scan α}

/-- **A scan hands out the first of what is left**, and leaves the others. -/
theorem Leaves.next (leaves : scan.Leaves items) :
    ∃ later, scan.next = .ok (items.head?, later) ∧ later.Leaves items.tail ∧
      later.tree = scan.tree ∧ later.direction = scan.direction := by
  obtain ⟨trunk, map, sweep, shows, entries, sweeps, left⟩ := leaves
  obtain ⟨later, goes, goesOn⟩ := sweeps.next shows entries
  obtain ⟨first, others⟩ := left.next
  refine ⟨later, first ▸ goes, ⟨trunk, map, _, ?_, entries, ?_, others⟩, goesOn.tree, ?_⟩
  · exact goesOn.tree ▸ shows
  · exact goesOn.tree.symm ▸ goesOn
  · rw [goesOn.direction, Sweep.next_direction, sweeps.direction]

/-- **A scan hands out what is left**, in this order. -/
theorem Leaves.take (leaves : scan.Leaves items) (count : Nat) :
    ∃ later, scan.take count = .ok (items.take count, later) ∧ later.Leaves (items.drop count) := by
  induction count generalizing scan items with
  | zero => exact ⟨scan, rfl, leaves⟩
  | succ count ih =>
    obtain ⟨middle, goes, others, _⟩ := leaves.next
    cases items with
    | nil =>
      refine ⟨middle, ?_, others⟩
      rw [Scan.take, goes]
      rfl
    | cons entry items =>
      obtain ⟨later, goesOn, left⟩ := ih others
      refine ⟨later, ?_, left⟩
      rw [Scan.take, goes]
      dsimp only [List.head?_cons, ok_bind]
      rw [goesOn]
      rfl

end Scan

/-- **What is left after a seek in a tree**, in either direction, begins with the entry that the
operator picks. -/
theorem Tree.Represents.scan_leaves {tree : Tree α} {register : Register α}
    (represents : tree.Represents register) {op : Seek} {target : Bytes} {direction : Direction}
    (suffix : items <:+ direction.along register.map.toList)
    (first : op.pick target register.map.toList = items.head?) :
    ∃ position, tree.scan op target = .ok ⟨tree, position, .default, true⟩ ∧
      Scan.Leaves ⟨tree, position, direction, true⟩ items := by
  obtain ⟨trunk, shows, entries⟩ := represents.shows
  obtain ⟨position, goes, fits, place⟩ := shows.locate_place entries op target
  have left := Sweep.Leaves.seek suffix first
  refine ⟨position, ?_, trunk, register.map, _, shows, entries, ?_, left⟩
  · rw [Tree.scan, Scan.seek, Scan.ofTree, goes]
    rfl
  · exact ⟨rfl, fits, place, rfl, rfl⟩

end RadixLog
