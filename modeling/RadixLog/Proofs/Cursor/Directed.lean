/-
**Scans are directed iterators.**

What a scan hands out can be read off the history of its moves. The first call for the next entry
after a seek hands out the entry that the seek came to. Every other one goes one key further in the
direction set last and hands out the entry there; beyond an end it hands out nothing and stays.

* `Scan.Awaits`: the entry that the latest seek came to has not been used yet;
* `Scan.Iterates`: the runs of a directed iterator among the keys of a map;
* `Sweep.iterates`: the runs of sweeps are those;
* `Seek.stretch`: the entries from the one that an operator picks on;
* `Scan.Leaves.take_key`: a scan is at the key of the entry that it handed out last;
* `Scan.Leaves.drain`: a scan hands out all that is left, and then nothing until it is placed again;
* `Tree.scans_refine_iterators`: what holds of the scans of every tree that can come about.
-/

import RadixLog.Proofs.Cursor.Remaining
import RadixLog.Proofs.Subtree.Walk

namespace RadixLog

variable {α : Type} {tree : Tree α} {map : KeyMap α} {items : List (Bytes × α)}

/-! ### Histories of moves -/

namespace Scan

/-- **The latest seek has not been used**: there is one among the moves made so far, and since then
neither a step nor a call for the next entry. -/
def Awaits (moves : List Move) : Prop :=
  ∃ earlier op target later, moves = earlier ++ .seek op target :: later ∧
    ∀ move ∈ later, ∃ direction, move = .turn direction

/-- **A directed iterator among the keys of a map**: where it is and which way it faces after some
moves, and what each of them handed out. -/
inductive Iterates (map : KeyMap α) :
    List Move → Place → Direction → List (Option (Bytes × α)) → Prop where
  | start : Iterates map [] .beforeFirst .default []
  /-- A seek places it. -/
  | seek {moves place direction items} (before : Iterates map moves place direction items)
    (op : Seek) (target : Bytes) :
    Iterates map (moves ++ [.seek op target]) (.seek map op target) direction (items ++ [none])
  /-- A step moves it by one key. -/
  | step {moves place direction items} (before : Iterates map moves place direction items)
    (towards : Direction) :
    Iterates map (moves ++ [.step towards]) (place.step map towards) direction (items ++ [none])
  /-- A turn changes the direction alone. -/
  | turn {moves place direction items} (before : Iterates map moves place direction items)
    (towards : Direction) : Iterates map (moves ++ [.turn towards]) place towards (items ++ [none])
  /-- The first call after a seek hands out the entry there, if there is one, and does not move. -/
  | landed {moves place direction items} (before : Iterates map moves place direction items)
    (awaits : Awaits moves) :
    Iterates map (moves ++ [.next]) place direction (items ++ [place.item? map])
  /-- Any other call from a key goes one key further and hands out the entry there. -/
  | further {moves place direction items} (before : Iterates map moves place direction items)
    (used : ¬ Awaits moves) (onKey : place.onKey = true) :
    Iterates map (moves ++ [.next]) (place.step map direction) direction
      (items ++ [(place.step map direction).item? map])
  /-- Any other call from beyond an end hands out nothing and does not move. -/
  | ended {moves place direction items} (before : Iterates map moves place direction items)
    (used : ¬ Awaits moves) (beyond : place.onKey = false) :
    Iterates map (moves ++ [.next]) place direction (items ++ [none])

/-- **One more move**: a seek is there to be used, a turn leaves the latest one as it was, and all
else uses it. -/
theorem awaits_concat {moves : List Move} {move : Move} : Awaits (moves ++ [move]) ↔
    (∃ op target, move = .seek op target) ∨ Awaits moves ∧ ∃ direction, move = .turn direction := by
  constructor
  · rintro ⟨earlier, op, target, later, split, turns⟩
    rcases List.eq_nil_or_concat later with rfl | ⟨others, last, rfl⟩
    · exact .inl ⟨op, target, (List.append_singleton_inj.mp split).2⟩
    · rw [List.concat_eq_append, ← List.cons_append, ← List.append_assoc,
        List.append_singleton_inj] at split
      obtain ⟨rfl, rfl⟩ := split
      rw [List.concat_eq_append] at turns
      exact .inr ⟨⟨earlier, op, target, others, rfl,
        fun move member => turns move (List.mem_append_left _ member)⟩, turns move (by simp)⟩
  · rintro (⟨op, target, rfl⟩ | ⟨⟨earlier, op, target, later, rfl, turns⟩, direction, rfl⟩)
    · exact ⟨moves, op, target, [], rfl, nofun⟩
    · refine ⟨earlier, op, target, later ++ [.turn direction], by simp, fun move member => ?_⟩
      rcases List.mem_append.mp member with old | new
      · exact turns move old
      · exact ⟨direction, List.mem_singleton.mp new⟩

end Scan

namespace Sweep

open Scan (Awaits Iterates)

/-- The last of some moves is made by the sweep that the others lead to. -/
theorem runAll_concat (map : KeyMap α) (sweep : Sweep) (moves : List Scan.Move) (move : Scan.Move) :
    sweep.runAll map (moves ++ [move]) =
      ((sweep.runAll map moves).1 ++ [((sweep.runAll map moves).2.run map move).1],
        ((sweep.runAll map moves).2.run map move).2) := by
  induction moves generalizing sweep with
  | nil => rfl
  | cons first moves ih =>
    rw [List.cons_append, runAll]
    dsimp only
    rw [ih]
    rfl

/-- **A sweep makes one move more as the iterator does**, if it is fresh just when the latest seek
has not been used. -/
theorem iterates_run {sweep : Sweep} {moves : List Scan.Move} {items : List (Option (Bytes × α))}
    (before : Iterates map moves sweep.place sweep.direction items)
    (fresh : sweep.fresh = true ↔ Awaits moves) (move : Scan.Move) :
    Iterates map (moves ++ [move]) (sweep.run map move).2.place (sweep.run map move).2.direction
        (items ++ [(sweep.run map move).1]) ∧
      ((sweep.run map move).2.fresh = true ↔ Awaits (moves ++ [move])) := by
  rw [Scan.awaits_concat]
  cases move with
  | seek op target => exact ⟨before.seek op target, by simp [run]⟩
  | step direction => exact ⟨before.step direction, by simp [run]⟩
  | turn direction => exact ⟨before.turn direction, by simp [run, fresh]⟩
  | next =>
    unfold run next
    by_cases awaits : sweep.fresh = true
    · rw [if_pos awaits]
      exact ⟨before.landed (fresh.mp awaits), by simp⟩
    · have used : ¬ Awaits moves := fun unused => awaits (fresh.mpr unused)
      rw [if_neg awaits]
      by_cases onKey : sweep.place.onKey = true
      · rw [if_pos onKey]
        exact ⟨before.further used onKey, by simp⟩
      · rw [if_neg onKey]
        exact ⟨before.ended used (Bool.eq_false_iff.mpr onKey), by simp [awaits]⟩

/-- **The runs of a sweep are those of a directed iterator.** -/
theorem iterates (map : KeyMap α) (moves : List Scan.Move) :
    Iterates map moves (start.runAll map moves).2.place (start.runAll map moves).2.direction
      (start.runAll map moves).1 := by
  -- Carried along the moves: the sweep is fresh just when the latest seek has not been used.
  suffices both : Iterates map moves (start.runAll map moves).2.place
      (start.runAll map moves).2.direction (start.runAll map moves).1 ∧
        ((start.runAll map moves).2.fresh = true ↔ Awaits moves) from both.1
  induction moves using List.reverseRecOn with
  | nil => exact ⟨.start, by simp [runAll, start, Awaits]⟩
  | append_singleton moves move ih =>
    rw [runAll_concat]
    exact iterates_run ih.1 ih.2 move

end Sweep

/-! ### Handing out all that is left -/

theorem Place.key?_eq_none {place : Place} : place.key? = none ↔ place.onKey = false := by
  cases place <;> simp [key?, onKey]

/-- A sweep comes to the key of the entry that it hands out, and beyond an end if there is none. -/
theorem Sweep.Leaves.next_key {sweep : Sweep} (leaves : sweep.Leaves map items) :
    (sweep.next map).2.place.key? = items.head?.map Prod.fst := by
  cases leaves with
  | here split => rfl
  | @past direction before _ entry split =>
    show (Place.step map direction (.on entry.1)).key? = items.head?.map Prod.fst
    rw [direction.step_on, Place.seek, direction.pick_beyond split]
    cases items with
    | nil => cases direction <;> rfl
    | cons second items => rfl
  | ended beyond =>
    unfold Sweep.next
    rw [beyond, if_neg Bool.false_ne_true]
    split_ifs <;> exact Place.key?_eq_none.mpr beyond

namespace Scan

variable {scan : Scan α}

theorem Leaves.next_key (leaves : scan.Leaves items) {item : Option (Bytes × α)} {later : Scan α}
    (goes : scan.next = .ok (item, later)) : later.position.key? = items.head?.map Prod.fst := by
  obtain ⟨trunk, map, sweep, shows, entries, sweeps, left⟩ := leaves
  obtain ⟨_, goes', goesOn⟩ := sweeps.next shows entries
  cases goes.symm.trans goes'
  rw [← Position.place_key?, goesOn.place, left.next_key]

/-- **A scan that hands out one entry more is then at its key**, or beyond an end if there was no
other. -/
theorem Leaves.take_key (leaves : scan.Leaves items) (count : Nat) :
    ∃ later, scan.take (count + 1) = .ok (items.take (count + 1), later) ∧
      later.position.key? = items[count]?.map Prod.fst := by
  induction count generalizing scan items with
  | zero =>
    obtain ⟨later, goes, _⟩ := leaves.next
    refine ⟨later, ?_, ?_⟩
    · rw [Scan.take, goes]
      cases items <;> rfl
    · rw [leaves.next_key goes, List.head?_eq_getElem?]
  | succ count ih =>
    obtain ⟨middle, goes, others, _⟩ := leaves.next
    have key := leaves.next_key goes
    cases items with
    | nil =>
      refine ⟨middle, ?_, key⟩
      rw [Scan.take, goes]
      rfl
    | cons entry items =>
      obtain ⟨later, goesOn, there⟩ := ih others
      refine ⟨later, ?_, there⟩
      rw [Scan.take, goes]
      dsimp only [List.head?_cons, ok_bind]
      rw [goesOn]
      rfl

/-- **A scan hands out all that is left**, if it is asked for more than that, and is then beyond an
end. -/
theorem Leaves.drain (leaves : scan.Leaves items) : ∃ ended, ended.position.onKey = false ∧
    ∀ count, items.length < count → scan.take count = .ok (items, ended) := by
  induction items generalizing scan with
  | nil =>
    obtain ⟨ended, goes, _⟩ := leaves.next
    have beyond : ended.position.onKey = false := by
      rw [← Position.place_onKey, ← Place.key?_eq_none, Position.place_key?]
      exact leaves.next_key goes
    refine ⟨ended, beyond, fun count more => ?_⟩
    obtain ⟨count, rfl⟩ := Nat.exists_eq_add_one_of_ne_zero (Nat.ne_of_gt more)
    rw [Scan.take, goes]
    rfl
  | cons entry items ih =>
    obtain ⟨later, goes, others, _⟩ := leaves.next
    obtain ⟨ended, beyond, takes⟩ := ih others
    refine ⟨ended, beyond, fun count more => ?_⟩
    obtain ⟨count, rfl⟩ := Nat.exists_eq_add_one_of_ne_zero (Nat.ne_zero_of_lt more)
    have goes : scan.next = .ok (some entry, later) := goes
    rw [Scan.take, goes]
    dsimp only [ok_bind]
    rw [takes count (Nat.lt_of_succ_lt_succ more)]
    rfl

theorem Leaves.length_le (leaves : scan.Leaves items) :
    items.length ≤ scan.tree.arena.slots.size := by
  obtain ⟨trunk, map, sweep, shows, entries, _, left⟩ := leaves
  calc items.length
      ≤ (sweep.direction.along map.toList).length := left.suffix.length_le
    _ = trunk.entries.length := by rw [entries]; cases sweep.direction <;> simp [Direction.along]
    _ = scan.tree.size := shows.size.symm
    _ ≤ scan.tree.arena.slots.size := shows.size_le

/-- **Beyond an end nothing is handed out** until a seek or a step. -/
theorem runAll_beyond {moves : List Move} (beyond : scan.position.onKey = false)
    (idle : ∀ move ∈ moves, move = .next ∨ ∃ direction, move = .turn direction) :
    ∃ later, scan.runAll moves = .ok (moves.map fun _ => none, later) := by
  induction moves generalizing scan with
  | nil => exact ⟨scan, rfl⟩
  | cons move moves ih =>
    have nothing : scan.current = .ok none := by
      unfold current Tree.entryAt
      cases here : scan.position with
      | positioned trail =>
        rw [here] at beyond
        cases beyond
      | beforeFirst => rfl
      | afterLast => rfl
    have stays : ∃ middle, scan.run move = .ok (none, middle) ∧ middle.position.onKey = false := by
      rcases idle move List.mem_cons_self with rfl | ⟨direction, rfl⟩
      · unfold run next
        by_cases fresh : scan.fresh = true
        · refine ⟨{ scan with fresh := false }, ?_, beyond⟩
          rw [if_pos fresh, nothing]
          rfl
        · refine ⟨scan, ?_, beyond⟩
          rw [if_neg fresh, if_neg (Bool.eq_false_iff.mp beyond)]
          rfl
      · exact ⟨scan.towards direction, rfl, beyond⟩
    obtain ⟨middle, goes, still⟩ := stays
    obtain ⟨later, rest⟩ := ih still fun move member => idle move (List.mem_cons_of_mem _ member)
    refine ⟨later, ?_⟩
    rw [runAll, goes]
    dsimp only [ok_bind]
    rw [rest]
    rfl

end Scan

/-! ### Stretches of entries -/

namespace Seek

variable {entries : List (Bytes × α)} {op : Seek} {target : Bytes} {direction : Direction}

/-- The entries from the one that an operator picks on, in a direction; none if it picks none. -/
def stretch (op : Seek) (target : Bytes) (direction : Direction) (entries : List (Bytes × α)) :
    List (Bytes × α) :=
  match op.pick target entries with
  | some entry => (direction.along entries).dropWhile fun other => other.1 ≠ entry.1
  | none => []

theorem stretch_suffix : op.stretch target direction entries <:+ direction.along entries := by
  unfold stretch
  cases op.pick target entries with
  | some entry => exact List.dropWhile_suffix _
  | none => exact List.nil_suffix

theorem head?_stretch (ascend : Ascend entries) :
    (op.stretch target direction entries).head? = op.pick target entries := by
  unfold stretch
  cases picked : op.pick target entries with
  | none => rfl
  | some entry =>
    have member : entry ∈ direction.along entries := direction.mem_along.mpr (pick_mem picked)
    obtain ⟨before, after, split⟩ := List.append_of_mem member
    have others : ∀ other ∈ before, other.1 ≠ entry.1 := by
      have apart : (direction.along entries).Pairwise fun a b => a.1 ≠ b.1 := by
        cases direction with
        | forward => exact ascend.imp ne_of_lt
        | backward => exact List.pairwise_reverse.mpr (ascend.imp ne_of_gt)
      rw [split] at apart
      exact fun other here => (List.pairwise_append.mp apart).2.2 other here entry (by simp)
    show ((direction.along entries).dropWhile fun other => other.1 ≠ entry.1).head? = some entry
    rw [split, List.dropWhile_append_of_pos (by simpa using others)]
    simp

theorem stretch_min (target : Bytes) (entries : List (Bytes × α)) :
    Seek.min.stretch target .forward entries = entries := by
  cases entries with
  | nil => rfl
  | cons entry entries => simp [stretch, pick, Direction.along]

theorem stretch_max (target : Bytes) (entries : List (Bytes × α)) :
    Seek.max.stretch target .backward entries = entries.reverse := by
  rcases List.eq_nil_or_concat entries with rfl | ⟨others, last, rfl⟩
  · rfl
  · simp [stretch, pick, Direction.along]

end Seek

namespace Tree.Represents

variable {register : Register α}

/-- **A scan of a tree hands out the stretch of entries** from where its seek came to, and is then
beyond an end. -/
theorem scan_drains (represents : tree.Represents register) (op : Seek) (target : Bytes)
    (direction : Direction) :
    ∃ position ended, tree.scan op target = .ok ⟨tree, position, .default, true⟩ ∧
      ended.position.onKey = false ∧
      (∀ count, (op.stretch target direction register.map.toList).length < count →
        Scan.take ⟨tree, position, direction, true⟩ count =
          .ok (op.stretch target direction register.map.toList, ended)) ∧
      Scan.rest ⟨tree, position, direction, true⟩ =
        .ok (op.stretch target direction register.map.toList, ended) := by
  have suffix : op.stretch target direction register.map.toList <:+
      direction.along register.map.toList := Seek.stretch_suffix
  obtain ⟨position, starts, leaves⟩ :=
    represents.scan_leaves suffix (Seek.head?_stretch register.map.ascend).symm
  obtain ⟨ended, beyond, takes⟩ := leaves.drain
  exact ⟨position, ended, starts, beyond, takes, takes _ (Nat.lt_succ_of_le leaves.length_le)⟩

theorem entries (represents : tree.Represents register) :
    tree.entries = .ok register.map.toList := by
  obtain ⟨position, ended, starts, _, _, rest⟩ := represents.scan_drains .min [] .default
  rw [Tree.entries, starts, ok_bind, rest]
  exact congrArg Except.ok (Seek.stretch_min [] _)

end Tree.Represents

/-! ### Every tree that can come about -/

/-- **A scan reads as a directed iterator**: it is in the same state, at the same key, faces the same
way, and reads what the map gives the key. -/
structure Scan.Reads (scan : Scan α) (tree : Tree α) (map : KeyMap α) (place : Place)
    (direction : Direction) : Prop where
  tree : scan.tree = tree
  state : scan.position.state = place.state
  key : scan.position.key? = place.key?
  direction : scan.direction = direction
  current : scan.current = .ok (place.item? map)

theorem Scan.Sweeps.reads {trunk : Trunk α} {scan : Scan α} {sweep : Sweep}
    (shows : tree.Shows trunk) (entries : trunk.entries = map.toList)
    (sweeps : scan.Sweeps tree trunk sweep) :
    scan.Reads tree map sweep.place sweep.direction where
  tree := sweeps.tree
  state := by rw [← sweeps.place, Position.place_state]
  key := by rw [← sweeps.place, Position.place_key?]
  direction := sweeps.direction
  current := sweeps.current shows entries

/-- **The scans of a tree are directed iterators** among the keys of a map. -/
structure Tree.Iterated (tree : Tree α) (map : KeyMap α) : Prop where
  /-- The tree gives every key what the map gives it. -/
  finds : ∀ key, tree.find? key = .ok map[key]?
  /-- A scan that has not been placed makes all its moves as an iterator does. -/
  unplaced : ∀ moves, ∃ items scan place direction,
    (Scan.ofTree tree).runAll moves = .ok (items, scan) ∧
      Scan.Iterates map moves place direction items ∧ scan.Reads tree map place direction
  /-- So does a scan that begins with a seek. -/
  placed : ∀ op target, ∃ begun, tree.scan op target = .ok begun ∧
    ∀ moves, ∃ items scan place direction, begun.runAll moves = .ok (items, scan) ∧
      Scan.Iterates map (.seek op target :: moves) place direction (none :: items) ∧
      scan.Reads tree map place direction
  /-- All that such a scan hands out is the stretch of entries from where the seek came to, and after
  that nothing, whichever way it is turned. -/
  collected : ∀ op target direction, ∃ begun ended, tree.scan op target = .ok begun ∧
    (begun.towards direction).rest = .ok (op.stretch target direction map.toList, ended) ∧
    (∀ count, (op.stretch target direction map.toList).length < count →
      (begun.towards direction).take count =
        .ok (op.stretch target direction map.toList, ended)) ∧
    ∀ idle : List Scan.Move, (∀ move ∈ idle, move = .next ∨ ∃ towards, move = .turn towards) →
      ∃ later, ended.runAll idle = .ok (idle.map fun _ => none, later)
  /-- From the least key forwards, all entries are handed out in ascending order. -/
  ascending : tree.entries = .ok map.toList ∧ Ascend map.toList
  /-- From the greatest key backwards, they are handed out the other way round. -/
  descending : ∃ begun ended, tree.scan .max [] = .ok begun ∧
    (begun.towards .backward).rest = .ok (map.toList.reverse, ended)

namespace Tree

/-- **Scans refine directed iterators**, in every tree that can come about and through any moves. -/
theorem scans_refine_iterators (reachable : tree.Reachable) :
    ∃ map : KeyMap α, tree.Iterated map := by
  obtain ⟨register, represents⟩ := reachable.represents
  obtain ⟨trunk, shows, entries⟩ := represents.shows
  refine ⟨register.map, represents.find?, fun moves => ?_, fun op target => ?_,
    fun op target direction => ?_, ⟨represents.entries, register.map.ascend⟩, ?_⟩
  · obtain ⟨scan, runs, sweeps⟩ := (Scan.Sweeps.start tree trunk).runAll shows entries moves
    exact ⟨_, scan, _, _, runs, Sweep.iterates register.map moves, sweeps.reads shows entries⟩
  · obtain ⟨begun, seeks, placed⟩ :=
      (Scan.Sweeps.start tree trunk).run shows entries (.seek op target)
    obtain ⟨scanned, begins, same⟩ := bind_eq_ok seeks
    cases same
    refine ⟨begun, begins, fun moves => ?_⟩
    obtain ⟨scan, runs, sweeps⟩ := placed.runAll shows entries moves
    exact ⟨_, scan, _, _, runs, Sweep.iterates register.map (.seek op target :: moves),
      sweeps.reads shows entries⟩
  · obtain ⟨position, ended, starts, beyond, takes, rest⟩ :=
      represents.scan_drains op target direction
    exact ⟨_, ended, starts, rest, takes, fun idle calls => Scan.runAll_beyond beyond calls⟩
  · obtain ⟨position, ended, starts, _, _, rest⟩ := represents.scan_drains .max [] .backward
    rw [Seek.stretch_max] at rest
    exact ⟨_, ended, starts, rest⟩

/-- Of the keys 7, 7 1 and 9, a scan backwards from below 8 hands out 7 1 and 7. -/
theorem scan_backwards_below : ∃ (tree : Tree Nat) (map : KeyMap Nat), tree.Reachable ∧
    tree.Iterated map ∧ ∃ begun ended, tree.scan .lt [8] = .ok begun ∧
      (begun.towards .backward).rest = .ok ([([7, 1], 4), ([7], 3)], ended) := by
  have reachable := (Reachable.empty (α := Nat) {} 0).runAll
    [.insert [7] 3, .insert [7, 1] 4, .insert [9] 5] rfl
  obtain ⟨map, iterated⟩ := scans_refine_iterators reachable
  exact ⟨_, map, reachable, iterated, _, _, rfl, rfl⟩

end Tree

end RadixLog
