/-
**A tree answers whatever it is asked.**

A fault is met where a link leads to nothing, two children ask for one byte, a node leads to no key,
a label is longer than what its path spells, or a loop goes on for too long. On a tree that
operations lead to there is none, whatever is asked of it.

* `Answered`: an outcome without a fault;
* `Tree.Answers`: everything that can be asked of a tree is answered;
* `Tree.Represents.descends`: descents stay in range and are no longer than their keys;
* `Scan.Sweeps.ends`: a scan comes to an end, whatever moves have led to where it is;
* `Tree.Represents.answers`: all of it, for every tree that has a register.
-/

import RadixLog.Proofs.Cursor.Directed
import RadixLog.Proofs.Descent.Indexed
import RadixLog.Proofs.Tree.Canonical

namespace RadixLog

variable {α : Type}

/-- An outcome without a fault. -/
def Answered {β : Type} (outcome : Except Fault β) : Prop := ∃ answer, outcome = .ok answer

/-- **A descent stays in range.** It comes to an end, where all is there that is read next. So it
does if it reads the key at indices, within one turn more than the key has bytes, and it visits no
more nodes than that. -/
structure Tree.Descends (tree : Tree α) (root : NodeRef) (key : Bytes) (descent : Descent α) :
    Prop where
  ends : tree.arena.descend root key = .ok descent
  indexed : tree.arena.descendAt key (key.length + 1) ⟨root, 0⟩ [] 0 = some descent
  bounded : descent.trail.length ≤ key.length + 1
  inRange : descent.landing.InRange descent.node

/-- **Everything that can be asked of a tree is answered.** -/
structure Tree.Answers (tree : Tree α) : Prop where
  /-- Looking up, inserting, removing and seeking descend from the root. -/
  descends : ∀ root, tree.root = some root → ∀ key, ∃ descent, tree.Descends root key descent
  finds : ∀ key, Answered (tree.find? key) ∧ Answered (tree.contains key)
  operates : ∀ operation : Operation α, Answered (operation.run tree)
  seeks : ∀ op target, Answered (tree.locate op target) ∧ Answered (tree.seek op target)
  walks : Answered tree.visits
  outlines : Answered tree.outline
  checks : Answered tree.violations
  lists : Answered tree.entries
  /-- After any moves, a scan hands out what is left, and then nothing. -/
  scans : ∀ moves, ∃ handed scan, (Scan.ofTree tree).runAll moves = .ok (handed, scan) ∧
    Answered scan.current ∧ ∃ left ended later, scan.rest = .ok (left, ended) ∧
      ended.next = .ok (none, later)

/-! ### Scans come to an end -/

namespace Scan

variable {tree : Tree α} {trunk : Trunk α} {map : KeyMap α} {scan : Scan α} {sweep : Sweep}
  {items : List (Bytes × α)}

/-- **A scan hands out all that is left**, and then nothing. -/
theorem Leaves.rest (leaves : scan.Leaves items) :
    ∃ ended, scan.rest = .ok (items, ended) ∧ ended.Leaves [] := by
  have fits : items.length ≤ scan.tree.arena.slots.size + 1 :=
    Nat.le_succ_of_le leaves.length_le
  obtain ⟨ended, takes, left⟩ := leaves.take (scan.tree.arena.slots.size + 1)
  rw [List.take_of_length_le fits] at takes
  rw [List.drop_of_length_le fits] at left
  exact ⟨ended, takes, left⟩

/-- A scan at no key but one of its tree has something left, if only nothing. -/
theorem Sweeps.exists_leaves (shows : tree.Shows trunk) (entries : trunk.entries = map.toList)
    (sweeps : scan.Sweeps tree trunk sweep) : ∃ items, scan.Leaves items := by
  have known : ∀ key, sweep.place = .on key → key ∈ map := by
    intro key here
    rw [← sweeps.place] at here
    have fits := sweeps.fits
    cases place : scan.position with
    | beforeFirst => rw [place] at here; cases here
    | afterLast => rw [place] at here; cases here
    | positioned trail =>
      rw [place] at here fits
      obtain ⟨entry, on⟩ := fits
      obtain rfl : entry.1 = key := Place.on.inj (on.place.symm.trans here)
      have found := Std.ExtTreeMap.mem_toList_iff_getElem?_eq_some.mp (entries ▸ on.mem)
      exact Std.ExtTreeMap.mem_iff_isSome_getElem?.mpr (Option.isSome_iff_exists.mpr ⟨_, found⟩)
  obtain ⟨items, left⟩ := Sweep.exists_leaves known
  have own := sweeps.tree
  subst own
  exact ⟨items, trunk, map, sweep, shows, entries, sweeps, left⟩

/-- **A scan comes to an end**, whatever moves have led to where it is. -/
theorem Sweeps.ends (shows : tree.Shows trunk) (entries : trunk.entries = map.toList)
    (sweeps : scan.Sweeps tree trunk sweep) :
    ∃ left ended later, scan.rest = .ok (left, ended) ∧ ended.next = .ok (none, later) := by
  obtain ⟨items, leaves⟩ := sweeps.exists_leaves shows entries
  obtain ⟨ended, rest, nothing⟩ := leaves.rest
  obtain ⟨later, next, _⟩ := nothing.next
  exact ⟨items, ended, later, rest, next⟩

end Scan

/-! ### Everything that can be asked -/

namespace Tree

variable {tree : Tree α} {register : Register α}

/-- **Descents stay in range.** -/
theorem Represents.descends (represents : tree.Represents register) {root : NodeRef}
    (rooted : tree.root = some root) (key : Bytes) : ∃ descent, tree.Descends root key descent := by
  obtain ⟨trunk, shows, _⟩ := represents.shows
  have above := shows.root.symm.trans rooted
  obtain ⟨whole, rfl, rfl⟩ := Option.map_eq_some_iff.mp above
  have sound := shows.sound whole rfl
  obtain ⟨spine, sub, landing, reaches, ends⟩ :=
    Arena.descend_reaches shows.stores.toHolds sound key
  have bounded := reaches.length_trail_le sound
  exact ⟨_, ends, Arena.descendAt_of_descend ends bounded, bounded, reaches.inRange⟩

/-- **A tree that has a register answers whatever it is asked.** -/
theorem Represents.answers (represents : tree.Represents register) : tree.Answers := by
  obtain ⟨trunk, shows, entries⟩ := represents.shows
  refine ⟨fun root rooted key => represents.descends rooted key, fun key => ?_, fun operation => ?_,
    fun op target => ?_, ⟨_, shows.visits⟩, ⟨_, shows.outline⟩, ⟨_, shows.intact.violations⟩,
    ⟨_, represents.entries⟩, fun moves => ?_⟩
  · exact ⟨⟨_, represents.find? key⟩, _, represents.contains key⟩
  · obtain ⟨change, runs, _⟩ := represents.run operation
    exact ⟨change, runs⟩
  · obtain ⟨position, locates, fits, _⟩ := shows.locate_place entries op target
    refine ⟨⟨position, locates⟩, position.place.item? register.map, ?_⟩
    rw [Tree.seek, locates]
    exact shows.entryAt_place entries fits
  · obtain ⟨scan, runs, sweeps⟩ := (Scan.Sweeps.start tree trunk).runAll shows entries moves
    exact ⟨_, scan, runs, ⟨_, sweeps.current shows entries⟩, sweeps.ends shows entries⟩

end Tree

end RadixLog
