/-
**Scans among the keys of a map.**

A sweep is a scan without its tree and its path: a place, the direction to go on in, and whether the
entry there has been sought and not yet handed out. What a scan of a tree hands out, its sweep hands
out among the keys of the map that the tree is.

* `Sweep.run`: the moves of a sweep;
* `Scan.Sweeps.run`, `Scan.Sweeps.runAll`: a scan moves as its sweep does.
-/

import RadixLog.Cursor.Scan
import RadixLog.Proofs.Cursor.Place

namespace RadixLog

variable {α : Type}

/-- A place, the direction to go on in, and whether the next entry handed out is the one there. -/
structure Sweep where
  place : Place
  direction : Direction
  fresh : Bool

namespace Sweep

/-- A sweep that has not been placed. -/
def start : Sweep := ⟨.beforeFirst, .default, false⟩

/-- Hands out the entry that a seek came to, or the one after it in the direction to go on in. -/
def next (map : KeyMap α) (sweep : Sweep) : Option (Bytes × α) × Sweep :=
  if sweep.fresh then (sweep.place.item? map, { sweep with fresh := false })
  else if sweep.place.onKey then
    let place := sweep.place.step map sweep.direction
    (place.item? map, { sweep with place, fresh := false })
  else (none, sweep)

/-- What a move hands out, and the sweep after it. -/
def run (map : KeyMap α) (sweep : Sweep) : Scan.Move → Option (Bytes × α) × Sweep
  | .seek op target => (none, { sweep with place := .seek map op target, fresh := true })
  | .step direction =>
    (none, { sweep with place := sweep.place.step map direction, fresh := false })
  | .turn direction => (none, { sweep with direction })
  | .next => sweep.next map

/-- What each of some moves hands out, and the sweep after them. -/
def runAll (map : KeyMap α) (sweep : Sweep) : List Scan.Move → List (Option (Bytes × α)) × Sweep
  | [] => ([], sweep)
  | move :: moves =>
    let (item, sweep) := sweep.run map move
    let (items, sweep) := runAll map sweep moves
    (item :: items, sweep)

end Sweep

namespace Scan

/-- **A scan of a tree and a sweep go together**: the scan remembers a path to the place of the
sweep. -/
structure Sweeps (tree : Tree α) (trunk : Trunk α) (scan : Scan α) (sweep : Sweep) : Prop where
  tree : scan.tree = tree
  fits : scan.position.Fits trunk
  place : scan.position.place = sweep.place
  direction : scan.direction = sweep.direction
  fresh : scan.fresh = sweep.fresh

variable {tree : Tree α} {trunk : Trunk α} {map : KeyMap α} {scan : Scan α} {sweep : Sweep}

theorem Sweeps.start (tree : Tree α) (trunk : Trunk α) :
    (ofTree tree).Sweeps tree trunk .start := ⟨rfl, trivial, rfl, rfl, rfl⟩

theorem Sweeps.current (shows : tree.Shows trunk) (entries : trunk.entries = map.toList)
    (sweeps : scan.Sweeps tree trunk sweep) :
    scan.current = .ok (sweep.place.item? map) := by
  rw [Scan.current, sweeps.tree, shows.entryAt_place entries sweeps.fits, sweeps.place]

theorem Sweeps.step (shows : tree.Shows trunk) (entries : trunk.entries = map.toList)
    (sweeps : scan.Sweeps tree trunk sweep) (direction : Direction) :
    ∃ after, scan.step direction = .ok after ∧
      after.Sweeps tree trunk
        { sweep with place := sweep.place.step map direction, fresh := false } := by
  obtain ⟨position, goes, fits, place⟩ := shows.neighbour_place entries sweeps.fits direction
  refine ⟨{ scan with position, fresh := false }, ?_, sweeps.tree, fits, ?_, sweeps.direction, rfl⟩
  · rw [Scan.step, sweeps.tree, goes]
    rfl
  · rw [← sweeps.place]
    exact place

/-- **A scan hands out the entries that its sweep does.** -/
theorem Sweeps.next (shows : tree.Shows trunk) (entries : trunk.entries = map.toList)
    (sweeps : scan.Sweeps tree trunk sweep) :
    ∃ after, scan.next = .ok ((sweep.next map).1, after) ∧
      after.Sweeps tree trunk (sweep.next map).2 := by
  have onKey : scan.position.onKey = sweep.place.onKey := by
    rw [← Position.place_onKey, sweeps.place]
  rw [Scan.next, Sweep.next, sweeps.fresh, onKey]
  cases fresh : sweep.fresh with
  | true =>
    refine ⟨{ scan with fresh := false }, ?_, { sweeps with fresh := rfl }⟩
    simp only [if_true, sweeps.current shows entries]
    rfl
  | false =>
    cases sweep.place.onKey with
    | true =>
      obtain ⟨after, goes, later⟩ := sweeps.step shows entries sweep.direction
      refine ⟨after, ?_, later⟩
      simp only [if_true, Bool.false_eq_true, if_false, sweeps.direction, goes, ok_bind,
        later.current shows entries]
      rfl
    | false => exact ⟨scan, rfl, sweeps⟩

/-- **A scan moves as its sweep does.** -/
theorem Sweeps.run (shows : tree.Shows trunk) (entries : trunk.entries = map.toList)
    (sweeps : scan.Sweeps tree trunk sweep) (move : Move) :
    ∃ after, scan.run move = .ok ((sweep.run map move).1, after) ∧
      after.Sweeps tree trunk (sweep.run map move).2 := by
  cases move with
  | seek op target =>
    obtain ⟨position, goes, fits, place⟩ := shows.locate_place entries op target
    refine ⟨{ scan with position, fresh := true }, ?_, sweeps.tree, fits, place, sweeps.direction,
      rfl⟩
    rw [Scan.run, Scan.seek, sweeps.tree, goes]
    rfl
  | step direction =>
    obtain ⟨after, goes, later⟩ := sweeps.step shows entries direction
    refine ⟨after, ?_, later⟩
    rw [Scan.run, goes]
    rfl
  | turn direction => exact ⟨scan.towards direction, rfl, { sweeps with direction := rfl }⟩
  | next => exact sweeps.next shows entries

/-- **So do scans through all their moves.** -/
theorem Sweeps.runAll (shows : tree.Shows trunk) (entries : trunk.entries = map.toList)
    (sweeps : scan.Sweeps tree trunk sweep) (moves : List Move) :
    ∃ after, scan.runAll moves = .ok ((sweep.runAll map moves).1, after) ∧
      after.Sweeps tree trunk (sweep.runAll map moves).2 := by
  induction moves generalizing scan sweep with
  | nil => exact ⟨scan, rfl, sweeps⟩
  | cons move moves ih =>
    obtain ⟨middle, first, goesOn⟩ := sweeps.run shows entries move
    obtain ⟨after, rest, ends⟩ := ih goesOn
    refine ⟨after, ?_, ends⟩
    rw [Scan.runAll, first, ok_bind]
    dsimp only
    rw [rest]
    rfl

end Scan

end RadixLog
