/-
**Scans.**

A scan holds on to its tree and hands out entries one by one in a direction. A seek places it on an
entry, and the next entry handed out is that one; after that, each one handed out is one key further.
A scan that has run off an end stays there until it is placed again.

* `Scan.seek`, `Scan.step`, `Scan.towards`: placing it by hand;
* `Scan.next`: the next entry;
* `Scan.take`, `Scan.rest`: the next entries;
* `Scan.Move`, `Scan.runAll`: runs of moves of any length;
* `Tree.entries`: all entries of a tree, in order.
-/

import RadixLog.Cursor

namespace RadixLog

/-- A position in a tree and the direction to go on in. `fresh` holds from a seek on until the entry
it came to is handed out or stepped away from. -/
structure Scan (α : Type) where
  tree : Tree α
  position : Position
  direction : Direction
  fresh : Bool

namespace Scan

variable {α : Type}

/-- A scan that has not been placed. -/
def ofTree (tree : Tree α) : Scan α := ⟨tree, .beforeFirst, .default, false⟩

/-- The direction to go on in. -/
def towards (scan : Scan α) (direction : Direction) : Scan α := { scan with direction }

/-- Places the scan by an operator and a target. -/
def seek (scan : Scan α) (op : Seek) (target : Bytes) : Except Fault (Scan α) := do
  return { scan with position := ← scan.tree.locate op target, fresh := true }

/-- Moves the scan by one key. -/
def step (scan : Scan α) (direction : Direction) : Except Fault (Scan α) := do
  return { scan with position := ← scan.tree.neighbour direction scan.position, fresh := false }

/-- The entry the scan is at. -/
def current (scan : Scan α) : Except Fault (Option (Bytes × α)) := scan.tree.entryAt scan.position

/-- Hands out the entry a seek came to, or else goes one key further and hands out the entry there.
Beyond an end there is nothing to hand out and nowhere to go. -/
def next (scan : Scan α) : Except Fault (Option (Bytes × α) × Scan α) := do
  if scan.fresh then
    return (← scan.current, { scan with fresh := false })
  else if scan.position.onKey then
    let scan ← scan.step scan.direction
    return (← scan.current, scan)
  else
    return (none, scan)

/-- The next entries, at most `count`, up to the first time there is none. -/
def take (scan : Scan α) : (count : Nat) → Except Fault (List (Bytes × α) × Scan α)
  | 0 => return ([], scan)
  | count + 1 => do
    match ← scan.next with
    | (none, scan) => return ([], scan)
    | (some entry, scan) =>
      let (entries, scan) ← scan.take count
      return (entry :: entries, scan)

/-- The next entries until there is none: as many as the tree has nodes, at most, so that one more
call than that comes to the end. -/
def rest (scan : Scan α) : Except Fault (List (Bytes × α) × Scan α) :=
  scan.take (scan.tree.arena.slots.size + 1)

/-- A move of a scan. -/
inductive Move where
  | seek (op : Seek) (target : Bytes)
  | step (direction : Direction)
  | turn (direction : Direction)
  | next
  deriving DecidableEq, Repr

/-- The scan after a move, and what the move hands out: only a call for the next entry hands out
one. -/
def run (scan : Scan α) (move : Move) : Except Fault (Option (Bytes × α) × Scan α) :=
  match move with
  | .seek op target => do return (none, ← scan.seek op target)
  | .step direction => do return (none, ← scan.step direction)
  | .turn direction => return (none, scan.towards direction)
  | .next => scan.next

/-- The scan after moves made one after the other, and what each hands out. -/
def runAll (scan : Scan α) : List Move → Except Fault (List (Option (Bytes × α)) × Scan α)
  | [] => return ([], scan)
  | move :: moves => do
    let (item, scan) ← scan.run move
    let (items, scan) ← scan.runAll moves
    return (item :: items, scan)

/-- A cursor at the scan's position. -/
def toCursor (scan : Scan α) : Cursor :=
  ⟨scan.position, scan.tree.identity, scan.tree.generation⟩

end Scan

namespace Tree

variable {α : Type}

/-- A scan placed by an operator and a target. -/
def scan (tree : Tree α) (op : Seek) (target : Bytes) : Except Fault (Scan α) :=
  (Scan.ofTree tree).seek op target

/-- All entries in ascending order of their keys. -/
def entries (tree : Tree α) : Except Fault (List (Bytes × α)) := do
  let scan ← tree.scan .min []
  return (← scan.rest).1

/-- The entry with the least key. -/
def first (tree : Tree α) : Except Fault (Option (Bytes × α)) := tree.seek .min []

/-- The entry with the greatest key. -/
def last (tree : Tree α) : Except Fault (Option (Bytes × α)) := tree.seek .max []

end Tree

end RadixLog
