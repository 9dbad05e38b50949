/-
**Ranges of a journal.**

The entries between two bounds, handed out one by one from either end. A range is a scan of the tree
that starts at the near bound and is over as soon as it meets an identifier beyond the far one.

* `Journal.ascending`, `Journal.descending`: the range from its least or its greatest identifier on;
* `Range.next`: the next entry;
* `Journal.first`, `Journal.last`: the ends of the journal.
-/

import RadixLog.Journal

namespace RadixLog

/-- One end of a range of identifiers. -/
inductive Bound where
  | unbounded
  | including (id : EntryId)
  | excluding (id : EntryId)
  deriving DecidableEq, Repr

namespace Bound

/-- Whether an identifier is on the inner side of a lower bound. -/
def admitsFrom (lower : Bound) (id : EntryId) : Bool :=
  match lower with
  | .unbounded => true
  | .including bound => bound ≤ id
  | .excluding bound => bound < id

/-- Whether an identifier is on the inner side of an upper bound. -/
def admitsTo (upper : Bound) (id : EntryId) : Bool :=
  match upper with
  | .unbounded => true
  | .including bound => id ≤ bound
  | .excluding bound => id < bound

end Bound

/-- A range that is being handed out: the scan of the tree, the bound it runs towards, and whether it
has met an identifier beyond that bound. The direction of the scan is the direction of the range. -/
structure Range where
  scan : Scan Entry
  stop : Bound
  done : Bool

namespace Range

/-- Whether an identifier is on this side of the bound the range runs towards. -/
def admits (range : Range) (id : EntryId) : Bool :=
  match range.scan.direction with
  | .forward => range.stop.admitsTo id
  | .backward => range.stop.admitsFrom id

/-- The next entry and its identifier, unless the range is over. -/
def next (range : Range) : Except Fault (Option (EntryId × Entry) × Range) := do
  if range.done then
    return (none, range)
  else
    match ← range.scan.next with
    | (none, scan) => return (none, { range with scan })
    | (some (key, entry), scan) =>
      match EntryId.decode? key with
      | none => .error (.strayKey key.length)
      | some id =>
        if range.admits id then return (some (id, entry), { range with scan })
        else return (none, { range with scan, done := true })

/-- The answers of `count` calls for the next entry. -/
def calls (range : Range) : (count : Nat) → Except Fault (List (Option (EntryId × Entry)))
  | 0 => return []
  | count + 1 => do
    let (item, range) ← range.next
    return item :: (← range.calls count)

/-- The next entries, at most `count`, up to the first time there is none. -/
def take (range : Range) : (count : Nat) → Except Fault (List (EntryId × Entry))
  | 0 => return []
  | count + 1 => do
    match ← range.next with
    | (none, _) => return []
    | (some item, range) => return item :: (← range.take count)

/-- All entries that are left. One call more than the tree has nodes comes to the end. -/
def toList (range : Range) : Except Fault (List (EntryId × Entry)) :=
  range.take (range.scan.tree.arena.slots.size + 1)

end Range

namespace Journal

/-- The entries from `lower` to `upper`, the oldest first. -/
def ascending (journal : Journal) (lower upper : Bound) : Except Fault Range := do
  let scan ← match lower with
    | .unbounded => journal.tree.scan .min []
    | .including id => journal.tree.scan .ge id.encode
    | .excluding id => journal.tree.scan .gt id.encode
  return ⟨scan.towards .forward, upper, false⟩

/-- The entries from `upper` down to `lower`, the newest first. -/
def descending (journal : Journal) (lower upper : Bound) : Except Fault Range := do
  let scan ← match upper with
    | .unbounded => journal.tree.scan .max []
    | .including id => journal.tree.scan .le id.encode
    | .excluding id => journal.tree.scan .lt id.encode
  return ⟨scan.towards .backward, lower, false⟩

/-- The oldest entry. -/
def first (journal : Journal) : Except Fault (Option (EntryId × Entry)) := do
  return (← (← journal.ascending .unbounded .unbounded).next).1

/-- The newest entry. -/
def last (journal : Journal) : Except Fault (Option (EntryId × Entry)) := do
  return (← (← journal.descending .unbounded .unbounded).next).1

end Journal

end RadixLog
