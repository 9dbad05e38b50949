/-
**The journal.**

A journal keeps entries under identifiers that only ever increase: the last identifier given out is
remembered even when its entry is gone, so that none is given out twice. Entries live in a tree under
their encoded identifiers, whose byte order is the order of the identifiers.

* `Journal.append`: adds an entry under a requested or generated identifier;
* `Journal.get?`, `Journal.remove`: one entry;
* `Journal.trim`: drops the oldest entries.

A refused append leaves the journal as it is.
-/

import RadixLog.Cursor.Scan
import RadixLog.Journal.Entry

namespace RadixLog

/-- What to do when the sequence numbers of the last millisecond are used up. -/
inductive Overflow where
  /-- Refuse the append. -/
  | reject
  /-- Go on in the next millisecond, ahead of the clock. -/
  | advance
  deriving DecidableEq, Repr

/-- The policy when none is asked for. -/
def Overflow.default : Overflow := .reject

/-- The name of a policy. -/
def Overflow.name : Overflow → String
  | .reject => "Reject"
  | .advance => "AdvanceMs"

/-- How a journal is set up: its tree, how many entries it keeps at most after an append, and what it
does when sequence numbers run out. -/
structure JournalOptions where
  tree : TreeOptions := {}
  maxSize : Option Nat := none
  overflow : Overflow := .default
  deriving DecidableEq, Repr

/-- Which identifier an appended entry asks for. -/
inductive IdRequest where
  /-- One generated from the clock. -/
  | auto
  /-- Exactly this one. -/
  | explicit (id : EntryId)
  /-- This one if it can be given out, else one generated as if the clock showed its time. -/
  | suggested (id : EntryId)
  deriving DecidableEq, Repr

/-- What happens in a journal. -/
inductive JournalEvent where
  /-- Its tree changed shape. -/
  | reshaped (reshape : Reshape)
  /-- An identifier asked for was not above the last one. -/
  | rejected (id last : EntryId)
  /-- The clock was behind the time of the last identifier. -/
  | clockBehind (now : UInt64) (last : EntryId)
  /-- Generation moved on to the next millisecond. -/
  | advanced (ms next : UInt64)
  /-- The oldest `count` entries were dropped to keep at most `maxSize`. -/
  | trimmed (count maxSize : Nat)
  deriving DecidableEq, Repr

/-- Entries in order of their identifiers. `lastId` is the last identifier given out, and `added`
counts the entries ever appended. -/
structure Journal where
  tree : Tree Entry
  lastId : EntryId
  added : Nat
  options : JournalOptions

namespace Journal

/-- A journal without entries. -/
def empty (options : JournalOptions) : Journal := ⟨.empty options.tree 0, .least, 0, options⟩

/-- The number of entries. -/
def size (journal : Journal) : Nat := journal.tree.size

/-- Whether there are no entries. -/
def isEmpty (journal : Journal) : Bool := journal.tree.isEmpty

/-- The entry under an identifier. -/
def get? (journal : Journal) (id : EntryId) : Except Fault (Option Entry) :=
  journal.tree.find? id.encode

/-- What a journal operation answers, the journal after it, and what happened on the way. -/
structure Outcome (α : Type) where
  answer : α
  journal : Journal
  events : List JournalEvent

/-! ### Removing -/

/-- Takes the entry under an identifier away. The last identifier stays. -/
def remove (journal : Journal) (id : EntryId) : Except Fault (Outcome (Option Entry)) := do
  let change ← journal.tree.remove id.encode
  return ⟨change.previous, { journal with tree := change.tree }, change.reshapes.map .reshaped⟩

/-- Removes keys one after the other. -/
def dropKeys (tree : Tree Entry) : List Bytes → Except Fault (Tree Entry × List Reshape)
  | [] => return (tree, [])
  | key :: keys => do
    let change ← tree.remove key
    let (tree, reshapes) ← dropKeys change.tree keys
    return (tree, change.reshapes ++ reshapes)

/-- Drops the oldest entries until at most `maxSize` are left, and answers how many it dropped. -/
def trim (journal : Journal) (maxSize : Nat) : Except Fault (Outcome Nat) := do
  let excess := journal.size - maxSize
  if excess = 0 then
    return ⟨0, journal, []⟩
  else
    let scan ← journal.tree.scan .min []
    let (doomed, _) ← scan.take excess
    let (tree, reshapes) ← dropKeys journal.tree (doomed.map (·.1))
    return ⟨excess, { journal with tree },
      reshapes.map .reshaped ++ [.trimmed excess maxSize]⟩

/-! ### Appending -/

/-- The identifier generated for a clock reading, following the overflow policy. -/
def nextId (journal : Journal) (now : UInt64) : Except Error EntryId × List JournalEvent :=
  match EntryId.following journal.lastId now with
  | some id => (.ok id, [])
  | none =>
    let ms := journal.lastId.ms
    match journal.options.overflow with
    | .reject => (.error (.sequenceExhausted ms), [])
    | .advance =>
      if ms < EntryId.partMax then (.ok ⟨ms + 1, 0⟩, [.advanced ms (ms + 1)])
      else (.error (.sequenceExhausted ms), [])

/-- The identifier that a request gets when the clock reads `now`. -/
def assignId (journal : Journal) (request : IdRequest) (now : UInt64) :
    Except Error EntryId × List JournalEvent :=
  match request with
  | .explicit id =>
    if journal.lastId < id then (.ok id, [])
    else (.error (.notIncreasing id journal.lastId), [.rejected id journal.lastId])
  | .suggested id =>
    if journal.lastId < id then (.ok id, []) else journal.nextId id.ms
  | .auto =>
    let behind : List JournalEvent :=
      if now < journal.lastId.ms then [.clockBehind now journal.lastId] else []
    let (id, events) := journal.nextId now
    (id, behind ++ events)

/-- Adds an entry under an identifier and drops the oldest ones if there are too many. -/
def record (journal : Journal) (id : EntryId) (entry : Entry) : Except Fault (Outcome EntryId) := do
  let change ← journal.tree.insert id.encode entry
  let journal : Journal :=
    { journal with tree := change.tree, lastId := id, added := journal.added + 1 }
  let inserted := change.reshapes.map JournalEvent.reshaped
  match journal.options.maxSize with
  | none => return ⟨id, journal, inserted⟩
  | some maxSize =>
    let trimmed ← journal.trim maxSize
    return ⟨id, trimmed.journal, inserted ++ trimmed.events⟩

/-- Appends an entry when the clock reads `now`, and answers its identifier. An entry without fields
is refused before anything else. -/
def append (journal : Journal) (request : IdRequest) (entry : Entry) (now : UInt64) :
    Except Fault (Outcome (Except Error EntryId)) := do
  if entry.isEmpty then
    return ⟨.error .emptyEntry, journal, []⟩
  else
    match journal.assignId request now with
    | (.error refusal, events) => return ⟨.error refusal, journal, events⟩
    | (.ok id, events) =>
      let recorded ← journal.record id entry
      return ⟨.ok id, recorded.journal, events ++ recorded.events⟩

end Journal

end RadixLog
