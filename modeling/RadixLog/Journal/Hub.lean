/-
**Shared journals.**

A hub holds journals that are reached through handles. Copying a handle gives another handle on the
same journal, so what is appended through one is seen through all. Calls are values and are answered
one after the other.

* `Journal.answer`: the answer of a journal to a call;
* `Hub.answer`: the answer through a handle.
-/

import RadixLog.Journal.Range

namespace RadixLog

/-- A call on a journal; an append carries the reading of the clock. -/
inductive JournalCall where
  | append (request : IdRequest) (entry : Entry) (now : UInt64)
  | get (id : EntryId)
  | remove (id : EntryId)
  | trim (maxSize : Nat)
  | size
  | isEmpty
  | lastId
  | range (lower upper : Bound) (limit : Nat)

/-- The answer to a call on a journal. -/
inductive JournalReply where
  | appended (outcome : Except Error EntryId)
  | entry (entry : Option Entry)
  | count (count : Nat)
  | flag (flag : Bool)
  | id (id : EntryId)
  | items (items : List (EntryId × Entry))

/-- The answer of a journal to a call. -/
def Journal.answer (journal : Journal) (call : JournalCall) :
    Except Fault (Journal.Outcome JournalReply) := do
  match call with
  | .append request entry now =>
    let outcome ← journal.append request entry now
    return ⟨.appended outcome.answer, outcome.journal, outcome.events⟩
  | .get id => return ⟨.entry (← journal.get? id), journal, []⟩
  | .remove id =>
    let outcome ← journal.remove id
    return ⟨.entry outcome.answer, outcome.journal, outcome.events⟩
  | .trim maxSize =>
    let outcome ← journal.trim maxSize
    return ⟨.count outcome.answer, outcome.journal, outcome.events⟩
  | .size => return ⟨.count journal.size, journal, []⟩
  | .isEmpty => return ⟨.flag journal.isEmpty, journal, []⟩
  | .lastId => return ⟨.id journal.lastId, journal, []⟩
  | .range lower upper limit =>
    let range ← journal.ascending lower upper
    return ⟨.items (← range.take limit), journal, []⟩

/-- Journals, and the handles on them: each handle is the number of a journal. -/
structure Hub where
  journals : List Journal
  handles : List Nat

namespace Hub

/-- A hub without journals. -/
def empty : Hub := ⟨[], []⟩

/-- Takes up a journal and answers a first handle on it. -/
def share (hub : Hub) (journal : Journal) : Nat × Hub :=
  (hub.handles.length,
    { journals := hub.journals ++ [journal], handles := hub.handles ++ [hub.journals.length] })

/-- The number of the journal behind a handle. -/
def target (hub : Hub) (handle : Nat) : Except Fault Nat :=
  match hub.handles[handle]? with
  | some index => .ok index
  | none => .error (.unknown handle)

/-- The journal behind a handle. -/
def read (hub : Hub) (handle : Nat) : Except Fault Journal := do
  let index ← hub.target handle
  match hub.journals[index]? with
  | some journal => return journal
  | none => .error (.unknown index)

/-- Another handle on the same journal. -/
def copy (hub : Hub) (handle : Nat) : Except Fault (Nat × Hub) := do
  let index ← hub.target handle
  return (hub.handles.length, { hub with handles := hub.handles ++ [index] })

/-- What a call through a handle is answered, the hub after it, and what happened on the way. -/
structure Outcome where
  reply : JournalReply
  hub : Hub
  events : List JournalEvent

/-- The answer to a call through a handle. -/
def answer (hub : Hub) (handle : Nat) (call : JournalCall) : Except Fault Outcome := do
  let index ← hub.target handle
  let outcome ← (← hub.read handle).answer call
  return ⟨outcome.answer, { hub with journals := hub.journals.set index outcome.journal },
    outcome.events⟩

end Hub

end RadixLog
