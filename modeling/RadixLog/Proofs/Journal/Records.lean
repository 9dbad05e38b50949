/-
**Journals record logs.**

A journal records a log when its tree files the map of the log and it remembers the same last
identifier and the same number of entries. No call on it fails: it answers as the log does and then
records the log after the call. Looked at through any reading operation, the two are the same.

* `Journal.lt_assignId`: an identifier given to an append is above the last one;
* `Journal.Records.answer`: one call;
* `Journal.Records.answerAll`: calls one after the other;
* `Journal.Views`: what the reading operations see;
* `Journal.refines_log`: every run from an empty journal.
-/

import RadixLog.Proofs.Journal.Ranges

namespace RadixLog

variable {journal : Journal} {log : Log} {options : JournalOptions} {id : EntryId}

namespace Journal

/-! ### Identifiers for appends -/

/-- An identifier given by a choice is given by one side of it. -/
theorem ok_of_ite {chosen : Prop} [Decidable chosen] {first : EntryId} {events : List JournalEvent}
    {otherwise : Except Error EntryId × List JournalEvent}
    (given : (if chosen then (.ok first, events) else otherwise).1 = .ok id) :
    chosen ∧ first = id ∨ otherwise.1 = .ok id := by
  by_cases here : chosen
  · rw [if_pos here] at given
    exact .inl ⟨here, Except.ok.inj given⟩
  · rw [if_neg here] at given
    exact .inr given

/-- **A generated identifier is above the last one**, under either policy. -/
theorem lt_nextId {now : UInt64} (given : (journal.nextId now).1 = .ok id) :
    journal.lastId < id := by
  unfold nextId at given
  cases next : EntryId.following journal.lastId now with
  | some following =>
    rw [next] at given
    obtain rfl : following = id := Except.ok.inj given
    exact EntryId.lt_following next
  | none =>
    rw [next] at given
    cases policy : journal.options.overflow with
    | reject =>
      rw [policy] at given
      cases given
    | advance =>
      rw [policy] at given
      rcases ok_of_ite given with ⟨room, rfl⟩ | refused
      · exact EntryId.lt_iff.mpr (.inl (EntryId.lt_add_one room))
      · cases refused

/-- **An identifier given to an append is above the last one.** -/
theorem lt_assignId {request : IdRequest} {now : UInt64}
    (given : (journal.assignId request now).1 = .ok id) : journal.lastId < id := by
  unfold assignId at given
  cases request with
  | auto => exact lt_nextId given
  | explicit wanted =>
    rcases ok_of_ite given with ⟨above, rfl⟩ | refused
    · exact above
    · cases refused
  | suggested wanted =>
    rcases ok_of_ite given with ⟨above, rfl⟩ | generated
    · exact above
    · exact lt_nextId generated

/-! ### One call -/

/-- **A journal records a log.** -/
structure Records (journal : Journal) (options : JournalOptions) (log : Log) : Prop where
  files : journal.tree.Files log.map
  lastId : journal.lastId = log.lastId
  added : journal.added = log.added
  options : journal.options = options

namespace Records

theorem empty (options : JournalOptions) : (Journal.empty options).Records options .empty :=
  ⟨.empty options.tree 0, rfl, rfl, rfl⟩

theorem isEmpty (records : journal.Records options log) : journal.isEmpty = log.map.isEmpty := by
  rw [Journal.isEmpty, Tree.isEmpty, records.files.size, Std.ExtTreeMap.isEmpty_eq_size_beq_zero]

theorem trim (records : journal.Records options log) (maxSize : Nat) :
    ∃ outcome, journal.trim maxSize = .ok outcome ∧ outcome.answer = log.map.size - maxSize ∧
      outcome.journal.Records options (log.trim maxSize) := by
  obtain ⟨tree, events, goes, files⟩ := trim_files records.files maxSize
  exact ⟨_, goes, rfl, files, records.lastId, records.added, records.options⟩

theorem remove (records : journal.Records options log) (id : EntryId) :
    ∃ outcome, journal.remove id = .ok outcome ∧ outcome.answer = log.map[id]? ∧
      outcome.journal.Records options (log.remove id) := by
  obtain ⟨change, removes, previous, files⟩ := records.files.remove id
  rw [Journal.remove, removes]
  exact ⟨_, rfl, previous, files, records.lastId, records.added, records.options⟩

/-- Adding an entry and then trimming is what an append does to the log. -/
theorem record (records : journal.Records options log) (id : EntryId) (entry : Entry) :
    ∃ outcome, journal.record id entry = .ok outcome ∧
      outcome.journal.Records options (log.append options.maxSize id entry) := by
  obtain ⟨change, inserts, files⟩ := records.files.insert id entry
  have grown : Records ⟨change.tree, id, journal.added + 1, journal.options⟩ options
      (log.add id entry) :=
    ⟨files, rfl, congrArg (· + 1) records.added, records.options⟩
  have limit : options.maxSize = journal.options.maxSize := by rw [records.options]
  rw [Journal.record, inserts, ok_bind, limit]
  dsimp only
  cases journal.options.maxSize with
  | none => exact ⟨_, rfl, grown⟩
  | some maxSize =>
    obtain ⟨outcome, trims, _, trimmed⟩ := grown.trim maxSize
    dsimp only
    rw [trims]
    exact ⟨_, rfl, trimmed⟩

/-- **An append is refused and changes nothing, or is given an identifier** above the last one and
adds its entry under it. -/
theorem append (records : journal.Records options log) (request : IdRequest) (entry : Entry)
    (now : UInt64) : ∃ outcome later, journal.append request entry now = .ok outcome ∧
      Log.Step options.maxSize log (.append request entry now) (.appended outcome.answer) later ∧
      outcome.journal.Records options later := by
  rw [Journal.append]
  by_cases bare : entry.isEmpty = true
  · rw [if_pos bare]
    exact ⟨_, log, rfl, .refused, records⟩
  · rw [if_neg bare]
    rcases assigned : journal.assignId request now with ⟨answer, events⟩
    cases answer with
    | error refusal => exact ⟨_, log, rfl, .refused, records⟩
    | ok id =>
      have above : journal.lastId < id := lt_assignId (congrArg Prod.fst assigned)
      obtain ⟨outcome, goes, recorded⟩ := records.record id entry
      dsimp only
      rw [goes]
      exact ⟨_, _, rfl, .appended (records.lastId ▸ above), recorded⟩

/-- **A journal answers every call as the log that it records does.** -/
theorem answer (records : journal.Records options log) (call : JournalCall) :
    ∃ outcome later, journal.answer call = .ok outcome ∧
      Log.Step options.maxSize log call outcome.answer later ∧
      outcome.journal.Records options later := by
  unfold Journal.answer
  cases call with
  | append request entry now =>
    obtain ⟨outcome, later, goes, step, recorded⟩ := records.append request entry now
    dsimp only
    rw [goes]
    exact ⟨_, later, rfl, step, recorded⟩
  | get id =>
    dsimp only
    rw [Journal.get?, records.files.find?]
    exact ⟨_, log, rfl, .get id, records⟩
  | remove id =>
    obtain ⟨outcome, goes, previous, recorded⟩ := records.remove id
    dsimp only
    rw [goes]
    exact ⟨_, _, rfl, previous ▸ .remove id, recorded⟩
  | trim maxSize =>
    obtain ⟨outcome, goes, dropped, recorded⟩ := records.trim maxSize
    dsimp only
    rw [goes]
    exact ⟨_, _, rfl, dropped ▸ .trim maxSize, recorded⟩
  | size =>
    have size : journal.size = log.map.size := records.files.size
    exact ⟨_, log, rfl, size ▸ .size, records⟩
  | isEmpty =>
    exact ⟨_, log, rfl, records.isEmpty ▸ .isEmpty, records⟩
  | lastId => exact ⟨_, log, rfl, records.lastId ▸ .lastId, records⟩
  | range lower upper limit =>
    obtain ⟨range, starts, _, leaves⟩ := ascending_leaves records.files lower upper
    dsimp only
    rw [starts, ok_bind, leaves.take]
    exact ⟨_, log, rfl, .range lower upper limit, records⟩

end Records

/-! ### Many calls -/

/-- The replies to calls made one after the other, and the journal after them. -/
def answerAll (journal : Journal) : List JournalCall → Except Fault (List JournalReply × Journal)
  | [] => return ([], journal)
  | call :: calls => do
    let outcome ← journal.answer call
    let (replies, journal) ← outcome.journal.answerAll calls
    return (outcome.answer :: replies, journal)

/-- **A journal answers calls as the log that it records does**, one after the other. -/
theorem Records.answerAll (records : journal.Records options log) (calls : List JournalCall) :
    ∃ replies later last, journal.answerAll calls = .ok (replies, later) ∧
      Log.Run options.maxSize log calls replies last ∧ later.Records options last := by
  induction calls generalizing journal log with
  | nil => exact ⟨[], journal, log, rfl, .nil log, records⟩
  | cons call calls ih =>
    obtain ⟨outcome, middle, goes, step, recorded⟩ := records.answer call
    obtain ⟨replies, later, last, goesOn, run, ends⟩ := ih recorded
    refine ⟨outcome.answer :: replies, later, last, ?_, .cons step run, ends⟩
    rw [Journal.answerAll, goes, ok_bind, goesOn]
    rfl

/-! ### What reading sees -/

/-- **What the reading operations see of a journal** is the log. -/
structure Views (journal : Journal) (log : Log) : Prop where
  get? : ∀ id, journal.get? id = .ok log.map[id]?
  size : journal.size = log.map.size
  isEmpty : journal.isEmpty = log.map.isEmpty
  first : journal.first = .ok log.map.toList.head?
  last : journal.last = .ok log.map.toList.getLast?
  /-- The range without bounds lists all entries. -/
  range : ∃ range, journal.ascending .unbounded .unbounded = .ok range ∧
    range.toList = .ok log.map.toList
  lastId : journal.lastId = log.lastId
  added : journal.added = log.added

theorem Records.views (records : journal.Records options log) : journal.Views log where
  get? := records.files.find?
  size := records.files.size
  isEmpty := records.isEmpty
  first := first_files records.files
  last := last_files records.files
  range := ascending_files records.files
  lastId := records.lastId
  added := records.added

/-- **A journal is a log.** Every run of calls from an empty journal is answered as a log that
starts empty answers it, and the journal after it reads as that log does: an append that is given an
identifier adds its entry and keeps the greatest identifiers, removing and trimming take away what
they are asked to, and nothing else changes anything. The number of entries added is that of the
identifiers given out, and a journal with a greatest size keeps to it. -/
theorem refines_log (options : JournalOptions) (calls : List JournalCall) :
    ∃ replies journal log, (empty options).answerAll calls = .ok (replies, journal) ∧
      Log.Run options.maxSize .empty calls replies log ∧ journal.Views log ∧
      journal.added = (issued replies).length ∧
      ∀ maxSize, options.maxSize = some maxSize → journal.size ≤ maxSize := by
  obtain ⟨replies, journal, log, goes, run, records⟩ := (Records.empty options).answerAll calls
  refine ⟨replies, journal, log, goes, run, records.views, ?_, ?_⟩
  · rw [records.added, run.lastId_eq.2]
    exact Nat.zero_add _
  · intro maxSize limit
    rw [records.views.size]
    exact run.bounded (.empty options.maxSize) maxSize limit

end Journal

end RadixLog
