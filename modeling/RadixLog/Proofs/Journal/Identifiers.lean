/-
**Identifiers are given out once.**

Whatever the clock reads and whatever is removed, the identifiers that a journal gives out ascend.
The last one is remembered, and all identifiers under which there are entries are between the least
and it. So an append never meets an entry that is already there, and a range never meets a key that
is not the form of an identifier.

* `Journal.Ascends`: what is promised of a journal and the replies that it has given;
* `Journal.ids_ascend`: every run from an empty journal keeps it.
-/

import RadixLog.Proofs.Journal.Records

namespace RadixLog.Journal

/-- **The identifiers of a journal ascend**, among them those that its replies have given out. -/
structure Ascends (journal : Journal) (replies : List JournalReply) : Prop where
  /-- The identifiers given out ascend: none is given out twice. -/
  issued : (issued replies).Pairwise (· < ·)
  /-- The last one is remembered. -/
  lastId : journal.lastId = (RadixLog.issued replies).getLast?.getD .least
  /-- Every key is the form of an identifier that can have been given out. -/
  keys : ∀ key ∈ journal.tree.keys, ∃ id : EntryId, id.encode = key ∧
    .least < id ∧ id ≤ journal.lastId
  /-- Later runs never take the last identifier back, and give out identifiers above it only. -/
  later : ∀ calls, ∃ replies later, journal.answerAll calls = .ok (replies, later) ∧
    journal.lastId ≤ later.lastId ∧ ∀ id ∈ RadixLog.issued replies, journal.lastId < id
  /-- An append that is given an identifier finds no entry under it. -/
  fresh : ∀ request entry now, ∃ outcome, journal.append request entry now = .ok outcome ∧
    ∀ id, outcome.answer = .ok id → journal.get? id = .ok none
  /-- Ranges in either direction answer any number of calls. -/
  ascending : ∀ lower upper count, ∃ range answers, journal.ascending lower upper = .ok range ∧
    range.calls count = .ok answers
  descending : ∀ lower upper count, ∃ range answers, journal.descending lower upper = .ok range ∧
    range.calls count = .ok answers

variable {journal : Journal} {log : Log} {options : JournalOptions} {calls : List JournalCall}
  {replies : List JournalReply}

/-- An append that is given an identifier finds no entry under it. -/
theorem Records.append_fresh (records : journal.Records options log) (ranged : log.Ranged)
    (request : IdRequest) (entry : Entry) (now : UInt64) :
    ∃ outcome, journal.append request entry now = .ok outcome ∧
      ∀ id, outcome.answer = .ok id → journal.get? id = .ok none := by
  obtain ⟨outcome, later, goes, step, _⟩ := records.append request entry now
  refine ⟨outcome, goes, fun id given => ?_⟩
  have above : log.lastId < id := step.issues.2.2 id (by rw [given]; rfl)
  have absent : id ∉ log.map := fun member => absurd (ranged id member).2 (not_le_of_gt above)
  rw [records.views.get?, Std.ExtTreeMap.getElem?_eq_none absent]

/-- **A journal that records a log after a run** has given out ascending identifiers. -/
theorem Records.ascends (records : journal.Records options log)
    (run : Log.Run options.maxSize .empty calls replies log) : journal.Ascends replies where
  issued := (List.pairwise_cons.mp run.issued_ascend).2
  lastId := records.lastId.trans run.lastId_eq.1
  keys := by
    intro key member
    obtain ⟨id, inside, same⟩ := records.files.exists_encode_eq member
    exact ⟨id, same, records.lastId ▸ run.ranged .empty id inside⟩
  later := by
    intro calls
    obtain ⟨replies, later, last, goes, goesOn, ends⟩ := records.answerAll calls
    rw [records.lastId]
    exact ⟨replies, later, goes, ends.lastId ▸ goesOn.lastId_le,
      (List.pairwise_cons.mp goesOn.issued_ascend).1⟩
  fresh := records.append_fresh (run.ranged .empty)
  ascending := by
    intro lower upper count
    obtain ⟨range, starts, _, leaves⟩ := ascending_leaves records.files lower upper
    exact ⟨range, _, starts, leaves.calls count⟩
  descending := by
    intro lower upper count
    obtain ⟨range, starts, _, leaves⟩ := descending_leaves records.files lower upper
    exact ⟨range, _, starts, leaves.calls count⟩

/-- **Identifiers ascend and are never given out again.** Every run of calls from an empty journal,
with any readings of the clock, is answered, and leaves a journal whose identifiers ascend. -/
theorem ids_ascend (options : JournalOptions) (calls : List JournalCall) :
    ∃ replies journal, (empty options).answerAll calls = .ok (replies, journal) ∧
      journal.Ascends replies := by
  obtain ⟨replies, journal, log, goes, run, records⟩ := (Records.empty options).answerAll calls
  exact ⟨replies, journal, goes, records.ascends run⟩

end RadixLog.Journal
