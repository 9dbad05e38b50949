/-
**No fault can be reached.**

Faults are written into the operations for the places where an arena could contradict itself. None
of them is ever met: neither by calls on the trees and the cursors of a workspace, nor by those on a
journal, nor by looking at what such calls have led to.

* `Journal.Answers`: everything that can be asked of a journal is answered;
* `Range.HandsOut.ends`, `Journal.Records.answers`: so it is of a journal that records a log;
* `no_reachable_fault`: every run of calls is answered, and so is whatever can be asked after it.
-/

import RadixLog.Proofs.Journal.Between
import RadixLog.Proofs.Workspace.Answers

namespace RadixLog

variable {α : Type}

/-! ### Journals -/

/-- **A range comes to an end**: every call for the next entry is answered, with its entries one by
one and then with none, and all of them can be listed. -/
def Range.Ends (range : Range) : Prop :=
  ∃ items, range.toList = .ok items ∧
    ∀ count, range.calls count = .ok ((List.range count).map fun place => items[place]?)

/-- **Everything that can be asked of a journal is answered.** -/
structure Journal.Answers (journal : Journal) : Prop where
  calls : ∀ call, Answered (journal.answer call)
  ends : Answered journal.first ∧ Answered journal.last
  /-- Every key that a range meets is the form of an identifier. -/
  ranges : ∀ lower upper, (∃ range, journal.ascending lower upper = .ok range ∧ range.Ends) ∧
    ∃ range, journal.descending lower upper = .ok range ∧ range.Ends
  tree : journal.tree.Answers

theorem Range.HandsOut.ends {range : Range} {items : List (EntryId × Entry)}
    (hands : range.HandsOut items) : range.Ends := ⟨items, hands.toList, hands.calls⟩

namespace Journal

variable {journal : Journal} {options : JournalOptions} {log : Log}

/-- **A journal that records a log answers whatever it is asked.** -/
theorem Records.answers (records : journal.Records options log) : journal.Answers := by
  have files := records.files
  refine ⟨fun call => ?_, ⟨⟨_, first_files files⟩, _, last_files files⟩, fun lower upper => ?_, ?_⟩
  · obtain ⟨outcome, _, goes, _⟩ := records.answer call
    exact ⟨outcome, goes⟩
  · obtain ⟨items, up, down, _, ascends, upwards, descends, downwards⟩ :=
      records.exists_ranges lower upper
    exact ⟨⟨up, ascends, upwards.ends⟩, down, descends, downwards.ends⟩
  · obtain ⟨register, represents, _⟩ := files
    exact represents.answers

end Journal

/-! ### Every run of calls -/

/-- **No fault can be reached.** Every run of calls that name only trees and cursors that are there
is answered, however many slots it takes, and after it so is whatever is asked of any tree, and of
any cursor in any tree: no link leads to a vacant slot, the free list names no slot that there is not,
no byte is branched on twice, no node without a value is without children, nothing is read out of
range and no loop goes on for too long, least of all a descent, which visits at most one node more
than its key has bytes. The same holds of every run of calls on a journal, and no key in it fails to
be an identifier. -/
theorem no_reachable_fault :
    (∀ calls : List (Workspace.Call α), Workspace.Call.allKnown ⟨0, 0⟩ calls = true →
      ∃ answers workspace, (Workspace.empty : Workspace α).answerAll calls =
          .ok (answers, workspace) ∧
        ∀ tree ∈ workspace.trees, tree.Answers ∧
          ∀ cursor ∈ workspace.cursors, cursor.Answers tree) ∧
    ∀ (options : JournalOptions) (calls : List JournalCall), ∃ replies journal,
      (Journal.empty options).answerAll calls = .ok (replies, journal) ∧ journal.Answers := by
  constructor
  · intro calls known
    have start : (Workspace.empty : Workspace α).Follows .empty := .empty
    obtain ⟨answers, workspace, session, goes, follows⟩ := start.answerAll_known known
    exact ⟨answers, workspace, goes, fun tree member => follows.answers member⟩
  · intro options calls
    obtain ⟨replies, journal, log, goes, _, records⟩ :=
      (Journal.Records.empty options).answerAll calls
    exact ⟨replies, journal, goes, records.answers⟩

/-- The keys 7 1 and 7 2 part under a branch. A cursor at 7 1 answers even after 7 1 has been removed,
and the branch has been folded together with the node of 7 2. -/
theorem answers_after_merge : ∃ workspace : Workspace Nat,
    workspace.trees.map (·.find? [7, 1]) = [.ok none] ∧
      workspace.cursors.map (·.position.key?) = [some [7, 1]] ∧
      ∀ tree ∈ workspace.trees, tree.Answers ∧ ∀ cursor ∈ workspace.cursors, cursor.Answers tree := by
  let calls : List (Workspace.Call Nat) := [.collect [([7, 1], 3), ([7, 2], 4)], .bind 0,
    .seek 0 0 .gt [7], .operate 0 (.remove [7, 1]), .step 0 0 .forward]
  obtain ⟨answers, workspace, goes, all⟩ := no_reachable_fault.1 calls rfl
  have trees : workspace.trees.map (·.find? [7, 1]) = [.ok none] := by
    cases goes
    rfl
  have cursors : workspace.cursors.map (·.position.key?) = [some [7, 1]] := by
    cases goes
    rfl
  exact ⟨workspace, trees, cursors, all⟩

end RadixLog
