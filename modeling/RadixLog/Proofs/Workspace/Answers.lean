/-
**A workspace answers every call on what there is.**

A call names trees and cursors by their numbers. How many of either there are can be read off the
calls made so far, and so can whether a call names only what there is. Every such call is answered,
and what there is after it answers in turn.

* `Stock`, `Call.known`, `Call.stocked`: what there is, before and after a call;
* `Cursor.Answers`: every move of a cursor and every look at it is answered, or refused;
* `Session.answer_known`: a session answers a call on what there is;
* `Workspace.answerAll_known`: so does a workspace, call after call.
-/

import RadixLog.Proofs.Tree.Answers
import RadixLog.Proofs.Workspace.Session

namespace RadixLog

variable {α : Type}

/-! ### Cursors -/

/-- **Whatever is asked of a cursor in a tree is answered**, if only by a refusal. -/
structure Cursor.Answers (cursor : Cursor) (tree : Tree α) : Prop where
  seeks : ∀ op target, Answered (cursor.seek tree op target)
  steps : ∀ direction, Answered (cursor.step tree direction)
  walks : ∀ direction count, Answered (cursor.walk tree direction count)
  reads : Answered (cursor.current tree)

namespace Cursor

variable {tree own : Tree α} {trunk : Trunk α} {map : KeyMap α} {cursor : Cursor} {marker : Marker}
  {register : Register α} {refusal : Error}

/-- A cursor in step with its tree is so after every step of a walk. -/
theorem InStep.walk (shows : tree.Shows trunk) (entries : trunk.entries = map.toList)
    (inStep : cursor.InStep tree trunk) (direction : Direction) (count : Nat) :
    Answered (cursor.walk tree direction count) := by
  induction count generalizing cursor with
  | zero => exact ⟨[], rfl⟩
  | succ count ih =>
    obtain ⟨after, steps, later, _⟩ := inStep.step shows entries direction
    obtain ⟨trace, goesOn⟩ := ih later
    unfold walk
    rw [steps, ok_bind]
    dsimp only
    by_cases onKey : after.position.onKey = true
    · rw [onKey, goesOn]
      exact ⟨_, rfl⟩
    · rw [Bool.eq_false_iff.mpr onKey]
      exact ⟨_, rfl⟩

theorem InStep.answers (shows : tree.Shows trunk) (entries : trunk.entries = map.toList)
    (inStep : cursor.InStep tree trunk) : cursor.Answers tree where
  seeks op target := by
    obtain ⟨after, seeks, _⟩ := seek_inStep shows entries inStep.identity op target
    exact ⟨_, seeks⟩
  steps direction := by
    obtain ⟨after, steps, _⟩ := inStep.step shows entries direction
    exact ⟨_, steps⟩
  walks := inStep.walk shows entries
  reads := ⟨_, inStep.current shows entries⟩

/-- A cursor that its tree refuses may still be placed in it anew. -/
theorem answers_of_refused (shows : tree.Shows trunk) (entries : trunk.entries = map.toList)
    (refused : cursor.check tree = .error refusal) : cursor.Answers tree := by
  have steps (direction : Direction) :
      cursor.step tree direction = .ok (.error refusal, cursor) := by rw [step, refused]; rfl
  refine ⟨fun op target => ?_, fun direction => ⟨_, steps direction⟩, fun direction count => ?_, ?_⟩
  · by_cases identity : cursor.identity = tree.identity
    · obtain ⟨after, seeks, _⟩ := seek_inStep shows entries identity op target
      exact ⟨_, seeks⟩
    · unfold seek checkTree
      rw [if_neg identity]
      exact ⟨_, rfl⟩
  · cases count with
    | zero => exact ⟨[], rfl⟩
    | succ count =>
      unfold walk
      rw [steps direction]
      exact ⟨_, rfl⟩
  · unfold current
    rw [refused]
    exact ⟨_, rfl⟩

/-- **A cursor that agrees with a marker answers**, in its own tree and in any other. -/
theorem Marked.answers (marked : cursor.Marked own marker)
    (same : marker.tree = tree.identity → own = tree) (represents : tree.Represents register) :
    cursor.Answers tree := by
  obtain ⟨trunk, shows, entries⟩ := represents.shows
  obtain ⟨refusal, _, refused⟩ | ⟨_, _, shows', entries', inStep⟩ :=
    marked.refused_or_inStep same represents
  · exact answers_of_refused shows entries refused
  · exact inStep.answers shows' entries'

end Cursor

/-! ### What there is -/

/-- How many trees and cursors there are. -/
structure Stock where
  trees : Nat
  cursors : Nat

namespace Workspace

namespace Call

/-- Whether a call names only what there is. -/
def known (stock : Stock) : Call α → Bool
  | .create _ | .collect _ => true
  | .copy tree | .operate tree _ | .bind tree | .scan tree _ => tree < stock.trees
  | .duplicate cursor => cursor < stock.cursors
  | .seek cursor tree _ _ | .step cursor tree _ | .current cursor tree =>
    cursor < stock.cursors && tree < stock.trees

/-- What there is after a call. -/
def stocked (stock : Stock) : Call α → Stock
  | .create _ | .collect _ | .copy _ => { stock with trees := stock.trees + 1 }
  | .bind _ | .scan _ _ | .duplicate _ => { stock with cursors := stock.cursors + 1 }
  | .operate _ _ | .seek _ _ _ _ | .step _ _ _ | .current _ _ => stock

/-- Whether calls made one after the other name only what there is when they are made. -/
def allKnown (stock : Stock) : List (Call α) → Bool
  | [] => true
  | call :: calls => call.known stock && allKnown (call.stocked stock) calls

end Call

/-- What there is in a workspace. -/
def stock (workspace : Workspace α) : Stock := ⟨workspace.trees.length, workspace.cursors.length⟩

end Workspace

/-! ### Calls on what there is -/

theorem Shelf.exists_register {shelf : Shelf α} {index : Nat} (inside : index < shelf.length) :
    ∃ register, shelf.register index = .ok register := by
  refine ⟨shelf[index], ?_⟩
  rw [register, List.getElem?_eq_getElem inside]

namespace Session

open Workspace (Answer Call)

variable {session : Session α}

/-- What there is in a session. -/
def stock (session : Session α) : Stock := ⟨session.shelf.length, session.markers.length⟩

theorem exists_marker {index : Nat} (inside : index < session.markers.length) :
    ∃ marker, session.marker index = .ok marker := by
  refine ⟨session.markers[index], ?_⟩
  rw [marker, List.getElem?_eq_getElem inside]

theorem exists_both {index tree : Nat}
    (known : (index < session.markers.length && tree < session.shelf.length) = true) :
    ∃ marker register, session.marker index = .ok marker ∧
      session.shelf.register tree = .ok register := by
  obtain ⟨first, second⟩ := (Bool.and_eq_true _ _).mp known
  obtain ⟨marker, found⟩ := exists_marker (of_decide_eq_true first)
  obtain ⟨register, found'⟩ := Shelf.exists_register (of_decide_eq_true second)
  exact ⟨marker, register, found, found'⟩

/-- **A session hands on every request to what there is.** -/
theorem ask_known (request : Request α) (known : request.call.known session.stock = true) :
    ∃ answer later, session.ask request = .ok (answer, later) ∧
      later.stock = request.call.stocked session.stock := by
  suffices served : ∃ answer shelf, session.shelf.answer request = .ok (answer, shelf) ∧
      Stock.mk shelf.length session.markers.length = request.call.stocked session.stock by
    obtain ⟨answer, shelf, answers, stocked⟩ := served
    rw [ask, answers]
    exact ⟨_, _, rfl, (congrArg (Stock.mk _) (List.length_map _)).trans stocked⟩
  cases request with
  | create options => exact ⟨_, _, rfl, congrArg (Stock.mk · _) List.length_append⟩
  | collect entries => exact ⟨_, _, rfl, congrArg (Stock.mk · _) List.length_append⟩
  | copy index =>
    obtain ⟨register, found⟩ := Shelf.exists_register (of_decide_eq_true known)
    rw [Shelf.answer, found]
    exact ⟨_, _, rfl, congrArg (Stock.mk · _) List.length_append⟩
  | operate index operation =>
    obtain ⟨register, found⟩ := Shelf.exists_register (of_decide_eq_true known)
    rw [Shelf.answer, found]
    exact ⟨_, _, rfl, congrArg (Stock.mk · _) List.length_set⟩

/-- **A session answers every call on what there is.** -/
theorem answer_known {call : Call α} (known : call.known session.stock = true) :
    ∃ answer later, session.answer call = .ok (answer, later) ∧
      later.stock = call.stocked session.stock := by
  cases call with
  | create options => exact ask_known (.create options) known
  | collect entries => exact ask_known (.collect entries) known
  | copy index => exact ask_known (.copy index) known
  | operate index operation => exact ask_known (.operate index operation) known
  | bind index =>
    obtain ⟨register, found⟩ := Shelf.exists_register (of_decide_eq_true known)
    rw [Session.answer, found]
    exact ⟨_, _, rfl, by simp [Call.stocked, Session.stock]⟩
  | scan index moves =>
    obtain ⟨register, found⟩ := Shelf.exists_register (of_decide_eq_true known)
    rw [Session.answer, found]
    exact ⟨_, _, rfl, by simp [Call.stocked, Session.stock]⟩
  | duplicate index =>
    obtain ⟨marker, found⟩ := exists_marker (of_decide_eq_true known)
    rw [Session.answer, found]
    exact ⟨_, _, rfl, by simp [Call.stocked, Session.stock]⟩
  | seek index tree op target =>
    obtain ⟨marker, register, found, found'⟩ := exists_both known
    rw [Session.answer, found, found', ok_bind, ok_bind]
    by_cases foreign : marker.tree ≠ tree
    · rw [if_pos foreign]
      exact ⟨_, _, rfl, rfl⟩
    · rw [if_neg foreign]
      exact ⟨_, _, rfl, by simp [Call.stocked, Session.stock]⟩
  | step index tree direction =>
    obtain ⟨marker, register, found, found'⟩ := exists_both known
    rw [Session.answer, found, found', ok_bind, ok_bind]
    cases marker.refusal? tree register with
    | some refusal => exact ⟨_, _, rfl, rfl⟩
    | none => exact ⟨_, _, rfl, by simp [Call.stocked, Session.stock]⟩
  | current index tree =>
    obtain ⟨marker, register, found, found'⟩ := exists_both known
    rw [Session.answer, found, found', ok_bind, ok_bind]
    cases marker.refusal? tree register with
    | some refusal => exact ⟨_, _, rfl, rfl⟩
    | none => exact ⟨_, _, rfl, rfl⟩

end Session

/-! ### Runs of calls -/

namespace Workspace

variable {workspace : Workspace α} {session : Session α}

theorem Follows.stock (follows : workspace.Follows session) : workspace.stock = session.stock :=
  congrArg₂ Stock.mk follows.shelved.length follows.marked.length

/-- **A workspace answers every call on what there is**, and still follows a session. -/
theorem Follows.answer_known (follows : workspace.Follows session) {call : Call α}
    (known : call.known workspace.stock = true) : ∃ answer after session',
      workspace.answer call = .ok (answer, after) ∧ after.Follows session' ∧
        after.stock = call.stocked workspace.stock := by
  rw [follows.stock] at known
  obtain ⟨answer, session', answers, stocked⟩ := Session.answer_known known
  have matched := answer_call follows call
  rw [answers] at matched
  obtain ⟨after, goes, later⟩ := matched.exists_ok
  exact ⟨answer, after, session', goes, later, by rw [later.stock, stocked, follows.stock]⟩

/-- **So it does call after call.** -/
theorem Follows.answerAll_known (follows : workspace.Follows session) {calls : List (Call α)}
    (known : Call.allKnown workspace.stock calls = true) : ∃ answers after session',
      workspace.answerAll calls = .ok (answers, after) ∧ after.Follows session' := by
  induction calls generalizing workspace session with
  | nil => exact ⟨[], workspace, session, rfl, follows⟩
  | cons call calls ih =>
    unfold Call.allKnown at known
    obtain ⟨first, rest⟩ := (Bool.and_eq_true _ _).mp known
    obtain ⟨answer, middle, _, goes, goesOn, stocked⟩ := follows.answer_known first
    obtain ⟨answers, after, session', runs, last⟩ := ih goesOn (stocked ▸ rest)
    refine ⟨answer :: answers, after, session', ?_, last⟩
    rw [answerAll, goes, ok_bind]
    dsimp only
    rw [runs]
    rfl

/-- **What there is answers in turn**: every tree, and every cursor in every tree. -/
theorem Follows.answers (follows : workspace.Follows session) {tree : Tree α}
    (member : tree ∈ workspace.trees) :
    tree.Answers ∧ ∀ cursor ∈ workspace.cursors, cursor.Answers tree := by
  obtain ⟨number, found⟩ := List.mem_iff_getElem?.mp member
  obtain ⟨register, _, rfl, represents⟩ := follows.shelved.exists_right found
  refine ⟨represents.answers, fun cursor inside => ?_⟩
  obtain ⟨index, found'⟩ := List.mem_iff_getElem?.mp inside
  obtain ⟨marker, _, own, foundOwn, marked⟩ := follows.marked.exists_right found'
  have same : marker.tree = tree.identity → own = tree := by
    intro here
    rw [here] at foundOwn
    exact Option.some.inj (foundOwn.symm.trans found)
  exact marked.answers same represents

end Workspace

end RadixLog
