/-
**Shrinking is not noticed.**

Two workspaces that follow the same session answer every call alike, so a call that leaves its
session as it is makes no difference to what comes later. Shrinking a tree is such a call: it keeps
the register of the tree, and all markers stay where they are.

* `Workspace.Alike`: trees look alike, and cursors of them are in the same places;
* `Workspace.Follows.unnoticed`: workspaces that follow the same session go on alike;
* `Session.answer_shrink`: shrinking leaves the session as it is;
* `Workspace.shrink_unnoticed`: what holds of every tree and after every run.
-/

import RadixLog.Proofs.Tree.Shrink
import RadixLog.Proofs.Workspace.Session

namespace RadixLog

variable {α : Type}

namespace Workspace

/-! ### Alike workspaces -/

/-- **Two workspaces look alike**: the trees of the same numbers do, and the cursors of the same
numbers belong to the same trees, at the same generations, and are in the same states on the same
keys. -/
structure Alike (workspace other : Workspace α) : Prop where
  trees : Paired (fun _ tree tree' => tree.Alike tree') workspace.trees other.trees
  cursors : Paired (fun _ cursor cursor' => cursor.identity = cursor'.identity ∧
    cursor.generation = cursor'.generation ∧
    cursor.position.state = cursor'.position.state ∧
    cursor.position.key? = cursor'.position.key?) workspace.cursors other.cursors

variable {workspace other : Workspace α} {session : Session α}

theorem Follows.alike (follows : workspace.Follows session) (follows' : other.Follows session) :
    workspace.Alike other where
  trees := (follows.shelved.join follows'.shelved).mono
    fun _ _ _ ⟨_, ⟨identity, represents⟩, identity', represents'⟩ =>
      represents.alike represents' (identity.trans identity'.symm)
  cursors := (follows.reads.cursors.join follows'.reads.cursors).mono
    fun _ _ _ ⟨_, ⟨identity, generation, state, key⟩, identity', generation', state', key'⟩ =>
      ⟨identity.trans identity'.symm, generation.trans generation'.symm, state.trans state'.symm,
        key.trans key'.symm⟩

/-- **Workspaces that follow the same session go on alike**, whatever calls are made. -/
theorem Follows.unnoticed (follows : workspace.Follows session) (follows' : other.Follows session)
    (calls : List (Call α)) :
    Matches Alike (workspace.answerAll calls) (other.answerAll calls) :=
  ((follows.runs calls).join (follows'.runs calls)).mono
    fun _ _ ⟨_, later, later'⟩ => later.alike later'

end Workspace

/-! ### Shrinking -/

/-- **Shrinking a tree leaves the session as it is**: its register stays, and no marker goes
stale. -/
theorem Session.answer_shrink {session : Session α} {index : Nat} {register : Register α}
    (found : session.shelf[index]? = some register) :
    session.answer (.operate index .shrink) = .ok (.value none, session) := by
  have shelf : session.shelf.set index register = session.shelf := by
    obtain ⟨inside, rfl⟩ := List.getElem?_eq_some_iff.mp found
    exact List.set_getElem_self inside
  have still (number : Nat) :
      (Request.operate index Operation.shrink).turns session.shelf number = false := by
    unfold Request.turns
    cases session.shelf[number]? <;> simp [Register.turns]
  have markers : session.markers.map (·.after session.shelf (.operate index .shrink)) =
      session.markers := by
    refine (List.map_congr_left fun marker _ => ?_).trans (List.map_id _)
    rw [Marker.after, still, Bool.or_false]
    rfl
  rw [Session.answer, ask, Shelf.answer, Shelf.register, found]
  show Except.ok (Workspace.Answer.value none, Session.mk (session.shelf.set index register)
    (session.markers.map (·.after session.shelf (.operate index .shrink)))) = _
  rw [shelf, markers]

namespace Workspace

variable {workspace : Workspace α} {session : Session α}

/-- **Shrinking is answered**, replaces the tree and nothing else, and leaves the session as it
is. -/
theorem Follows.shrink (follows : workspace.Follows session) {index : Nat} {tree : Tree α}
    (found : workspace.tree index = .ok tree) : ∃ shrunk,
      workspace.answer (.operate index .shrink) = .ok (.value none, shrunk) ∧
        shrunk = { workspace with trees := workspace.trees.set index tree.shrink } ∧
        shrunk.Follows session := by
  obtain ⟨_, register, _, second, _⟩ | ⟨first, _⟩ := follows.shelved.exists_or_none index
  · have matched := answer_call follows (.operate index .shrink)
    rw [Session.answer_shrink second] at matched
    obtain ⟨shrunk, answers, later⟩ := matched.exists_ok
    refine ⟨shrunk, answers, ?_, later⟩
    rw [answer, found] at answers
    cases answers
    rw [note, List.append_nil]
  · rw [Workspace.tree, first] at found
    cases found

/-- **Shrinking is not noticed.** Shrinking a tree that can come about moves no node, drops the
vacant slots at the end and their places in the free list, and leaves nothing to give up a second
time; the tree holds no memory then if and only if it has no keys. Whatever operations follow, they
are answered as without it, and the trees they lead to look alike. After every run of calls on trees
and cursors, any of the trees may be shrunk: whatever calls follow, on any tree and with any cursor,
they are answered as without it, fault by fault and refusal by refusal, and the workspaces they lead
to look alike. -/
theorem shrink_unnoticed :
    (∀ tree : Tree α, tree.Reachable → tree.Shrinks ∧ ∀ operations, ∃ answers later later',
      Operation.runAll tree.shrink operations = .ok (later, answers) ∧
        Operation.runAll tree operations = .ok (later', answers) ∧ later.Alike later') ∧
    ∀ (calls : List (Call α)) answers workspace, empty.answerAll calls = .ok (answers, workspace) →
      ∀ index tree, workspace.tree index = .ok tree → ∃ shrunk,
        workspace.answer (.operate index .shrink) = .ok (.value none, shrunk) ∧
          shrunk = { workspace with trees := workspace.trees.set index tree.shrink } ∧
          ∀ more, Matches Alike (shrunk.answerAll more) (workspace.answerAll more) := by
  constructor
  · intro tree reachable
    obtain ⟨register, represents⟩ := reachable.represents
    obtain ⟨trunk, shows, _⟩ := represents.shows
    exact ⟨shows.shrinks, represents.shrink.runAll_alike represents rfl⟩
  · intro calls answers workspace goes index tree found
    have matched := Follows.empty.runs calls
    rw [goes] at matched
    obtain ⟨session, _, follows⟩ := matched.exists_expected
    obtain ⟨shrunk, shrinks, same, follows'⟩ := follows.shrink found
    exact ⟨shrunk, shrinks, same, follows'.unnoticed follows⟩

/-- Folding two keys into one leaves a vacant slot on either side of the node. Shrinking drops the
one at the end, and a cursor bound before goes on as it would have without. -/
theorem unnoticed_after_folding :
    (∃ tree : Tree Nat, tree.arena.free = [0, 2] ∧ tree.shrink.arena.free = [0] ∧ tree.Shrinks) ∧
    ∃ workspace shrunk : Workspace Nat, ∃ answers,
      empty.answerAll [.create {}, .operate 0 (.insert [7, 1] 3), .operate 0 (.insert [7, 2] 4),
        .bind 0, .operate 0 (.remove [7, 2])] = .ok (answers, workspace) ∧
      workspace.answer (.operate 0 .shrink) = .ok (.value none, shrunk) ∧
      Matches Alike
        (shrunk.answerAll [.step 0 0 .forward, .seek 0 0 .ge [7], .operate 0 (.insert [7, 2] 5)])
        (workspace.answerAll [.step 0 0 .forward, .seek 0 0 .ge [7],
          .operate 0 (.insert [7, 2] 5)]) := by
  constructor
  · have folded := (Tree.Reachable.empty (α := Nat) {} 0).runAll
      [.insert [7, 1] 3, .insert [7, 2] 4, .remove [7, 2]] rfl
    exact ⟨_, rfl, rfl, (shrink_unnoticed.1 _ folded).1⟩
  · obtain ⟨shrunk, shrinks, _, alike⟩ := shrink_unnoticed.2
      [.create {}, .operate 0 (.insert [7, 1] 3), .operate 0 (.insert [7, 2] 4), .bind 0,
        .operate 0 (.remove [7, 2])] _ _ rfl 0 _ rfl
    exact ⟨_, shrunk, _, rfl, shrinks, alike _⟩

end Workspace

end RadixLog
