/-
**What the registers of a cursor hold.**

At a key, the stack of a cursor is a real path of its tree, from the root down to the node of that
key, and the buffer holds the bytes that the labels along it spell; beyond an end, both are empty.
So it is for every cursor in sync with its tree, whatever calls led to the two, and after every run
of seeks and steps from there.

* `Tree.Path`: a stack of frames that leads from the root to its top;
* `Registers.Consistent`: what the registers hold, by the state;
* `Workspace.Follows.inStep`: cursors in sync remember a path of their tree;
* `Cursor.registers_hold_paths`: what holds after every run of moves.
-/

import RadixLog.Proofs.Cursor.Registers
import RadixLog.Proofs.Workspace.Session

namespace RadixLog

variable {α : Type}

/-! ### Paths -/

/-- **A stack of frames is a path of a tree** that spells a key and ends at a node. The last frame of
the stack is the root, and every other one is the child of the frame under it in the slot that it
remembers. The labels along it, one after the other, are the key. -/
inductive Tree.Path (tree : Tree α) : (stack : List Link) → (key : Bytes) → (node : Node α) → Prop where
  | root {id : NodeRef} {node : Node α} (start : tree.root = some id)
    (found : tree.arena.node id = .ok node) : Path tree [⟨id, 0⟩] node.label node
  | child {parent : Link} {above : List Link} {key : Bytes} {node child : Node α} {slot : Nat}
    {edge : Edge} (path : Path tree (parent :: above) key node)
    (here : node.children[slot]? = some edge) (found : tree.arena.node edge.child = .ok child) :
    Path tree (⟨edge.child, slot⟩ :: parent :: above) (key ++ child.label) child

/-- **What the registers of a cursor hold**: at a key, a path to a node with a value, and its bytes;
beyond an end, nothing. -/
structure Registers.Consistent (tree : Tree α) (registers : Registers) : Prop where
  positioned : registers.state = .positioned → ∃ node value,
    tree.Path registers.stack registers.key node ∧ node.value = some value ∧
      registers.key? = some registers.key ∧
      registers.current tree = .ok (some (registers.key, value))
  ended : registers.state ≠ .positioned → registers.stack = [] ∧ registers.key = [] ∧
    registers.key? = none ∧ registers.current tree = .ok none

variable {tree : Tree α} {trunk : Trunk α} {cursor : Cursor} {position : Position}

/-- **What is remembered of a spine is a path**, in a tree whose arena holds what is around it. -/
theorem Tree.path_of_holds {spine : Spine α} {sub : Subtree α}
    (root : tree.root = some (spine.plug sub).id) (holds : tree.arena.Holds (spine.plug sub).nodes) :
    tree.Path (⟨sub.id, spine.slot⟩ :: spine.links) (spine.spelled ++ sub.label) sub.top := by
  have found : tree.arena.node sub.id = .ok sub.top := holds.read_sub
  induction spine generalizing sub with
  | nil => exact .root root found
  | cons frame spine ih =>
    have closed : tree.arena.Holds (Spine.plug spine (frame.close sub)).nodes := holds
    have path := ih root closed closed.read_sub
    have here : (frame.close sub).top.children[frame.left.length]? = some sub.edge := by
      simp [Frame.close]
    exact .child path here found

theorem Tree.Shows.path {spine : Spine α} {sub : Subtree α}
    (shows : tree.Shows (some (spine.plug sub))) :
    tree.Path (⟨sub.id, spine.slot⟩ :: spine.links) (spine.spelled ++ sub.label) sub.top :=
  path_of_holds shows.root shows.stores.toHolds

/-- **A position that fits what a tree shows has consistent registers.** -/
theorem Position.Fits.consistent (fits : position.Fits trunk) (shows : tree.Shows trunk) :
    (Registers.ofPosition position).Consistent tree := by
  cases position with
  | beforeFirst => exact ⟨nofun, fun _ => ⟨rfl, rfl, rfl, rfl⟩⟩
  | afterLast => exact ⟨nofun, fun _ => ⟨rfl, rfl, rfl, rfl⟩⟩
  | positioned trail =>
    obtain ⟨entry, on⟩ := fits
    have reads := shows.entryAt on
    rw [← Registers.current_ofPosition] at reads
    obtain ⟨spine, sub, value, rfl, keyed⟩ := on
    exact ⟨fun _ => ⟨sub.top, value, shows.path, keyed, rfl, reads⟩, fun ended => absurd rfl ended⟩

/-! ### Cursors in sync -/

/-- **A cursor is well kept** in a tree: it is in sync with it, its registers are consistent, and what
can be read from it is what they hold. -/
structure Cursor.WellKept (tree : Tree α) (cursor : Cursor) : Prop where
  synced : cursor.check tree = .ok ()
  consistent : cursor.registers.Consistent tree
  state : cursor.position.state = cursor.registers.state
  key : cursor.position.key? = cursor.registers.key?
  current : cursor.current tree = Except.ok <$> cursor.registers.current tree

theorem Cursor.InStep.wellKept (inStep : cursor.InStep tree trunk) (shows : tree.Shows trunk) :
    cursor.WellKept tree where
  synced := inStep.check
  consistent := inStep.fits.consistent shows
  state := (Registers.state_ofPosition cursor.position).symm
  key := (Registers.key?_ofPosition cursor.position).symm
  current := Cursor.current_registers inStep.check

/-- **A cursor stays well kept** in every run of seeks and steps, in which all moves are granted and its
registers move in place. -/
def Cursor.StaysWellKept (tree : Tree α) (cursor : Cursor) : Prop :=
  cursor.WellKept tree ∧ ∀ moves, ∃ trace, cursor.moveAll tree moves = .ok trace ∧
    cursor.registers.moveAll tree moves = .ok (trace.map (·.2.registers)) ∧
    ∀ moved ∈ trace, moved.1 = .ok moved.2.position.onKey ∧ moved.2.WellKept tree

theorem Cursor.InStep.staysWellKept {map : KeyMap α} (inStep : cursor.InStep tree trunk)
    (shows : tree.Shows trunk) (entries : trunk.entries = map.toList) :
    cursor.StaysWellKept tree := by
  refine ⟨inStep.wellKept shows, fun moves => ?_⟩
  obtain ⟨trace, runs, inPlace, kept⟩ := inStep.moveAll_registers shows entries moves
  refine ⟨trace, runs, inPlace, fun moved member => ?_⟩
  obtain ⟨granted, later⟩ := kept moved member
  exact ⟨granted, later.wellKept shows⟩

namespace Workspace

variable {workspace : Workspace α} {session : Session α}

/-- **A cursor in sync with a tree remembers a path of it**, in a workspace that follows a session. -/
theorem Follows.inStep (follows : workspace.Follows session) (member : tree ∈ workspace.trees)
    (member' : cursor ∈ workspace.cursors) (synced : cursor.check tree = .ok ()) :
    ∃ trunk, ∃ map : KeyMap α, tree.Shows trunk ∧ trunk.entries = map.toList ∧
      cursor.InStep tree trunk := by
  obtain ⟨number, found⟩ := List.mem_iff_getElem?.mp member
  obtain ⟨index, found'⟩ := List.mem_iff_getElem?.mp member'
  obtain ⟨register, -, identity, represents⟩ := follows.shelved.exists_right found
  obtain ⟨marker, -, own, foundOwn, marked⟩ := follows.marked.exists_right found'
  have same : marker.tree = tree.identity → own = tree := by
    intro same
    rw [same, identity, found] at foundOwn
    exact (Option.some.inj foundOwn).symm
  obtain ⟨refusal, -, refused⟩ | ⟨-, trunk, shows, entries, inStep⟩ :=
    marked.refused_or_inStep same represents
  · cases synced.symm.trans refused
  · exact ⟨trunk, register.map, shows, entries, inStep⟩

end Workspace

/-! ### Every run -/

namespace Cursor

/-- **The registers of a cursor hold a path of its tree at a key, and nothing beyond an end.** So it is
for a new cursor on a tree that can come about, for every cursor that is in sync with a tree after
any calls on trees and cursors, and after every run of seeks and steps from there. -/
theorem registers_hold_paths :
    (∀ tree : Tree α, tree.Reachable → (ofTree tree).StaysWellKept tree) ∧
    ∀ (calls : List (Workspace.Call α)) (answers : List (Workspace.Answer α))
      (workspace : Workspace α), Workspace.empty.answerAll calls = .ok (answers, workspace) →
      ∀ tree ∈ workspace.trees, ∀ cursor ∈ workspace.cursors, cursor.check tree = .ok () →
        cursor.StaysWellKept tree := by
  constructor
  · intro tree reachable
    obtain ⟨register, represents⟩ := reachable.represents
    obtain ⟨trunk, shows, entries⟩ := represents.shows
    have start : (ofTree tree).InStep tree trunk := ⟨rfl, rfl, trivial⟩
    exact start.staysWellKept shows entries
  · intro calls answers workspace runs tree member cursor member' synced
    have matched := Workspace.Follows.empty.runs calls
    rw [runs] at matched
    obtain ⟨session, -, follows⟩ := matched.exists_expected
    obtain ⟨trunk, map, shows, entries, inStep⟩ := follows.inStep member member' synced
    exact inStep.staysWellKept shows entries

/-- A cursor sought to 7 1, among the keys 7 and 7 1, has the frames of both on its stack. The value of
7 may change meanwhile, and it steps off the end with nothing left of them. -/
theorem registers_over_branch : ∃ (tree : Tree Nat) (cursor after : Cursor),
    cursor.registers = ⟨[⟨1, 0⟩, ⟨0, 0⟩], [7, 1], .positioned⟩ ∧ cursor.StaysWellKept tree ∧
      cursor.move tree (.step .forward) = .ok (.ok false, after) ∧
      after.registers = ⟨[], [], .afterLast⟩ := by
  have runs : Workspace.empty.answerAll [.create {}, .operate 0 (.insert [7] 3),
      .operate 0 (.insert [7, 1] 4), .bind 0, .seek 0 0 .gt [7], .operate 0 (.assign [7] 5)] =
    .ok (_, _) := rfl
  have kept := registers_hold_paths.2 _ _ _ runs _ List.mem_cons_self _ List.mem_cons_self rfl
  exact ⟨_, _, _, rfl, kept, rfl, rfl⟩

end Cursor

end RadixLog
