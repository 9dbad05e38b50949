/-
**Workspaces.**

A workspace holds any number of trees and cursors, known by their numbers. A new tree takes the number
of trees there were as its identity, so that no two trees share one, and all changes of shape are
noted in one log. Every call is a value, so that runs of any length can be spoken of.

* `Workspace.Call`: what can be asked of a workspace;
* `Workspace.answer`: what it answers, and the workspace after it.
-/

import RadixLog.Cursor.Scan
import RadixLog.Tree.Operation

namespace RadixLog

/-- Trees and cursors by number, and the changes of shape so far. -/
structure Workspace (α : Type) where
  trees : List (Tree α)
  cursors : List Cursor
  log : List Reshape

namespace Workspace

variable {α : Type}

/-- A call on a workspace. -/
inductive Call (α : Type) where
  /-- A new tree. -/
  | create (options : TreeOptions)
  /-- A new tree with these entries, inserted in order. -/
  | collect (entries : List (Bytes × α))
  /-- A copy of a tree. -/
  | copy (tree : Nat)
  /-- An operation on a tree. -/
  | operate (tree : Nat) (operation : Operation α)
  /-- A new cursor on a tree. -/
  | bind (tree : Nat)
  /-- A new cursor where a scan of a tree has come to. -/
  | scan (tree : Nat) (moves : List Scan.Move)
  /-- A copy of a cursor. -/
  | duplicate (cursor : Nat)
  /-- Places a cursor in a tree. -/
  | seek (cursor tree : Nat) (op : Seek) (target : Bytes)
  /-- Moves a cursor in a tree. -/
  | step (cursor tree : Nat) (direction : Direction)
  /-- The entry at a cursor in a tree. -/
  | current (cursor tree : Nat)

/-- The answer to a call. -/
inductive Answer (α : Type) where
  /-- The number of a new tree or cursor. -/
  | number (index : Nat)
  /-- The value that was there before a change. -/
  | value (previous : Option α)
  /-- Whether a move came to a key. -/
  | moved (outcome : Except Error Bool)
  /-- The entry at a cursor. -/
  | entry (outcome : Except Error (Option (Bytes × α)))

/-- A workspace without trees. -/
def empty : Workspace α := ⟨[], [], []⟩

/-- The tree of a given number. -/
def tree (workspace : Workspace α) (index : Nat) : Except Fault (Tree α) :=
  match workspace.trees[index]? with
  | some tree => .ok tree
  | none => .error (.unknown index)

/-- The cursor of a given number. -/
def cursor (workspace : Workspace α) (index : Nat) : Except Fault Cursor :=
  match workspace.cursors[index]? with
  | some cursor => .ok cursor
  | none => .error (.unknown index)

/-- The identity of the next tree. -/
def fresh (workspace : Workspace α) : Nat := workspace.trees.length

/-- Takes up a new tree and answers its number. -/
def addTree (workspace : Workspace α) (tree : Tree α) : Answer α × Workspace α :=
  (.number workspace.trees.length, { workspace with trees := workspace.trees ++ [tree] })

/-- Takes up a new cursor and answers its number. -/
def addCursor (workspace : Workspace α) (cursor : Cursor) : Answer α × Workspace α :=
  (.number workspace.cursors.length, { workspace with cursors := workspace.cursors ++ [cursor] })

/-- Notes changes of shape. -/
def note (workspace : Workspace α) (reshapes : List Reshape) : Workspace α :=
  { workspace with log := workspace.log ++ reshapes }

/-- The workspace with a cursor as a move has left it, and what the move answered. -/
def setCursor (workspace : Workspace α) (index : Nat) (moved : Cursor.Moved) :
    Answer α × Workspace α :=
  (.moved moved.1, { workspace with cursors := workspace.cursors.set index moved.2 })

/-- The answer to a call and the workspace after it. -/
def answer (workspace : Workspace α) (call : Call α) : Except Fault (Answer α × Workspace α) := do
  match call with
  | .create options => return workspace.addTree (.empty options workspace.fresh)
  | .collect entries =>
    let (tree, reshapes) ← (Tree.empty {} workspace.fresh).insertAll entries
    return (workspace.note reshapes).addTree tree
  | .copy index =>
    let tree ← workspace.tree index
    return workspace.addTree (tree.copy workspace.fresh)
  | .operate index operation =>
    let change ← operation.run (← workspace.tree index)
    let workspace := { workspace with trees := workspace.trees.set index change.tree }
    return (.value change.previous, workspace.note change.reshapes)
  | .bind index =>
    let tree ← workspace.tree index
    return workspace.addCursor (.ofTree tree)
  | .scan index moves =>
    let tree ← workspace.tree index
    let (_, scan) ← (Scan.ofTree tree).runAll moves
    return workspace.addCursor scan.toCursor
  | .duplicate index =>
    let cursor ← workspace.cursor index
    return workspace.addCursor cursor
  | .seek index treeIndex op target =>
    let cursor ← workspace.cursor index
    let tree ← workspace.tree treeIndex
    return workspace.setCursor index (← cursor.seek tree op target)
  | .step index treeIndex direction =>
    let cursor ← workspace.cursor index
    let tree ← workspace.tree treeIndex
    return workspace.setCursor index (← cursor.step tree direction)
  | .current index treeIndex =>
    let cursor ← workspace.cursor index
    let tree ← workspace.tree treeIndex
    return (.entry (← cursor.current tree), workspace)

/-- The answers to calls made one after the other, and the workspace after them. -/
def answerAll (workspace : Workspace α) :
    List (Call α) → Except Fault (List (Answer α) × Workspace α)
  | [] => return ([], workspace)
  | call :: calls => do
    let (answer, workspace) ← workspace.answer call
    let (answers, workspace) ← workspace.answerAll calls
    return (answer :: answers, workspace)

end Workspace

end RadixLog
