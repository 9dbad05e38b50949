/-
**Cursors.**

A cursor is a position that outlives the call that found it. It remembers which tree it belongs to
and at which generation of that tree it was placed, and is refused when used with another tree, or
after the set of keys has changed. Seeking places it afresh.

* `Cursor.seek`, `Cursor.step`: moves, which answer whether they came to a key;
* `Cursor.current`: the entry the cursor is at.
-/

import RadixLog.Cursor.Position

namespace RadixLog

/-- A position, the tree it belongs to and the generation of that tree it holds for. -/
structure Cursor where
  position : Position
  identity : Nat
  generation : Nat
  deriving DecidableEq, Repr

namespace Cursor

variable {α : Type}

/-- A cursor before the first key of a tree. -/
def ofTree (tree : Tree α) : Cursor := ⟨.beforeFirst, tree.identity, tree.generation⟩

/-- Whether the cursor belongs to the tree. -/
def checkTree (cursor : Cursor) (tree : Tree α) : Except Error Unit :=
  if cursor.identity = tree.identity then .ok () else .error .foreignTree

/-- Whether the cursor belongs to the tree and the tree has kept its keys since. -/
def check (cursor : Cursor) (tree : Tree α) : Except Error Unit := do
  cursor.checkTree tree
  if cursor.generation = tree.generation then return ()
  else throw (.staleCursor cursor.generation tree.generation)

/-- What a move answers, whether it came to a key or why it was refused, and the cursor after it. -/
abbrev Moved := Except Error Bool × Cursor

/-- Places the cursor by an operator and a target. -/
def seek (cursor : Cursor) (tree : Tree α) (op : Seek) (target : Bytes) : Except Fault Moved := do
  match cursor.checkTree tree with
  | .error refusal => return (.error refusal, cursor)
  | .ok () =>
    let position ← tree.locate op target
    return (.ok position.onKey, { cursor with position, generation := tree.generation })

/-- Moves the cursor by one key. -/
def step (cursor : Cursor) (tree : Tree α) (direction : Direction) : Except Fault Moved := do
  match cursor.check tree with
  | .error refusal => return (.error refusal, cursor)
  | .ok () =>
    let position ← tree.neighbour direction cursor.position
    return (.ok position.onKey, { cursor with position })

/-- The entry at the cursor. -/
def current (cursor : Cursor) (tree : Tree α) : Except Fault (Except Error (Option (Bytes × α))) := do
  match cursor.check tree with
  | .error refusal => return .error refusal
  | .ok () => return .ok (← tree.entryAt cursor.position)

/-- The moves of up to `count` steps in one direction, with the cursor after each; the first that
does not come to a key is the last. -/
def walk (cursor : Cursor) (tree : Tree α) (direction : Direction) :
    (count : Nat) → Except Fault (List Moved)
  | 0 => return []
  | count + 1 => do
    let moved ← cursor.step tree direction
    match moved.1 with
    | .ok true => return moved :: (← moved.2.walk tree direction count)
    | _ => return [moved]

end Cursor

end RadixLog
