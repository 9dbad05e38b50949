/-
**Trees with typed keys.**

A tree can keep the keys of one type under their forms as bytes, in the order of the type. Keys of
different types should not share a tree.

* `Tree.insertTyped`, `Tree.removeTyped`, `Tree.findTyped`: one typed key;
* `Tree.seekTyped`: a scan placed relative to a typed key;
* `TypedCall.run`, `TypedCall.runAll`: these calls as values.
-/

import RadixLog.Cursor.Scan

namespace RadixLog

variable {α : Type}

namespace Tree

/-- Puts a value under a typed key. -/
def insertTyped (tree : Tree α) (type : KeyType) (key : type.Value) (value : α) :
    Except Fault (Change α) :=
  tree.insert (type.encode key) value

/-- Takes a typed key away. -/
def removeTyped (tree : Tree α) (type : KeyType) (key : type.Value) : Except Fault (Change α) :=
  tree.remove (type.encode key)

/-- The value under a typed key. -/
def findTyped (tree : Tree α) (type : KeyType) (key : type.Value) : Except Fault (Option α) :=
  tree.find? (type.encode key)

/-- A scan placed by an operator and a typed target. -/
def seekTyped (tree : Tree α) (type : KeyType) (op : Seek) (target : type.Value) :
    Except Fault (Scan α) :=
  tree.scan op (type.encode target)

end Tree

/-- A call on a tree with keys of one type. -/
inductive TypedCall (type : KeyType) (α : Type) where
  | insert (key : type.Value) (value : α)
  | remove (key : type.Value)
  | get (key : type.Value)

namespace TypedCall

variable {type : KeyType}

/-- What a call answers, the value that was or is under the key, and the tree after it. -/
def run (tree : Tree α) : TypedCall type α → Except Fault (Option α × Tree α)
  | .insert key value => do
    let change ← tree.insertTyped type key value
    return (change.previous, change.tree)
  | .remove key => do
    let change ← tree.removeTyped type key
    return (change.previous, change.tree)
  | .get key => do return (← tree.findTyped type key, tree)

/-- What each of some calls answers, with the size of the tree after it, and the last tree. -/
def runAll (tree : Tree α) :
    List (TypedCall type α) → Except Fault (List (Option α × Nat) × Tree α)
  | [] => return ([], tree)
  | call :: calls => do
    let (answer, tree) ← call.run tree
    let (answers, last) ← runAll tree calls
    return ((answer, tree.size) :: answers, last)

end TypedCall

end RadixLog
