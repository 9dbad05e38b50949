/-
**Operations as values.**

Every operation on a single tree as a value, so that runs of any length can be spoken of.

* `Operation.run`: what an operation does to a tree and answers;
* `Operation.runAll`: what a list of operations does, and all their answers.
-/

import RadixLog.Tree

namespace RadixLog

/-- An operation on one tree. -/
inductive Operation (α : Type) where
  | find (key : Bytes)
  | insert (key : Bytes) (value : α)
  | remove (key : Bytes)
  | assign (key : Bytes) (value : α)
  | insertAll (entries : List (Bytes × α))
  | clear
  | shrink
  deriving Repr

namespace Operation

variable {α : Type}

/-- The change that an operation makes. Looking up changes nothing, and operations on the whole tree
have no previous value to answer. -/
def run (operation : Operation α) (tree : Tree α) : Except Fault (Change α) :=
  match operation with
  | find key => do return ⟨tree, ← tree.find? key, []⟩
  | insert key value => tree.insert key value
  | remove key => tree.remove key
  | assign key value => tree.assign key value
  | insertAll entries => do
    let (tree, reshapes) ← tree.insertAll entries
    return ⟨tree, none, reshapes⟩
  | clear => return ⟨tree.clear, none, []⟩
  | shrink => return ⟨tree.shrink, none, []⟩

/-- The tree after a list of operations, and the answer of each. -/
def runAll (tree : Tree α) : List (Operation α) → Except Fault (Tree α × List (Option α))
  | [] => return (tree, [])
  | operation :: operations => do
    let change ← operation.run tree
    let (tree, answers) ← runAll change.tree operations
    return (tree, change.previous :: answers)

end Operation

end RadixLog
