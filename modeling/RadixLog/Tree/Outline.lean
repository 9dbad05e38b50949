/-
**The outline of a tree.**

One line per node, parents before children, indented by two spaces per level: the label in quotes,
printable, and whether a key ends there.
-/

import RadixLog.Arena.Walk
import RadixLog.Tree

namespace RadixLog

variable {α : Type}

/-- The line of a node, with its line end. -/
def Visit.line (visit : Visit α) : List Char :=
  List.replicate (2 * visit.depth) ' ' ++ '"' :: Bytes.escaped visit.node.label ++ ['"', ' ']
    ++ (if visit.node.keyed then "key" else "branch").toList ++ ['\n']

/-- All nodes in preorder. -/
def Tree.visits (tree : Tree α) : Except Fault (List (Visit α)) := tree.arena.visits tree.root

/-- The outline of a tree. -/
def Tree.outline (tree : Tree α) : Except Fault String := do
  match tree.root with
  | none => return "(empty)\n"
  | some _ => return String.ofList ((← tree.visits).flatMap Visit.line)

end RadixLog
