/-
**The trees of a workspace are finite maps.**

A shelf is what the trees of a workspace are to those who use them: registers, known by the same
numbers. Requests to trees, in any order and to any of them, are answered on a workspace as they are
on its shelf.

* `Request`, `Shelf.answer`: requests, and what registers answer to them;
* `Workspace.answer_request`: a request is answered as on the shelf;
* `Workspace.trees_refine_maps`: what holds after every run.
-/

import RadixLog.Proofs.Tree.Register
import RadixLog.Proofs.Workspace.Matching

namespace RadixLog

variable {α : Type}

/-! ### Requests to trees -/

/-- A request to the trees of a workspace. -/
inductive Request (α : Type) where
  /-- A new tree. -/
  | create (options : TreeOptions)
  /-- A new tree with these entries, inserted in order. -/
  | collect (entries : List (Bytes × α))
  /-- A copy of a tree. -/
  | copy (tree : Nat)
  /-- An operation on a tree. -/
  | operate (tree : Nat) (operation : Operation α)

/-- The request as a call on a workspace. -/
def Request.call : Request α → Workspace.Call α
  | .create options => .create options
  | .collect entries => .collect entries
  | .copy tree => .copy tree
  | .operate tree operation => .operate tree operation

/-- Registers by number. -/
abbrev Shelf (α : Type) := List (Register α)

namespace Shelf

/-- The register of a given number. -/
def register (shelf : Shelf α) (index : Nat) : Except Fault (Register α) :=
  match shelf[index]? with
  | some register => .ok register
  | none => .error (.unknown index)

/-- What a shelf answers to a request, and the shelf after it. A copy starts at generation 0. -/
def answer (shelf : Shelf α) : Request α → Except Fault (Workspace.Answer α × Shelf α)
  | .create _ => return (.number shelf.length, shelf ++ [.empty])
  | .collect entries => return (.number shelf.length, shelf ++ [Register.empty.insertAll entries])
  | .copy index => do
    let register ← shelf.register index
    return (.number shelf.length, shelf ++ [{ register with generation := 0 }])
  | .operate index operation => do
    let (previous, after) := (← shelf.register index).run operation
    return (.value previous, shelf.set index after)

end Shelf

/-! ### One request -/

/-- Whether a request changes the keys of the tree of a number. -/
def Request.turns (request : Request α) (shelf : Shelf α) (index : Nat) : Bool :=
  match request with
  | .operate place operation =>
    place == index && (shelf[index]?).any fun register => register.turns operation
  | _ => false

/-- **What a request does to a tree**: a change of the keys makes the generation grow. Without one
the generation stays, and no node moves. -/
def Tree.Aged (tree later : Tree α) (turns : Bool) : Prop :=
  if turns then tree.generation < later.generation
  else later.generation = tree.generation ∧ tree.Keeps later

theorem Tree.Aged.refl (tree : Tree α) : tree.Aged tree false := ⟨rfl, .refl tree⟩

theorem Tree.Aged.generation_le {tree later : Tree α} {turns : Bool}
    (aged : tree.Aged later turns) : tree.generation ≤ later.generation := by
  cases turns with
  | true => exact le_of_lt aged
  | false => exact aged.1.ge

/-- A change that follows a register ages the tree by what it does to the keys. -/
theorem Change.Follows.aged {change : Change α} {tree : Tree α} {register : Register α}
    {operation : Operation α} (follows : change.Follows tree register operation)
    (represents : tree.Represents register) :
    tree.Aged change.tree (register.turns operation) := by
  have grows := register.generation_run operation
  rw [← represents.generation, ← follows.represents.generation] at grows
  cases turns : register.turns operation with
  | false =>
    rw [turns] at grows
    exact ⟨grows, follows.keeps turns⟩
  | true =>
    rw [turns] at grows
    exact grows

namespace Workspace

variable {workspace after : Workspace α} {shelf : Shelf α}

/-- **Trees and registers of the same numbers go together**, and a tree's number is its identity. -/
abbrev Shelved (workspace : Workspace α) (shelf : Shelf α) : Prop :=
  Paired (fun index tree register => tree.identity = index ∧ tree.Represents register)
    workspace.trees shelf

/-- Looking for a tree goes on with a tree and its register, or ends in the same fault. -/
theorem Shelved.bind_tree {β σ τ : Type} {related : σ → τ → Prop}
    (shelved : workspace.Shelved shelf) (index : Nat) {next : Tree α → Except Fault (β × σ)}
    {other : Register α → Except Fault (β × τ)}
    (goesOn : ∀ tree register, workspace.trees[index]? = some tree → shelf[index]? = some register →
      tree.identity = index → tree.Represents register →
      Matches related (next tree) (other register)) :
    Matches related (workspace.tree index >>= next) (shelf.register index >>= other) := by
  rw [Workspace.tree, Shelf.register]
  obtain ⟨tree, register, first, second, identity, represents⟩ | ⟨first, second⟩ :=
    shelved.exists_or_none index
  · rw [first, second]
    exact goesOn tree register first second identity represents
  · rw [first, second]
    rfl

/-- **What a request leaves behind**: trees and registers that go together, all cursors as they
were, and each tree aged by what the request does to its keys. -/
structure Served (workspace : Workspace α) (shelf : Shelf α) (request : Request α)
    (after : Workspace α) (shelf' : Shelf α) : Prop where
  shelved : after.Shelved shelf'
  cursors : after.cursors = workspace.cursors
  aged : ∀ {index : Nat} {tree : Tree α}, workspace.trees[index]? = some tree →
    ∃ later, after.trees[index]? = some later ∧ tree.Aged later (request.turns shelf index)

/-- A tree more, with its register, leaves the others alone. -/
theorem Served.add (shelved : workspace.Shelved shelf) {tree : Tree α} {register : Register α}
    (represents : tree.Represents register) (identity : tree.identity = workspace.fresh)
    {request : Request α} (still : ∀ index, request.turns shelf index = false)
    (trees : after.trees = workspace.trees ++ [tree])
    (cursors : after.cursors = workspace.cursors) :
    workspace.Served shelf request after (shelf ++ [register]) where
  shelved := by
    rw [Shelved, trees]
    exact shelved.append ⟨identity, represents⟩
  cursors := cursors
  aged := by
    intro index tree found
    refine ⟨tree, ?_, still index ▸ .refl tree⟩
    rw [trees, List.getElem?_append_left (List.getElem?_eq_some_iff.mp found).1, found]

/-- An operation leaves the trees of other numbers alone. -/
theorem Served.operate (shelved : workspace.Shelved shelf) {index : Nat} {operation : Operation α}
    {tree : Tree α} {register : Register α} {change : Change α}
    (first : workspace.trees[index]? = some tree) (second : shelf[index]? = some register)
    (follows : change.Follows tree register operation)
    (trees : after.trees = workspace.trees.set index change.tree)
    (cursors : after.cursors = workspace.cursors) :
    workspace.Served shelf (.operate index operation) after
      (shelf.set index (register.run operation).2) := by
  obtain ⟨identity, represents⟩ := shelved.item first second
  refine ⟨?_, cursors, ?_⟩
  · rw [Shelved, trees]
    exact shelved.set ⟨follows.identity.trans identity, follows.represents⟩
  · intro other tree' found
    rw [trees]
    by_cases same : index = other
    · subst same
      obtain rfl : tree = tree' := Option.some.inj (first.symm.trans found)
      refine ⟨change.tree, List.getElem?_set_self (List.getElem?_eq_some_iff.mp found).1, ?_⟩
      simpa [Request.turns, second] using follows.aged represents
    · refine ⟨tree', (List.getElem?_set_ne same).trans found, ?_⟩
      rw [Request.turns, beq_false_of_ne same]
      exact .refl tree'

/-- **A request is answered as on the shelf.** -/
theorem answer_request (shelved : workspace.Shelved shelf) (request : Request α) :
    Matches (workspace.Served shelf request) (workspace.answer request.call)
      (shelf.answer request) := by
  cases request with
  | create options =>
    exact ⟨congrArg _ shelved.length,
      .add shelved (.empty options workspace.fresh) rfl (fun _ => rfl) rfl rfl⟩
  | collect entries =>
    obtain ⟨after, reshapes, inserts, represents, identity, _⟩ :=
      (Tree.Represents.empty {} workspace.fresh).insertAll entries
    rw [Request.call, Workspace.answer, inserts]
    exact ⟨congrArg _ shelved.length, .add shelved represents identity (fun _ => rfl) rfl rfl⟩
  | copy index =>
    refine shelved.bind_tree index fun tree register _ _ _ represents => ?_
    exact ⟨congrArg _ shelved.length, .add shelved (represents.copy _) rfl (fun _ => rfl) rfl rfl⟩
  | operate index operation =>
    refine shelved.bind_tree index fun tree register first second _ represents => ?_
    obtain ⟨change, runs, follows⟩ := represents.run operation
    rw [runs]
    exact ⟨congrArg _ follows.previous, .operate shelved first second follows rfl rfl⟩

/-! ### Runs of requests -/

/-- **Each tree looks like the register of the same number**: its size and its generation are those
of the register, and each key is present with the value that the map gives it. -/
abbrev Mirrors (workspace : Workspace α) (shelf : Shelf α) : Prop :=
  Paired (fun _ tree register => tree.size = register.map.size ∧
    tree.generation = register.generation ∧
    ∀ key, tree.find? key = .ok register.map[key]? ∧
      tree.contains key = .ok (register.map.contains key)) workspace.trees shelf

theorem Shelved.mirrors (shelved : workspace.Shelved shelf) : workspace.Mirrors shelf :=
  shelved.mono fun _ _ _ ⟨_, represents⟩ => ⟨represents.size, represents.generation,
    fun key => ⟨represents.find? key, represents.contains key⟩⟩

/-- **Trees are finite maps.** Requests to any number of new trees, one after the other, are
answered as by registers, fault by fault and value by value, and leave each tree looking like its
register. -/
theorem trees_refine_maps (requests : List (Request α)) :
    Matches Mirrors ((empty : Workspace α).answerAll (requests.map Request.call))
      (answerEach Shelf.answer [] requests) := by
  have runs : Matches Shelved ((empty : Workspace α).answerAll (requests.map Request.call))
      (answerEach Shelf.answer [] requests) :=
    answerAll_matches (fun _ _ request shelved =>
      (answer_request shelved request).mono fun _ _ served => served.shelved) .nil requests
  exact runs.mono fun _ _ shelved => shelved.mirrors

end Workspace

end RadixLog
