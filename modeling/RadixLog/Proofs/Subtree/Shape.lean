/-
**A list of depths and labels determines a tree.**

The shape of a subtree is what its child slots lead to: the label of the node there, and whether a
key ends at it. The rows of a subtree list the same in preorder, each with its depth. Where a row is
no deeper than another one before it, the subtree of the other one has ended, so the rows give back
the shape; and the keys are the labels along the way to the nodes where one ends, so they depend on
nothing else.

* `Subtree.mark?`, `Subtree.SameShape`: what is at a place, and having the same at every place;
* `Subtree.sameShape_iff`: the same at the root, and children of the same shapes;
* `Subtree.rows_eq_iff`: the rows say the same as the shape;
* `Subtree.SameShape.map_fst_entries`, `Trunk.SameShape.keys`: the shape determines the keys.
-/

import Mathlib.Data.List.Forall2
import RadixLog.Proofs.Seek
import RadixLog.Proofs.Subtree.Walk

namespace RadixLog

variable {α β : Type}

/-- What an outline shows of a node: its depth, its label and whether a key ends there. -/
structure Row where
  depth : Nat
  label : Bytes
  keyed : Bool

/-- What an outline shows of the node visited. -/
def Visit.row (visit : Visit α) : Row := ⟨visit.depth, visit.node.label, visit.node.keyed⟩

namespace Subtree

/-! ### Places -/

/-- The label of the node that child slots lead to, and whether a key ends there. -/
def mark? : (path : List Nat) → Subtree α → Option (Bytes × Bool)
  | [], sub => some (sub.label, sub.value.isSome)
  | slot :: path, sub => sub.children[slot]?.bind (mark? path)

/-- **Two subtrees have the same shape** when the same is at every place of both. -/
def SameShape (sub : Subtree α) (other : Subtree β) : Prop :=
  ∀ path, sub.mark? path = other.mark? path

variable {sub : Subtree α} {other : Subtree β} {children : List (Subtree α)}
  {others : List (Subtree β)} {depth : Nat} {rest rest' : List Row}

/-- Children have the same shapes if the same is at every place under them. -/
theorem forall₂_sameShape_iff : List.Forall₂ SameShape children others ↔
    ∀ (slot : Nat) (path : List Nat),
      children[slot]?.bind (mark? path) = others[slot]?.bind (mark? path) := by
  induction children generalizing others with
  | nil =>
    cases others with
    | nil => exact iff_of_true .nil fun _ _ => rfl
    | cons other others => exact iff_of_false nofun fun same => nomatch same 0 []
  | cons child children ih =>
    cases others with
    | nil => exact iff_of_false nofun fun same => nomatch same 0 []
    | cons other others =>
      rw [List.forall₂_cons, ih]
      constructor
      · rintro ⟨first, later⟩ slot path
        cases slot with
        | zero => exact first path
        | succ slot => exact later slot path
      · intro same
        exact ⟨fun path => same 0 path, fun slot path => same (slot + 1) path⟩

/-- **Subtrees have the same shape if their nodes show the same and their children have the same
shapes.** -/
theorem sameShape_iff : sub.SameShape other ↔ sub.label = other.label ∧
    sub.value.isSome = other.value.isSome ∧ List.Forall₂ SameShape sub.children other.children := by
  rw [forall₂_sameShape_iff]
  constructor
  · intro same
    obtain ⟨label, keyed⟩ := Prod.mk.inj (Option.some.inj (same []))
    exact ⟨label, keyed, fun slot path => same (slot :: path)⟩
  · rintro ⟨label, keyed, below⟩ path
    cases path with
    | nil => rw [mark?, mark?, label, keyed]
    | cons slot path => exact below slot path

/-- What is listed of children of the same shapes is the same, if it is for each child. -/
theorem flatMap_eq_of_forall₂ {γ : Type} {list : Subtree α → List γ} {list' : Subtree β → List γ}
    (alike : List.Forall₂ SameShape children others)
    (each : ∀ child ∈ children, ∀ {other}, child.SameShape other → list child = list' other) :
    children.flatMap list = others.flatMap list' := by
  induction alike with
  | nil => rfl
  | cons first _ later =>
    rw [List.flatMap_cons, List.flatMap_cons, each _ List.mem_cons_self first,
      later fun child member => each child (List.mem_cons_of_mem _ member)]

/-! ### Rows -/

/-- The rows of a subtree in preorder, given the depth of its root. -/
def rows (depth : Nat) : Subtree α → List Row
  | ⟨_, label, value, children⟩ =>
    ⟨depth, label, value.isSome⟩ :: children.flatMap (rows (depth + 1))

theorem rows_eq (depth : Nat) (sub : Subtree α) : sub.rows depth =
    ⟨depth, sub.label, sub.value.isSome⟩ :: sub.children.flatMap (rows (depth + 1)) := by
  cases sub
  rw [rows]

/-- **A walk shows the rows**, in the same order. -/
theorem map_row_visits (sub : Subtree α) (above : Bytes) (depth : Nat) :
    (sub.visits above depth).map Visit.row = sub.rows depth := by
  induction sub using Subtree.induction generalizing above depth with
  | node edge label value children ih =>
    rw [visits, rows, List.map_cons, List.map_flatMap]
    exact congrArg _ (List.flatMap_congr fun child member => ih child member _ _)

/-- Subtrees of the same shape have the same rows. -/
theorem SameShape.rows (same : sub.SameShape other) (depth : Nat) :
    sub.rows depth = other.rows depth := by
  induction sub using Subtree.induction generalizing other depth with
  | node edge label value children ih =>
    obtain ⟨here, keyed, below⟩ := sameShape_iff.mp same
    rw [rows_eq, rows_eq, here, keyed,
      flatMap_eq_of_forall₂ below fun child member _ same => ih child member same (depth + 1)]

/-- No row comes next that is deeper than this. -/
def Shallow (depth : Nat) (rest : List Row) : Prop := ∀ row ∈ rest.head?, row.depth ≤ depth

theorem Shallow.succ (shallow : Shallow depth rest) : Shallow (depth + 1) rest :=
  fun row first => Nat.le_succ_of_le (shallow row first)

/-- After a child comes another one, or what comes after all of them. -/
theorem Shallow.flatMap_rows (shallow : Shallow depth rest) (children : List (Subtree α)) :
    Shallow (depth + 1) (children.flatMap (rows (depth + 1)) ++ rest) := by
  cases children with
  | nil => exact shallow.succ
  | cons child children =>
    rw [List.flatMap_cons, rows_eq]
    rintro row ⟨⟩
    exact Nat.le_refl _

/-- What comes after all children is not the beginning of one. -/
theorem Shallow.ne_rows (shallow : Shallow depth rest) :
    rest ≠ sub.rows (depth + 1) ++ rest' := by
  rintro rfl
  rw [rows_eq] at shallow
  exact Nat.not_succ_le_self depth (shallow _ rfl)

/-- The rows of children determine their shapes, if those of each child do. -/
theorem forall₂_of_rows
    (each : ∀ child ∈ children, ∀ {other : Subtree β} {rest rest' : List Row},
      Shallow (depth + 1) rest → Shallow (depth + 1) rest' →
      child.rows (depth + 1) ++ rest = other.rows (depth + 1) ++ rest' →
      child.SameShape other ∧ rest = rest')
    (shallow : Shallow depth rest) (shallow' : Shallow depth rest')
    (same : children.flatMap (rows (depth + 1)) ++ rest =
      others.flatMap (rows (depth + 1)) ++ rest') :
    List.Forall₂ SameShape children others ∧ rest = rest' := by
  induction children generalizing others with
  | nil =>
    cases others with
    | nil => exact ⟨.nil, same⟩
    | cons other others =>
      rw [List.flatMap_cons, List.append_assoc] at same
      exact absurd same shallow.ne_rows
  | cons child children ih =>
    rw [List.flatMap_cons, List.append_assoc] at same
    cases others with
    | nil => exact absurd same.symm shallow'.ne_rows
    | cons other others =>
      rw [List.flatMap_cons, List.append_assoc] at same
      obtain ⟨first, same⟩ := each child List.mem_cons_self (shallow.flatMap_rows children)
        (shallow'.flatMap_rows others) same
      obtain ⟨later, after⟩ := ih (fun child member => each child (List.mem_cons_of_mem _ member)) same
      exact ⟨.cons first later, after⟩

/-- **The rows determine the shape**, and where they end, as long as nothing deeper follows. -/
theorem SameShape.of_rows (shallow : Shallow depth rest) (shallow' : Shallow depth rest')
    (same : sub.rows depth ++ rest = other.rows depth ++ rest') :
    sub.SameShape other ∧ rest = rest' := by
  induction sub using Subtree.induction generalizing other depth rest rest' with
  | node edge label value children ih =>
    rw [rows_eq, rows_eq, List.cons_append, List.cons_append, List.cons.injEq, Row.mk.injEq] at same
    obtain ⟨⟨-, here, keyed⟩, below⟩ := same
    -- What follows the last child is no deeper than the node, so it is not taken for another child.
    obtain ⟨below, after⟩ :=
      forall₂_of_rows (fun child member => ih child member) shallow shallow' below
    exact ⟨sameShape_iff.mpr ⟨here, keyed, below⟩, after⟩

/-- **Subtrees have the same rows exactly when they have the same shape.** -/
theorem rows_eq_iff : sub.rows depth = other.rows depth ↔ sub.SameShape other := by
  constructor
  · intro same
    have nothing : Shallow depth [] := nofun
    exact (SameShape.of_rows nothing nothing (congrArg (· ++ []) same)).1
  · intro same
    exact same.rows depth

/-! ### Keys -/

theorem map_fst_own (path : Bytes) (value : Option α) :
    (own path value).map Prod.fst = if value.isSome then [path] else [] := by
  cases value <;> rfl

/-- **Subtrees of the same shape list the same keys.** -/
theorem SameShape.map_fst_entries (same : sub.SameShape other) (above : Bytes) :
    (sub.entries above).map Prod.fst = (other.entries above).map Prod.fst := by
  induction sub using Subtree.induction generalizing other above with
  | node edge label value children ih =>
    obtain ⟨here, keyed, below⟩ := sameShape_iff.mp same
    rw [entries_eq, entries_eq, List.map_append, List.map_append, map_fst_own, map_fst_own, here,
      keyed, List.map_flatMap, List.map_flatMap]
    exact congrArg _ (flatMap_eq_of_forall₂ below fun child member _ same => ih child member same _)

end Subtree

/-! ### Trunks -/

namespace Trunk

/-- What is at a place of a trunk; an empty one has none. -/
def mark? (path : List Nat) (trunk : Trunk α) : Option (Bytes × Bool) :=
  trunk.bind (Subtree.mark? path)

/-- **Two trunks have the same shape**: both are empty, or the same is at every place of both. -/
def SameShape (trunk : Trunk α) (other : Trunk β) : Prop :=
  ∀ path, trunk.mark? path = other.mark? path

/-- The rows of a trunk. -/
def rows : Trunk α → List Row
  | none => []
  | some sub => sub.rows 0

variable {trunk : Trunk α} {other : Trunk β}

theorem map_row_visits (trunk : Trunk α) : trunk.visits.map Visit.row = trunk.rows := by
  cases trunk with
  | none => rfl
  | some whole => exact whole.map_row_visits [] 0

theorem rows_eq_iff : trunk.rows = other.rows ↔ trunk.SameShape other := by
  cases trunk with
  | none =>
    cases other with
    | none => exact iff_of_true rfl fun _ => rfl
    | some whole =>
      rw [rows, rows, Subtree.rows_eq]
      exact iff_of_false nofun fun same => nomatch same []
  | some whole =>
    cases other with
    | none =>
      rw [rows, rows, Subtree.rows_eq]
      exact iff_of_false nofun fun same => nomatch same []
    | some whole' => exact Subtree.rows_eq_iff

theorem SameShape.map_fst_entries (same : trunk.SameShape other) :
    trunk.entries.map Prod.fst = other.entries.map Prod.fst := by
  cases trunk with
  | none =>
    cases other with
    | none => rfl
    | some whole => exact nomatch same []
  | some whole =>
    cases other with
    | none => exact nomatch same []
    | some whole' =>
      have same : whole.SameShape whole' := same
      exact same.map_fst_entries []

/-- **Trunks of the same shape have the same keys.** -/
theorem SameShape.keys (same : trunk.SameShape other) :
    Seek.keys trunk.entries = Seek.keys other.entries := by
  have keys {γ : Type} (entries : List (Bytes × γ)) :
      Seek.keys entries = {key | key ∈ entries.map Prod.fst} := by
    ext key
    simp [Seek.keys]
  rw [keys, keys, same.map_fst_entries]

end Trunk

end RadixLog
