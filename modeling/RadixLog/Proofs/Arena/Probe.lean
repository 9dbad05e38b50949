/-
**Search in a child table.**

In a table in strictly ascending order of bytes, the binary search finds the entry of a byte, or the
place between the lower and the higher bytes where it belongs.

* `narrow_window`: halving keeps the place sought inside the window;
* `probe_finds`: what `probe` answers.
-/

import Mathlib.Tactic.Common
import RadixLog.Arena

namespace RadixLog

/-- A child table in strictly ascending order of bytes. -/
def Edge.Sorted (edges : List Edge) : Prop := edges.Pairwise fun a b => a.byte < b.byte

variable {edges : List Edge} {byte : UInt8}

/-! ### Halving -/

/-- The place of `byte` lies among the `size` places from `base` on, or right before the first of
them if that is the first of all. -/
structure Window (edges : List Edge) (byte : UInt8) (base size : Nat) : Prop where
  within : base + size ≤ edges.length
  below : base ≠ 0 → ∀ edge, edges[base]? = some edge → edge.byte ≤ byte
  above : ∀ i edge, base + size ≤ i → edges[i]? = some edge → byte < edge.byte

theorem Edge.Sorted.byte_lt (sorted : Sorted edges) {i j : Nat} {a b : Edge} (before : i < j)
    (first : edges[i]? = some a) (second : edges[j]? = some b) : a.byte < b.byte := by
  obtain ⟨_, rfl⟩ := List.getElem?_eq_some_iff.mp first
  obtain ⟨_, rfl⟩ := List.getElem?_eq_some_iff.mp second
  exact List.pairwise_iff_getElem.mp sorted i j _ _ before

/-- The upper half is kept unless it starts above the byte. -/
theorem Window.halve (sorted : Edge.Sorted edges) {base size : Nat} (several : 1 < size)
    (window : Window edges byte base size) {edge : Edge}
    (middle : edges[base + size / 2]? = some edge) :
    Window edges byte (if byte < edge.byte then base else base + size / 2) (size - size / 2) := by
  have within := window.within
  split_ifs with less
  · refine ⟨by omega, window.below, fun i other beyond found => ?_⟩
    by_cases same : i = base + size / 2
    · rw [same, middle] at found
      exact Option.some.inj found ▸ less
    · exact UInt8.lt_trans less (sorted.byte_lt (by omega) middle found)
  · refine ⟨by omega, fun _ other found => ?_, fun i other beyond found => ?_⟩
    · rw [middle] at found
      exact Option.some.inj found ▸ UInt8.not_lt.mp less
    · exact window.above i other (by omega) found

/-- **Halving ends at one place**, and the place sought is that one or right after it. -/
theorem narrow_window (sorted : Edge.Sorted edges) {fuel base size : Nat} (nonempty : 0 < size)
    (enough : size ≤ fuel) (window : Window edges byte base size) :
    Window edges byte (narrow edges byte fuel base size) 1 := by
  induction fuel generalizing base size with
  | zero => omega
  | succ fuel ih =>
    rw [narrow]
    split_ifs with single
    · rwa [show size = 1 by omega] at window
    · have within := window.within
      have inside : base + size / 2 < edges.length := by omega
      have middle := List.getElem?_eq_getElem inside
      simp only [middle]
      exact ih (by omega) (by omega) (window.halve sorted (by omega) middle)

/-! ### The search -/

/-- What a search in a table may answer: the place and child of the entry with the byte, or a place
between lower and higher bytes. -/
inductive Probe.Finds (edges : List Edge) (byte : UInt8) : Probe → Prop where
  | found (left right : List Edge) (child : NodeRef)
      (split : edges = left ++ ⟨byte, child⟩ :: right) :
    Finds edges byte (.found left.length child)
  | missing (left right : List Edge) (split : edges = left ++ right)
    (lower : ∀ edge ∈ left, edge.byte < byte) (higher : ∀ edge ∈ right, byte < edge.byte) :
    Finds edges byte (.missing left.length)

/-- A place with only lower bytes before it and only higher ones from it on is where the byte
belongs. -/
theorem Probe.Finds.missing_at {slot : Nat} (within : slot ≤ edges.length)
    (lower : ∀ i edge, i < slot → edges[i]? = some edge → edge.byte < byte)
    (higher : ∀ i edge, slot ≤ i → edges[i]? = some edge → byte < edge.byte) :
    Finds edges byte (.missing slot) := by
  have length : (edges.take slot).length = slot := List.length_take_of_le within
  rw [← length]
  refine .missing _ (edges.drop slot) (List.take_append_drop slot edges).symm ?_ ?_
  · intro edge member
    obtain ⟨i, found⟩ := List.mem_iff_getElem?.mp member
    have inside : i < slot := length ▸ (List.getElem?_eq_some_iff.mp found).1
    exact lower i edge inside (by rwa [List.getElem?_take_of_lt inside] at found)
  · intro edge member
    obtain ⟨i, found⟩ := List.mem_iff_getElem?.mp member
    exact higher (slot + i) edge (Nat.le_add_right _ _) (by rwa [List.getElem?_drop] at found)

/-- **The search answers rightly** in a table in strictly ascending order. -/
theorem probe_finds (sorted : Edge.Sorted edges) (byte : UInt8) :
    (probe edges byte).Finds edges byte := by
  by_cases empty : edges = []
  · subst empty
    exact .missing [] [] rfl (by simp) (by simp)
  have nonempty : 0 < edges.length := List.length_pos_iff.mpr empty
  have start : Window edges byte 0 edges.length :=
    ⟨by omega, by simp, fun i edge beyond found => by
      have := (List.getElem?_eq_some_iff.mp found).1
      omega⟩
  have window := narrow_window sorted nonempty (Nat.le_refl _) start
  rw [probe]
  generalize narrow edges byte edges.length 0 edges.length = slot at window
  have inside : slot < edges.length := window.within
  have here := List.getElem?_eq_getElem inside
  simp only [here]
  split_ifs with same less
  · have split : edges = edges.take slot ++ ⟨byte, edges[slot].child⟩ :: edges.drop (slot + 1) := by
      rw [← same]
      show edges = edges.take slot ++ edges[slot] :: edges.drop (slot + 1)
      rw [List.getElem_cons_drop, List.take_append_drop]
    have length : (edges.take slot).length = slot := List.length_take_of_le (Nat.le_of_lt inside)
    have finds := Probe.Finds.found _ _ _ split
    rwa [length] at finds
  · refine .missing_at inside (fun i edge before found => ?_) fun i edge beyond found =>
      window.above i edge (by omega) found
    by_cases last : i = slot
    · rw [last, here] at found
      exact Option.some.inj found ▸ less
    · exact UInt8.lt_trans (sorted.byte_lt (by omega) found here) less
  · have greater : byte < edges[slot].byte := by grind
    -- Nothing below `byte` stands at `slot`, so the window was never moved.
    have first : slot = 0 := by
      by_contra moved
      exact UInt8.not_lt.mpr (window.below moved _ here) greater
    refine .missing_at (Nat.le_of_lt inside) (by omega) fun i edge beyond found => ?_
    by_cases same : i = slot
    · rw [same, here] at found
      exact Option.some.inj found ▸ greater
    · exact window.above i edge (by omega) found

/-- **A byte that no entry has belongs between the lower and the higher ones.** -/
theorem probe_eq_missing {left right : List Edge} (sorted : Edge.Sorted (left ++ right))
    (lower : ∀ edge ∈ left, edge.byte < byte) (higher : ∀ edge ∈ right, byte < edge.byte) :
    probe (left ++ right) byte = .missing left.length := by
  have apart : ∀ edge : Edge, edge.byte < byte → byte < edge.byte → False :=
    fun _ less greater => UInt8.lt_asymm less greater
  have finds := probe_finds sorted byte
  generalize probe (left ++ right) byte = outcome at finds
  cases finds with
  | found left' right' child split =>
    have member : (⟨byte, child⟩ : Edge) ∈ left ++ right := by simp [split]
    rcases List.mem_append.mp member with before | beyond
    · exact (UInt8.lt_irrefl _ (lower _ before)).elim
    · exact (UInt8.lt_irrefl _ (higher _ beyond)).elim
  | missing left' right' split lower' higher' =>
    rcases List.append_eq_append_iff.mp split with ⟨between, rfl, rfl⟩ | ⟨between, rfl, rfl⟩
    · cases between with
      | nil => simp
      | cons edge _ => exact (apart edge (lower' _ (by simp)) (higher _ (by simp))).elim
    · cases between with
      | nil => simp
      | cons edge _ => exact (apart edge (lower _ (by simp)) (higher' _ (by simp))).elim

end RadixLog
