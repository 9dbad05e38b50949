/-
**The order of byte strings is the lexicographic order.**

`Bytes.order` decides the lexicographic order that lists have from their elements, so that byte
strings are a linear order (`Bytes.order_eq_lt`, `Bytes.order_eq_gt`, `Bytes.order_eq_eq`). What a
path-compressed tree needs of it:

* `Bytes.lt_append_cons`: what ends where another goes on comes first;
* `Bytes.append_cons_lt`: the first byte in which two byte strings differ decides;
* `Bytes.exists_parting`: two byte strings share an initial part and then part;
* `Bytes.order_parted`: after that, what follows in either makes no difference.
-/

import Mathlib.Order.Bounds.Defs
import Mathlib.Order.Std
import RadixLog.Bytes

namespace RadixLog.Bytes

/-! ### The comparison -/

theorem order_eq_lt {a b : Bytes} : order a b = .lt ↔ a < b := by
  induction a generalizing b with
  | nil => cases b <;> simp [order]
  | cons x as ih =>
    cases b with
    | nil => simp [order]
    | cons y bs =>
      rw [List.cons_lt_cons_iff, ← ih, order]
      split_ifs with less same
      · simp [less]
      · simp [same]
      · simp [less, same]

theorem order_eq_eq {a b : Bytes} : order a b = .eq ↔ a = b := by
  induction a generalizing b with
  | nil => cases b <;> simp [order]
  | cons x as ih =>
    cases b with
    | nil => simp [order]
    | cons y bs =>
      rw [List.cons.injEq, ← ih, order]
      split_ifs with less same
      · simp [UInt8.ne_of_lt less]
      · simp [same]
      · simp [same]

theorem order_swap (a b : Bytes) : (order a b).swap = order b a := by
  induction a generalizing b with
  | nil => cases b <;> rfl
  | cons x as ih =>
    cases b with
    | nil => rfl
    | cons y bs =>
      rw [order, order, ← ih]
      by_cases same : x = y
      · simp [same]
      · rcases UInt8.lt_or_lt_of_ne same with less | greater
        · simp [less, UInt8.lt_asymm less, Ne.symm same]
        · simp [greater, UInt8.lt_asymm greater, same]

theorem order_eq_gt {a b : Bytes} : order a b = .gt ↔ b < a := by
  rw [← order_eq_lt, ← order_swap a b]
  cases order a b <;> simp

instance lawfulOrder : Std.LawfulOrderCmp order :=
  let : Ord Bytes := ⟨order⟩
  { isLE_compare a b := by
      show (order a b).isLE ↔ a ≤ b
      rw [← List.not_lt, ← order_eq_gt]
      cases order a b <;> simp
    isGE_compare a b := by
      show (order a b).isGE ↔ b ≤ a
      rw [← List.not_lt, ← order_eq_lt]
      cases order a b <;> simp }

/-- **Byte strings are linearly ordered**, byte by byte and then by length. -/
instance : LinearOrder Bytes :=
  LinearOrder.ofStd Bytes { ord := ⟨order⟩, lawfulOrderOrd := lawfulOrder }

instance : Std.TransCmp order :=
  let : Ord Bytes := ⟨order⟩
  have : Std.LawfulOrderOrd Bytes := lawfulOrder
  (inferInstance : Std.TransOrd Bytes)

instance : Std.LawfulEqCmp order where
  eq_of_compare := order_eq_eq.mp

/-! ### Common initial parts -/

theorem lt_append_cons (shared rest : Bytes) (byte : UInt8) : shared < shared ++ byte :: rest := by
  induction shared with
  | nil => exact List.nil_lt_cons _ _
  | cons _ _ ih => exact List.cons_lt_cons_iff.mpr (.inr ⟨rfl, ih⟩)

/-- After a common initial part, the next byte decides. -/
theorem append_cons_lt (shared : Bytes) {x y : UInt8} (less : x < y) (as bs : Bytes) :
    shared ++ x :: as < shared ++ y :: bs :=
  List.append_left_lt (List.cons_lt_cons_iff.mpr (.inl less))

/-- Two byte strings agree on their common initial part and go on, if both do, with different
bytes. -/
theorem exists_parting (a b : Bytes) : ∃ shared as bs, a = shared ++ as ∧ b = shared ++ bs ∧
    shared.length = common a b ∧ ∀ byte, as.head? = some byte → bs.head? ≠ some byte := by
  induction a generalizing b with
  | nil => exact ⟨[], [], b, rfl, rfl, rfl, by simp⟩
  | cons x as ih =>
    cases b with
    | nil => exact ⟨[], x :: as, [], rfl, rfl, rfl, by simp⟩
    | cons y bs =>
      by_cases same : x = y
      · subst same
        obtain ⟨shared, as', bs', left, right, length, part⟩ := ih bs
        refine ⟨x :: shared, as', bs', by rw [left]; rfl, by rw [right]; rfl, ?_, part⟩
        simp [common, length]
      · exact ⟨[], x :: as, y :: bs, rfl, rfl, by simp [common, same], by simpa using Ne.symm same⟩

/-- What two byte strings start with in common does not decide. -/
theorem order_append_left (shared as bs : Bytes) :
    order (shared ++ as) (shared ++ bs) = order as bs := by
  induction shared with
  | nil => rfl
  | cons x shared ih => simp [order, ih, UInt8.lt_irrefl]

/-- **What has parted from a byte string stands to all that go on from it as to itself.** -/
theorem order_parted {shared rest tail more : Bytes} {byte : UInt8}
    (parts : rest.head? ≠ some byte) :
    order (shared ++ rest) (shared ++ byte :: tail ++ more) =
      order (shared ++ rest) (shared ++ byte :: tail) := by
  rw [List.append_assoc, order_append_left, order_append_left]
  cases rest with
  | nil => rfl
  | cons first rest =>
    have different : first ≠ byte := by simpa using parts
    simp [order, different]

end RadixLog.Bytes
