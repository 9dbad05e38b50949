/-
**The order of big-endian digits.**

Byte strings of one length are the numbers that they write, in the same order.

* `Bytes.toNat_ofNat`: a number that fits is read back as it was written;
* `Bytes.lt_iff_toNat_lt`: equally long byte strings stand as their numbers do;
* `Bytes.ofNat_toNat`: bytes are written back as they were read.
-/

import Mathlib
import RadixLog.Bytes.BigEndian
import RadixLog.Proofs.Bytes.Order

namespace RadixLog

/-- Of two numbers with a last digit each, the part above the last digit decides first. -/
theorem mul_add_lt_mul_add_iff {base a b x y : Nat} (small : x < base) (small' : y < base) :
    a * base + x < b * base + y ↔ a < b ∨ a = b ∧ x < y := by
  rcases Nat.lt_trichotomy a b with less | rfl | greater
  · have step : (a + 1) * base ≤ b * base := Nat.mul_le_mul_right base less
    rw [Nat.add_mul, Nat.one_mul] at step
    exact iff_of_true (by omega) (.inl less)
  · simp
  · have step : (b + 1) * base ≤ a * base := Nat.mul_le_mul_right base greater
    rw [Nat.add_mul, Nat.one_mul] at step
    exact iff_of_false (by omega) (by omega)

namespace Bytes

theorem ofNat_succ (width number : Nat) :
    ofNat (width + 1) number = UInt8.ofNat (number / 256 ^ width) :: ofNat width number := rfl

theorem toNat_nil : toNat [] = 0 := rfl

theorem toNat_cons (byte : UInt8) (rest : Bytes) :
    toNat (byte :: rest) = byte.toNat * 256 ^ rest.length + toNat rest := rfl

@[simp]
theorem length_ofNat (width number : Nat) : (ofNat width number).length = width := by
  induction width with
  | zero => rfl
  | succ width ih => rw [ofNat_succ, List.length_cons, ih]

theorem toNat_lt (bytes : Bytes) : bytes.toNat < 256 ^ bytes.length := by
  induction bytes with
  | nil => exact Nat.one_pos
  | cons byte rest ih =>
    have digit : (byte.toNat + 1) * 256 ^ rest.length ≤ 256 * 256 ^ rest.length :=
      Nat.mul_le_mul_right _ byte.toNat_lt
    rw [Nat.add_mul, Nat.one_mul] at digit
    rw [toNat_cons, List.length_cons, Nat.pow_succ']
    omega

theorem toNat_append (a b : Bytes) : (a ++ b).toNat = a.toNat * 256 ^ b.length + b.toNat := by
  induction a with
  | nil => rw [List.nil_append, toNat_nil, Nat.zero_mul, Nat.zero_add]
  | cons byte rest ih =>
    rw [List.cons_append, toNat_cons, toNat_cons, ih, List.length_append, Nat.pow_add, Nat.add_mul,
      Nat.mul_assoc, Nat.add_assoc]

/-- **A number is read back as it was written**, up to what does not fit. -/
theorem toNat_ofNat (width number : Nat) : (ofNat width number).toNat = number % 256 ^ width := by
  induction width with
  | zero => exact (Nat.mod_one number).symm
  | succ width ih =>
    have digits : number % 256 ^ (width + 1) =
        number % 256 ^ width + 256 ^ width * (number / 256 ^ width % 256) := Nat.mod_pow_succ
    rw [ofNat_succ, toNat_cons, ih, length_ofNat, UInt8.toNat_ofNat', digits, Nat.mul_comm,
      Nat.add_comm]

/-- **Equally long byte strings stand as the numbers that they write.** -/
theorem lt_iff_toNat_lt {a b : Bytes} (length : a.length = b.length) :
    a < b ↔ a.toNat < b.toNat := by
  induction a generalizing b with
  | nil =>
    obtain rfl := List.length_eq_zero_iff.mp length.symm
    simp
  | cons x as ih =>
    cases b with
    | nil => simp at length
    | cons y bs =>
      have rest : as.length = bs.length := Nat.succ.inj length
      have small : toNat bs < 256 ^ as.length := rest ▸ toNat_lt bs
      rw [List.cons_lt_cons_iff, ih rest, toNat_cons, toNat_cons, ← rest,
        mul_add_lt_mul_add_iff (toNat_lt as) small, UInt8.lt_iff_toNat_lt, UInt8.toNat_inj]

/-- Equally long byte strings that write the same number are the same. -/
theorem eq_of_toNat_eq {a b : Bytes} (length : a.length = b.length) (same : a.toNat = b.toNat) :
    a = b := by
  rcases lt_trichotomy a b with less | equal | greater
  · exact absurd same ((lt_iff_toNat_lt length).mp less).ne
  · exact equal
  · exact absurd same ((lt_iff_toNat_lt length.symm).mp greater).ne'

/-- **Bytes are written back as they were read.** -/
theorem ofNat_toNat {bytes : Bytes} {width : Nat} (length : bytes.length = width) :
    ofNat width bytes.toNat = bytes := by
  apply eq_of_toNat_eq ((length_ofNat _ _).trans length.symm)
  rw [toNat_ofNat, Nat.mod_eq_of_lt (length ▸ toNat_lt bytes)]

end Bytes

end RadixLog
