/-
**The order of entry identifiers.**

Identifiers are ordered by time and then by sequence number. Their form as a key writes both as the
digits of one number, so that the encoded identifiers stand as the identifiers do.

* `EntryId.lt_iff`: the order, digit by digit;
* `EntryId.encode_lt_encode`, `EntryId.order_encode`: the form as a key keeps the order;
* `EntryId.decode?_encode`, `EntryId.exists_encode`: forms are read back, and every byte string of the
  length is one;
* `EntryId.lt_following`: what is given out next is above what was given out last.
-/

import RadixLog.EntryId
import RadixLog.Proofs.Bytes.BigEndian

namespace RadixLog.EntryId

variable {a b id last : EntryId}

/-! ### The comparison -/

/-- **Earlier time first, then lower sequence number.** -/
theorem lt_iff : a < b ↔ a.ms < b.ms ∨ a.ms = b.ms ∧ a.seq < b.seq := by
  show order a b = .lt ↔ _
  rw [order]
  grind

theorem order_swap (a b : EntryId) : (order a b).swap = order b a := by
  rw [order, order]
  grind [Ordering.swap]

theorem order_eq_eq : order a b = .eq ↔ a = b := by
  rw [order]
  grind [EntryId]

/-- The order is lexicographic on the two parts. -/
theorem order_eq_compareLex : order = compareLex (compareOn ms) (compareOn seq) := by
  funext a b
  simp only [order, compareLex, compareOn, compare, compareOfLessAndEq]
  grind [Ordering.then]

/-! ### The form as a key -/

@[simp]
theorem length_encode (id : EntryId) : id.encode.length = encodedLength := by
  rw [encode, List.length_append, Bytes.length_ofNat, Bytes.length_ofNat]
  rfl

/-- The form as a key writes the time and the sequence number as two digits. -/
theorem toNat_encode (id : EntryId) :
    id.encode.toNat = id.ms.toNat * 256 ^ 8 + id.seq.toNat := by
  have ms : id.ms.toNat < 256 ^ 8 := id.ms.toNat_lt
  have seq : id.seq.toNat < 256 ^ 8 := id.seq.toNat_lt
  rw [encode, Bytes.toNat_append, Bytes.toNat_ofNat, Bytes.toNat_ofNat, Bytes.length_ofNat,
    Nat.mod_eq_of_lt ms, Nat.mod_eq_of_lt seq]

/-- **Encoding keeps the order.** -/
theorem encode_lt_encode : a.encode < b.encode ↔ a < b := by
  have seq : a.seq.toNat < 256 ^ 8 := a.seq.toNat_lt
  have seq' : b.seq.toNat < 256 ^ 8 := b.seq.toNat_lt
  rw [Bytes.lt_iff_toNat_lt (by simp), toNat_encode, toNat_encode, mul_add_lt_mul_add_iff seq seq',
    lt_iff, UInt64.lt_iff_toNat_lt, UInt64.lt_iff_toNat_lt, UInt64.toNat_inj]

/-- **Decoding reads what encoding wrote.** -/
theorem decode?_encode (id : EntryId) : decode? id.encode = some id := by
  have ms : id.ms.toNat < 256 ^ 8 := id.ms.toNat_lt
  have seq : id.seq.toNat < 256 ^ 8 := id.seq.toNat_lt
  have length : (Bytes.ofNat 8 id.ms.toNat).length = 8 := Bytes.length_ofNat _ _
  rw [decode?, if_pos id.length_encode, encode, List.take_left' length, List.drop_left' length,
    Bytes.toNat_ofNat, Bytes.toNat_ofNat, Nat.mod_eq_of_lt ms, Nat.mod_eq_of_lt seq,
    UInt64.ofNat_toNat, UInt64.ofNat_toNat]

/-- Eight bytes are written back as they were read. -/
theorem ofNat_half {half : Bytes} (length : half.length = 8) :
    Bytes.ofNat 8 (UInt64.ofNat half.toNat).toNat = half := by
  have small : half.toNat < 2 ^ 64 := by
    have bound : half.toNat < 256 ^ 8 := length ▸ Bytes.toNat_lt half
    exact bound
  rw [UInt64.toNat_ofNat', Nat.mod_eq_of_lt small, Bytes.ofNat_toNat length]

/-- **Every byte string of the length is the form of an identifier.** -/
theorem exists_encode {bytes : Bytes} (length : bytes.length = encodedLength) :
    ∃ id : EntryId, id.encode = bytes := by
  have first : (bytes.take 8).length = 8 := by
    rw [List.length_take, length]
    rfl
  have second : (bytes.drop 8).length = 8 := by
    rw [List.length_drop, length]
    rfl
  refine ⟨⟨UInt64.ofNat (Bytes.toNat (bytes.take 8)), UInt64.ofNat (Bytes.toNat (bytes.drop 8))⟩, ?_⟩
  rw [encode, ofNat_half first, ofNat_half second, List.take_append_drop]

theorem encode_injective : Function.Injective encode := by
  intro a b same
  have read := congrArg decode? same
  rwa [decode?_encode, decode?_encode, Option.some.injEq] at read

/-- **Comparing identifiers is comparing their forms as keys.** -/
theorem order_encode (a b : EntryId) : Bytes.order a.encode b.encode = order a b := by
  cases compared : order a b with
  | lt => exact Bytes.order_eq_lt.mpr (encode_lt_encode.mpr compared)
  | eq => exact Bytes.order_eq_eq.mpr (congrArg encode (order_eq_eq.mp compared))
  | gt =>
    refine Bytes.order_eq_gt.mpr (encode_lt_encode.mpr ?_)
    show order b a = .lt
    rw [← order_swap, compared]
    rfl

theorem encode_le_encode : a.encode ≤ b.encode ↔ a ≤ b := by
  show _ ↔ order a b ≠ .gt
  rw [← order_encode, ne_eq, Bytes.order_eq_gt, not_lt]

instance : Std.TransCmp order where
  eq_swap := (order_swap _ _).symm
  isLE_trans := by
    intro a b c first second
    rw [← order_encode] at first second ⊢
    exact Std.TransCmp.isLE_trans first second

instance : Std.LawfulEqCmp order where
  compare_self := order_eq_eq.mpr rfl
  eq_of_compare := order_eq_eq.mp

/-- **Identifiers are linearly ordered.** -/
instance : LinearOrder EntryId where
  le_refl _ := encode_le_encode.mp le_rfl
  le_trans _ _ _ first second :=
    encode_le_encode.mp (le_trans (encode_le_encode.mpr first) (encode_le_encode.mpr second))
  le_antisymm _ _ up down :=
    encode_injective (le_antisymm (encode_le_encode.mpr up) (encode_le_encode.mpr down))
  le_total a b := (le_total a.encode b.encode).imp encode_le_encode.mp encode_le_encode.mp
  lt_iff_le_not_ge a b := by
    rw [← encode_lt_encode, ← encode_le_encode, ← encode_le_encode, lt_iff_le_not_ge]
  toDecidableLE := inferInstance
  toDecidableEq := inferInstance
  toDecidableLT := inferInstance

/-! ### Numbers that run out -/

/-- Only the greatest number has no room above it. -/
theorem lt_partMax_iff {part : UInt64} : part < partMax ↔ part.toNat ≠ 2 ^ 64 - 1 := by
  have bound : part.toNat < 2 ^ 64 := part.toNat_lt
  have greatest : partMax.toNat = 2 ^ 64 - 1 := rfl
  rw [UInt64.lt_iff_toNat_lt, greatest]
  omega

theorem not_lt_partMax_iff {part : UInt64} : ¬ part < partMax ↔ part = partMax := by
  rw [lt_partMax_iff, not_not, ← UInt64.toNat_inj]
  rfl

/-- While there is room above a number, adding one does not start over. -/
theorem toNat_add_one {part : UInt64} (room : part < partMax) :
    (part + 1).toNat = part.toNat + 1 := by
  have room : part.toNat < 2 ^ 64 - 1 := UInt64.lt_iff_toNat_lt.mp room
  rw [UInt64.toNat_add, show (1 : UInt64).toNat = 1 from rfl, Nat.mod_eq_of_lt (by omega)]

/-- Only zero has nothing below it. -/
theorem not_pos_iff {part : UInt64} : ¬ 0 < part ↔ part.toNat = 0 := by
  rw [UInt64.lt_iff_toNat_lt, show (0 : UInt64).toNat = 0 from rfl, Nat.not_lt, Nat.le_zero]

/-- Above zero, taking one away does not start over. -/
theorem toNat_sub_one {part : UInt64} (later : 0 < part) : (part - 1).toNat + 1 = part.toNat := by
  have later : 0 < part.toNat := UInt64.lt_iff_toNat_lt.mp later
  have one : (1 : UInt64) ≤ part := UInt64.le_iff_toNat_le.mpr later
  rw [UInt64.toNat_sub_of_le _ _ one]
  exact Nat.sub_add_cancel later

/-! ### Giving identifiers out -/

theorem least_le (id : EntryId) : least ≤ id := by
  rw [← not_lt, lt_iff]
  simp [least]

theorem lt_add_one {part : UInt64} (room : part < partMax) : part < part + 1 := by
  rw [UInt64.lt_iff_toNat_lt, toNat_add_one room]
  exact Nat.lt_succ_self _

/-- **What is given out next is above what was given out last.** -/
theorem lt_following {now : UInt64} (next : following last now = some id) : last < id := by
  rw [following] at next
  rw [lt_iff]
  split_ifs at next with later room
  · exact .inl (Option.some.inj next ▸ later)
  · exact .inr (Option.some.inj next ▸ ⟨rfl, lt_add_one room⟩)

/-- While the clock is behind, sequence numbers go on. -/
example : following ⟨7, 3⟩ 5 = some ⟨7, 4⟩ := by decide

end RadixLog.EntryId
