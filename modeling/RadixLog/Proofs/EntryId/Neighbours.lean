/-
**Identifiers one after another.**

Counting every millisecond as 2⁶⁴ identifiers, each identifier has a place among all of them. Going
to a neighbour is going up or down by one place, so nothing lies between.

* `EntryId.place`, `EntryId.lt_iff_place`: places stand in the order of the identifiers;
* `EntryId.place_succ?`, `EntryId.place_pred?`: the neighbours are one place on and one place back;
* `EntryId.succ?_eq_none_iff`, `EntryId.succ?_eq_some_iff`: the neighbour above is the least
  identifier above, and only the greatest has none;
* `EntryId.pred?_eq_none_iff`, `EntryId.pred?_eq_some_iff`: the same below;
* `EntryId.succ?_eq_some_iff_covBy`, `EntryId.pred?_eq_some_iff_covBy`: each neighbour leads back.
-/

import RadixLog.Proofs.EntryId.Order
import Mathlib.Order.Bounds.Basic
import Mathlib.Order.Cover

namespace RadixLog.EntryId

variable {a b : EntryId}

/-! ### Places -/

/-- The place of an identifier among all of them, with 2⁶⁴ to the millisecond. -/
def place (id : EntryId) : Nat := id.ms.toNat * 2 ^ 64 + id.seq.toNat

theorem lt_iff_place : a < b ↔ a.place < b.place := by
  rw [← encode_lt_encode, Bytes.lt_iff_toNat_lt (by simp), toNat_encode, toNat_encode, place, place]
  norm_num

theorem le_iff_place : a ≤ b ↔ a.place ≤ b.place := by
  rw [← not_lt, lt_iff_place, not_lt]

/-! ### The neighbour above -/

/-- **The neighbour above is one place on.** -/
theorem place_succ? (above : a.succ? = some b) : b.place = a.place + 1 := by
  unfold succ? at above
  split_ifs at above with room later
  · obtain rfl := Option.some.inj above
    show a.ms.toNat * 2 ^ 64 + (a.seq + 1).toNat = a.ms.toNat * 2 ^ 64 + a.seq.toNat + 1
    rw [toNat_add_one room, Nat.add_assoc]
  · -- The sequence starts over, and the millisecond before is counted in full.
    have used : a.seq.toNat = 2 ^ 64 - 1 := not_not.mp (mt lt_partMax_iff.mpr room)
    obtain rfl := Option.some.inj above
    show (a.ms + 1).toNat * 2 ^ 64 + (0 : UInt64).toNat = a.ms.toNat * 2 ^ 64 + a.seq.toNat + 1
    rw [toNat_add_one later, used, show (0 : UInt64).toNat = 0 from rfl]
    omega

theorem le_greatest (id : EntryId) : id ≤ greatest := by
  have ms : id.ms.toNat < 2 ^ 64 := id.ms.toNat_lt
  have seq : id.seq.toNat < 2 ^ 64 := id.seq.toNat_lt
  rw [le_iff_place, place, show greatest.place = 2 ^ 128 - 1 from rfl]
  omega

/-- **Only the greatest identifier has none above it.** -/
theorem succ?_eq_none_iff : a.succ? = none ↔ a = greatest := by
  constructor
  · intro last
    unfold succ? at last
    split_ifs at last with room later
    exact congrArg₂ EntryId.mk (not_lt_partMax_iff.mp later) (not_lt_partMax_iff.mp room)
  · rintro rfl
    rfl

/-- **The neighbour above is the least identifier above.** -/
theorem isLeast_succ? (above : a.succ? = some b) : IsLeast (Set.Ioi a) b := by
  have next : b.place = a.place + 1 := place_succ? above
  constructor
  · exact lt_iff_place.mpr (by omega)
  · intro c later
    have later : a.place < c.place := lt_iff_place.mp later
    exact le_iff_place.mpr (by omega)

theorem succ?_eq_some_iff : a.succ? = some b ↔ IsLeast (Set.Ioi a) b := by
  refine ⟨isLeast_succ?, fun least => ?_⟩
  cases above : a.succ? with
  | some c => rw [(isLeast_succ? above).unique least]
  | none =>
    have greatest : a = greatest := succ?_eq_none_iff.mp above
    exact absurd least.1 (not_lt_of_ge (greatest ▸ le_greatest b))

/-- The last identifier of a millisecond is followed by the first of the next. -/
example : succ? ⟨7, partMax⟩ = some ⟨8, 0⟩ := by decide

/-! ### The neighbour below -/

/-- **The neighbour below is one place back.** -/
theorem place_pred? (below : a.pred? = some b) : b.place + 1 = a.place := by
  unfold pred? at below
  split_ifs at below with later earlier
  · obtain rfl := Option.some.inj below
    show a.ms.toNat * 2 ^ 64 + (a.seq - 1).toNat + 1 = a.ms.toNat * 2 ^ 64 + a.seq.toNat
    rw [Nat.add_assoc, toNat_sub_one later]
  · -- The millisecond before is used up to its last sequence number.
    have first : a.seq.toNat = 0 := not_pos_iff.mp later
    have before : (a.ms - 1).toNat + 1 = a.ms.toNat := toNat_sub_one earlier
    obtain rfl := Option.some.inj below
    show (a.ms - 1).toNat * 2 ^ 64 + (2 ^ 64 - 1) + 1 = a.ms.toNat * 2 ^ 64 + a.seq.toNat
    rw [first, ← before]
    omega

/-- **Only the least identifier has none below it.** -/
theorem pred?_eq_none_iff : a.pred? = none ↔ a = least := by
  constructor
  · intro first
    unfold pred? at first
    split_ifs at first with later earlier
    have ms : a.ms = 0 := UInt64.toNat_inj.mp (not_pos_iff.mp earlier)
    have seq : a.seq = 0 := UInt64.toNat_inj.mp (not_pos_iff.mp later)
    exact congrArg₂ EntryId.mk ms seq
  · rintro rfl
    rfl

/-! ### There and back -/

/-- Between identifiers one place apart there is none. -/
theorem covBy_of_place (next : b.place = a.place + 1) : a ⋖ b := by
  refine ⟨lt_iff_place.mpr (by omega), fun c later earlier => ?_⟩
  rw [lt_iff_place] at later earlier
  omega

/-- **The neighbour above comes right after.** -/
theorem succ?_eq_some_iff_covBy : a.succ? = some b ↔ a ⋖ b := by
  refine ⟨fun above => covBy_of_place (place_succ? above), fun covers => ?_⟩
  cases above : a.succ? with
  | some c => rw [(covBy_of_place (place_succ? above)).unique_right covers]
  | none =>
    have greatest : a = greatest := succ?_eq_none_iff.mp above
    exact absurd covers.lt (not_lt_of_ge (greatest ▸ le_greatest b))

/-- **The neighbour below comes right before.** -/
theorem pred?_eq_some_iff_covBy : b.pred? = some a ↔ a ⋖ b := by
  refine ⟨fun below => covBy_of_place (place_pred? below).symm, fun covers => ?_⟩
  cases below : b.pred? with
  | some c => rw [(covBy_of_place (place_pred? below).symm).unique_left covers]
  | none =>
    have least : b = least := pred?_eq_none_iff.mp below
    exact absurd covers.lt (not_lt_of_ge (least ▸ least_le a))

/-- **The neighbour below is the greatest identifier below.** -/
theorem isGreatest_pred? (below : a.pred? = some b) : IsGreatest (Set.Iio a) b := by
  have covers : b ⋖ a := pred?_eq_some_iff_covBy.mp below
  exact ⟨covers.lt, fun c earlier => covers.le_of_lt earlier⟩

theorem pred?_eq_some_iff : a.pred? = some b ↔ IsGreatest (Set.Iio a) b := by
  refine ⟨isGreatest_pred?, fun greatest => pred?_eq_some_iff_covBy.mpr ⟨greatest.1, ?_⟩⟩
  exact fun c later earlier => not_lt_of_ge (greatest.2 earlier) later

end RadixLog.EntryId
