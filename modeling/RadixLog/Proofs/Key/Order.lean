/-
**The order of typed keys.**

Each type of keys has an order of its own, and the forms of its keys stand in the same order and can
be read back. So a typed key may stand for its form, and a form for its key.

* `KeyType.order`: the order of a type, said of the keys alone;
* `KeyType.codes`: forms compare as keys do;
* `KeyType.decode_encode`: a key is read back from its form.
-/

import RadixLog.Proofs.Key.Fixed
import RadixLog.Proofs.Text.Utf8

namespace RadixLog.KeyType

/-- **The order of a type of keys**: that of the numbers for numbers, the total order of bit patterns
for floating-point numbers, lexicographic by code points for texts. -/
def order (type : KeyType) : type.Value → type.Value → Ordering :=
  match type with
  | .unsigned width => fun (a b : BitVec (8 * width)) => compare a.toNat b.toNat
  | .signed width => fun (a b : BitVec (8 * width)) => compare a.toInt b.toInt
  | .float width => fun (a b : BitVec (8 * width)) => compare (floatRank a) (floatRank b)
  | .bytes => Bytes.order
  | .text => fun (a b : String) => Utf8.order a.toList b.toList
  | .entryId => EntryId.order

/-- **Forms compare as keys do.** -/
theorem codes (type : KeyType) : Codes type.encode type.order := by
  cases type with
  | unsigned width => exact (unsigned_form width).codes
  | signed width => exact (signed_form width).codes
  | float width =>
    intro a b
    exact (order_encodeWord _ _).trans (compare_rankFloat a b)
  | bytes =>
    intro a b
    rfl
  | text =>
    intro a b
    exact Utf8.order_encode a.toList b.toList
  | entryId => exact EntryId.order_encode

/-- **A key is read back from its form.** -/
theorem decode_encode (type : KeyType) (key : type.Value) :
    type.decode (type.encode key) = .ok key := by
  cases type with
  | unsigned width => exact (unsigned_form width).reads key
  | signed width => exact (signed_form width).reads key
  | float width => exact (float_form width).reads key
  | bytes => rfl
  | text =>
    have written (text : String) : decode .text (Utf8.encode text.toList) = .ok text := by
      rw [decode, Utf8.decode_encode]
      exact congrArg Except.ok String.ofList_toList
    exact written key
  | entryId => exact EntryId.decode_encode key

theorem encode_injective (type : KeyType) : Function.Injective type.encode := by
  intro a b same
  have read := type.decode_encode a
  rw [same, type.decode_encode b] at read
  exact (Except.ok.inj read).symm

instance (type : KeyType) : Std.TransCmp type.order := type.codes.transCmp

instance (type : KeyType) : Std.LawfulEqCmp type.order :=
  type.codes.lawfulEqCmp type.encode_injective

/-- Minus zero comes before zero. -/
example : KeyType.order (.float 4) 0x80000000#32 0#32 = .lt := by decide

end RadixLog.KeyType
