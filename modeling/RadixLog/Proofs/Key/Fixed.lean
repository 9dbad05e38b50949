/-
**Keys of fixed width.**

Numbers and entry identifiers are written as byte strings of a width that goes with their type. Every
byte string of that width is the form of exactly one key, forms stand in the order of the keys, and
any other byte string is refused with its length.

* `FixedForm`: what this means of writing and reading;
* `FixedForm.of_onto`: what suffices for it;
* `FixedForm.carried`: from keys to other keys that stand for them;
* `KeyType.integer_keys_isomorphic`, `KeyType.float_keys_isomorphic`: numbers;
* `EntryId.identifiers_isomorphic`: entry identifiers.
-/

import RadixLog.Proofs.Encoded
import RadixLog.Proofs.EntryId.Order
import RadixLog.Proofs.Key.Words

namespace RadixLog

/-! ### Forms of fixed width -/

/-- **Forms of fixed width**: writing keys and reading them back is an isomorphism between the keys in
their order and the byte strings of one width in theirs. -/
structure FixedForm {κ : Type} (cmp : κ → κ → Ordering) (encode : κ → Bytes)
    (decode : Bytes → Except Error κ) (width : Nat) (refusal : (length : Nat) → Error) : Prop where
  /-- Forms compare as keys do. -/
  codes : Codes encode cmp
  /-- A key is read back from its form. -/
  reads : ∀ key, decode (encode key) = .ok key
  /-- The byte strings that can be read are those of the width. -/
  accepts : ∀ bytes, (∃ key, decode bytes = .ok key) ↔ bytes.length = width
  /-- What is read from a byte string has it as its form. -/
  writes : ∀ bytes key, decode bytes = .ok key → encode key = bytes
  /-- All others are refused with their length. -/
  refuses : ∀ bytes, bytes.length ≠ width → decode bytes = .error (refusal bytes.length)

namespace FixedForm

variable {κ ι : Type} {cmp : κ → κ → Ordering} {order : ι → ι → Ordering} {encode : κ → Bytes}
  {decode : Bytes → Except Error κ} {width : Nat} {refusal : Nat → Error}

/-- Forms are of fixed width if they can be read back, every byte string of the width is one, and all
others are refused. -/
theorem of_onto (codes : Codes encode cmp) (reads : ∀ key, decode (encode key) = .ok key)
    (onto : ∀ bytes : Bytes, bytes.length = width → ∃ key, encode key = bytes)
    (refuses : ∀ bytes, bytes.length ≠ width → decode bytes = .error (refusal bytes.length)) :
    FixedForm cmp encode decode width refusal := by
  have fits (bytes : Bytes) (key : κ) (read : decode bytes = .ok key) : bytes.length = width := by
    by_contra other
    cases read.symm.trans (refuses bytes other)
  refine ⟨codes, reads, fun bytes => ⟨fun ⟨key, read⟩ => fits bytes key read, fun length => ?_⟩,
    fun bytes key read => ?_, refuses⟩
  · obtain ⟨key, rfl⟩ := onto bytes length
    exact ⟨key, reads key⟩
  · obtain ⟨other, rfl⟩ := onto bytes (fits bytes key read)
    rw [Except.ok.inj (read.symm.trans (reads other))]

/-- Every byte string of the width is the form of a key. -/
theorem onto (form : FixedForm cmp encode decode width refusal) {bytes : Bytes}
    (length : bytes.length = width) : ∃ key, encode key = bytes := by
  obtain ⟨key, read⟩ := (form.accepts bytes).mpr length
  exact ⟨key, form.writes bytes key read⟩

/-- **Keys that stand for other keys one by one, in their order, can take over their forms.** -/
theorem carried (form : FixedForm cmp encode decode width refusal) {there : ι → κ} {back : κ → ι}
    (back_there : ∀ key, back (there key) = key) (there_back : ∀ key, there (back key) = key)
    (keeps : ∀ a b, cmp (there a) (there b) = order a b) :
    FixedForm order (fun key => encode (there key)) (fun bytes => (decode bytes).map back) width
      refusal := by
  refine of_onto (fun a b => (form.codes _ _).trans (keeps a b)) (fun key => ?_)
    (fun bytes length => ?_) (fun bytes other => ?_)
  · rw [form.reads]
    exact congrArg Except.ok (back_there key)
  · obtain ⟨key, same⟩ := form.onto length
    exact ⟨back key, (congrArg encode (there_back key)).trans same⟩
  · rw [form.refuses bytes other]
    rfl

end FixedForm

/-! ### Numbers -/

namespace KeyType

/-- Unsigned numbers are their words. -/
theorem unsigned_form (width : Nat) :
    FixedForm (fun a b : BitVec (8 * width) => compare a.toNat b.toNat) (encode (.unsigned width))
      (decode (.unsigned width)) width (.keyLength width) :=
  .of_onto order_encodeWord decodeWord_encodeWord (fun _ length => ⟨_, encodeWord_ofNat length⟩)
    fun _ other => if_neg other

/-- Signed numbers have words with the sign bit flipped. -/
theorem signed_form (width : Nat) :
    FixedForm (fun a b : BitVec (8 * width) => compare a.toInt b.toInt) (encode (.signed width))
      (decode (.signed width)) width (.keyLength width) :=
  (unsigned_form width).carried flipSign_flipSign flipSign_flipSign compare_flipSign

/-- Floating-point numbers have their places in the total order as words. -/
theorem float_form (width : Nat) :
    FixedForm totalOrder (encode (.float width)) (decode (.float width)) width
      (.keyLength width) :=
  (unsigned_form width).carried unrankFloat_rankFloat rankFloat_unrankFloat fun a b =>
    (compare_rankFloat a b).trans (compare_floatRank a b)

/-- **Integer keys are isomorphic to byte strings.** At every width, unsigned and signed numbers are
read back from their forms, which compare byte by byte exactly as the numbers do; the byte strings of
that width are the forms, and reading any other says how long it is and how long it should be. -/
theorem integer_keys_isomorphic (width : Nat) :
    FixedForm (fun a b : BitVec (8 * width) => compare a.toNat b.toNat) (encode (.unsigned width))
        (decode (.unsigned width)) width (.keyLength width) ∧
      FixedForm (fun a b : BitVec (8 * width) => compare a.toInt b.toInt) (encode (.signed width))
        (decode (.signed width)) width (.keyLength width) :=
  ⟨unsigned_form width, signed_form width⟩

/-- The least signed number comes first and minus one right before zero. -/
example : encode (.signed 2) (-32768#16) = [0, 0] ∧ encode (.signed 2) (-1#16) = [0x7f, 0xff] ∧
    encode (.signed 2) 0#16 = [0x80, 0] := by decide

/-- **Floating-point keys are isomorphic to byte strings** in the total order of their bit patterns,
which tells every two patterns apart: infinities, subnormal numbers, and numbers that are none,
whatever they carry. Minus zero comes before zero. -/
theorem float_keys_isomorphic (width : Nat) :
    FixedForm totalOrder (encode (.float width)) (decode (.float width)) width
        (.keyLength width) ∧
      (0 < width → Bytes.order (encode (.float width) (BitVec.intMin (8 * width)))
        (encode (.float width) (0#(8 * width))) = .lt) := by
  refine ⟨float_form width, fun pos => ?_⟩
  have sized : 0 < 8 * width := by omega
  rw [(float_form width).codes, totalOrder, BitVec.msb_intMin, BitVec.msb_zero,
    decide_eq_true sized]

/-- The two zeros of eight bytes, and a quiet number that is none, with what it carries. -/
theorem zeros_told_apart :
    Bytes.order (encode (.float 8) 0x8000000000000000#64) (encode (.float 8) 0#64) = .lt ∧
      decode (.float 8) (encode (.float 8) 0xfff8000000000abc#64) = .ok 0xfff8000000000abc#64 :=
  ⟨(float_keys_isomorphic 8).2 (by decide), (float_keys_isomorphic 8).1.reads _⟩

end KeyType

/-! ### Entry identifiers -/

namespace EntryId

theorem decode_encode (id : EntryId) : decode id.encode = .ok id := by
  rw [decode, decode?_encode]

/-- Entry identifiers have two words one after the other. -/
theorem fixed_form : FixedForm order encode decode encodedLength .malformedId :=
  .of_onto order_encode decode_encode (fun _ length => exists_encode length) fun bytes other => by
    rw [decode, decode?, if_neg other]

/-- **Entry identifiers are isomorphic to byte strings** of length sixteen. They are read back from
their forms, which compare byte by byte as the identifiers do, by their times and then by their
sequence numbers; every byte string of that length is a form, and any other is refused with its
length. -/
theorem identifiers_isomorphic :
    FixedForm order encode decode 16 .malformedId ∧
      order = compareLex (compareOn ms) (compareOn seq) :=
  ⟨fixed_form, order_eq_compareLex⟩

end EntryId

end RadixLog
