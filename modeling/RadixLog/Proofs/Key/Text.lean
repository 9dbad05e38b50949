/-
**Text keys are UTF-8, exactly.**

A text key is written as the forms of its code points, so text keys stand in the order of their code
points, and the keys that can be read are those whose bytes are a sequence of forms. A form stands
for one code point and a code point has one form: what is overlong, writes a surrogate, goes above
the last code point or is cut off is refused.

* `KeyType.decode_text_eq_ok_iff`, `KeyType.decode_text_eq_error_iff`: what is read as a text key,
  and what is refused;
* `KeyType.text_keys_are_utf8`: the order and both directions together.
-/

import RadixLog.Proofs.Key.Order

namespace RadixLog.KeyType

/-- The code points of a text. -/
def codePoints (text : String) : List Nat := text.toList.map Char.toNat

variable {bytes : Bytes} {text : String}

theorem order_text_eq_lt (a b : String) :
    Bytes.order (encode .text a) (encode .text b) = .lt ↔ codePoints a < codePoints b := by
  rw [codes .text a b]
  exact Utf8.order_eq_lt

/-- **A text key is read exactly from the forms of its code points.** -/
theorem decode_text_eq_ok_iff :
    decode .text bytes = .ok text ↔ Utf8.Writes (codePoints text) bytes := by
  constructor
  · intro read
    cases found : Utf8.decode bytes with
    | ok chars =>
      rw [decode, found] at read
      have same : String.ofList chars = text := Except.ok.inj read
      rw [codePoints, ← same, String.toList_ofList]
      exact Utf8.decode_eq_ok_iff.mp found
    | error flaw =>
      rw [decode, found] at read
      cases read
  · intro writes
    have found : Utf8.decode bytes = .ok text.toList := Utf8.decode_eq_ok_iff.mpr writes
    rw [decode, found]
    exact congrArg Except.ok String.ofList_toList

theorem exists_decode_text_iff :
    (∃ text, decode .text bytes = .ok text) ↔ Utf8.WellFormed bytes := by
  constructor
  · rintro ⟨text, read⟩
    exact (decode_text_eq_ok_iff.mp read).wellFormed
  · rintro ⟨codes, -, writes⟩
    refine ⟨String.ofList (codes.map Char.ofNat), ?_⟩
    rw [decode, writes.decode]

/-- **A text key is refused exactly when its bytes are not well formed.** -/
theorem decode_text_eq_error_iff :
    (∃ flaw, decode .text bytes = .error (.notUtf8 flaw)) ↔ ¬ Utf8.WellFormed bytes := by
  rw [← Utf8.exists_decode_iff]
  cases found : Utf8.decode bytes with
  | ok chars =>
    rw [decode, found]
    refine iff_of_false ?_ fun refused => refused ⟨chars, rfl⟩
    rintro ⟨flaw, refused⟩
    cases refused
  | error flaw =>
    rw [decode, found]
    refine iff_of_true ⟨flaw, rfl⟩ ?_
    rintro ⟨chars, read⟩
    cases read

/-- **Text keys stand in the order of their code points, are read back, and are read from nothing but
well-formed UTF-8**, of which reading loses nothing; everything else is refused for its flaw. -/
theorem text_keys_are_utf8 :
    (∀ a b : String,
      Bytes.order (encode .text a) (encode .text b) = .lt ↔ codePoints a < codePoints b) ∧
    (∀ text : String, decode .text (encode .text text) = .ok text) ∧
    ∀ bytes : Bytes,
      ((∃ text, decode .text bytes = .ok text) ↔ Utf8.WellFormed bytes) ∧
      (∀ text, decode .text bytes = .ok text → Utf8.Writes (codePoints text) bytes ∧
        encode .text text = bytes) ∧
      ((∃ flaw, decode .text bytes = .error (.notUtf8 flaw)) ↔ ¬ Utf8.WellFormed bytes) := by
  refine ⟨order_text_eq_lt, decode_encode .text, fun bytes => ⟨exists_decode_text_iff, ?_,
    decode_text_eq_error_iff⟩⟩
  intro text read
  have writes := decode_text_eq_ok_iff.mp read
  exact ⟨writes, (Utf8.writes_encode text.toList).unique writes⟩

/-- A letter with an accent is read, and not its first byte alone, its code point in three bytes, half
of a surrogate pair, or what would be above the last code point. -/
theorem accented_text_key :
    encode .text "hé" = [0x68, 0xc3, 0xa9] ∧ ¬ Utf8.WellFormed [0x68, 0xc3] ∧
      ¬ Utf8.WellFormed [0x68, 0xe0, 0x83, 0xa9] ∧ ¬ Utf8.WellFormed [0xed, 0xa0, 0x80] ∧
      ¬ Utf8.WellFormed [0xf4, 0x90, 0x80, 0x80] := by
  have read (bytes : Bytes) := text_keys_are_utf8.2.2 bytes
  refine ⟨((read [0x68, 0xc3, 0xa9]).2.1 "hé" rfl).2, ?_, ?_, ?_, ?_⟩
  · exact (read _).2.2.mp ⟨.incomplete 1, rfl⟩
  · exact (read _).2.2.mp ⟨.invalid 1 1, rfl⟩
  · exact (read _).2.2.mp ⟨.invalid 1 0, rfl⟩
  · exact (read _).2.2.mp ⟨.invalid 1 0, rfl⟩

end RadixLog.KeyType
