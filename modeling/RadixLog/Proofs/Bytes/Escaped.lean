/-
**Printable bytes can be read back.**

A byte is shown as itself, as a letter after a backslash, or as two hexadecimal digits after one and
an `x`. What stands for itself is no backslash and no quote, and no letter is an `x`, so the byte is
known from what it is shown as, whatever follows, and a byte string ends at the first quote that is
not shown for a byte.

* `Bytes.Escapes`: what a byte is shown as, by its three forms;
* `Bytes.Escapes.append_inj`: no form is the beginning of another one;
* `Bytes.escaped_quote_inj`: the bytes between quotes, from the text after the first quote.
-/

import Mathlib.Tactic.Common
import RadixLog.Proofs.Text.Utf8

namespace RadixLog.Bytes

/-! ### What a byte is shown as -/

/-- The bytes that are shown as a letter, or a sign, after a backslash. -/
def letters : List (UInt8 × Char) :=
  [(0x09, 't'), (0x0a, 'n'), (0x0d, 'r'), (0x22, '"'), (0x27, '\x27'), (0x5c, '\\')]

/-- **What a byte is shown as.** -/
inductive Escapes : UInt8 → List Char → Prop where
  /-- Printable ASCII besides quotes and the backslash. -/
  | plain {code : Nat} (printable : 0x20 ≤ code ∧ code < 0x7f)
    (bare : code ≠ 0x22 ∧ code ≠ 0x27 ∧ code ≠ 0x5c) : Escapes (UInt8.ofNat code) [Char.ofNat code]
  | letter {byte : UInt8} {letter : Char} (listed : (byte, letter) ∈ letters) :
    Escapes byte ['\\', letter]
  | digits {high low : Nat} (first : high < 16) (second : low < 16) :
    Escapes (UInt8.ofNat (16 * high + low)) ['\\', 'x', Nat.digitChar high, Nat.digitChar low]

/-- **Every byte is shown in one of these forms.** -/
theorem escapes (byte : UInt8) : Escapes byte (escapeByte byte) := by
  unfold escapeByte
  split_ifs with tab newline carriage quote single backslash printable
  · exact .letter (by rw [tab]; decide)
  · exact .letter (by rw [newline]; decide)
  · exact .letter (by rw [carriage]; decide)
  · exact .letter (by rw [quote]; decide)
  · exact .letter (by rw [single]; decide)
  · exact .letter (by rw [backslash]; decide)
  · have bare : ∀ code : UInt8, byte ≠ code → byte.toNat ≠ code.toNat :=
      fun code different same => different (UInt8.toNat_inj.mp same)
    have form : Escapes (UInt8.ofNat byte.toNat) [Char.ofNat byte.toNat] :=
      .plain printable ⟨bare 0x22 quote, bare 0x27 single, bare 0x5c backslash⟩
    rwa [UInt8.ofNat_toNat] at form
  · have below : byte.toNat < 256 := byte.toNat_lt
    have form : Escapes (UInt8.ofNat (16 * (byte.toNat / 16) + byte.toNat % 16))
        ('\\' :: 'x' :: hexDigits byte) := .digits (by omega) (by omega)
    rwa [Nat.div_add_mod, UInt8.ofNat_toNat] at form

/-! ### Reading it back -/

theorem letters_inj : ∀ a ∈ letters, ∀ b ∈ letters, a.2 = b.2 → a.1 = b.1 := by decide

theorem letters_ne : ∀ a ∈ letters, a.2 ≠ 'x' := by decide

theorem digitChar_inj : ∀ a < 16, ∀ b < 16, Nat.digitChar a = Nat.digitChar b → a = b := by decide

namespace Escapes

variable {byte other : UInt8} {shown shown' rest rest' : List Char} {code : Nat}

/-- What stands for itself is told by its code. -/
theorem toNat_plain (printable : 0x20 ≤ code ∧ code < 0x7f) : (Char.ofNat code).toNat = code :=
  Utf8.toNat_ofNat (.inl (by omega))

theorem plain_ne (printable : 0x20 ≤ code ∧ code < 0x7f) {char : Char}
    (different : code ≠ char.toNat) : Char.ofNat code ≠ char := by
  rintro rfl
  exact different (toNat_plain printable).symm

theorem plain_ne_backslash (printable : 0x20 ≤ code ∧ code < 0x7f) (bare : code ≠ 0x5c) :
    Char.ofNat code ≠ '\\' :=
  plain_ne printable bare

/-- **No quote begins what a byte is shown as.** -/
theorem ne_quote (escapes : Escapes byte shown) : shown ++ rest ≠ '"' :: rest' := by
  intro same
  cases escapes with
  | plain printable bare =>
    have different : Char.ofNat _ ≠ '"' := plain_ne printable bare.1
    exact different (List.cons.inj same).1
  | letter _ => exact absurd (List.cons.inj same).1 (by decide)
  | digits _ _ => exact absurd (List.cons.inj same).1 (by decide)

/-- **A byte is known from what it is shown as**, whatever follows. -/
theorem append_inj (escapes : Escapes byte shown) (escapes' : Escapes other shown')
    (same : shown ++ rest = shown' ++ rest') : byte = other ∧ rest = rest' := by
  cases escapes with
  | plain printable bare =>
    cases escapes' with
    | plain printable' _ =>
      obtain ⟨first, after⟩ := List.cons.inj same
      rw [← toNat_plain printable, first, toNat_plain printable']
      exact ⟨rfl, after⟩
    | letter _ => exact absurd (List.cons.inj same).1 (plain_ne_backslash printable bare.2.2)
    | digits _ _ => exact absurd (List.cons.inj same).1 (plain_ne_backslash printable bare.2.2)
  | letter listed =>
    cases escapes' with
    | plain printable bare =>
      exact absurd (List.cons.inj same).1.symm (plain_ne_backslash printable bare.2.2)
    | letter listed' =>
      simp only [List.cons_append, List.nil_append, List.cons.injEq, true_and] at same
      exact ⟨letters_inj _ listed _ listed' same.1, same.2⟩
    | digits _ _ =>
      simp only [List.cons_append, List.nil_append, List.cons.injEq, true_and] at same
      exact absurd same.1 (letters_ne _ listed)
  | digits high low =>
    cases escapes' with
    | plain printable bare =>
      exact absurd (List.cons.inj same).1.symm (plain_ne_backslash printable bare.2.2)
    | letter listed =>
      simp only [List.cons_append, List.nil_append, List.cons.injEq, true_and] at same
      exact absurd same.1.symm (letters_ne _ listed)
    | digits high' low' =>
      simp only [List.cons_append, List.nil_append, List.cons.injEq, true_and] at same
      obtain ⟨first, second, after⟩ := same
      rw [digitChar_inj _ high _ high' first, digitChar_inj _ low _ low' second]
      exact ⟨rfl, after⟩

end Escapes

/-- **The bytes between quotes are known from the text after the first quote.** -/
theorem escaped_quote_inj {bytes other : Bytes} {rest rest' : List Char}
    (same : escaped bytes ++ '"' :: rest = escaped other ++ '"' :: rest') :
    bytes = other ∧ rest = rest' := by
  induction bytes generalizing other with
  | nil =>
    cases other with
    | nil => exact ⟨rfl, (List.cons.inj same).2⟩
    | cons byte other =>
      rw [escaped, escaped, List.flatMap_cons, List.append_assoc] at same
      exact absurd same.symm (escapes byte).ne_quote
  | cons byte bytes ih =>
    rw [escaped, List.flatMap_cons, List.append_assoc] at same
    cases other with
    | nil => exact absurd same (escapes byte).ne_quote
    | cons byte' other =>
      rw [escaped, List.flatMap_cons, List.append_assoc] at same
      obtain ⟨first, same⟩ := (escapes byte).append_inj (escapes byte') same
      obtain ⟨later, after⟩ := ih same
      exact ⟨congrArg₂ List.cons first later, after⟩

end RadixLog.Bytes
