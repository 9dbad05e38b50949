/-
**Texts and their bytes.**

UTF-8 writes a code point as a lead byte with its highest digits and up to three bytes with six bits
each. The lead bytes of longer forms are greater, and no form is the beginning of another one, so
texts and their bytes stand in the same order, and the bytes can be read back. What is read is a
sequence of forms, and a flaw stands where the last form ends.

* `Utf8.Form`, `Utf8.Writes`: the bytes of a code point, by its digits, and of several;
* `Utf8.WellFormed`: the bytes of some sequence of scalar values;
* `Utf8.order_encode`: texts compare by code points as their bytes do;
* `Utf8.decode_encode`: reading gives the text back;
* `Utf8.Reads`, `Utf8.reads`: what reading answers, by the forms that the bytes begin with;
* `Utf8.decode_eq_ok_iff`, `Utf8.exists_decode_iff`: exactly what is written is read;
* `Utf8.isGreatest_flaw`: a flaw is at the end of the longest beginning that can be read.
-/

import Mathlib.Tactic.Common
import RadixLog.Proofs.Bytes.Order
import RadixLog.Text.Utf8

namespace RadixLog.Utf8

/-! ### Forms -/

/-- **The bytes of a code point**, digit by digit. -/
inductive Form : Nat → Bytes → Prop where
  | one {a : Nat} (lead : a < 0x80) : Form a [UInt8.ofNat a]
  | two {a b : Nat} (lead : 2 ≤ a ∧ a < 0x20) (last : b < 64) :
    Form (a * 64 + b) [UInt8.ofNat (0xc0 + a), UInt8.ofNat (0x80 + b)]
  /-- Three digits that two do not suffice for, and no surrogate. -/
  | three {a b c : Nat} (lead : a < 0x10) (second : b < 64) (last : c < 64)
    (long : a = 0 → 0x20 ≤ b) (real : a = 0xd → b < 0x20) :
    Form ((a * 64 + b) * 64 + c)
      [UInt8.ofNat (0xe0 + a), UInt8.ofNat (0x80 + b), UInt8.ofNat (0x80 + c)]
  /-- Four digits that three do not suffice for, up to the last code point. -/
  | four {a b c d : Nat} (lead : a ≤ 4) (second : b < 64) (third : c < 64) (last : d < 64)
    (long : a = 0 → 0x10 ≤ b) (real : a = 4 → b < 0x10) :
    Form (((a * 64 + b) * 64 + c) * 64 + d) [UInt8.ofNat (0xf0 + a), UInt8.ofNat (0x80 + b),
      UInt8.ofNat (0x80 + c), UInt8.ofNat (0x80 + d)]

/-- **Every character is written in its form.** -/
theorem form (char : Char) : Form char.toNat (String.utf8EncodeChar char) := by
  have scalar : char.toNat < 0xd800 ∨ 0xdfff < char.toNat ∧ char.toNat < 0x110000 := char.valid
  show Form char.val.toNat (String.utf8EncodeChar char)
  replace scalar : char.val.toNat < 0xd800 ∨ 0xdfff < char.val.toNat ∧ char.val.toNat < 0x110000 :=
    scalar
  unfold String.utf8EncodeChar
  generalize char.val.toNat = code at scalar
  dsimp only
  have payload : ∀ digit, digit + 128 = 0x80 + digit := fun digit => Nat.add_comm digit 128
  split_ifs with short two three
  · exact .one (by omega)
  · have digits : code / 64 * 64 + code % 64 = code := by omega
    have lead : code / 64 % 32 + 192 = 0xc0 + code / 64 := by omega
    have form := Form.two (a := code / 64) (b := code % 64) (by omega) (by omega)
    rwa [digits, ← lead, ← payload] at form
  · have digits : (code / 4096 * 64 + code / 64 % 64) * 64 + code % 64 = code := by omega
    have lead : code / 4096 % 16 + 224 = 0xe0 + code / 4096 := by omega
    have form := Form.three (a := code / 4096) (b := code / 64 % 64) (c := code % 64) (by omega)
      (by omega) (by omega) (by omega) (by omega)
    rwa [digits, ← lead, ← payload, ← payload] at form
  · have digits : ((code / 262144 * 64 + code / 4096 % 64) * 64 + code / 64 % 64) * 64 +
        code % 64 = code := by omega
    have lead : code / 262144 % 8 + 240 = 0xf0 + code / 262144 := by omega
    have form := Form.four (a := code / 262144) (b := code / 4096 % 64) (c := code / 64 % 64)
      (d := code % 64) (by omega) (by omega) (by omega) (by omega) (by omega) (by omega)
    rwa [digits, ← lead, ← payload, ← payload, ← payload] at form

theorem Form.exists_cons {code : Nat} {bytes : Bytes} (form : Form code bytes) :
    ∃ byte rest, bytes = byte :: rest := by
  cases form <;> exact ⟨_, _, rfl⟩

/-- No surrogate has a form, and nothing above the last code point. -/
theorem Form.isValidChar {code : Nat} {bytes : Bytes} (form : Form code bytes) :
    code.isValidChar := by
  cases form <;> (unfold Nat.isValidChar; omega)

/-- **A code point has one form**, so there are no overlong ones. -/
theorem Form.unique {code other : Nat} {bytes bytes' : Bytes} (form : Form code bytes)
    (form' : Form other bytes') (same : code = other) : bytes = bytes' := by
  cases form <;> cases form' <;> first | omega | (congr <;> omega)

/-! ### Sequences of forms -/

/-- **The bytes of a sequence of code points**: their forms, one after the other. -/
inductive Writes : List Nat → Bytes → Prop where
  | nil : Writes [] []
  | cons {code : Nat} {codes : List Nat} {form rest : Bytes} (first : Form code form)
    (more : Writes codes rest) : Writes (code :: codes) (form ++ rest)

/-- **Texts are written as the forms of their code points.** -/
theorem writes_encode (text : List Char) : Writes (text.map Char.toNat) (encode text) := by
  induction text with
  | nil => exact .nil
  | cons char text ih => exact .cons (form char) ih

namespace Writes

variable {codes : List Nat} {bytes other : Bytes}

theorem unique (writes : Writes codes bytes) (writes' : Writes codes other) : bytes = other := by
  induction writes generalizing other with
  | nil =>
    cases writes'
    rfl
  | cons first more ih =>
    cases writes' with
    | cons first' more' => rw [first.unique first' rfl, ih more']

theorem isValidChar (writes : Writes codes bytes) : ∀ code ∈ codes, code.isValidChar := by
  induction writes with
  | nil => exact fun code member => absurd member List.not_mem_nil
  | cons first more ih => exact List.forall_mem_cons.mpr ⟨first.isValidChar, ih⟩

end Writes

/-- **Well-formed UTF-8**: the bytes of some sequence of scalar values. -/
def WellFormed (bytes : Bytes) : Prop :=
  ∃ codes : List Nat, (∀ code ∈ codes, code.isValidChar) ∧ Writes codes bytes

theorem Writes.wellFormed {codes : List Nat} {bytes : Bytes} (writes : Writes codes bytes) :
    WellFormed bytes :=
  ⟨codes, writes.isValidChar, writes⟩

/-! ### The order -/

/-- **The form of a lower code point comes first**, whatever follows. -/
theorem Form.lt {code other : Nat} {bytes bytes' : Bytes} (form : Form code bytes)
    (form' : Form other bytes') (less : code < other) (rest rest' : Bytes) :
    bytes ++ rest < bytes' ++ rest' := by
  cases form <;> cases form' <;>
    simp only [List.cons_append, List.nil_append, List.cons_lt_cons_iff, UInt8.lt_iff_toNat_lt,
      ← UInt8.toNat_inj, UInt8.toNat_ofNat'] <;> omega

/-- Lexicographic order by code points. -/
def order (text other : List Char) : Ordering :=
  List.compareLex (fun a b => compare a.toNat b.toNat) text other

/-- **Texts compare by code points as their bytes do.** -/
theorem order_encode (text other : List Char) :
    Bytes.order (encode text) (encode other) = order text other := by
  induction text generalizing other with
  | nil =>
    cases other with
    | nil => rfl
    | cons b other =>
      obtain ⟨byte, rest, written⟩ := (form b).exists_cons
      rw [encode, encode, List.flatMap_cons, written]
      rfl
  | cons a text ih =>
    cases other with
    | nil =>
      obtain ⟨byte, rest, written⟩ := (form a).exists_cons
      rw [encode, encode, List.flatMap_cons, written]
      rfl
    | cons b other =>
      rw [order, List.compareLex_cons_cons]
      show Bytes.order (String.utf8EncodeChar a ++ encode text)
        (String.utf8EncodeChar b ++ encode other) = _
      rcases Nat.lt_trichotomy a.toNat b.toNat with less | same | greater
      · rw [Bytes.order_eq_lt.mpr ((form a).lt (form b) less _ _), Nat.compare_eq_lt.mpr less]
        rfl
      · have same : a = b := Char.toNat_inj.mp same
        rw [same, Bytes.order_append_left, ih, Nat.compare_eq_eq.mpr rfl]
        rfl
      · rw [Bytes.order_eq_gt.mpr ((form b).lt (form a) greater _ _), Nat.compare_eq_gt.mpr greater]
        rfl

/-- A text comes first when its code points do, as a sequence of numbers. -/
theorem order_eq_lt {text other : List Char} :
    order text other = .lt ↔ text.map Char.toNat < other.map Char.toNat := by
  induction text generalizing other with
  | nil =>
    cases other with
    | nil => exact iff_of_false nofun (List.not_lt_nil _)
    | cons b other => exact iff_of_true rfl (List.nil_lt_cons _ _)
  | cons a text ih =>
    cases other with
    | nil => exact iff_of_false nofun (List.not_lt_nil _)
    | cons b other =>
      rw [order, List.compareLex_cons_cons, List.map_cons, List.map_cons, List.cons_lt_cons_iff,
        Ordering.then_eq_lt, Nat.compare_eq_lt, Nat.compare_eq_eq, ← ih]
      rfl

/-! ### Reading -/

variable {number digit : Nat} {low high : UInt8}

theorem toNat_byte (small : number < 256) : (UInt8.ofNat number).toNat = number := by
  rw [UInt8.toNat_ofNat', Nat.mod_eq_of_lt small]

theorem byte_lt (small : number < 256) : UInt8.ofNat number < high ↔ number < high.toNat := by
  rw [UInt8.lt_iff_toNat_lt, toNat_byte small]

theorem byte_between (small : number < 256) :
    low ≤ UInt8.ofNat number ∧ UInt8.ofNat number ≤ high ↔
      low.toNat ≤ number ∧ number ≤ high.toNat := by
  rw [UInt8.le_iff_toNat_le, UInt8.le_iff_toNat_le, toNat_byte small]

theorem byte_eq (small : number < 256) : UInt8.ofNat number = low ↔ number = low.toNat := by
  rw [← UInt8.toNat_inj, toNat_byte small]

/-- The bits of a byte besides those that mark its kind. -/
theorem toNat_byte_sub {mark : Nat} (small : mark + digit < 256) :
    (UInt8.ofNat (mark + digit)).toNat - mark = digit := by
  rw [toNat_byte small, Nat.add_sub_cancel_left]

theorem within_byte (small : number < 256) (bounds : low.toNat ≤ number ∧ number ≤ high.toNat) :
    (low ≤ UInt8.ofNat number && UInt8.ofNat number ≤ high) = true := by
  rw [Bool.and_eq_true, decide_eq_true_eq, decide_eq_true_eq]
  exact (byte_between small).mpr bounds

theorem continues_byte (small : digit < 64) : continues (UInt8.ofNat (0x80 + digit)) = true :=
  within_byte (by omega) (by show 0x80 ≤ _ ∧ _ ≤ 0xbf; omega)

/-- Whether a byte may follow a lead byte, with bounds of its own after two of them. -/
def narrowed (first low last high lead byte : UInt8) : Bool :=
  if lead = first then low ≤ byte && byte ≤ 0xbf
  else if lead = last then 0x80 ≤ byte && byte ≤ high
  else continues byte

theorem narrowed_byte {first last : UInt8} (small : number < 256) (second : digit < 64)
    (least : number = first.toNat → low.toNat ≤ 0x80 + digit)
    (most : number = last.toNat → 0x80 + digit ≤ high.toNat) :
    narrowed first low last high (UInt8.ofNat number) (UInt8.ofNat (0x80 + digit)) = true := by
  unfold narrowed
  split_ifs with atFirst atLast
  · have above := least ((byte_eq small).mp atFirst)
    exact within_byte (by omega) ⟨above, by show _ ≤ 0xbf; omega⟩
  · have below := most ((byte_eq small).mp atLast)
    exact within_byte (by omega) ⟨by show 0x80 ≤ _; omega, below⟩
  · exact continues_byte second

theorem secondOfThree_byte {lead : Nat} (small : lead < 0x10) (second : digit < 64)
    (long : lead = 0 → 0x20 ≤ digit) (real : lead = 0xd → digit < 0x20) :
    secondOfThree (UInt8.ofNat (0xe0 + lead)) (UInt8.ofNat (0x80 + digit)) = true := by
  have least : 0xe0 + lead = 0xe0 → 0xa0 ≤ 0x80 + digit := by omega
  have most : 0xe0 + lead = 0xed → 0x80 + digit ≤ 0x9f := by omega
  exact narrowed_byte (by omega) second least most

theorem secondOfFour_byte {lead : Nat} (small : lead ≤ 4) (second : digit < 64)
    (long : lead = 0 → 0x10 ≤ digit) (real : lead = 4 → digit < 0x10) :
    secondOfFour (UInt8.ofNat (0xf0 + lead)) (UInt8.ofNat (0x80 + digit)) = true := by
  have least : 0xf0 + lead = 0xf0 → 0x90 ≤ 0x80 + digit := by omega
  have most : 0xf0 + lead = 0xf4 → 0x80 + digit ≤ 0x8f := by omega
  exact narrowed_byte (by omega) second least most

/-- What a lead byte is told by: how long its character is. -/
theorem lead_iff (small : number < 256) :
    (UInt8.ofNat number < 0x80 ↔ number < 0x80) ∧
      (0xc2 ≤ UInt8.ofNat number ∧ UInt8.ofNat number ≤ 0xdf ↔ 0xc2 ≤ number ∧ number ≤ 0xdf) ∧
      (0xe0 ≤ UInt8.ofNat number ∧ UInt8.ofNat number ≤ 0xef ↔ 0xe0 ≤ number ∧ number ≤ 0xef) ∧
      (0xf0 ≤ UInt8.ofNat number ∧ UInt8.ofNat number ≤ 0xf4 ↔ 0xf0 ≤ number ∧ number ≤ 0xf4) :=
  ⟨byte_lt small, byte_between small, byte_between small, byte_between small⟩

/-- **A character is read back from its form**, whatever follows. -/
theorem Form.decodeFrom {code : Nat} {bytes : Bytes} (form : Form code bytes) (index : Nat)
    (rest : Bytes) : Utf8.decodeFrom index (bytes ++ rest) =
      (Utf8.decodeFrom (index + bytes.length) rest).map (Char.ofNat code :: ·) := by
  cases form with
  | one lead =>
    have small : code < 256 := by omega
    obtain ⟨one, -, -, -⟩ := lead_iff small
    rw [List.singleton_append, Utf8.decodeFrom.eq_def]
    dsimp only
    rw [if_pos (one.mpr lead), assemble, toNat_byte small]
    rfl
  | @two a b lead last =>
    have small : 0xc0 + a < 256 := by omega
    obtain ⟨one, two, -, -⟩ := lead_iff small
    rw [List.cons_append, Utf8.decodeFrom.eq_def]
    dsimp only [List.cons_append, List.nil_append]
    rw [if_neg (mt one.mp (by omega)), if_pos (two.mpr (by omega)), if_pos (continues_byte last),
      assemble, toNat_byte_sub small, List.foldl, toNat_byte_sub (by omega)]
    rfl
  | @three a b c lead second last long real =>
    have small : 0xe0 + a < 256 := by omega
    obtain ⟨one, two, three, -⟩ := lead_iff small
    rw [List.cons_append, Utf8.decodeFrom.eq_def]
    dsimp only [List.cons_append, List.nil_append]
    rw [if_neg (mt one.mp (by omega)), if_neg (mt two.mp (by omega)), if_pos (three.mpr (by omega)),
      if_pos (secondOfThree_byte lead second long real), if_pos (continues_byte last), assemble,
      toNat_byte_sub small, List.foldl, toNat_byte_sub (by omega), List.foldl,
      toNat_byte_sub (by omega)]
    rfl
  | @four a b c d lead second third last long real =>
    have small : 0xf0 + a < 256 := by omega
    obtain ⟨one, two, three, four⟩ := lead_iff small
    rw [List.cons_append, Utf8.decodeFrom.eq_def]
    dsimp only [List.cons_append, List.nil_append]
    rw [if_neg (mt one.mp (by omega)), if_neg (mt two.mp (by omega)), if_neg (mt three.mp (by omega)),
      if_pos (four.mpr (by omega)), if_pos (secondOfFour_byte lead second long real),
      if_pos (continues_byte third), if_pos (continues_byte last), assemble, toNat_byte_sub small,
      List.foldl, toNat_byte_sub (by omega), List.foldl, toNat_byte_sub (by omega), List.foldl,
      toNat_byte_sub (by omega)]
    rfl

variable {code : Nat} {codes : List Nat} {bytes form rest good : Bytes}

/-- **Code points are read back from their bytes**, whatever follows. -/
theorem Writes.decodeFrom_append (writes : Writes codes good) (index : Nat) (rest : Bytes) :
    Utf8.decodeFrom index (good ++ rest) =
      (Utf8.decodeFrom (index + good.length) rest).map (codes.map Char.ofNat ++ ·) := by
  induction writes generalizing index with
  | nil =>
    show Utf8.decodeFrom index rest = (Utf8.decodeFrom index rest).map id
    cases Utf8.decodeFrom index rest <;> rfl
  | cons first more ih =>
    rw [List.append_assoc, first.decodeFrom, ih, List.length_append, Nat.add_assoc]
    cases Utf8.decodeFrom _ rest <;> rfl

theorem Writes.decode (writes : Writes codes bytes) :
    Utf8.decode bytes = .ok (codes.map Char.ofNat) := by
  have read := writes.decodeFrom_append 0 []
  rw [List.append_nil] at read
  rw [Utf8.decode, read, Utf8.decodeFrom]
  exact congrArg Except.ok (List.append_nil _)

/-- **Reading gives the text back.** -/
theorem decode_encode (text : List Char) : decode (encode text) = .ok text := by
  have same : Char.ofNat ∘ Char.toNat = id := funext Char.ofNat_toNat
  rw [(writes_encode text).decode, List.map_map, same, List.map_id]

/-! ### Bytes that reading takes -/

/-- The bits of a byte from `mark` on. -/
theorem exists_payload (mark : Nat) {byte : UInt8} (least : mark ≤ byte.toNat) :
    ∃ digit, byte = UInt8.ofNat (mark + digit) ∧ mark + digit < 256 := by
  refine ⟨byte.toNat - mark, ?_, ?_⟩
  · rw [Nat.add_sub_cancel' least, UInt8.ofNat_toNat]
  · rw [Nat.add_sub_cancel' least]
    exact byte.toNat_lt

/-- Bounds that leave only bytes that continue a character leave them six bits of it. -/
theorem exists_digit {byte : UInt8} (within : (low ≤ byte && byte ≤ high) = true)
    (marked : 0x80 ≤ low.toNat ∧ high.toNat ≤ 0xbf) :
    ∃ digit < 64, byte = UInt8.ofNat (0x80 + digit) ∧
      low.toNat ≤ 0x80 + digit ∧ 0x80 + digit ≤ high.toNat := by
  rw [Bool.and_eq_true, decide_eq_true_eq, decide_eq_true_eq, UInt8.le_iff_toNat_le,
    UInt8.le_iff_toNat_le] at within
  obtain ⟨digit, rfl, small⟩ := exists_payload 0x80 (Nat.le_trans marked.1 within.1)
  rw [toNat_byte small] at within
  exact ⟨digit, by omega, rfl, within⟩

theorem exists_continuing {byte : UInt8} (follows : continues byte = true) :
    ∃ digit < 64, byte = UInt8.ofNat (0x80 + digit) := by
  obtain ⟨digit, small, same, -⟩ := exists_digit follows (by decide)
  exact ⟨digit, small, same⟩

theorem exists_narrowed {first last byte : UInt8} (small : number < 256) (apart : first ≠ last)
    (marked : 0x80 ≤ low.toNat ∧ high.toNat ≤ 0xbf)
    (follows : narrowed first low last high (UInt8.ofNat number) byte = true) :
    ∃ digit < 64, byte = UInt8.ofNat (0x80 + digit) ∧
      (number = first.toNat → low.toNat ≤ 0x80 + digit) ∧
      (number = last.toNat → 0x80 + digit ≤ high.toNat) := by
  unfold narrowed at follows
  split_ifs at follows with atFirst atLast
  · obtain ⟨digit, fits, same, above, -⟩ := exists_digit follows ⟨marked.1, by decide⟩
    refine ⟨digit, fits, same, fun _ => above, fun elsewhere => absurd ?_ apart⟩
    rw [← atFirst, (byte_eq small).mpr elsewhere]
  · obtain ⟨digit, fits, same, -, below⟩ := exists_digit follows ⟨by decide, marked.2⟩
    exact ⟨digit, fits, same, fun here => absurd ((byte_eq small).mpr here) atFirst, fun _ => below⟩
  · obtain ⟨digit, fits, same⟩ := exists_continuing follows
    exact ⟨digit, fits, same, fun here => absurd ((byte_eq small).mpr here) atFirst,
      fun here => absurd ((byte_eq small).mpr here) atLast⟩

theorem exists_secondOfThree {lead : Nat} {byte : UInt8} (small : lead < 0x10)
    (follows : secondOfThree (UInt8.ofNat (0xe0 + lead)) byte = true) :
    ∃ digit < 64, byte = UInt8.ofNat (0x80 + digit) ∧ (lead = 0 → 0x20 ≤ digit) ∧
      (lead = 0xd → digit < 0x20) := by
  have follows : narrowed 0xe0 0xa0 0xed 0x9f (UInt8.ofNat (0xe0 + lead)) byte = true := follows
  obtain ⟨digit, fits, same, least, most⟩ :=
    exists_narrowed (by omega) (by decide) (by decide) follows
  have long : 0xe0 + lead = 0xe0 → 0xa0 ≤ 0x80 + digit := least
  have real : 0xe0 + lead = 0xed → 0x80 + digit ≤ 0x9f := most
  exact ⟨digit, fits, same, by omega, by omega⟩

theorem exists_secondOfFour {lead : Nat} {byte : UInt8} (small : lead ≤ 4)
    (follows : secondOfFour (UInt8.ofNat (0xf0 + lead)) byte = true) :
    ∃ digit < 64, byte = UInt8.ofNat (0x80 + digit) ∧ (lead = 0 → 0x10 ≤ digit) ∧
      (lead = 4 → digit < 0x10) := by
  have follows : narrowed 0xf0 0x90 0xf4 0x8f (UInt8.ofNat (0xf0 + lead)) byte = true := follows
  obtain ⟨digit, fits, same, least, most⟩ :=
    exists_narrowed (by omega) (by decide) (by decide) follows
  have long : 0xf0 + lead = 0xf0 → 0x90 ≤ 0x80 + digit := least
  have real : 0xf0 + lead = 0xf4 → 0x80 + digit ≤ 0x8f := most
  exact ⟨digit, fits, same, by omega, by omega⟩

/-- A continuing byte adds its digit. -/
theorem assemble_cons {lead : Nat} (small : digit < 64) (following : Bytes) :
    assemble lead (UInt8.ofNat (0x80 + digit) :: following) =
      assemble (lead * 64 + digit) following := by
  rw [assemble, List.foldl_cons, toNat_byte_sub (by omega), assemble]

theorem toNat_ofNat (valid : code.isValidChar) : (Char.ofNat code).toNat = code := by
  rw [Char.ofNat, dif_pos valid]
  rfl

theorem Form.toNat_assemble (form : Form code bytes) : (assemble code []).toNat = code :=
  toNat_ofNat form.isValidChar

variable {a b c d : UInt8}

theorem form_one (lead : a < 0x80) : Form (assemble a.toNat []).toNat [a] := by
  have form : Form a.toNat [UInt8.ofNat a.toNat] := .one (UInt8.lt_iff_toNat_lt.mp lead)
  rw [UInt8.ofNat_toNat] at form
  rwa [form.toNat_assemble]

theorem form_two (lead : 0xc2 ≤ a ∧ a ≤ 0xdf) (last : continues b = true) :
    Form (assemble (a.toNat - 0xc0) [b]).toNat [a, b] := by
  obtain ⟨least, most⟩ := lead
  rw [UInt8.le_iff_toNat_le] at least most
  obtain ⟨high, rfl, small⟩ := exists_payload 0xc0 (Nat.le_trans (by decide : 0xc0 ≤ 0xc2) least)
  rw [toNat_byte small] at least most
  have range : 0xc2 ≤ 0xc0 + high ∧ 0xc0 + high ≤ 0xdf := ⟨least, most⟩
  obtain ⟨low, below, rfl⟩ := exists_continuing last
  have form := Form.two (a := high) (by omega) below
  rwa [toNat_byte_sub small, assemble_cons below, form.toNat_assemble]

theorem form_three (lead : 0xe0 ≤ a ∧ a ≤ 0xef) (second : secondOfThree a b = true)
    (last : continues c = true) : Form (assemble (a.toNat - 0xe0) [b, c]).toNat [a, b, c] := by
  obtain ⟨least, most⟩ := lead
  rw [UInt8.le_iff_toNat_le] at least most
  obtain ⟨high, rfl, small⟩ := exists_payload 0xe0 least
  rw [toNat_byte small] at most
  have range : 0xe0 + high ≤ 0xef := most
  obtain ⟨middle, fits, rfl, long, real⟩ := exists_secondOfThree (by omega) second
  obtain ⟨low, below, rfl⟩ := exists_continuing last
  have form := Form.three (by omega) fits below long real
  rwa [toNat_byte_sub small, assemble_cons fits, assemble_cons below, form.toNat_assemble]

theorem form_four (lead : 0xf0 ≤ a ∧ a ≤ 0xf4) (second : secondOfFour a b = true)
    (third : continues c = true) (last : continues d = true) :
    Form (assemble (a.toNat - 0xf0) [b, c, d]).toNat [a, b, c, d] := by
  obtain ⟨least, most⟩ := lead
  rw [UInt8.le_iff_toNat_le] at least most
  obtain ⟨high, rfl, small⟩ := exists_payload 0xf0 least
  rw [toNat_byte small] at most
  have range : 0xf0 + high ≤ 0xf4 := most
  obtain ⟨next, fits, rfl, long, real⟩ := exists_secondOfFour (by omega) second
  obtain ⟨middle, within, rfl⟩ := exists_continuing third
  obtain ⟨low, below, rfl⟩ := exists_continuing last
  have form := Form.four (by omega) fits within below long real
  rwa [toNat_byte_sub small, assemble_cons fits, assemble_cons within, assemble_cons below,
    form.toNat_assemble]

/-! ### What reading answers -/

/-- The place of a flaw. -/
def Flaw.index : Flaw → Nat
  | .invalid _ index => index
  | .incomplete index => index

/-- **What reading from `index` on may answer**: the text that is written, or the flaw at the end of
what is. -/
inductive Reads (index : Nat) : Bytes → Except Flaw (List Char) → Prop where
  | text {bytes : Bytes} {text : List Char} (writes : Writes (text.map Char.toNat) bytes) :
    Reads index bytes (.ok text)
  | flaw {codes : List Nat} {good bad : Bytes} {flaw : Flaw} (writes : Writes codes good)
    (place : flaw.index = index + good.length) : Reads index (good ++ bad) (.error flaw)

theorem Reads.here {index : Nat} {flaw : Flaw} (place : flaw.index = index) :
    Reads index bytes (.error flaw) :=
  .flaw .nil place

theorem Reads.cons {index : Nat} {char : Char} {answer : Except Flaw (List Char)}
    (first : Form char.toNat form) (reads : Reads (index + form.length) rest answer) :
    Reads index (form ++ rest) (answer.map (char :: ·)) := by
  cases reads with
  | text writes => exact .text (.cons first writes)
  | flaw writes place =>
    rw [← List.append_assoc]
    exact .flaw (.cons first writes) (by rw [place, List.length_append, Nat.add_assoc])

/-- **Reading takes one form after the other**, and stops where there is none. -/
theorem reads (index : Nat) (bytes : Bytes) : Reads index bytes (decodeFrom index bytes) := by
  fun_induction decodeFrom index bytes with
  | case1 index => exact .text .nil
  | case2 index a rest lead ih => exact .cons (form_one lead) ih
  | case4 index a _ lead b rest last ih => exact .cons (form_two lead last) ih
  | case8 index a _ _ lead b second c rest last ih => exact .cons (form_three lead second last) ih
  | case14 index a _ _ _ lead b second c third d rest last ih =>
    exact .cons (form_four lead second third last) ih
  | _ => exact .here rfl

/-- **A text is read exactly from the bytes that write it.** -/
theorem decode_eq_ok_iff {text : List Char} :
    decode bytes = .ok text ↔ Writes (text.map Char.toNat) bytes := by
  constructor
  · intro read
    have answer : Reads 0 bytes (decode bytes) := reads 0 bytes
    rw [read] at answer
    cases answer with
    | text writes => exact writes
  · intro writes
    rw [writes.unique (writes_encode text), decode_encode]

/-- **What is well formed can be read, and nothing else.** -/
theorem exists_decode_iff : (∃ text, decode bytes = .ok text) ↔ WellFormed bytes := by
  constructor
  · rintro ⟨text, read⟩
    exact (decode_eq_ok_iff.mp read).wellFormed
  · rintro ⟨codes, -, writes⟩
    exact ⟨codes.map Char.ofNat, writes.decode⟩

/-- **A flaw is at the end of the longest beginning that can be read.** -/
theorem isGreatest_flaw {flaw : Flaw} (refused : decode bytes = .error flaw) :
    IsGreatest {count | count ≤ bytes.length ∧ WellFormed (bytes.take count)} flaw.index := by
  have answer : ∀ {rest index}, decodeFrom index rest = .error flaw → ∃ codes good bad,
      rest = good ++ bad ∧ Writes codes good ∧ flaw.index = index + good.length := by
    intro rest index stopped
    have answer := reads index rest
    rw [stopped] at answer
    cases answer with
    | flaw writes place => exact ⟨_, _, _, rfl, writes, place⟩
  constructor
  · obtain ⟨codes, good, bad, rfl, writes, place⟩ := answer refused
    rw [Nat.zero_add] at place
    refine ⟨by rw [place, List.length_append]; omega, ?_⟩
    rw [place, List.take_left]
    exact writes.wellFormed
  · rintro count ⟨within, codes, -, writes⟩
    have read := writes.decodeFrom_append 0 (bytes.drop count)
    rw [List.take_append_drop, List.length_take, Nat.min_eq_left within, Nat.zero_add] at read
    rw [decode, read] at refused
    cases later : decodeFrom count (bytes.drop count) with
    | ok text =>
      rw [later] at refused
      cases refused
    | error found =>
      rw [later] at refused
      cases refused
      obtain ⟨-, good, -, -, -, place⟩ := answer later
      omega

end RadixLog.Utf8
