/-
**The written form of entry identifiers.**

An identifier is written as two numbers with a dash between them, or as the first alone, and the two
ends have signs of their own. A number is a run of decimal digits after at most one plus sign; zeros
in front do not matter, and its value has to fit. A text that is none of these is refused as it
stands, and the form in which an identifier is shown is one of them.

* `EntryId.Spells`, `EntryId.WritesPart`, `EntryId.Writes`: the grammar, with what each text stands for;
* `EntryId.parsePart_eq_some_iff`, `EntryId.parse_eq_some_iff`: reading accepts this grammar;
* `EntryId.read_written`: what is read, what is refused, and that what is shown can be read.
-/

import Mathlib.Data.List.Induction
import Mathlib.Data.List.TakeWhile
import RadixLog.EntryId.Checked

namespace RadixLog.EntryId

variable {before after digits written : List Char} {value : Nat} {part : UInt64} {id : EntryId}

/-! ### The grammar -/

/-- **A run of decimal digits spells a number**, the most significant digit first. -/
inductive Spells : List Char → Nat → Prop where
  | digit {digit : Nat} (small : digit < 10) : Spells [Nat.digitChar digit] digit
  | snoc {text : List Char} {value digit : Nat} (spells : Spells text value) (small : digit < 10) :
    Spells (text ++ [Nat.digitChar digit]) (10 * value + digit)

/-- **A text writes a part of an identifier**: digits, after at most one plus sign, that spell a number
which fits. -/
inductive WritesPart : List Char → UInt64 → Prop where
  | plain {text : List Char} {part : UInt64} (spells : Spells text part.toNat) : WritesPart text part
  | signed {text : List Char} {part : UInt64} (spells : Spells text part.toNat) :
    WritesPart ('+' :: text) part

/-- **A text writes an identifier.** -/
inductive Writes : List Char → EntryId → Prop where
  | least : Writes ['-'] .least
  | greatest : Writes ['+'] .greatest
  /-- A time alone, with sequence number 0. -/
  | time {text : List Char} {ms : UInt64} (time : WritesPart text ms) : Writes text ⟨ms, 0⟩
  /-- A time and a sequence number around a dash. -/
  | both {text after : List Char} {ms seq : UInt64} (time : WritesPart text ms)
    (sequence : WritesPart after seq) : Writes (text ++ '-' :: after) ⟨ms, seq⟩

/-! ### Digits -/

theorem isDigit_digitChar {digit : Nat} (small : digit < 10) :
    (Nat.digitChar digit).isDigit = true := by
  rw [Nat.isDigit_digitChar]
  exact decide_eq_true small

/-- Every decimal digit stands for a number below ten. -/
theorem exists_digitChar {char : Char} (decimal : char.isDigit = true) :
    ∃ digit < 10, Nat.digitChar digit = char ∧ char.toNat - '0'.toNat = digit := by
  have bounds : 48 ≤ char.toNat ∧ char.toNat ≤ 57 := Char.isDigit_iff_toNat.mp decimal
  have small : char.toNat - 48 < 10 := by omega
  refine ⟨char.toNat - 48, small, Char.toNat_inj.mp ?_, rfl⟩
  rw [Nat.toNat_digitChar_of_lt_ten small]
  omega

theorem number_concat (digits : List Char) (char : Char) :
    number (digits ++ [char]) = number digits * 10 + (char.toNat - '0'.toNat) := by
  rw [number, List.foldl_append]
  rfl

namespace Spells

theorem ne_nil (spells : Spells digits value) : digits ≠ [] := by
  cases spells with
  | digit _ => exact List.cons_ne_nil _ _
  | snoc _ _ => exact List.append_ne_nil_of_right_ne_nil _ (List.cons_ne_nil _ _)

theorem isDigit (spells : Spells digits value) : ∀ char ∈ digits, char.isDigit = true := by
  induction spells with
  | digit small =>
    intro char member
    rw [List.mem_singleton.mp member]
    exact isDigit_digitChar small
  | snoc _ small ih =>
    intro char member
    rcases List.mem_append.mp member with before | last
    · exact ih char before
    · rw [List.mem_singleton.mp last]
      exact isDigit_digitChar small

theorem number_eq (spells : Spells digits value) : number digits = value := by
  induction spells with
  | @digit digit small =>
    show 0 * 10 + ((Nat.digitChar digit).toNat - 48) = digit
    rw [Nat.toNat_digitChar_sub_48_of_lt_ten small, Nat.zero_mul, Nat.zero_add]
  | @snoc before value digit _ small ih =>
    rw [number_concat, ih, Nat.mul_comm]
    exact congrArg (10 * value + ·) (Nat.toNat_digitChar_sub_48_of_lt_ten small)

end Spells

/-- Digits spell the number that is read from them. -/
theorem spells_number (filled : digits ≠ []) (decimal : ∀ char ∈ digits, char.isDigit = true) :
    Spells digits (number digits) := by
  induction digits using List.reverseRecOn with
  | nil => exact absurd rfl filled
  | append_singleton front char ih =>
    obtain ⟨digit, small, rfl, same⟩ :=
      exists_digitChar (decimal char (List.mem_append_right _ (List.mem_singleton_self _)))
    have decimal : ∀ char ∈ front, char.isDigit = true := fun char member =>
      decimal char (List.mem_append_left _ member)
    rw [number_concat, same, Nat.mul_comm]
    by_cases bare : front = []
    · subst bare
      show Spells [Nat.digitChar digit] (10 * 0 + digit)
      rw [Nat.zero_add]
      exact .digit small
    · exact .snoc (ih bare decimal) small

/-- **The digits of a number spell it.** -/
theorem spells_toDigits (value : Nat) : Spells (Nat.toDigits 10 value) value := by
  induction value using Nat.strongRecOn with
  | ind value ih =>
    rw [Nat.toDigits_eq_if (by decide)]
    by_cases small : value < 10
    · rw [if_pos small]
      exact .digit small
    · rw [if_neg small]
      have parts : 10 * (value / 10) + value % 10 = value := Nat.div_add_mod value 10
      have shorter : value / 10 < value := by omega
      have spells := Spells.snoc (ih _ shorter) (Nat.mod_lt value (by decide : 0 < 10))
      rwa [parts] at spells

/-! ### Parts -/

namespace WritesPart

theorem ne_nil (writes : WritesPart written part) : written ≠ [] := by
  cases writes with
  | plain spells => exact spells.ne_nil
  | signed _ => exact List.cons_ne_nil _ _

/-- A part has no dash in it. -/
theorem dash_not_mem (writes : WritesPart written part) : '-' ∉ written := by
  intro member
  cases writes with
  | plain spells => exact absurd (spells.isDigit _ member) (by decide)
  | signed spells =>
    rcases List.mem_cons.mp member with sign | member
    · exact absurd sign (by decide)
    · exact absurd (spells.isDigit _ member) (by decide)

/-- A plus sign alone is no part. -/
theorem ne_plus (writes : WritesPart written part) : written ≠ ['+'] := by
  rintro rfl
  cases writes with
  | plain spells => exact absurd (spells.isDigit '+' List.mem_cons_self) (by decide)
  | signed spells => exact spells.ne_nil rfl

end WritesPart

/-- What is read after the sign are digits that spell a number which fits. -/
theorem digits_eq_some_iff :
    (if !digits.isEmpty && digits.all Char.isDigit && number digits ≤ partMax.toNat then
      some (UInt64.ofNat (number digits)) else none) = some part ↔ Spells digits part.toNat := by
  have greatest : partMax.toNat = 2 ^ 64 - 1 := rfl
  rw [Option.ite_none_right_eq_some]
  simp only [Bool.and_eq_true, Bool.not_eq_true', List.isEmpty_eq_false_iff, List.all_eq_true,
    decide_eq_true_eq]
  constructor
  · rintro ⟨⟨⟨filled, decimal⟩, fits⟩, same⟩
    obtain rfl := Option.some.inj same
    rw [UInt64.toNat_ofNat', Nat.mod_eq_of_lt (by omega)]
    exact spells_number filled decimal
  · intro spells
    have value : number digits = part.toNat := spells.number_eq
    have bound : part.toNat < 2 ^ 64 := part.toNat_lt
    rw [value]
    exact ⟨⟨⟨spells.ne_nil, spells.isDigit⟩, by omega⟩, congrArg some UInt64.ofNat_toNat⟩

/-- **Reading accepts the parts that can be written.** -/
theorem parsePart_eq_some_iff : parsePart written = some part ↔ WritesPart written part := by
  unfold parsePart
  dsimp only
  split
  case h_1 rest =>
    rw [digits_eq_some_iff]
    refine ⟨.signed, fun writes => ?_⟩
    cases writes with
    | plain spells => exact absurd (spells.isDigit '+' List.mem_cons_self) (by decide)
    | signed spells => exact spells
  case h_2 unsigned =>
    rw [digits_eq_some_iff]
    refine ⟨.plain, fun writes => ?_⟩
    cases writes with
    | plain spells => exact spells
    | signed _ => exact absurd rfl (unsigned _)

/-! ### Identifiers -/

theorem not_dash (plain : '-' ∉ written) : ∀ char ∈ written, decide (char ≠ '-') = true :=
  fun _ member => decide_eq_true (ne_of_mem_of_not_mem member plain)

/-- Without a dash, a text is read as a time. -/
theorem parse_time (plain : '-' ∉ written) (unsigned : written ≠ ['+']) :
    parse written = (parsePart written).map (⟨·, 0⟩) := by
  have other : written ≠ ['-'] := by
    rintro rfl
    exact plain List.mem_cons_self
  have whole : written.dropWhile (· ≠ '-') = [] := List.dropWhile_eq_nil_iff.mpr (not_dash plain)
  rw [parse, if_neg other, if_neg unsigned, whole]

/-- Around its first dash, a text is read as two parts. -/
theorem parse_both (plain : '-' ∉ before) (more : before ++ '-' :: after ≠ ['-']) :
    parse (before ++ '-' :: after) =
      (parsePart before).bind fun ms => (parsePart after).map fun seq => ⟨ms, seq⟩ := by
  have unsigned : before ++ '-' :: after ≠ ['+'] := by
    intro same
    have member : '-' ∈ before ++ '-' :: after := List.mem_append_right _ List.mem_cons_self
    rw [same] at member
    exact absurd (List.mem_singleton.mp member) (by decide)
  have first : (before ++ '-' :: after).takeWhile (· ≠ '-') = before := by
    rw [List.takeWhile_append_of_pos (not_dash plain)]
    exact List.append_nil before
  have rest : (before ++ '-' :: after).dropWhile (· ≠ '-') = '-' :: after :=
    List.dropWhile_append_of_pos (not_dash plain)
  rw [parse, if_neg more, if_neg unsigned, rest, first]
  simp only [Option.map_eq_bind]
  rfl

/-- **Reading accepts the identifiers that can be written.** -/
theorem parse_eq_some_iff : parse written = some id ↔ Writes written id := by
  constructor
  · intro read
    -- The two signs are texts of their own on either side of the split.
    by_cases dashed : '-' ∈ written
    · obtain ⟨before, after, rfl, plain⟩ := List.eq_append_cons_of_mem dashed
      by_cases lone : before ++ '-' :: after = ['-']
      · rw [lone] at read ⊢
        obtain rfl := Option.some.inj read
        exact .least
      · rw [parse_both plain lone, Option.bind_eq_some_iff] at read
        obtain ⟨ms, time, read⟩ := read
        obtain ⟨seq, sequence, rfl⟩ := Option.map_eq_some_iff.mp read
        exact .both (parsePart_eq_some_iff.mp time) (parsePart_eq_some_iff.mp sequence)
    · by_cases lone : written = ['+']
      · subst lone
        obtain rfl := Option.some.inj read
        exact .greatest
      · rw [parse_time dashed lone] at read
        obtain ⟨ms, time, rfl⟩ := Option.map_eq_some_iff.mp read
        exact .time (parsePart_eq_some_iff.mp time)
  · intro writes
    cases writes with
    | least => rfl
    | greatest => rfl
    | time time =>
      rw [parse_time time.dash_not_mem time.ne_plus, parsePart_eq_some_iff.mpr time]
      rfl
    | @both before after _ _ time sequence =>
      have more : before ++ '-' :: after ≠ ['-'] := by
        intro same
        have length := congrArg List.length same
        have filled := List.length_pos_iff.mpr time.ne_nil
        simp only [List.length_append, List.length_cons, List.length_nil] at length
        omega
      rw [parse_both time.dash_not_mem more, parsePart_eq_some_iff.mpr time,
        parsePart_eq_some_iff.mpr sequence]
      rfl

/-! ### What is shown -/

theorem writes_text (id : EntryId) : Writes id.text.toList id := by
  have shown : id.text.toList =
      Nat.toDigits 10 id.ms.toNat ++ '-' :: Nat.toDigits 10 id.seq.toNat := by
    simp only [text, String.toList_append, Nat.toString_eq_ofList_toDigits, String.toList_ofList,
      List.append_assoc]
    rfl
  rw [shown]
  exact .both (.plain (spells_toDigits _)) (.plain (spells_toDigits _))

theorem read_eq_ok_iff {written : String} : read written = .ok id ↔ Writes written.toList id := by
  rw [← parse_eq_some_iff, read]
  cases parse written.toList <;> simp

theorem read_text (id : EntryId) : read id.text = .ok id :=
  read_eq_ok_iff.mpr (writes_text id)

/-- What cannot be read is refused as it stands. -/
theorem read_eq_error_iff {written : String} {refusal : Error} :
    read written = .error refusal ↔
      refusal = .unreadableId written ∧ ∀ id, ¬ Writes written.toList id := by
  simp only [← parse_eq_some_iff, read]
  cases parse written.toList <;> simp [eq_comm]

/-- **Reading accepts what can be written and no other text.** A text is read as the identifier that
it writes, and refused as it stands if it writes none. The form in which an identifier is shown writes
it, so that identifiers can be told apart by it. -/
theorem read_written :
    (∀ (written : String) (id : EntryId), read written = .ok id ↔ Writes written.toList id) ∧
    (∀ (written : String) (refusal : Error), read written = .error refusal ↔
      refusal = .unreadableId written ∧ ∀ id, ¬ Writes written.toList id) ∧
    (∀ id : EntryId, read id.text = .ok id) ∧
    Function.Injective text := by
  refine ⟨fun _ _ => read_eq_ok_iff, fun _ _ => read_eq_error_iff, read_text, fun a b same => ?_⟩
  have read : read a.text = .ok b := same ▸ read_text b
  exact Except.ok.inj ((read_text a).symm.trans read)

/-- A plus sign on each part and a zero in front do no harm, and a second dash does. -/
example : read "+07-+1" = .ok ⟨7, 1⟩ ∧ read "7--1" = .error (.unreadableId "7--1") := by decide

end RadixLog.EntryId
