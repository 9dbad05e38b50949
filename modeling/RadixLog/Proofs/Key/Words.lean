/-
**The order of encoded words.**

Numbers are written as words of equal length, and words compare byte-wise as unsigned numbers do. A
signed number and a bit pattern of a floating-point number become words by a shift of their rank, the
same for all numbers of a width, so that their order is kept.

* `KeyType.order_encodeWord`: words compare as unsigned numbers;
* `KeyType.exists_shift_flipSign`, `KeyType.exists_shift_rankFloat`: the rank of a number, shifted;
* `KeyType.totalOrder`, `KeyType.compare_floatRank`: the order of floating-point numbers by their signs
  and magnitudes;
* `KeyType.decodeWord_encodeWord`, `KeyType.encodeWord_ofNat`: words and their bytes, both ways;
* `KeyType.flipSign_flipSign`, `KeyType.unrankFloat_rankFloat`, `KeyType.rankFloat_unrankFloat`: numbers
  and their words, both ways.
-/

import RadixLog.Key
import RadixLog.Proofs.Bytes.BigEndian

namespace RadixLog.KeyType

variable {width : Nat}

/-! ### Words -/

theorem toNat_encodeWord (word : BitVec (8 * width)) :
    Bytes.toNat (encodeWord word) = word.toNat := by
  have small : word.toNat < 256 ^ width := by
    have bound := word.isLt
    rwa [Nat.pow_mul] at bound
  rw [encodeWord, Bytes.toNat_ofNat, Nat.mod_eq_of_lt small]

/-- **Words compare as unsigned numbers.** -/
theorem order_encodeWord (a b : BitVec (8 * width)) :
    Bytes.order (encodeWord a) (encodeWord b) = compare a.toNat b.toNat := by
  have length : ∀ word : BitVec (8 * width), (encodeWord word).length = width := fun word =>
    Bytes.length_ofNat width word.toNat
  have below : ∀ x y : BitVec (8 * width), x.toNat < y.toNat →
      encodeWord x < encodeWord y := by
    intro x y less
    rwa [Bytes.lt_iff_toNat_lt ((length x).trans (length y).symm), toNat_encodeWord,
      toNat_encodeWord]
  rcases Nat.lt_trichotomy a.toNat b.toNat with less | same | greater
  · rw [Bytes.order_eq_lt.mpr (below a b less), compare_lt_iff_lt.mpr less]
  · rw [Bytes.order_eq_eq.mpr (congrArg encodeWord (BitVec.eq_of_toNat_eq same)),
      compare_eq_iff_eq.mpr same]
  · rw [Bytes.order_eq_gt.mpr (below b a greater), compare_gt_iff_gt.mpr greater]

/-- **A word is read back as it was written.** -/
theorem decodeWord_encodeWord (word : BitVec (8 * width)) :
    decodeWord width (encodeWord word) = .ok word := by
  rw [decodeWord, toNat_encodeWord, BitVec.ofNat_toNat, BitVec.setWidth_eq]
  exact if_pos (Bytes.length_ofNat width word.toNat)

/-- **Bytes are written back as they were read.** -/
theorem encodeWord_ofNat {bytes : Bytes} (length : bytes.length = width) :
    encodeWord (BitVec.ofNat (8 * width) bytes.toNat) = bytes := by
  have small : bytes.toNat < 2 ^ (8 * width) := by
    rw [Nat.pow_mul, ← length]
    exact Bytes.toNat_lt bytes
  rw [encodeWord, BitVec.toNat_ofNat, Nat.mod_eq_of_lt small, Bytes.ofNat_toNat length]

/-! ### Signs -/

/-- Numbers that are all shifted by the same compare as before. -/
theorem compare_of_shift {a b : Nat} {x y shift : Int} (first : (a : Int) = x + shift)
    (second : (b : Int) = y + shift) : compare a b = compare x y := by
  rcases lt_trichotomy x y with less | rfl | greater
  · rw [compare_lt_iff_lt.mpr less, compare_lt_iff_lt]
    omega
  · rw [compare_eq_iff_eq.mpr rfl, compare_eq_iff_eq]
    omega
  · rw [compare_gt_iff_gt.mpr greater, compare_gt_iff_gt]
    omega

/-- Flipping the highest bit of a number takes its worth away or adds it. -/
theorem xor_two_pow {number half : Nat} (bound : number < 2 * 2 ^ half) :
    number ^^^ 2 ^ half = if 2 ^ half ≤ number then number - 2 ^ half else number + 2 ^ half := by
  have pos : 0 < 2 ^ half := Nat.two_pow_pos half
  have high : (number ^^^ 2 ^ half) / 2 ^ half = number / 2 ^ half ^^^ 1 := by
    rw [Nat.xor_div_two_pow, Nat.div_self pos]
  have low : (number ^^^ 2 ^ half) % 2 ^ half = number % 2 ^ half := by
    rw [Nat.xor_mod_two_pow, Nat.mod_self, Nat.xor_zero]
  rw [← Nat.div_add_mod (number ^^^ 2 ^ half) (2 ^ half), high, low]
  split_ifs with above
  · have quotient : number / 2 ^ half = 1 := Nat.div_eq_of_lt_le (by omega) (by omega)
    have parts := Nat.div_add_mod number (2 ^ half)
    rw [quotient] at parts ⊢
    rw [Nat.xor_self]
    omega
  · have small : number < 2 ^ half := Nat.lt_of_not_le above
    rw [Nat.div_eq_of_lt small, Nat.mod_eq_of_lt small, Nat.zero_xor]
    omega

/-- There are twice as many words as bit patterns without the sign bit. -/
theorem two_pow_bits (pos : 0 < width) : 2 ^ (8 * width) = 2 * 2 ^ (8 * width - 1) := by
  rw [← Nat.pow_succ']
  congr 1
  omega

/-- The sign bit is worth half of all words. -/
theorem toNat_flipSign (pos : 0 < width) (word : BitVec (8 * width)) :
    (flipSign word).toNat = if word.msb then word.toNat - 2 ^ (8 * width - 1)
      else word.toNat + 2 ^ (8 * width - 1) := by
  have bound : word.toNat < 2 * 2 ^ (8 * width - 1) := two_pow_bits pos ▸ word.isLt
  rw [flipSign, BitVec.toNat_xor, BitVec.toNat_intMin_of_pos (by omega), xor_two_pow bound,
    BitVec.msb_eq_decide]
  simp only [decide_eq_true_eq]

/-- **Flipping the sign bit shifts signed numbers**, all of them by the same. -/
theorem exists_shift_flipSign (width : Nat) : ∃ shift : Int, ∀ word : BitVec (8 * width),
    ((flipSign word).toNat : Int) = word.toInt + shift := by
  rcases Nat.eq_zero_or_pos width with rfl | pos
  · refine ⟨0, fun word => ?_⟩
    rw [BitVec.eq_nil (flipSign word), BitVec.eq_nil word]
    rfl
  · refine ⟨(2 ^ (8 * width - 1) : Nat), fun word => ?_⟩
    have whole := two_pow_bits pos
    rw [toNat_flipSign pos, BitVec.toInt_eq_msb_cond, BitVec.msb_eq_decide]
    simp only [decide_eq_true_eq]
    split_ifs with negative <;> omega

/-- **Signed numbers compare as their words** with the sign bit flipped. -/
theorem compare_flipSign (a b : BitVec (8 * width)) :
    compare (flipSign a).toNat (flipSign b).toNat = compare a.toInt b.toInt := by
  obtain ⟨shift, shifts⟩ := exists_shift_flipSign width
  exact compare_of_shift (shifts a) (shifts b)

theorem flipSign_flipSign (word : BitVec (8 * width)) : flipSign (flipSign word) = word := by
  rw [flipSign, flipSign, BitVec.xor_assoc, BitVec.xor_self, BitVec.xor_zero]

/-! ### Floating-point numbers -/

/-- The bits of a floating-point number besides the sign. -/
def magnitude (bits : BitVec (8 * width)) : Nat := bits.toNat % 2 ^ (8 * width - 1)

/-- The place of a bit pattern in the total order of floating-point numbers: with the sign bit set,
larger magnitudes come first, and all of them come before the patterns without it. -/
def floatRank (bits : BitVec (8 * width)) : Int :=
  if bits.msb then -1 - magnitude bits else magnitude bits

/-- **The word of a bit pattern is its place in the total order**, shifted by the same for all. -/
theorem exists_shift_rankFloat (width : Nat) : ∃ shift : Int, ∀ bits : BitVec (8 * width),
    ((rankFloat bits).toNat : Int) = floatRank bits + shift := by
  rcases Nat.eq_zero_or_pos width with rfl | pos
  · refine ⟨0, fun bits => ?_⟩
    rw [BitVec.eq_nil bits]
    rfl
  · refine ⟨(2 ^ (8 * width - 1) : Nat), fun bits => ?_⟩
    have whole := two_pow_bits pos
    have bound := bits.isLt
    unfold rankFloat floatRank magnitude
    by_cases negative : bits.msb = true
    · have high : 2 ^ (8 * width - 1) ≤ bits.toNat := by
        rwa [BitVec.msb_eq_decide, decide_eq_true_eq] at negative
      have rest : bits.toNat % 2 ^ (8 * width - 1) = bits.toNat - 2 ^ (8 * width - 1) := by
        rw [Nat.mod_eq_sub_mod high, Nat.mod_eq_of_lt (by omega)]
      rw [if_pos negative, if_pos negative, BitVec.toNat_not, rest]
      omega
    · have low : bits.toNat < 2 ^ (8 * width - 1) := by
        rwa [BitVec.msb_eq_decide, decide_eq_true_eq, Nat.not_le] at negative
      rw [if_neg negative, if_neg negative, toNat_flipSign pos, if_neg negative,
        Nat.mod_eq_of_lt low]
      omega

/-- **The total order of floating-point numbers**, sign before magnitude: patterns with the sign bit
set come first, among them larger magnitudes; among those without it, smaller magnitudes do. -/
def totalOrder (a b : BitVec (8 * width)) : Ordering :=
  match a.msb, b.msb with
  | true, false => .lt
  | false, true => .gt
  | true, true => compare (magnitude b) (magnitude a)
  | false, false => compare (magnitude a) (magnitude b)

/-- Counting down turns the order of numbers round. -/
theorem compare_down (a b : Nat) : compare (-1 - (a : Int)) (-1 - (b : Int)) = compare b a := by
  rcases Nat.lt_trichotomy a b with less | rfl | greater
  · rw [compare_gt_iff_gt.mpr less, compare_gt_iff_gt]
    omega
  · rw [compare_eq_iff_eq.mpr rfl, compare_eq_iff_eq.mpr rfl]
  · rw [compare_lt_iff_lt.mpr greater, compare_lt_iff_lt]
    omega

/-- Places in the total order compare as it says. -/
theorem compare_floatRank (a b : BitVec (8 * width)) :
    compare (floatRank a) (floatRank b) = totalOrder a b := by
  have smaller : compare (magnitude a : Int) (magnitude b : Int) =
      compare (magnitude a) (magnitude b) :=
    (compare_of_shift (Int.add_zero _).symm (Int.add_zero _).symm).symm
  have apart (x y : Nat) : -1 - (x : Int) < y := by omega
  unfold floatRank totalOrder
  cases a.msb with
  | true =>
    cases b.msb with
    | true => exact compare_down _ _
    | false => exact compare_lt_iff_lt.mpr (apart _ _)
  | false =>
    cases b.msb with
    | true => exact compare_gt_iff_gt.mpr (apart _ _)
    | false => exact smaller

/-- **Floating-point numbers compare as their words.** -/
theorem compare_rankFloat (a b : BitVec (8 * width)) :
    compare (rankFloat a).toNat (rankFloat b).toNat = compare (floatRank a) (floatRank b) := by
  obtain ⟨shift, shifts⟩ := exists_shift_rankFloat width
  exact compare_of_shift (shifts a) (shifts b)

/-- Flipping the sign bit flips the sign. -/
theorem msb_flipSign (pos : 0 < width) (word : BitVec (8 * width)) :
    (flipSign word).msb = !word.msb := by
  have sized : 0 < 8 * width := by omega
  rw [flipSign, BitVec.msb_xor, BitVec.msb_intMin, decide_eq_true sized, Bool.xor_true]

/-- So does inverting all bits. -/
theorem msb_invert (pos : 0 < width) (word : BitVec (8 * width)) :
    (~~~word).msb = !word.msb := by
  have sized : 0 < 8 * width := by omega
  rw [BitVec.msb_not, decide_eq_true sized, Bool.true_and]

/-- **A bit pattern is read back as it was written.** -/
theorem unrankFloat_rankFloat (bits : BitVec (8 * width)) :
    unrankFloat (rankFloat bits) = bits := by
  rcases Nat.eq_zero_or_pos width with rfl | pos
  · rw [BitVec.eq_nil bits]
    rfl
  · unfold rankFloat unrankFloat
    cases negative : bits.msb with
    | true => simp [negative, msb_invert pos]
    | false => simp [negative, msb_flipSign pos, flipSign_flipSign]

/-- **A word is written back as it was read.** -/
theorem rankFloat_unrankFloat (rank : BitVec (8 * width)) :
    rankFloat (unrankFloat rank) = rank := by
  rcases Nat.eq_zero_or_pos width with rfl | pos
  · rw [BitVec.eq_nil rank]
    rfl
  · unfold rankFloat unrankFloat
    cases positive : rank.msb with
    | true => simp [positive, msb_flipSign pos, flipSign_flipSign]
    | false => simp [positive, msb_invert pos]

end RadixLog.KeyType
