/-
**Typed keys.**

A type of keys has an order of its own and a form as bytes. The forms are chosen so that the byte-wise
order of the encoded keys is the order of the keys, and seeking and stepping over encoded keys follows
the typed order:

* unsigned numbers are written big-endian;
* signed numbers are written so after their sign bit is flipped, which puts the negative ones first;
* floating-point numbers take the total order of their bit patterns: with the sign bit set, every bit
  is inverted, and without it the sign bit alone;
* byte strings stand for themselves, text is UTF-8, and entry identifiers have 16 bytes.
-/

import RadixLog.EntryId.Checked

namespace RadixLog

/-- A type of keys; numbers have a width in bytes. -/
inductive KeyType where
  | unsigned (width : Nat)
  | signed (width : Nat)
  | float (width : Nat)
  | bytes
  | text
  | entryId
  deriving DecidableEq, Repr

namespace KeyType

/-- The keys of a type. Signed numbers are in two's complement, and floating-point numbers are their
bit patterns, so that every one of them is told apart. -/
def Value : KeyType → Type
  | .unsigned width => BitVec (8 * width)
  | .signed width => BitVec (8 * width)
  | .float width => BitVec (8 * width)
  | .bytes => Bytes
  | .text => String
  | .entryId => EntryId

/-! ### Numbers -/

/-- The bytes of a word, the most significant first. -/
def encodeWord {width : Nat} (word : BitVec (8 * width)) : Bytes := Bytes.ofNat width word.toNat

/-- The word of a given width that these bytes write. -/
def decodeWord (width : Nat) (bytes : Bytes) : Except Error (BitVec (8 * width)) :=
  if bytes.length = width then .ok (BitVec.ofNat _ (Bytes.toNat bytes))
  else .error (.keyLength width bytes.length)

/-- Flips the sign bit. -/
def flipSign {width : Nat} (word : BitVec (8 * width)) : BitVec (8 * width) :=
  word ^^^ BitVec.intMin (8 * width)

/-- Takes bit patterns in the total order of floating-point numbers to words in their order. -/
def rankFloat {width : Nat} (bits : BitVec (8 * width)) : BitVec (8 * width) :=
  if bits.msb then ~~~bits else flipSign bits

/-- The bit pattern with a given place in the total order. -/
def unrankFloat {width : Nat} (rank : BitVec (8 * width)) : BitVec (8 * width) :=
  if rank.msb then flipSign rank else ~~~rank

/-! ### All types -/

/-- The form of a key as bytes. -/
def encode : (type : KeyType) → type.Value → Bytes
  | .unsigned _, word => encodeWord word
  | .signed _, word => encodeWord (flipSign word)
  | .float _, bits => encodeWord (rankFloat bits)
  | .bytes, key => key
  | .text, key => Utf8.encode (String.toList key)
  | .entryId, id => EntryId.encode id

/-- The key that has these bytes as its form. -/
def decode : (type : KeyType) → Bytes → Except Error type.Value
  | .unsigned width, encoded => decodeWord width encoded
  | .signed width, encoded => (decodeWord width encoded).map flipSign
  | .float width, encoded => (decodeWord width encoded).map unrankFloat
  | .bytes, encoded => .ok encoded
  | .text, encoded =>
    match Utf8.decode encoded with
    | .ok key => .ok (String.ofList key)
    | .error flaw => .error (.notUtf8 flaw)
  | .entryId, encoded => EntryId.decode encoded

end KeyType

end RadixLog
