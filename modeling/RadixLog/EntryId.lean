/-
**Entry identifiers.**

An identifier is a time in milliseconds with a sequence number that tells entries of one millisecond
apart. Identifiers are ordered by time, then by sequence number:

* `EntryId.text`, `EntryId.parse`: the written form, two numbers with a dash between them;
* `EntryId.encode`, `EntryId.decode?`: the form as a key, 16 bytes in the order of the identifiers;
* `EntryId.following`: the identifier to give out next by a clock that may stand still or go back;
* `EntryId.succ?`, `EntryId.pred?`: the neighbours.
-/

import RadixLog.Bytes.BigEndian

namespace RadixLog

/-- A time in milliseconds and a sequence number within it. -/
structure EntryId where
  ms : UInt64
  seq : UInt64
  deriving DecidableEq, Repr

namespace EntryId

/-- The least identifier. -/
def least : EntryId := ⟨0, 0⟩

/-- The greatest number that a part of an identifier can be. -/
def partMax : UInt64 := 0xffffffffffffffff

/-- The greatest identifier. -/
def greatest : EntryId := ⟨partMax, partMax⟩

/-- Earlier time first, then lower sequence number. -/
def order (a b : EntryId) : Ordering :=
  if a.ms < b.ms then .lt
  else if b.ms < a.ms then .gt
  else if a.seq < b.seq then .lt
  else if b.seq < a.seq then .gt
  else .eq

instance : LT EntryId := ⟨fun a b => order a b = .lt⟩

instance : LE EntryId := ⟨fun a b => order a b ≠ .gt⟩

instance (a b : EntryId) : Decidable (a < b) := inferInstanceAs (Decidable (order a b = .lt))

instance (a b : EntryId) : Decidable (a ≤ b) := inferInstanceAs (Decidable (order a b ≠ .gt))

/-! ### Neighbours -/

/-- The least identifier above this one, unless this is the greatest. -/
def succ? (id : EntryId) : Option EntryId :=
  if id.seq < partMax then some ⟨id.ms, id.seq + 1⟩
  else if id.ms < partMax then some ⟨id.ms + 1, 0⟩
  else none

/-- The greatest identifier below this one, unless this is the least. -/
def pred? (id : EntryId) : Option EntryId :=
  if 0 < id.seq then some ⟨id.ms, id.seq - 1⟩
  else if 0 < id.ms then some ⟨id.ms - 1, partMax⟩
  else none

/-- The identifier to give out after `last` when the clock reads `now`: the first of a millisecond
that has begun since, else the next of the last millisecond, unless that is used up. -/
def following (last : EntryId) (now : UInt64) : Option EntryId :=
  if last.ms < now then some ⟨now, 0⟩
  else if last.seq < partMax then some ⟨last.ms, last.seq + 1⟩
  else none

/-! ### Written form -/

/-- The written form: both numbers in decimal, with a dash between them. -/
def text (id : EntryId) : String := toString id.ms.toNat ++ "-" ++ toString id.seq.toNat

/-- The number that decimal digits spell. -/
def number (digits : List Char) : Nat :=
  digits.foldl (fun value digit => value * 10 + (digit.toNat - '0'.toNat)) 0

/-- Reads one part of an identifier: at most one plus sign, then decimal digits, of which there is at
least one, with a value that fits. -/
def parsePart (written : List Char) : Option UInt64 :=
  let digits := match written with
    | '+' :: rest => rest
    | _ => written
  if !digits.isEmpty && digits.all Char.isDigit && number digits ≤ partMax.toNat then
    some (UInt64.ofNat (number digits))
  else none

/-- Reads an identifier: two parts around the first dash, or the time alone, with sequence number 0.
A lone dash is the least identifier and a lone plus sign the greatest. -/
def parse (written : List Char) : Option EntryId :=
  if written = ['-'] then some least
  else if written = ['+'] then some greatest
  else match written.dropWhile (· ≠ '-') with
    | [] => (parsePart written).map (⟨·, 0⟩)
    | _ :: sequence => do
      let ms ← parsePart (written.takeWhile (· ≠ '-'))
      let seq ← parsePart sequence
      return ⟨ms, seq⟩

/-! ### Form as a key -/

/-- The number of bytes of an identifier's form as a key. -/
def encodedLength : Nat := 16

/-- The form as a key: eight bytes of time, then eight of sequence number. -/
def encode (id : EntryId) : Bytes := Bytes.ofNat 8 id.ms.toNat ++ Bytes.ofNat 8 id.seq.toNat

/-- The identifier whose form as a key these bytes are. -/
def decode? (bytes : Bytes) : Option EntryId :=
  if bytes.length = encodedLength then
    some ⟨UInt64.ofNat (Bytes.toNat (bytes.take 8)), UInt64.ofNat (Bytes.toNat (bytes.drop 8))⟩
  else none

end EntryId

end RadixLog
