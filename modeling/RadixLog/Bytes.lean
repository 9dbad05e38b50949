/-
**Byte strings.**

Keys, edge labels, fields and values are finite lists of bytes. This module holds what every other
one needs of them:

* `Bytes.order`: the byte-wise lexicographic comparison, in which a proper initial part comes first;
* `Bytes.common`: the length of the longest initial part two byte strings share;
* `Bytes.escaped`: a printable ASCII form from which the bytes can be read back.
-/

namespace RadixLog

/-- A finite byte string. -/
abbrev Bytes := List UInt8

namespace Bytes

/-- The byte-wise lexicographic order: the first differing byte decides, and a proper initial part
comes before every longer byte string. -/
def order : Bytes → Bytes → Ordering
  | [], [] => .eq
  | [], _ :: _ => .lt
  | _ :: _, [] => .gt
  | a :: as, b :: bs => if a < b then .lt else if a = b then order as bs else .gt

/-- The number of bytes two byte strings agree on before they part. -/
def common : Bytes → Bytes → Nat
  | a :: as, b :: bs => if a = b then common as bs + 1 else 0
  | _, _ => 0

/-! ### Printable form -/

/-- The two lower-case hexadecimal digits of a byte. -/
def hexDigits (byte : UInt8) : List Char :=
  [Nat.digitChar (byte.toNat / 16), Nat.digitChar (byte.toNat % 16)]

/-- A byte in printable ASCII: tab, return, newline, quotes and the backslash take a backslash,
the other printable characters stand for themselves, and all else is two hexadecimal digits. -/
def escapeByte (byte : UInt8) : List Char :=
  if byte = 0x09 then ['\\', 't']
  else if byte = 0x0a then ['\\', 'n']
  else if byte = 0x0d then ['\\', 'r']
  else if byte = 0x22 then ['\\', '"']
  else if byte = 0x27 then ['\\', '\x27']
  else if byte = 0x5c then ['\\', '\\']
  else if 0x20 ≤ byte ∧ byte < 0x7f then [Char.ofNat byte.toNat]
  else '\\' :: 'x' :: hexDigits byte

/-- A byte string in printable ASCII, byte by byte. -/
def escaped (bytes : Bytes) : List Char := bytes.flatMap escapeByte

end Bytes

end RadixLog
