/-
**Big-endian digits.**

A number below `256 ^ width` as exactly `width` bytes, the most significant first, so that the
byte-wise order of equally long byte strings is the order of the numbers.
-/

import RadixLog.Bytes

namespace RadixLog.Bytes

/-- The lowest `width` base-256 digits of a number, the most significant first. -/
def ofNat : (width number : Nat) → Bytes
  | 0, _ => []
  | width + 1, number => UInt8.ofNat (number / 256 ^ width) :: ofNat width number

/-- The number whose base-256 digits are the given bytes, the most significant first. -/
def toNat : Bytes → Nat
  | [] => 0
  | byte :: rest => byte.toNat * 256 ^ rest.length + toNat rest

end RadixLog.Bytes
