/-
**UTF-8.**

Text as bytes and back. Writing is total. Reading accepts exactly the byte strings that writing
produces: no overlong form, no surrogate, nothing above U+10FFFF and no cut-off character. A flaw
names the place and the extent of the first sequence that cannot be read:

* `Utf8.encode`: the bytes of a text;
* `Utf8.decode`: the text of a byte string, or its first flaw.
-/

import RadixLog.Bytes

namespace RadixLog.Utf8

/-- The first place where a byte string stops being UTF-8. -/
inductive Flaw where
  /-- From `index` on, `length` bytes start a character and the next byte rules it out. -/
  | invalid (length index : Nat)
  /-- From `index` on, the bytes are the beginning of a character, and the input ends. -/
  | incomplete (index : Nat)
  deriving DecidableEq, Repr

/-- The wording of a flaw. -/
def Flaw.message : Flaw → String
  | .invalid length index =>
    "invalid utf-8 sequence of " ++ toString length ++ " bytes from index " ++ toString index
  | .incomplete index => "incomplete utf-8 byte sequence from index " ++ toString index

/-- The UTF-8 bytes of a text. -/
def encode (text : List Char) : Bytes := text.flatMap String.utf8EncodeChar

/-- A byte that continues a character. -/
def continues (byte : UInt8) : Bool := 0x80 ≤ byte && byte ≤ 0xbf

/-- Whether `byte` may follow the lead byte of a three-byte character: no overlong form and no
surrogate. -/
def secondOfThree (lead byte : UInt8) : Bool :=
  if lead = 0xe0 then 0xa0 ≤ byte && byte ≤ 0xbf
  else if lead = 0xed then 0x80 ≤ byte && byte ≤ 0x9f
  else continues byte

/-- Whether `byte` may follow the lead byte of a four-byte character: no overlong form and nothing
above U+10FFFF. -/
def secondOfFour (lead byte : UInt8) : Bool :=
  if lead = 0xf0 then 0x90 ≤ byte && byte ≤ 0xbf
  else if lead = 0xf4 then 0x80 ≤ byte && byte ≤ 0x8f
  else continues byte

/-- The character that a lead byte's payload and the continuation bytes spell, six bits each. -/
def assemble (lead : Nat) (following : Bytes) : Char :=
  Char.ofNat (following.foldl (fun code byte => code * 64 + (byte.toNat - 0x80)) lead)

/-- Reads characters from the byte at `index` on. -/
def decodeFrom : (index : Nat) → Bytes → Except Flaw (List Char)
  | _, [] => .ok []
  | index, a :: rest =>
    if a < 0x80 then
      (decodeFrom (index + 1) rest).map (assemble a.toNat [] :: ·)
    else if 0xc2 ≤ a ∧ a ≤ 0xdf then
      match rest with
      | [] => .error (.incomplete index)
      | b :: rest =>
        if continues b then
          (decodeFrom (index + 2) rest).map (assemble (a.toNat - 0xc0) [b] :: ·)
        else .error (.invalid 1 index)
    else if 0xe0 ≤ a ∧ a ≤ 0xef then
      match rest with
      | [] => .error (.incomplete index)
      | b :: rest =>
        if secondOfThree a b then
          match rest with
          | [] => .error (.incomplete index)
          | c :: rest =>
            if continues c then
              (decodeFrom (index + 3) rest).map (assemble (a.toNat - 0xe0) [b, c] :: ·)
            else .error (.invalid 2 index)
        else .error (.invalid 1 index)
    else if 0xf0 ≤ a ∧ a ≤ 0xf4 then
      match rest with
      | [] => .error (.incomplete index)
      | b :: rest =>
        if secondOfFour a b then
          match rest with
          | [] => .error (.incomplete index)
          | c :: rest =>
            if continues c then
              match rest with
              | [] => .error (.incomplete index)
              | d :: rest =>
                if continues d then
                  (decodeFrom (index + 4) rest).map (assemble (a.toNat - 0xf0) [b, c, d] :: ·)
                else .error (.invalid 3 index)
            else .error (.invalid 2 index)
        else .error (.invalid 1 index)
    else .error (.invalid 1 index)

/-- The text whose UTF-8 bytes these are, or the first flaw. -/
def decode (bytes : Bytes) : Except Flaw (List Char) := decodeFrom 0 bytes

end RadixLog.Utf8
