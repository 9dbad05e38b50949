/-
**Refusals.**

A refusal is an answer to a request that cannot be granted: text or bytes that cannot be read, an
identifier that cannot be given out, a cursor that no longer fits its tree. Each has one cause and one
wording.
-/

import RadixLog.EntryId
import RadixLog.Text.Quoted
import RadixLog.Text.Utf8

namespace RadixLog

/-- Why a request was refused. -/
inductive Error where
  /-- The bytes of an identifier are not 16 but `length`. -/
  | malformedId (length : Nat)
  /-- The text does not write an identifier. -/
  | unreadableId (written : String)
  /-- All sequence numbers of this millisecond are used up. -/
  | sequenceExhausted (ms : UInt64)
  /-- The identifier asked for is not above the last one given out. -/
  | notIncreasing (id last : EntryId)
  /-- An entry without fields. -/
  | emptyEntry
  /-- The cursor was bound at one generation of its tree, which has since moved on to another. -/
  | staleCursor (bound current : Nat)
  /-- The cursor belongs to another tree. -/
  | foreignTree
  /-- A key of `expected` bytes was to be decoded from `found` bytes. -/
  | keyLength (expected found : Nat)
  /-- A text key is not UTF-8. -/
  | notUtf8 (flaw : Utf8.Flaw)
  /-- No seek operator is written like this. -/
  | unknownOperator (written : String)
  deriving DecidableEq, Repr

/-- A text between double quotes, for a message. -/
def Error.quote (written : String) : String := String.ofList (Text.quoted written.toList)

/-- The wording of a refusal. -/
def Error.message : Error → String
  | .malformedId length =>
    "malformed stream id: expected " ++ toString EntryId.encodedLength ++ " bytes, got "
      ++ toString length
  | .unreadableId written => "invalid stream id: " ++ Error.quote written
  | .sequenceExhausted ms => "sequence exhausted within millisecond " ++ toString ms.toNat
  | .notIncreasing id last =>
    "stream id " ++ id.text ++ " is not greater than last id " ++ last.text
  | .emptyEntry => "stream entry has no fields"
  | .staleCursor bound current =>
    "stale cursor: bound at generation " ++ toString bound ++ ", tree is at " ++ toString current
  | .foreignTree => "cursor is bound to a different tree"
  | .keyLength expected found =>
    "key decode: expected " ++ toString expected ++ " bytes, found " ++ toString found
  | .notUtf8 flaw => "key decode: " ++ flaw.message
  | .unknownOperator written => "unknown seek operator: " ++ Error.quote written

end RadixLog
