/-
**Identifiers or refusals.**

Reading, decoding and generating identifiers, each with the refusal that names what went wrong.
-/

import RadixLog.Error

namespace RadixLog.EntryId

/-- Reads the written form of an identifier. -/
def read (written : String) : Except Error EntryId :=
  match parse written.toList with
  | some id => .ok id
  | none => .error (.unreadableId written)

/-- The identifier whose form as a key these bytes are. -/
def decode (bytes : Bytes) : Except Error EntryId :=
  match decode? bytes with
  | some id => .ok id
  | none => .error (.malformedId bytes.length)

/-- The identifier to give out after `last` when the clock reads `now`. -/
def next (last : EntryId) (now : UInt64) : Except Error EntryId :=
  match following last now with
  | some id => .ok id
  | none => .error (.sequenceExhausted last.ms)

end RadixLog.EntryId
