/-
**Journal entries.**

An entry is a list of fields, each a name and a value. Names may repeat, and the order in which fields
were added is kept.
-/

import RadixLog.Bytes

namespace RadixLog

/-- The fields of an entry, in the order in which they were added. -/
structure Entry where
  fields : List (Bytes × Bytes) := []
  deriving DecidableEq, Repr

namespace Entry

/-- The entry with one field more, at the end. -/
def push (entry : Entry) (name value : Bytes) : Entry := ⟨entry.fields ++ [(name, value)]⟩

/-- The entry with these fields, added one after the other. -/
def ofFields (fields : List (Bytes × Bytes)) : Entry :=
  fields.foldl (fun entry (name, value) => entry.push name value) ⟨[]⟩

/-- The value of the first field of a given name. -/
def get? (entry : Entry) (name : Bytes) : Option Bytes :=
  (entry.fields.find? fun field => field.1 == name).map (·.2)

/-- The number of fields. -/
def size (entry : Entry) : Nat := entry.fields.length

/-- Whether there are no fields. -/
def isEmpty (entry : Entry) : Bool := entry.fields.isEmpty

end Entry

end RadixLog
