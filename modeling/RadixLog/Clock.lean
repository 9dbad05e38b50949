/-
**A settable clock.**

A clock that moves only when told to, for identifiers that do not depend on the time of day.
-/

namespace RadixLog

/-- A clock, by its reading in milliseconds. -/
structure Clock where
  now : UInt64 := 0
  deriving DecidableEq, Repr

namespace Clock

/-- Puts the clock to a reading. -/
def set (_ : Clock) (ms : UInt64) : Clock := ⟨ms⟩

/-- Moves the clock on; past its greatest reading it starts again from zero. -/
def advance (clock : Clock) (ms : UInt64) : Clock := ⟨clock.now + ms⟩

end Clock

end RadixLog
