/-
**Seek operators and directions.**

An operator names the key sought relative to a target: the target itself, the nearest key above or
below it, or one of the ends, for which the target does not matter. Each has a symbol:

* `Seek.symbol`, `Seek.ofSymbol`: operators as text;
* `Seek.holds`: whether a key that compares to the target in a given way satisfies an operator.
-/

import RadixLog.Error

namespace RadixLog

/-- Which key is sought, relative to a target. -/
inductive Seek where
  /-- The target itself. -/
  | eq
  /-- The least key above the target. -/
  | gt
  /-- The least key that is not below the target. -/
  | ge
  /-- The greatest key below the target. -/
  | lt
  /-- The greatest key that is not above the target. -/
  | le
  /-- The least key. -/
  | min
  /-- The greatest key. -/
  | max
  deriving DecidableEq, Repr

namespace Seek

/-- The symbol of an operator. -/
def symbol : Seek → String
  | .eq => "="
  | .gt => ">"
  | .ge => ">="
  | .lt => "<"
  | .le => "<="
  | .min => "^"
  | .max => "$"

/-- The name of an operator. -/
def name : Seek → String
  | .eq => "Eq"
  | .gt => "Gt"
  | .ge => "Ge"
  | .lt => "Lt"
  | .le => "Le"
  | .min => "Min"
  | .max => "Max"

/-- The operator that a symbol stands for; equality may also be doubled. -/
def ofSymbol (written : String) : Except Error Seek :=
  if written = "=" ∨ written = "==" then .ok .eq
  else if written = ">" then .ok .gt
  else if written = ">=" then .ok .ge
  else if written = "<" then .ok .lt
  else if written = "<=" then .ok .le
  else if written = "^" then .ok .min
  else if written = "$" then .ok .max
  else .error (.unknownOperator written)

/-- Whether a key that compares to the target as `comparison` says satisfies the operator. The ends
are places and not comparisons: nothing satisfies them. -/
def holds : Seek → (comparison : Ordering) → Bool
  | .eq, comparison => comparison == .eq
  | .gt, comparison => comparison == .gt
  | .ge, comparison => comparison != .lt
  | .lt, comparison => comparison == .lt
  | .le, comparison => comparison != .gt
  | .min, _ => false
  | .max, _ => false

end Seek

/-- A direction along the keys. -/
inductive Direction where
  | forward
  | backward
  deriving DecidableEq, Repr

/-- The direction taken when none is asked for. -/
def Direction.default : Direction := .forward

/-- The name of a direction. -/
def Direction.name : Direction → String
  | .forward => "Forward"
  | .backward => "Backward"

end RadixLog
