/-
**Steps that may end in a fault or a refusal.**

How a step that has ended well, or has not, goes on with the next one.
-/

import RadixLog.Fault

namespace RadixLog

variable {ε α β : Type}

@[simp]
theorem ok_bind (value : α) (next : α → Except ε β) : (Except.ok value >>= next) = next value := rfl

@[simp]
theorem error_bind (error : ε) (next : α → Except ε β) :
    (Except.error error >>= next) = .error error := rfl

@[simp]
theorem pure_eq_ok (value : α) : (pure value : Except ε α) = .ok value := rfl

@[simp]
theorem map_ok (convert : α → β) (value : α) :
    (convert <$> (Except.ok value : Except ε α)) = .ok (convert value) := rfl

/-- A step that ends well began with one that did. -/
theorem bind_eq_ok {first : Except ε α} {next : α → Except ε β} {result : β}
    (goes : (first >>= next) = .ok result) :
    ∃ value, first = .ok value ∧ next value = .ok result := by
  cases first with
  | error error => cases goes
  | ok value => exact ⟨value, rfl, goes⟩

/-- Steps that all end well, one for each item, end well together. -/
theorem mapM_eq_ok {step : α → Except ε β} {result : α → β} {items : List α}
    (goes : ∀ item ∈ items, step item = .ok (result item)) :
    items.mapM step = .ok (items.map result) := by
  induction items with
  | nil => rfl
  | cons item items ih =>
    rw [List.mapM_cons, goes item List.mem_cons_self, ok_bind,
      ih fun other member => goes other (List.mem_cons_of_mem _ member)]
    rfl

end RadixLog
