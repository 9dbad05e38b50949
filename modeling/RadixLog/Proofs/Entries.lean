/-
**Entries in order of their keys.**

Entries are keys with values. A list of them ascends when each key is below the next one. Such a
list is cut in two at any key: what is below it, what stands at it if the key is there, and what is
above it.

* `Ascend.eq_of_mem_iff`: an ascending list is determined by its entries;
* `Ascend.le_of_head?`, `Ascend.le_of_getLast?`: its first and its last key;
* `Cut.mem_iff`: what stands at a cut;
* `Cut.filter_lt`, `Cut.filter_gt` and their kin: the sides of a cut by comparing keys.
-/

import Mathlib.Data.List.Perm.Basic
import Mathlib.Tactic.Common
import RadixLog.Proofs.Bytes.Order

namespace RadixLog

variable {α : Type} {entries others lower upper : List (Bytes × α)} {key : Bytes} {value : Option α}
  {entry : Bytes × α}

/-- The entry of a key, if it has a value. -/
def own (key : Bytes) (value : Option α) : List (Bytes × α) := (value.map (key, ·)).toList

@[simp]
theorem own_none (key : Bytes) : own key (none : Option α) = [] := rfl

@[simp]
theorem own_some (key : Bytes) (value : α) : own key (some value) = [(key, value)] := rfl

theorem own_key (member : entry ∈ own key value) : entry.1 = key := by
  cases value <;> simp_all [own]

/-! ### Ascending lists -/

/-- Entries in strictly ascending order of their keys. -/
def Ascend (entries : List (Bytes × α)) : Prop := entries.Pairwise fun a b => a.1 < b.1

namespace Ascend

theorem nodup (ascend : Ascend entries) : entries.Nodup :=
  List.Pairwise.imp (fun {_ _} less same => ne_of_lt less (congrArg Prod.fst same)) ascend

/-- **Ascending lists of the same entries are the same.** -/
theorem eq_of_mem_iff (first : Ascend entries) (second : Ascend others)
    (same : ∀ entry, entry ∈ entries ↔ entry ∈ others) : entries = others :=
  ((List.perm_ext_iff_of_nodup first.nodup second.nodup).mpr same).eq_of_pairwise
    (fun _ _ _ _ less greater => absurd less (lt_asymm greater)) first second

theorem le_of_head? (ascend : Ascend entries) (first : entries.head? = some entry)
    {other : Bytes × α} (member : other ∈ entries) : entry.1 ≤ other.1 := by
  obtain ⟨rest, rfl⟩ := List.head?_eq_some_iff.mp first
  rcases List.mem_cons.mp member with rfl | later
  · exact le_rfl
  · exact le_of_lt (List.rel_of_pairwise_cons ascend later)

theorem le_of_getLast? (ascend : Ascend entries) (last : entries.getLast? = some entry)
    {other : Bytes × α} (member : other ∈ entries) : other.1 ≤ entry.1 := by
  obtain ⟨rest, rfl⟩ := List.getLast?_eq_some_iff.mp last
  rcases List.mem_append.mp member with before | here
  · exact le_of_lt ((List.pairwise_append.mp ascend).2.2 other before entry (by simp))
  · rw [List.mem_singleton.mp here]

end Ascend

/-! ### Cuts -/

/-- Entries cut in two at a key, with the value of the key, if it has one, in between. -/
structure Cut (entries : List (Bytes × α)) (key : Bytes) (lower : List (Bytes × α))
    (value : Option α) (upper : List (Bytes × α)) : Prop where
  split : entries = lower ++ (own key value ++ upper)
  below : ∀ entry ∈ lower, entry.1 < key
  above : ∀ entry ∈ upper, key < entry.1

namespace Cut

/-- An ascending list is cut at any of its keys. -/
theorem of_split {value : α} (ascend : Ascend entries)
    (split : entries = lower ++ (own key (some value) ++ upper)) :
    Cut entries key lower (some value) upper := by
  have parts := List.pairwise_append.mp (split ▸ ascend)
  exact ⟨split, fun entry member => parts.2.2 entry member (key, value) (by simp),
    fun entry member => List.rel_of_pairwise_cons parts.2.1 member⟩

theorem nil (key : Bytes) : Cut ([] : List (Bytes × α)) key [] none [] := ⟨rfl, nofun, nofun⟩

/-- The value at the cut is the one that the entries give the key. -/
theorem mem_iff (cut : Cut entries key lower value upper) {found : α} :
    (key, found) ∈ entries ↔ value = some found := by
  have notBelow : (key, found) ∉ lower := fun member => lt_irrefl _ (cut.below _ member)
  have notAbove : (key, found) ∉ upper := fun member => lt_irrefl _ (cut.above _ member)
  rw [cut.split]
  cases value <;> simp [notBelow, notAbove, eq_comm]

/-- The entries besides the one at a cut are those of the other keys. -/
theorem mem_others (cut : Cut entries key lower value upper) (other : Bytes) (found : α) :
    (other, found) ∈ lower ++ upper ↔ other ≠ key ∧ (other, found) ∈ entries := by
  have outside : (other, found) ∈ lower ++ upper → other ≠ key := by
    rintro member rfl
    rcases List.mem_append.mp member with low | high
    · exact lt_irrefl _ (cut.below _ low)
    · exact lt_irrefl _ (cut.above _ high)
  have here : (other, found) ∈ own key value → other = key := own_key
  rw [cut.split]
  simp only [List.mem_append] at outside ⊢
  tauto

/-- Another value may stand at a cut, or none. -/
theorem ascend (cut : Cut entries key lower value upper) (ascend : Ascend entries)
    (new : Option α) : Ascend (lower ++ (own key new ++ upper)) := by
  have parts := cut.split ▸ ascend
  simp only [Ascend, List.pairwise_append] at parts ⊢
  refine ⟨parts.1, ⟨by cases new <;> simp, parts.2.1.2.1, fun a here b member => ?_⟩,
    fun a low b member => ?_⟩
  · exact own_key here ▸ cut.above b member
  · rcases List.mem_append.mp member with here | high
    · exact own_key here ▸ cut.below a low
    · exact lt_trans (cut.below a low) (cut.above b high)

/-! ### The sides of a cut -/

/-- A condition on keys that only depends on their side of a cut takes all entries of a side or
none. -/
theorem filter_eq (cut : Cut entries key lower value upper) (holds : Bytes → Bool)
    (low here high : Bool) (below : ∀ other, other < key → holds other = low)
    (level : holds key = here) (above : ∀ other, key < other → holds other = high) :
    entries.filter (fun entry => holds entry.1) =
      (if low then lower else []) ++ ((if here then own key value else []) ++
        if high then upper else []) := by
  have all : ∀ (part : List (Bytes × α)) (kept : Bool), (∀ entry ∈ part, holds entry.1 = kept) →
      part.filter (fun entry => holds entry.1) = if kept then part else [] := by
    intro part kept same
    cases kept
    · exact List.filter_eq_nil_iff.mpr fun entry member => by simp [same entry member]
    · exact List.filter_eq_self.mpr same
  rw [cut.split, List.filter_append, List.filter_append,
    all lower low fun entry member => below _ (cut.below entry member),
    all (own key value) here fun entry member => own_key member ▸ level,
    all upper high fun entry member => above _ (cut.above entry member)]

theorem filter_lt (cut : Cut entries key lower value upper) :
    entries.filter (fun entry => entry.1 < key) = lower := by
  have sides := cut.filter_eq (fun other => other < key) true false false
    (fun _ less => decide_eq_true less) (decide_eq_false (lt_irrefl _))
    fun _ less => decide_eq_false (lt_asymm less)
  simpa using sides

theorem filter_le (cut : Cut entries key lower value upper) :
    entries.filter (fun entry => entry.1 ≤ key) = lower ++ own key value := by
  have sides := cut.filter_eq (fun other => other ≤ key) true true false
    (fun _ less => decide_eq_true (le_of_lt less)) (decide_eq_true le_rfl)
    fun _ less => decide_eq_false (not_le_of_gt less)
  simpa using sides

theorem filter_eq_key (cut : Cut entries key lower value upper) :
    entries.filter (fun entry => entry.1 = key) = own key value := by
  have sides := cut.filter_eq (fun other => other = key) false true false
    (fun _ less => decide_eq_false (ne_of_lt less)) (decide_eq_true rfl)
    fun _ less => decide_eq_false (ne_of_gt less)
  simpa using sides

theorem filter_ge (cut : Cut entries key lower value upper) :
    entries.filter (fun entry => key ≤ entry.1) = own key value ++ upper := by
  have sides := cut.filter_eq (fun other => key ≤ other) false true true
    (fun _ less => decide_eq_false (not_le_of_gt less)) (decide_eq_true le_rfl)
    fun _ less => decide_eq_true (le_of_lt less)
  simpa using sides

theorem filter_gt (cut : Cut entries key lower value upper) :
    entries.filter (fun entry => key < entry.1) = upper := by
  have sides := cut.filter_eq (fun other => key < other) false false true
    (fun _ less => decide_eq_false (lt_asymm less)) (decide_eq_false (lt_irrefl _))
    fun _ less => decide_eq_true less
  simpa using sides

end Cut

end RadixLog
