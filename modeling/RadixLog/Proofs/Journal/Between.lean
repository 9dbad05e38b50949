/-
**Ranges list what is between their bounds.**

Whatever two bounds are given, the range from the lower one up hands out the entries that are stored
between them, each once and in ascending order of identifiers, and the range from the upper one down
hands out the same the other way round. A range that has come to its end stays there.

* `Bound.above`, `Bound.below`: the identifiers on the inner side of a bound;
* `Journal.Lists`: a list of all the entries between two bounds;
* `Range.HandsOut`: what is answered to calls for the next entry;
* `Journal.Records.exists_ranges`: both ranges of a journal that records a log;
* `Journal.ranges_mirror`: both ranges after every run of calls.
-/

import Mathlib.Order.Interval.Set.Defs
import RadixLog.Proofs.Journal.Records

namespace RadixLog

/-! ### Between two bounds -/

namespace Bound

/-- The identifiers on the inner side of a lower bound. -/
def above : Bound → Set EntryId
  | .unbounded => Set.univ
  | .including id => Set.Ici id
  | .excluding id => Set.Ioi id

/-- The identifiers on the inner side of an upper bound. -/
def below : Bound → Set EntryId
  | .unbounded => Set.univ
  | .including id => Set.Iic id
  | .excluding id => Set.Iio id

theorem admitsFrom_iff_mem {lower : Bound} {id : EntryId} :
    lower.admitsFrom id = true ↔ id ∈ lower.above := by
  cases lower with
  | unbounded => exact ⟨fun _ => Set.mem_univ id, fun _ => rfl⟩
  | including bound => exact decide_eq_true_iff
  | excluding bound => exact decide_eq_true_iff

theorem admitsTo_iff_mem {upper : Bound} {id : EntryId} :
    upper.admitsTo id = true ↔ id ∈ upper.below := by
  cases upper with
  | unbounded => exact ⟨fun _ => Set.mem_univ id, fun _ => rfl⟩
  | including bound => exact decide_eq_true_iff
  | excluding bound => exact decide_eq_true_iff

end Bound

/-- **The entries between two bounds** are those of the map whose identifiers both bounds admit. -/
theorem IdMap.mem_between {map : IdMap} {lower upper : Bound} {id : EntryId} {entry : Entry} :
    (id, entry) ∈ map.between lower upper ↔
      map[id]? = some entry ∧ id ∈ lower.above ∧ id ∈ upper.below := by
  rw [IdMap.between, List.mem_filter, Std.ExtTreeMap.mem_toList_iff_getElem?_eq_some,
    Bool.and_eq_true, Bound.admitsFrom_iff_mem, Bound.admitsTo_iff_mem]

/-- **A list of the entries between two bounds**, each once, in ascending order of identifiers. -/
structure Journal.Lists (journal : Journal) (lower upper : Bound)
    (items : List (EntryId × Entry)) : Prop where
  ascend : items.Pairwise fun a b => a.1 < b.1
  /-- The items are the entries stored under identifiers on the inner side of both bounds. -/
  between : ∀ id entry, (id, entry) ∈ items ↔
    journal.get? id = .ok (some entry) ∧ id ∈ lower.above ∧ id ∈ upper.below

/-! ### What a range hands out -/

namespace Range

variable {range : Range} {items : List (EntryId × Entry)}

/-- **A range hands out items**: one by one, in this order, and then nothing more. -/
structure HandsOut (range : Range) (items : List (EntryId × Entry)) : Prop where
  toList : range.toList = .ok items
  calls : ∀ count, range.calls count = .ok ((List.range count).map fun place => items[place]?)
  /-- A range that is over stays over, however often it is called. -/
  stays : ∀ count answers, range.calls count = .ok answers →
    answers.Pairwise fun earlier later => earlier = none → later = none

theorem Leaves.handsOut (leaves : range.Leaves items)
    (fits : items.length ≤ range.scan.tree.arena.slots.size) : range.HandsOut items where
  toList := leaves.toList fits
  calls := leaves.calls
  stays := by
    intro count answers goes
    rw [leaves.calls] at goes
    obtain rfl := Except.ok.inj goes
    rw [List.pairwise_map]
    refine List.pairwise_lt_range.imp fun {place other} less beyond => ?_
    rw [List.getElem?_eq_none_iff] at beyond ⊢
    exact beyond.trans less.le

end Range

/-! ### Ranges of a journal -/

namespace Journal

variable {journal : Journal} {options : JournalOptions} {log : Log}

theorem Records.lists (records : journal.Records options log) (lower upper : Bound) :
    journal.Lists lower upper (log.map.between lower upper) where
  ascend := log.map.ascend.filter _
  between := by
    intro id entry
    rw [IdMap.mem_between, records.views.get?, Except.ok.injEq]

/-- **The ranges between two bounds** hand out what is between them, each in its order. -/
theorem Records.exists_ranges (records : journal.Records options log) (lower upper : Bound) :
    ∃ items up down, journal.Lists lower upper items ∧
      journal.ascending lower upper = .ok up ∧ up.HandsOut items ∧
      journal.descending lower upper = .ok down ∧ down.HandsOut items.reverse := by
  have room := length_between_le records.files lower upper
  obtain ⟨up, ascends, upTree, upwards⟩ := ascending_leaves records.files lower upper
  obtain ⟨down, descends, downTree, downwards⟩ := descending_leaves records.files lower upper
  refine ⟨_, up, down, records.lists lower upper, ascends, upwards.handsOut ?_, descends,
    downwards.handsOut ?_⟩
  · rwa [upTree]
  · rwa [downTree, List.length_reverse]

/-- **Ranges are exact and mirror each other.** After every run of calls from an empty journal and
between any two bounds, also such as no identifier is between, the ascending range hands out the
entries that are stored between them, each once and in ascending order, and the descending range
hands out the same list reversed. -/
theorem ranges_mirror (options : JournalOptions) (calls : List JournalCall) :
    ∃ replies journal, (empty options).answerAll calls = .ok (replies, journal) ∧
      ∀ lower upper, ∃ items up down, journal.Lists lower upper items ∧
        journal.ascending lower upper = .ok up ∧ up.HandsOut items ∧
        journal.descending lower upper = .ok down ∧ down.HandsOut items.reverse := by
  obtain ⟨replies, journal, log, goes, _, records⟩ := (Records.empty options).answerAll calls
  exact ⟨replies, journal, goes, records.exists_ranges⟩

end Journal

end RadixLog
