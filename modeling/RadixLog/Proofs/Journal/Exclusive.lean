/-
**Bounds that leave their identifier out.**

What a range hands out depends on the identifiers that its bounds admit, and not on how they are
written. A lower bound that leaves an identifier out admits the same as one that includes the
neighbour above, and an upper one the same as one that includes the neighbour below. Where there is
no neighbour, nothing is admitted.

* `Bound.above_excluding`, `Bound.below_excluding`: bounds turned into such as include;
* `Journal.Lists.unique`, `Journal.Records.exists_gives_both`: bounds that admit the same give the same
  ranges;
* `Journal.exclusive_bounds_step`: what holds of the ranges of every journal that can come about.
-/

import RadixLog.Proofs.EntryId.Neighbours
import RadixLog.Proofs.Journal.Between

namespace RadixLog

/-! ### Bounds -/

namespace Bound

variable {a b : EntryId}

/-- Above an identifier, nothing comes before its neighbour. -/
theorem above_excluding (next : a.succ? = some b) : (excluding a).above = (including b).above :=
  (EntryId.succ?_eq_some_iff_covBy.mp next).Ioi_eq

/-- Below an identifier, nothing comes after its neighbour. -/
theorem below_excluding (previous : a.pred? = some b) :
    (excluding a).below = (including b).below :=
  (EntryId.pred?_eq_some_iff_covBy.mp previous).Iio_eq

theorem not_mem_above_greatest {id : EntryId} (last : a.succ? = none) :
    id ∉ (excluding a).above := by
  rw [EntryId.succ?_eq_none_iff.mp last]
  exact not_lt_of_ge id.le_greatest

theorem not_mem_below_least {id : EntryId} (first : a.pred? = none) :
    id ∉ (excluding a).below := by
  rw [EntryId.pred?_eq_none_iff.mp first]
  exact not_lt_of_ge id.least_le

end Bound

namespace Journal

variable {journal : Journal} {lower upper lower' upper' : Bound} {items items' : List (EntryId × Entry)}

/-! ### Lists of what is between two bounds -/

/-- **What is between two bounds has one list.** Of the bounds it matters only what they admit. -/
theorem Lists.unique (lists : journal.Lists lower upper items)
    (lists' : journal.Lists lower' upper' items') (above : lower.above = lower'.above)
    (below : upper.below = upper'.below) : items = items' := by
  refine lists.ascend.eq_of_mem_iff lists'.ascend fun (id, entry) => ?_
  rw [lists.between, lists'.between, above, below]

/-- Nothing is between bounds of which one admits nothing. -/
theorem Lists.eq_nil (lists : journal.Lists lower upper items)
    (nothing : ∀ id, id ∈ lower.above → id ∉ upper.below) : items = [] := by
  refine List.eq_nil_iff_forall_not_mem.mpr fun (id, entry) member => ?_
  obtain ⟨_, above, below⟩ := (lists.between id entry).mp member
  exact nothing id above below

/-! ### Ranges between two bounds -/

/-- **The ranges between two bounds give items**: in this order from the lower one up, and the other
way round from the upper one down. -/
structure Gives (journal : Journal) (lower upper : Bound) (items : List (EntryId × Entry)) :
    Prop where
  ascending : ∃ up, journal.ascending lower upper = .ok up ∧ up.HandsOut items
  descending : ∃ down, journal.descending lower upper = .ok down ∧ down.HandsOut items.reverse

variable {options : JournalOptions} {log : Log}

theorem Records.exists_gives (records : journal.Records options log) (lower upper : Bound) :
    ∃ items, journal.Lists lower upper items ∧ journal.Gives lower upper items := by
  obtain ⟨items, up, down, lists, ascends, upwards, descends, downwards⟩ :=
    records.exists_ranges lower upper
  exact ⟨items, lists, ⟨up, ascends, upwards⟩, down, descends, downwards⟩

/-- **Bounds that admit the same give the same ranges.** -/
theorem Records.exists_gives_both (records : journal.Records options log)
    (above : lower.above = lower'.above) (below : upper.below = upper'.below) :
    ∃ items, journal.Gives lower upper items ∧ journal.Gives lower' upper' items := by
  obtain ⟨items, lists, gives⟩ := records.exists_gives lower upper
  obtain ⟨items', lists', gives'⟩ := records.exists_gives lower' upper'
  obtain rfl := lists.unique lists' above below
  exact ⟨items, gives, gives'⟩

/-- Bounds of which one admits nothing give empty ranges. -/
theorem Records.gives_nil (records : journal.Records options log)
    (nothing : ∀ id, id ∈ lower.above → id ∉ upper.below) : journal.Gives lower upper [] := by
  obtain ⟨items, lists, gives⟩ := records.exists_gives lower upper
  rwa [lists.eq_nil nothing] at gives

/-- **Neighbours are adjacent, and turn exclusive bounds into inclusive ones.** Every identifier but
the greatest has the least one above it as its neighbour above, every one but the least has the
greatest one below it as its neighbour below, and each neighbour leads back. After every run of calls
from an empty journal, a range from above an identifier is the range from its neighbour on, and a
range to below an identifier is the range to its neighbour, whatever the other bound is; where there
is no neighbour, the range is empty. -/
theorem exclusive_bounds_step :
    (∀ a : EntryId, (a.succ? = none ↔ a = .greatest) ∧ (a.pred? = none ↔ a = .least) ∧
      ∀ b, (a.succ? = some b ↔ IsLeast (Set.Ioi a) b) ∧
        (a.pred? = some b ↔ IsGreatest (Set.Iio a) b) ∧ (a.succ? = some b ↔ b.pred? = some a)) ∧
    ∀ (options : JournalOptions) (calls : List JournalCall), ∃ replies journal,
      (empty options).answerAll calls = .ok (replies, journal) ∧ ∀ (a : EntryId) (bound : Bound),
        (∀ next, a.succ? = some next → ∃ items, journal.Gives (.excluding a) bound items ∧
          journal.Gives (.including next) bound items) ∧
        (∀ previous, a.pred? = some previous → ∃ items, journal.Gives bound (.excluding a) items ∧
          journal.Gives bound (.including previous) items) ∧
        (a.succ? = none → journal.Gives (.excluding a) bound []) ∧
        (a.pred? = none → journal.Gives bound (.excluding a) []) := by
  constructor
  · intro a
    refine ⟨EntryId.succ?_eq_none_iff, EntryId.pred?_eq_none_iff, fun b => ⟨?_, ?_, ?_⟩⟩
    · exact EntryId.succ?_eq_some_iff
    · exact EntryId.pred?_eq_some_iff
    · rw [EntryId.succ?_eq_some_iff_covBy, EntryId.pred?_eq_some_iff_covBy]
  · intro options calls
    obtain ⟨replies, journal, log, goes, _, records⟩ := (Records.empty options).answerAll calls
    refine ⟨replies, journal, goes, fun a bound => ⟨fun next above => ?_, fun previous below => ?_,
      fun last => ?_, fun first => ?_⟩⟩
    · exact records.exists_gives_both (Bound.above_excluding above) rfl
    · exact records.exists_gives_both rfl (Bound.below_excluding below)
    · exact records.gives_nil fun _ above => absurd above (Bound.not_mem_above_greatest last)
    · exact records.gives_nil fun _ _ => Bound.not_mem_below_least first

/-- From above the last identifier of a millisecond, a range begins with the first of the next. -/
theorem range_over_carry : ∃ replies journal, (empty {}).answerAll
      [.append (.explicit ⟨7, EntryId.partMax⟩) ⟨[([1], [])]⟩ 0,
        .append (.explicit ⟨8, 0⟩) ⟨[([2], [])]⟩ 0] = .ok (replies, journal) ∧
    EntryId.succ? ⟨7, EntryId.partMax⟩ = some ⟨8, 0⟩ ∧
    journal.Gives (.excluding ⟨7, EntryId.partMax⟩) .unbounded [(⟨8, 0⟩, ⟨[([2], [])]⟩)] ∧
    journal.Gives (.including ⟨8, 0⟩) .unbounded [(⟨8, 0⟩, ⟨[([2], [])]⟩)] := by
  obtain ⟨replies, journal, goes, steps⟩ := exclusive_bounds_step.2 {}
    [.append (.explicit ⟨7, EntryId.partMax⟩) ⟨[([1], [])]⟩ 0,
      .append (.explicit ⟨8, 0⟩) ⟨[([2], [])]⟩ 0]
  have next : EntryId.succ? ⟨7, EntryId.partMax⟩ = some ⟨8, 0⟩ := by decide
  obtain ⟨items, gives, gives'⟩ := (steps ⟨7, EntryId.partMax⟩ .unbounded).1 ⟨8, 0⟩ next
  refine ⟨replies, journal, goes, next, ?_⟩
  obtain ⟨up, ascends, handsOut⟩ := gives.ascending
  have listed : (journal.ascending (.excluding ⟨7, EntryId.partMax⟩) .unbounded >>= Range.toList) =
      .ok [(⟨8, 0⟩, ⟨[([2], [])]⟩)] := by
    cases goes
    rfl
  rw [ascends, ok_bind, handsOut.toList] at listed
  obtain rfl := Except.ok.inj listed
  exact ⟨gives, gives'⟩

end Journal

end RadixLog
