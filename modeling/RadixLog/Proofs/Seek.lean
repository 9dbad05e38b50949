/-
**Which key an operator asks for.**

Among keys in byte-wise lexicographic order, an operator asks for the target, for the nearest key on
one side of it, or for one of the ends. In a list of entries in ascending order that key is picked
by comparing each with the target.

* `Seek.Wants`: the key asked for, among a set of keys;
* `Seek.pick`: the entry picked from a list;
* `Seek.wants_of_pick`, `Seek.not_wants_of_pick`: picking finds the key asked for.
-/

import Mathlib.Data.Set.Basic
import Mathlib.Order.Bounds.Basic
import RadixLog.Proofs.Entries
import RadixLog.Seek

namespace RadixLog.Seek

variable {α : Type} {entries : List (Bytes × α)} {entry : Bytes × α}

/-- **The key that an operator asks for**, among these keys. -/
def Wants (op : Seek) (keys : Set Bytes) (target key : Bytes) : Prop :=
  match op with
  | .eq => key = target ∧ target ∈ keys
  | .gt => IsLeast {other ∈ keys | target < other} key
  | .ge => IsLeast {other ∈ keys | target ≤ other} key
  | .lt => IsGreatest {other ∈ keys | other < target} key
  | .le => IsGreatest {other ∈ keys | other ≤ target} key
  | .min => IsLeast keys key
  | .max => IsGreatest keys key

/-- The entry that an operator picks from entries in ascending order. -/
def pick (op : Seek) (target : Bytes) (entries : List (Bytes × α)) : Option (Bytes × α) :=
  match op with
  | .eq => (entries.filter fun entry => entry.1 = target).head?
  | .gt => (entries.filter fun entry => target < entry.1).head?
  | .ge => (entries.filter fun entry => target ≤ entry.1).head?
  | .lt => (entries.filter fun entry => entry.1 < target).getLast?
  | .le => (entries.filter fun entry => entry.1 ≤ target).getLast?
  | .min => entries.head?
  | .max => entries.getLast?

/-- The keys of entries. -/
def keys (entries : List (Bytes × α)) : Set Bytes := {key | ∃ value, (key, value) ∈ entries}

theorem pick_mem {op : Seek} {target : Bytes} (picked : op.pick target entries = some entry) :
    entry ∈ entries := by
  cases op with
  | min => exact List.mem_of_mem_head? picked
  | max => exact List.mem_of_mem_getLast? picked
  | eq => exact (List.mem_filter.mp (List.mem_of_mem_head? picked)).1
  | gt => exact (List.mem_filter.mp (List.mem_of_mem_head? picked)).1
  | ge => exact (List.mem_filter.mp (List.mem_of_mem_head? picked)).1
  | lt => exact (List.mem_filter.mp (List.mem_of_mem_getLast? picked)).1
  | le => exact (List.mem_filter.mp (List.mem_of_mem_getLast? picked)).1

/-- The first entry that satisfies a condition has the least key that does. -/
theorem isLeast_of_head? (ascend : Ascend entries) (holds : Bytes → Bool)
    (first : (entries.filter fun entry => holds entry.1).head? = some entry) :
    IsLeast {key ∈ keys entries | holds key} entry.1 := by
  have member := List.mem_filter.mp (List.mem_of_mem_head? first)
  refine ⟨⟨⟨entry.2, member.1⟩, member.2⟩, ?_⟩
  rintro other ⟨⟨value, found⟩, good⟩
  exact Ascend.le_of_head? (List.Pairwise.filter _ ascend) first
    (List.mem_filter.mpr ⟨found, good⟩)

theorem isGreatest_of_getLast? (ascend : Ascend entries) (holds : Bytes → Bool)
    (last : (entries.filter fun entry => holds entry.1).getLast? = some entry) :
    IsGreatest {key ∈ keys entries | holds key} entry.1 := by
  have member := List.mem_filter.mp (List.mem_of_mem_getLast? last)
  refine ⟨⟨⟨entry.2, member.1⟩, member.2⟩, ?_⟩
  rintro other ⟨⟨value, found⟩, good⟩
  exact Ascend.le_of_getLast? (List.Pairwise.filter _ ascend) last
    (List.mem_filter.mpr ⟨found, good⟩)

/-- **The key picked is the one asked for.** -/
theorem wants_of_pick {op : Seek} {target : Bytes} (ascend : Ascend entries)
    (picked : op.pick target entries = some entry) : op.Wants (keys entries) target entry.1 := by
  cases op with
  | eq =>
    have member := List.mem_filter.mp (List.mem_of_mem_head? picked)
    have same : entry.1 = target := by simpa using member.2
    exact ⟨same, entry.2, same ▸ member.1⟩
  | gt => simpa [Wants] using isLeast_of_head? ascend (fun key => target < key) picked
  | ge => simpa [Wants] using isLeast_of_head? ascend (fun key => target ≤ key) picked
  | lt => simpa [Wants] using isGreatest_of_getLast? ascend (fun key => key < target) picked
  | le => simpa [Wants] using isGreatest_of_getLast? ascend (fun key => key ≤ target) picked
  | min =>
    simpa [Wants] using isLeast_of_head? ascend (fun _ => true) (by simpa [pick] using picked)
  | max =>
    simpa [Wants] using isGreatest_of_getLast? ascend (fun _ => true) (by simpa [pick] using picked)

/-- **If none is picked, none is asked for.** -/
theorem not_wants_of_pick {op : Seek} {target : Bytes} (nothing : op.pick target entries = none)
    (key : Bytes) : ¬ op.Wants (keys entries) target key := by
  cases op with
  | eq =>
    rintro ⟨rfl, value, member⟩
    have none := List.filter_eq_nil_iff.mp (List.head?_eq_none_iff.mp nothing) _ member
    simp at none
  | gt | ge =>
    rintro ⟨⟨⟨value, member⟩, good⟩, _⟩
    have none := List.filter_eq_nil_iff.mp (List.head?_eq_none_iff.mp nothing) _ member
    exact none (decide_eq_true good)
  | lt | le =>
    rintro ⟨⟨⟨value, member⟩, good⟩, _⟩
    have none := List.filter_eq_nil_iff.mp (List.getLast?_eq_none_iff.mp nothing) _ member
    exact none (decide_eq_true good)
  | min =>
    rintro ⟨⟨value, member⟩, _⟩
    rw [List.head?_eq_none_iff.mp nothing] at member
    exact absurd member List.not_mem_nil
  | max =>
    rintro ⟨⟨value, member⟩, _⟩
    rw [List.getLast?_eq_none_iff.mp nothing] at member
    exact absurd member List.not_mem_nil

end RadixLog.Seek
