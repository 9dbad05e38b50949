/-
**Finite maps from byte strings.**

A finite map lists its entries in strictly ascending order of keys, and no other such list has the
same entries. Cutting the list at a key tells what the map gives the key, and what inserting and
erasing make of the list.

* `KeyMap.ascend`: the list of a map ascends;
* `Cut.getElem?_eq`: what stands at a cut is what the map gives the key;
* `Cut.toList_insert`, `Cut.toList_erase`: a key inserted and erased at a cut.
-/

import Mathlib
import RadixLog.Proofs.Entries

namespace RadixLog

/-- A finite map from byte strings to values, in byte-wise lexicographic order of the keys. -/
abbrev KeyMap (α : Type) := Std.ExtTreeMap Bytes α Bytes.order

variable {α : Type} {map : KeyMap α} {lower upper : List (Bytes × α)}
  {key : Bytes} {old : Option α}

theorem KeyMap.ascend (map : KeyMap α) : Ascend map.toList :=
  map.ordered_keys_toList.imp Bytes.order_eq_lt.mp

namespace Cut

/-- **What stands at a cut is what the map gives the key.** -/
theorem getElem?_eq (cut : Cut map.toList key lower old upper) : map[key]? = old := by
  ext found
  rw [← Std.ExtTreeMap.mem_toList_iff_getElem?_eq_some, cut.mem_iff]

/-- **Inserting puts the key at the cut.** -/
theorem toList_insert (cut : Cut map.toList key lower old upper) (value : α) :
    (map.insert key value).toList = lower ++ (key, value) :: upper := by
  refine (KeyMap.ascend _).eq_of_mem_iff (cut.ascend map.ascend (some value)) ?_
  rintro ⟨other, found⟩
  have others := cut.mem_others other found
  simp only [List.mem_append, Std.ExtTreeMap.mem_toList_iff_getElem?_eq_some] at others
  simp only [Std.ExtTreeMap.mem_toList_iff_getElem?_eq_some, Std.ExtTreeMap.getElem?_insert,
    Bytes.order_eq_eq, List.mem_append]
  by_cases same : key = other
  · subst same
    simp only [ne_eq, not_true_eq_false, false_and, iff_false, not_or] at others
    simp [others, eq_comm]
  · simp only [ne_eq, Ne.symm same, not_false_eq_true, true_and] at others
    simp [same, Ne.symm same, others]

/-- **Erasing leaves nothing at the cut.** -/
theorem toList_erase (cut : Cut map.toList key lower old upper) :
    (map.erase key).toList = lower ++ upper := by
  refine (KeyMap.ascend _).eq_of_mem_iff (cut.ascend map.ascend none) ?_
  rintro ⟨other, found⟩
  rw [cut.mem_others, Std.ExtTreeMap.mem_toList_iff_getElem?_eq_some,
    Std.ExtTreeMap.mem_toList_iff_getElem?_eq_some, Std.ExtTreeMap.getElem?_erase]
  by_cases same : key = other
  · simp [same]
  · simp [same, Ne.symm same]

end Cut

end RadixLog
