/-
**Finite maps under encoded keys.**

Keys of any ordered type are kept in a tree as byte strings. When the encoding keeps the order, a
map from keys and a map from their encodings list the same entries in the same order, and stay so
through the same changes.

* `Codes`: an encoding that keeps the order, which makes it an order (`Codes.transCmp`);
* `Mirrors`: a map from encoded keys that has the entries of a map;
* `Mirrors.toList`, `Mirrors.of_toList`: the two list the same entries;
* `Mirrors.insert`, `Mirrors.erase`: changes of one key.
-/

import RadixLog.Proofs.KeyMap

namespace RadixLog

variable {κ α : Type} {cmp : κ → κ → Ordering} {encode : κ → Bytes}

/-- The entry under its encoded key. -/
def underCode (encode : κ → Bytes) (item : κ × α) : Bytes × α := (encode item.1, item.2)

/-- **An encoding keeps the order** when encoded keys compare as the keys do. -/
def Codes (encode : κ → Bytes) (cmp : κ → κ → Ordering) : Prop :=
  ∀ a b, Bytes.order (encode a) (encode b) = cmp a b

theorem Codes.injective [Std.LawfulEqCmp cmp] (codes : Codes encode cmp) :
    Function.Injective encode := by
  intro a b same
  exact Std.LawfulEqCmp.eq_of_compare ((codes a b).symm.trans (Bytes.order_eq_eq.mpr same))

/-- An order that an encoding keeps is as transitive as that of byte strings. -/
theorem Codes.transCmp (codes : Codes encode cmp) : Std.TransCmp cmp where
  eq_swap := by
    intro a b
    rw [← codes, ← codes]
    exact Std.OrientedCmp.eq_swap
  isLE_trans := by
    intro a b c first second
    rw [← codes] at first second ⊢
    exact Std.TransCmp.isLE_trans first second

/-- Keys that compare as equal are equal, if encoded keys can be told apart. -/
theorem Codes.lawfulEqCmp (codes : Codes encode cmp) (injective : Function.Injective encode) :
    Std.LawfulEqCmp cmp where
  compare_self := by
    intro a
    rw [← codes]
    exact Bytes.order_eq_eq.mpr rfl
  eq_of_compare := by
    intro a b same
    exact injective (Bytes.order_eq_eq.mp ((codes a b).trans same))

variable [Std.TransCmp cmp]

/-- **A map from encoded keys mirrors a map** when it has the same entries under encoded keys. -/
structure Mirrors (encode : κ → Bytes) (coded : KeyMap α) (map : Std.ExtTreeMap κ α cmp) :
    Prop where
  getElem? : ∀ key, coded[encode key]? = map[key]?
  encoded : ∀ code ∈ coded, ∃ key, encode key = code

namespace Mirrors

variable {coded : KeyMap α} {map : Std.ExtTreeMap κ α cmp}

theorem empty : Mirrors encode (∅ : KeyMap α) (∅ : Std.ExtTreeMap κ α cmp) where
  getElem? _ := rfl
  encoded _ member := absurd member Std.ExtTreeMap.not_mem_empty

theorem insert (mirrors : Mirrors encode coded map) (codes : Codes encode cmp) (key : κ)
    (value : α) : Mirrors encode (coded.insert (encode key) value) (map.insert key value) where
  getElem? other := by
    rw [Std.ExtTreeMap.getElem?_insert, Std.ExtTreeMap.getElem?_insert, codes, mirrors.getElem?]
  encoded code member := by
    rcases Std.ExtTreeMap.mem_insert.mp member with same | earlier
    · exact ⟨key, Bytes.order_eq_eq.mp same⟩
    · exact mirrors.encoded code earlier

theorem erase (mirrors : Mirrors encode coded map) (codes : Codes encode cmp) (key : κ) :
    Mirrors encode (coded.erase (encode key)) (map.erase key) where
  getElem? other := by
    rw [Std.ExtTreeMap.getElem?_erase, Std.ExtTreeMap.getElem?_erase, codes, mirrors.getElem?]
  encoded code member := mirrors.encoded code (Std.ExtTreeMap.mem_erase.mp member).2

variable [Std.LawfulEqCmp cmp]

/-- **A map and its mirror list the same entries.** -/
theorem toList (mirrors : Mirrors encode coded map) (codes : Codes encode cmp) :
    coded.toList = map.toList.map (underCode encode) := by
  have ascend : Ascend (map.toList.map (underCode encode)) := by
    refine List.pairwise_map.mpr (map.ordered_keys_toList.imp fun {a b} less => ?_)
    exact Bytes.order_eq_lt.mp ((codes a.1 b.1).trans less)
  refine coded.ascend.eq_of_mem_iff ascend ?_
  rintro ⟨code, value⟩
  rw [Std.ExtTreeMap.mem_toList_iff_getElem?_eq_some, List.mem_map]
  constructor
  · intro found
    have member : code ∈ coded := Std.ExtTreeMap.mem_iff_isSome_getElem?.mpr (by rw [found]; rfl)
    obtain ⟨key, rfl⟩ := mirrors.encoded code member
    refine ⟨(key, value), ?_, rfl⟩
    rwa [Std.ExtTreeMap.mem_toList_iff_getElem?_eq_some, ← mirrors.getElem?]
  · rintro ⟨⟨key, held⟩, found, same⟩
    obtain ⟨rfl, rfl⟩ := Prod.mk.inj same
    rwa [mirrors.getElem?, ← Std.ExtTreeMap.mem_toList_iff_getElem?_eq_some]

/-- **Two maps that list the same entries mirror each other.** -/
theorem of_toList (codes : Codes encode cmp)
    (same : coded.toList = map.toList.map (underCode encode)) : Mirrors encode coded map where
  getElem? key := by
    ext value
    rw [← Std.ExtTreeMap.mem_toList_iff_getElem?_eq_some, same,
      ← Std.ExtTreeMap.mem_toList_iff_getElem?_eq_some, List.mem_map]
    constructor
    · rintro ⟨⟨other, held⟩, found, equal⟩
      obtain ⟨code, rfl⟩ := Prod.mk.inj equal
      exact codes.injective code ▸ found
    · exact fun found => ⟨(key, value), found, rfl⟩
  encoded code member := by
    obtain ⟨value, found⟩ := Option.isSome_iff_exists.mp
      (Std.ExtTreeMap.mem_iff_isSome_getElem?.mp member)
    rw [← Std.ExtTreeMap.mem_toList_iff_getElem?_eq_some, same, List.mem_map] at found
    obtain ⟨item, _, equal⟩ := found
    exact ⟨item.1, congrArg Prod.fst equal⟩

theorem size (mirrors : Mirrors encode coded map) (codes : Codes encode cmp) :
    coded.size = map.size := by
  rw [← Std.ExtTreeMap.length_toList, mirrors.toList codes, List.length_map,
    Std.ExtTreeMap.length_toList]

end Mirrors

end RadixLog
