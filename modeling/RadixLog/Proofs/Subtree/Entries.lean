/-
**The entries of a sound subtree, in order.**

* `Subtree.Sound.ascend`: keys strictly ascend in preorder;
* `Subtree.Sound.entries_ne_nil`: under every node there is a key;
* `Spine.Brackets`: a key lies between what is before and what is after a subtree, and still does
  when the spine grows towards it (`Spine.Brackets.enter`).
-/

import RadixLog.Proofs.Subtree

namespace RadixLog

variable {α : Type}

namespace Subtree

variable {sub : Subtree α} {above rest : Bytes} {byte : UInt8}

/-! ### Subtrees on either side of a key -/

theorem Headed.exists_cons (headed : sub.Headed) : ∃ rest, sub.label = sub.edge.byte :: rest :=
  List.head?_eq_some_iff.mp headed

/-- A child under a lower byte has only keys below. -/
theorem Headed.entries_lt (headed : sub.Headed) (lower : sub.edge.byte < byte)
    {entry : Bytes × α} (member : entry ∈ sub.entries above) : entry.1 < above ++ byte :: rest := by
  obtain ⟨more, spelled⟩ := exists_append_of_mem_entries member
  obtain ⟨tail, label⟩ := headed.exists_cons
  rw [spelled, label, List.append_assoc]
  exact Bytes.append_cons_lt above lower _ _

theorem Headed.lt_entries (headed : sub.Headed) (higher : byte < sub.edge.byte)
    {entry : Bytes × α} (member : entry ∈ sub.entries above) : above ++ byte :: rest < entry.1 := by
  obtain ⟨more, spelled⟩ := exists_append_of_mem_entries member
  obtain ⟨tail, label⟩ := headed.exists_cons
  rw [spelled, label, List.append_assoc]
  exact Bytes.append_cons_lt above higher _ _

theorem Headed.key_lt_entries (headed : sub.Headed) {entry : Bytes × α}
    (member : entry ∈ sub.entries above) : above < entry.1 := by
  obtain ⟨more, spelled⟩ := exists_append_of_mem_entries member
  obtain ⟨tail, label⟩ := headed.exists_cons
  rw [spelled, label, List.append_assoc]
  exact Bytes.lt_append_cons above _ _

/-! ### Sound subtrees -/

/-- **The keys of a sound subtree strictly ascend.** -/
theorem Sound.ascend (sound : sub.Sound) (above : Bytes) : Ascend (sub.entries above) := by
  induction sound generalizing above with
  | @node sub headed sorted _ _ ih =>
    rw [entries_eq, Ascend, List.pairwise_append, List.pairwise_flatMap]
    refine ⟨?_, ⟨fun child member => ih child member _, ?_⟩, fun a here b under => ?_⟩
    · cases sub.value <;> simp
    · refine (List.pairwise_map.mp sorted).imp_of_mem
        fun {x y} left right less a first b second => ?_
      obtain ⟨more, spelled⟩ := exists_append_of_mem_entries second
      obtain ⟨tail, label⟩ := (headed y right).exists_cons
      rw [spelled, label, List.append_assoc]
      exact (headed x left).entries_lt less first
    · obtain ⟨child, member, found⟩ := List.mem_flatMap.mp under
      rw [own_key here]
      exact (headed child member).key_lt_entries found

/-- **Under every node of a sound subtree there is a key.** -/
theorem Sound.entries_ne_nil (sound : sub.Sound) (above : Bytes) : sub.entries above ≠ [] := by
  induction sound generalizing above with
  | @node sub _ _ full _ ih =>
    rw [entries_eq]
    cases value : sub.value with
    | some value => simp
    | none =>
      have several := full value
      obtain ⟨child, member⟩ :=
        List.exists_mem_of_length_pos (show 0 < sub.children.length by omega)
      have nonempty := ih child member (above ++ sub.label)
      simp only [own_none, List.nil_append, ne_eq, List.flatMap_eq_nil_iff, not_forall]
      exact ⟨child, member, nonempty⟩

end Subtree

namespace Spine

open Subtree

variable {spine : Spine α} {sub : Subtree α} {key : Bytes}

/-! ### Keys between what is before and what is after -/

/-- What is before a subtree is below the key, and what is after it is above. -/
def Brackets (spine : Spine α) (key : Bytes) : Prop :=
  (∀ entry ∈ before spine, entry.1 < key) ∧ ∀ entry ∈ after spine, key < entry.1

theorem Brackets.nil (key : Bytes) : Brackets ([] : Spine α) key := by
  simp [Brackets, before, after]

/-- What stands at and left of a place in a child table is below the keys that go on there. -/
theorem lt_of_mem_left {above : Bytes} {value : Option α} {left : List (Subtree α)} {byte : UInt8}
    (headed : ∀ child ∈ left, child.Headed) (lower : ∀ child ∈ left, child.edge.byte < byte)
    (rest : Bytes) {entry : Bytes × α}
    (member : entry ∈ own above value ++ left.flatMap (entries above)) :
    entry.1 < above ++ byte :: rest := by
  rcases List.mem_append.mp member with here | under
  · rw [own_key here]
    exact Bytes.lt_append_cons above _ _
  · obtain ⟨child, inside, found⟩ := List.mem_flatMap.mp under
    exact (headed child inside).entries_lt (lower child inside) found

theorem lt_of_mem_right {above : Bytes} {right : List (Subtree α)} {byte : UInt8}
    (headed : ∀ child ∈ right, child.Headed) (higher : ∀ child ∈ right, byte < child.edge.byte)
    (rest : Bytes) {entry : Bytes × α} (member : entry ∈ right.flatMap (entries above)) :
    above ++ byte :: rest < entry.1 := by
  obtain ⟨child, inside, found⟩ := List.mem_flatMap.mp member
  exact (headed child inside).lt_entries (higher child inside) found

/-- **Going on to the child that a key continues with keeps the key between.** -/
theorem Brackets.enter {frame : Frame α} {byte : UInt8} {rest : Bytes}
    (brackets : Brackets spine key)
    (split : key = spelled spine ++ frame.label ++ byte :: rest)
    (headedLeft : ∀ child ∈ frame.left, child.Headed)
    (lower : ∀ child ∈ frame.left, child.edge.byte < byte)
    (headedRight : ∀ child ∈ frame.right, child.Headed)
    (higher : ∀ child ∈ frame.right, byte < child.edge.byte) : Brackets (frame :: spine) key := by
  refine ⟨fun entry member => ?_, fun entry member => ?_⟩
  · rcases List.mem_append.mp member with early | near
    · exact brackets.1 entry early
    · exact split ▸ lt_of_mem_left headedLeft lower rest near
  · rcases List.mem_append.mp member with near | late
    · exact split ▸ lt_of_mem_right headedRight higher rest near
    · exact brackets.2 entry late

end Spine

end RadixLog
