/-
**Nodes are keys and partings of keys.**

Two byte strings part after the longest byte string that both start with. Path compression keeps a
node for each key and for each place where two keys part, and for nothing else.

* `Bytes.PartAt`: where two byte strings part;
* `Subtree.Sound.exists_parting_keys`: a node without a value is where two keys part;
* `Subtree.Sound.exists_visit_of_partAt`: where two keys part there is a node;
* `Trunk.exists_visit_iff`: the paths of all nodes.
-/

import Mathlib.Data.List.Nodup
import RadixLog.Proofs.Seek
import RadixLog.Proofs.Subtree.Walk

namespace RadixLog

/-! ### Byte strings -/

namespace Bytes

variable {a b shared other : Bytes}

/-- **Two byte strings part after `shared`**: it is the longest byte string that both start with. -/
def PartAt (a b shared : Bytes) : Prop :=
  shared <+: a ∧ shared <+: b ∧ ∀ other, other <+: a → other <+: b → other <+: shared

theorem PartAt.unique (first : PartAt a b shared) (second : PartAt a b other) : shared = other :=
  (second.2.2 shared first.1 first.2.1).sublist.antisymm
    (first.2.2 other second.1 second.2.1).sublist

theorem PartAt.symm (parts : PartAt a b shared) : PartAt b a shared :=
  ⟨parts.2.1, parts.1, fun other first second => parts.2.2 other second first⟩

/-- What goes on from a byte string parts from it at its end. -/
theorem partAt_append (a rest : Bytes) : PartAt a (a ++ rest) a :=
  ⟨List.prefix_rfl, List.prefix_append _ _, fun _ first _ => first⟩

/-- Byte strings part before the first byte in which they differ. -/
theorem partAt_of_ne {x y : UInt8} (different : x ≠ y) (shared as bs : Bytes) :
    PartAt (shared ++ x :: as) (shared ++ y :: bs) shared := by
  refine ⟨List.prefix_append _ _, List.prefix_append _ _, fun other first second => ?_⟩
  rcases List.prefix_or_prefix_of_prefix first (List.prefix_append shared (x :: as)) with
    short | ⟨rest, rfl⟩
  · exact short
  · rw [List.prefix_append_right_inj] at first second
    cases rest with
    | nil => simp
    | cons byte rest =>
      rw [List.cons_prefix_cons] at first second
      exact absurd (first.1.symm.trans second.1) different

end Bytes

/-! ### Keys and nodes -/

variable {α : Type}

namespace Subtree

variable {sub child other : Subtree α} {above key : Bytes} {depth : Nat}

theorem mem_keys_iff_exists_visit : key ∈ Seek.keys (sub.entries above) ↔
    ∃ visit ∈ sub.visits above depth, visit.path = key ∧ visit.node.keyed = true := by
  rw [Seek.keys, Set.mem_ofPred_eq, ← entries_visits sub above depth]
  simp only [List.mem_flatMap, Node.keyed, Option.isSome_iff_exists]
  constructor
  · rintro ⟨value, visit, member, here⟩
    refine ⟨visit, member, ?_⟩
    cases found : visit.node.value <;> simp_all [own]
  · rintro ⟨visit, member, rfl, value, found⟩
    exact ⟨value, visit, member, by simp [found]⟩

/-- The keys of a subtree are its own, if it has a value, and those of its children. -/
theorem mem_keys_iff : key ∈ Seek.keys (sub.entries above) ↔
    key = above ++ sub.label ∧ sub.value.isSome = true ∨
      ∃ child ∈ sub.children, key ∈ Seek.keys (child.entries (above ++ sub.label)) := by
  simp only [Seek.keys, Set.mem_ofPred_eq, entries_eq above sub, List.mem_append, List.mem_flatMap,
    Option.isSome_iff_exists]
  constructor
  · rintro ⟨value, here | ⟨child, inside, found⟩⟩
    · refine .inl ⟨own_key here, ?_⟩
      cases keyed : sub.value <;> simp_all [own]
    · exact .inr ⟨child, inside, value, found⟩
  · rintro (⟨rfl, value, keyed⟩ | ⟨child, inside, value, found⟩)
    · exact ⟨value, .inl (by simp [keyed])⟩
    · exact ⟨value, .inr ⟨child, inside, found⟩⟩

theorem Headed.exists_append_of_mem_keys (headed : sub.Headed)
    (member : key ∈ Seek.keys (sub.entries above)) :
    ∃ rest, key = above ++ sub.edge.byte :: rest := by
  obtain ⟨value, found⟩ := member
  obtain ⟨more, spelled⟩ := exists_append_of_mem_entries found
  obtain ⟨tail, label⟩ := headed.exists_cons
  rw [label, List.append_assoc, List.cons_append] at spelled
  exact ⟨tail ++ more, spelled⟩

/-- Keys under children with different bytes part at the node. -/
theorem Headed.partAt (first : child.Headed) (second : other.Headed)
    (different : child.edge.byte ≠ other.edge.byte) {a b : Bytes}
    (left : a ∈ Seek.keys (child.entries above)) (right : b ∈ Seek.keys (other.entries above)) :
    a ≠ b ∧ Bytes.PartAt a b above := by
  obtain ⟨as, rfl⟩ := first.exists_append_of_mem_keys left
  obtain ⟨bs, rfl⟩ := second.exists_append_of_mem_keys right
  refine ⟨fun same => different ?_, Bytes.partAt_of_ne different above as bs⟩
  exact (List.cons.inj (List.append_cancel_left same)).1

theorem Sound.exists_key (sound : sub.Sound) (above : Bytes) :
    ∃ key, key ∈ Seek.keys (sub.entries above) := by
  obtain ⟨entry, member⟩ := List.exists_mem_of_ne_nil _ (sound.entries_ne_nil above)
  exact ⟨entry.1, entry.2, member⟩

/-- Children of a node are told apart by their bytes. -/
theorem Sound.child_ext (sound : sub.Sound) (first : child ∈ sub.children)
    (second : other ∈ sub.children) (same : child.edge.byte = other.edge.byte) : child = other := by
  have bytes : (sub.children.map fun child => child.edge.byte).Nodup :=
    List.pairwise_map.mpr ((List.pairwise_map.mp sound.sorted).imp fun less => UInt8.ne_of_lt less)
  exact List.inj_on_of_nodup_map bytes first second same

/-- **A node without a value is where two keys under it part.** -/
theorem Sound.exists_parting_keys (sound : sub.Sound) (valueless : sub.value = none)
    (above : Bytes) : ∃ a ∈ Seek.keys (sub.entries above), ∃ b ∈ Seek.keys (sub.entries above),
      a ≠ b ∧ Bytes.PartAt a b (above ++ sub.label) := by
  have several := sound.full valueless
  obtain ⟨first, second, others, children⟩ :
      ∃ first second others, sub.children = first :: second :: others := by
    match sub.children, several with
    | first :: second :: others, _ => exact ⟨first, second, others, rfl⟩
  have left : first ∈ sub.children := by simp [children]
  have right : second ∈ sub.children := by simp [children]
  have less : first.edge.byte < second.edge.byte := by
    have sorted := sound.sorted
    rw [children] at sorted
    exact List.rel_of_pairwise_cons sorted List.mem_cons_self
  obtain ⟨a, under⟩ := (sound.child first left).exists_key (above ++ sub.label)
  obtain ⟨b, under'⟩ := (sound.child second right).exists_key (above ++ sub.label)
  exact ⟨a, mem_keys_iff.mpr (.inr ⟨first, left, under⟩), b,
    mem_keys_iff.mpr (.inr ⟨second, right, under'⟩),
    (sound.headed first left).partAt (sound.headed second right) (UInt8.ne_of_lt less) under under'⟩

/-- **Where two keys part there is a node.** -/
theorem Sound.exists_visit_of_partAt (sound : sub.Sound) (depth : Nat) {a b shared : Bytes}
    (left : a ∈ Seek.keys (sub.entries above)) (right : b ∈ Seek.keys (sub.entries above))
    (different : a ≠ b) (parts : Bytes.PartAt a b shared) :
    ∃ visit ∈ sub.visits above depth, visit.path = shared := by
  induction sound generalizing above depth with
  | @node sub headed sorted full sound ih =>
    -- Two keys part at the node itself, unless both go on into the same child.
    have here : Bytes.PartAt a b (above ++ sub.label) →
        ∃ visit ∈ sub.visits above depth, visit.path = shared := by
      intro top
      rw [visits_eq]
      exact ⟨_, List.mem_cons_self, top.unique parts⟩
    rcases mem_keys_iff.mp left with ⟨rfl, _⟩ | ⟨child, inside, under⟩
    · rcases mem_keys_iff.mp right with ⟨rfl, _⟩ | ⟨child, inside, under⟩
      · exact absurd rfl different
      · obtain ⟨rest, rfl⟩ := (headed child inside).exists_append_of_mem_keys under
        exact here (Bytes.partAt_append _ _)
    · rcases mem_keys_iff.mp right with ⟨rfl, _⟩ | ⟨child', inside', under'⟩
      · obtain ⟨rest, rfl⟩ := (headed child inside).exists_append_of_mem_keys under
        exact here (Bytes.partAt_append _ _).symm
      · by_cases same : child.edge.byte = child'.edge.byte
        · obtain rfl := (Sound.node headed sorted full sound).child_ext inside inside' same
          obtain ⟨visit, member, path⟩ := ih child inside (depth + 1) under under'
          refine ⟨visit, ?_, path⟩
          rw [visits_eq]
          exact List.mem_cons_of_mem _ (List.mem_flatMap.mpr ⟨child, inside, member⟩)
        · exact here ((headed child inside).partAt (headed child' inside') same under under').2

end Subtree

namespace Trunk

variable {trunk : Trunk α} {key path : Bytes} {visit : Visit α}

theorem mem_keys_iff_exists_visit : key ∈ Seek.keys trunk.entries ↔
    ∃ visit ∈ trunk.visits, visit.path = key ∧ visit.node.keyed = true := by
  cases trunk with
  | none => simp [Seek.keys, entries, visits]
  | some whole => exact Subtree.mem_keys_iff_exists_visit

/-- **The paths of the nodes are the keys and where two keys part.** -/
theorem exists_visit_iff (sound : ∀ sub, trunk = some sub → sub.Sound) :
    (∃ visit ∈ trunk.visits, visit.path = path) ↔ path ∈ Seek.keys trunk.entries ∨
      ∃ a ∈ Seek.keys trunk.entries, ∃ b ∈ Seek.keys trunk.entries,
        a ≠ b ∧ Bytes.PartAt a b path := by
  constructor
  · rintro ⟨visit, member, rfl⟩
    obtain ⟨spine, sub, rfl, rfl⟩ := exists_spine_of_mem_visits member
    have inside : Seek.keys (sub.entries spine.spelled) ⊆
        Seek.keys ((spine.plug sub).entries []) := by
      rintro key ⟨value, found⟩
      exact ⟨value, by simp [Spine.entries_plug, found]⟩
    cases keyed : sub.value with
    | none =>
      obtain ⟨a, left, b, right, parts⟩ :=
        (Spine.sound_of_plug (sound _ rfl)).1.exists_parting_keys keyed spine.spelled
      exact .inr ⟨a, inside left, b, inside right, parts⟩
    | some value =>
      exact .inl (inside (Subtree.mem_keys_iff.mpr (.inl ⟨rfl, by rw [keyed]; rfl⟩)))
  · rintro (member | ⟨a, left, b, right, different, parts⟩)
    · obtain ⟨visit, member, path, _⟩ := mem_keys_iff_exists_visit.mp member
      exact ⟨visit, member, path⟩
    · cases trunk with
      | none =>
        obtain ⟨value, found⟩ := left
        exact absurd found List.not_mem_nil
      | some whole => exact (sound whole rfl).exists_visit_of_partAt 0 left right different parts

/-- **A node is a key if its path is one.** -/
theorem keyed_iff_mem_keys (sound : ∀ sub, trunk = some sub → sub.Sound)
    (member : visit ∈ trunk.visits) :
    visit.node.keyed = true ↔ visit.path ∈ Seek.keys trunk.entries := by
  rw [mem_keys_iff_exists_visit]
  constructor
  · exact fun keyed => ⟨visit, member, rfl, keyed⟩
  · rintro ⟨other, found, same, keyed⟩
    exact eq_of_path sound found member same ▸ keyed

end Trunk

end RadixLog
