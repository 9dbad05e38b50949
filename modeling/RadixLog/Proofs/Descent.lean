/-
**Where a descent ends.**

A descent through the nodes of a sound tree comes to a subtree of it and answers the trail of its
spine, its node, and how the key stands to it; everything before and after that subtree is on the
right side of the key.

* `Lands`: the three ways a key may stand to a subtree;
* `Arena.descend_reaches`: the descent of every key ends in one of them;
* `Reaches.exists_cut`: where it ends, the entries of the tree are cut in two at the key.
-/

import RadixLog.Proofs.Arena.Stores
import RadixLog.Proofs.Fault
import RadixLog.Proofs.Subtree.Entries
import RadixLog.Tree

namespace RadixLog

variable {α : Type} {arena : Arena α} {spine : Spine α} {sub trunk : Subtree α}

/-- How a key stands to the subtree at which its descent ends: its path spells the key; the key
parts from its label before the end, but not before the first byte if that is on an edge; or the key
goes on, and no child continues it. -/
inductive Lands (spine : Spine α) (sub : Subtree α) (key : Bytes) : Landing → Prop where
  | exact (spells : key = spine.spelled ++ sub.label) : Lands spine sub key .exact
  | inside (shared : Bytes) (byte : UInt8) (tail rest : Bytes)
    (label : sub.label = shared ++ byte :: tail) (spells : key = spine.spelled ++ (shared ++ rest))
    (parts : rest.head? ≠ some byte) (entered : spine ≠ [] → shared ≠ []) :
    Lands spine sub key (.inside shared.length (shared ++ rest))
  | between (left right : List (Subtree α)) (byte : UInt8) (rest : Bytes)
    (children : sub.children = left ++ right)
    (spells : key = spine.spelled ++ sub.label ++ byte :: rest)
    (lower : ∀ child ∈ left, child.edge.byte < byte)
    (higher : ∀ child ∈ right, byte < child.edge.byte) :
    Lands spine sub key (.between left.length (byte :: rest))

/-- **The descent of a key in a tree ends at this subtree**, in this way. -/
structure Reaches (trunk : Subtree α) (key : Bytes) (spine : Spine α) (sub : Subtree α)
    (landing : Landing) : Prop where
  whole : spine.plug sub = trunk
  brackets : spine.Brackets key
  lands : Lands spine sub key landing

/-! ### Search among children -/

/-- What a search among children may answer: the child under the byte, or a place for one, with
children under lower bytes before it and under higher bytes after it. -/
inductive Subtree.Finds (children : List (Subtree α)) (byte : UInt8) : Probe → Prop where
  | found (left right : List (Subtree α)) (child : Subtree α)
    (split : children = left ++ child :: right) (here : child.edge.byte = byte)
    (lower : ∀ child ∈ left, child.edge.byte < byte)
    (higher : ∀ child ∈ right, byte < child.edge.byte) :
    Finds children byte (.found left.length child.id)
  | missing (left right : List (Subtree α)) (split : children = left ++ right)
    (lower : ∀ child ∈ left, child.edge.byte < byte)
    (higher : ∀ child ∈ right, byte < child.edge.byte) : Finds children byte (.missing left.length)

theorem Subtree.Sound.probe_finds (sound : sub.Sound) (byte : UInt8) :
    Subtree.Finds sub.children byte (probe (sub.children.map Subtree.edge) byte) := by
  have sorted := sound.sorted
  have finds := RadixLog.probe_finds sorted byte
  generalize probe (sub.children.map Subtree.edge) byte = outcome at finds
  cases finds with
  | missing left right table lower higher =>
    obtain ⟨left, right, split, rfl, rfl⟩ := List.map_eq_append_iff.mp table
    rw [List.length_map]
    exact .missing left right split (by simpa using lower) (by simpa using higher)
  | found left right id table =>
    obtain ⟨left, others, split, rfl, tail⟩ := List.map_eq_append_iff.mp table
    obtain ⟨child, right, rfl, edge, rfl⟩ := List.map_eq_cons_iff.mp tail
    rw [split, List.map_append, List.map_cons, Edge.Sorted, List.pairwise_append,
      List.pairwise_cons, edge] at sorted
    rw [List.length_map, show id = child.id by rw [Subtree.id, edge]]
    exact .found left right child split (by rw [edge])
      (fun other member => sorted.2.2 _ (List.mem_map_of_mem member) _ List.mem_cons_self)
      fun other member => sorted.2.1.1 _ (List.mem_map_of_mem member)

/-! ### The descent -/

namespace Arena

theorem Holds.read_sub (holds : arena.Holds (spine.plug sub).nodes) :
    arena.node sub.id = .ok sub.top :=
  (holds.perm (spine.nodes_plug sub)).read (List.mem_append_left _ sub.top_mem_nodes)

/-- **Going on with a descent reaches where it ends.** -/
theorem descendFrom_reaches (holds : arena.Holds trunk.nodes) (sound : trunk.Sound) {fuel : Nat}
    (whole : spine.plug sub = trunk) (enough : sub.nodes.length ≤ fuel) (rest : Bytes)
    (brackets : spine.Brackets (spine.spelled ++ rest))
    (entered : spine ≠ [] → rest.head? = sub.label.head?) :
    ∃ spine' sub' landing, Reaches trunk (spine.spelled ++ rest) spine' sub' landing ∧
      arena.descendFrom fuel ⟨sub.id, spine.slot⟩ spine.links spine.spelled rest =
        .ok ⟨spine'.trail sub', sub'.top, landing⟩ := by
  -- Every step goes to a child, which has fewer nodes under it, and keeps the key bracketed.
  induction fuel generalizing spine sub rest with
  | zero =>
    rw [Subtree.nodes_eq] at enough
    exact absurd enough (Nat.not_succ_le_zero _)
  | succ fuel ih =>
    subst whole
    obtain ⟨soundSub, _⟩ := Spine.sound_of_plug sound
    obtain ⟨shared, onward, ahead, label, split, length, parts⟩ :=
      Bytes.exists_parting sub.label rest
    have read : arena.node sub.id = .ok sub.top := holds.read_sub
    rw [descendFrom, read]
    simp only [ok_bind, pure_eq_ok, Subtree.top_label, Subtree.top_children, ← length]
    cases onward with
    | cons byte tail =>
      have short : shared.length < sub.label.length := by simp [label]
      have shares : spine ≠ [] → shared ≠ [] := by
        rintro below rfl
        exact parts byte rfl (by simpa [label, split] using entered below)
      rw [if_pos short, split]
      exact ⟨spine, sub, _, ⟨rfl, split ▸ brackets, .inside shared byte tail ahead label rfl
        (parts byte rfl) shares⟩, rfl⟩
    | nil =>
      rw [List.append_nil] at label
      subst label
      have spells : spine.spelled ++ rest = spine.spelled ++ sub.label ++ ahead := by
        rw [split, List.append_assoc]
      rw [if_neg (Nat.lt_irrefl _), split, List.drop_left, ← split]
      cases ahead with
      | nil =>
        rw [List.append_nil] at spells
        exact ⟨spine, sub, _, ⟨rfl, brackets, .exact spells⟩, rfl⟩
      | cons byte ahead =>
        have finds := soundSub.probe_finds byte
        dsimp only
        generalize probe (sub.children.map Subtree.edge) byte = outcome at finds
        cases finds with
        | missing left right children lower higher =>
          exact ⟨spine, sub, _, ⟨rfl, brackets,
            .between left right byte ahead children spells lower higher⟩, rfl⟩
        | found left right child children here lower higher =>
          have fewer := Subtree.length_nodes_lt (show child ∈ sub.children by simp [children])
          have headed := soundSub.headed
          rw [children] at headed
          have enter : Spine.Brackets (sub.cut left right :: spine) (spine.spelled ++ rest) :=
            brackets.enter spells (fun child inside => headed child (List.mem_append_left _ inside))
              lower (fun child inside =>
                headed child (List.mem_append_right _ (List.mem_cons_of_mem _ inside))) higher
          rw [spells] at enter ⊢
          exact @ih (sub.cut left right :: spine) child
            (congrArg spine.plug (Subtree.close_cut children)) (by omega) (byte :: ahead) enter
            fun _ => by rw [headed child (by simp), here]; rfl

/-- **The descent from the root of a tree reaches where it ends.** -/
theorem descend_reaches (holds : arena.Holds trunk.nodes) (sound : trunk.Sound) (key : Bytes) :
    ∃ spine sub landing, Reaches trunk key spine sub landing ∧
      arena.descend trunk.id key = .ok ⟨spine.trail sub, sub.top, landing⟩ :=
  @descendFrom_reaches α arena [] trunk trunk holds sound _ rfl holds.length_le key (.nil _)
    fun nonempty => absurd rfl nonempty

end Arena

/-! ### The entries on either side of a key -/

namespace Spine

open Subtree

variable {key : Bytes}

/-- Where the path to a node spells the key, the value of the node is that of the key. -/
theorem cut_exact (sound : (plug spine sub).Sound) (brackets : spine.Brackets key)
    (spells : key = spine.spelled ++ sub.label) : Cut ((plug spine sub).entries []) key
      (before spine) sub.value (sub.children.flatMap (entries key) ++ after spine) := by
  refine ⟨spells ▸ entries_plug_own spine sub, brackets.1, fun entry member => ?_⟩
  rcases List.mem_append.mp member with under | late
  · obtain ⟨child, inside, found⟩ := List.mem_flatMap.mp under
    exact ((sound_of_plug sound).1.headed child inside).key_lt_entries found
  · exact brackets.2 entry late

/-- Where the key goes on between two children, it lies between what stands under them. -/
theorem cut_between (sound : (plug spine sub).Sound) (brackets : spine.Brackets key)
    {left right : List (Subtree α)} {byte : UInt8} {rest : Bytes}
    (children : sub.children = left ++ right)
    (spells : key = spine.spelled ++ sub.label ++ byte :: rest)
    (lower : ∀ child ∈ left, child.edge.byte < byte)
    (higher : ∀ child ∈ right, byte < child.edge.byte) : Cut ((plug spine sub).entries []) key
      (before spine ++ (own (spine.spelled ++ sub.label) sub.value ++
        left.flatMap (entries (spine.spelled ++ sub.label)))) none
      (right.flatMap (entries (spine.spelled ++ sub.label)) ++ after spine) := by
  have headed := (sound_of_plug sound).1.headed
  rw [children] at headed
  refine ⟨?_, fun entry member => ?_, fun entry member => ?_⟩
  · rw [entries_plug_own, children]
    simp
  · rcases List.mem_append.mp member with early | near
    · exact brackets.1 entry early
    · exact spells ▸
        lt_of_mem_left (fun child inside => headed child (List.mem_append_left _ inside))
          lower rest near
  · rcases List.mem_append.mp member with near | late
    · exact spells ▸ lt_of_mem_right
        (fun child inside => headed child (List.mem_append_right _ inside)) higher rest near
    · exact brackets.2 entry late

/-- A key that parts from the label of a subtree stands to all its entries as to the label. -/
theorem order_entry {shared tail rest : Bytes} {byte : UInt8}
    (label : sub.label = shared ++ byte :: tail)
    (spells : key = spine.spelled ++ (shared ++ rest)) (parts : rest.head? ≠ some byte)
    {entry : Bytes × α} (member : entry ∈ sub.entries spine.spelled) :
    Bytes.order key entry.1 = Bytes.order (shared ++ rest) sub.label := by
  obtain ⟨more, path⟩ := exists_append_of_mem_entries member
  rw [path, spells, List.append_assoc, Bytes.order_append_left, label, Bytes.order_parted parts]

/-- Where the key parts from an edge downwards, or ends in it, it lies before all under the edge. -/
theorem cut_inside_low (brackets : spine.Brackets key) {shared tail rest : Bytes} {byte : UInt8}
    (label : sub.label = shared ++ byte :: tail) (spells : key = spine.spelled ++ (shared ++ rest))
    (parts : rest.head? ≠ some byte) (low : Bytes.order (shared ++ rest) sub.label = .lt) :
    Cut ((plug spine sub).entries []) key (before spine) none
      (sub.entries spine.spelled ++ after spine) := by
  refine ⟨by rw [entries_plug]; simp, brackets.1, fun entry member => ?_⟩
  rcases List.mem_append.mp member with under | late
  · exact Bytes.order_eq_lt.mp ((order_entry label spells parts under).trans low)
  · exact brackets.2 entry late

/-- Where the key parts from an edge upwards, it lies after all under the edge. -/
theorem cut_inside_high (brackets : spine.Brackets key) {shared tail rest : Bytes} {byte : UInt8}
    (label : sub.label = shared ++ byte :: tail) (spells : key = spine.spelled ++ (shared ++ rest))
    (parts : rest.head? ≠ some byte) (high : Bytes.order (shared ++ rest) sub.label ≠ .lt) :
    Cut ((plug spine sub).entries []) key (before spine ++ sub.entries spine.spelled) none
      (after spine) := by
  refine ⟨by rw [entries_plug]; simp, fun entry member => ?_, brackets.2⟩
  rcases List.mem_append.mp member with early | under
  · exact brackets.1 entry early
  · have different : Bytes.order (shared ++ rest) sub.label ≠ .eq := by
      rw [ne_eq, Bytes.order_eq_eq, label, List.append_cancel_left_eq]
      rintro rfl
      exact parts rfl
    rw [← Bytes.order_eq_gt, order_entry label spells parts under]
    cases order : Bytes.order (shared ++ rest) sub.label <;> simp_all

end Spine

/-- **Every descent cuts the entries of a sound tree at the key.** -/
theorem Reaches.exists_cut (sound : trunk.Sound) {key : Bytes} {landing : Landing}
    (reaches : Reaches trunk key spine sub landing) :
    ∃ lower upper, Cut (trunk.entries []) key lower
      (if landing = .exact then sub.value else none) upper := by
  obtain ⟨rfl, brackets, lands⟩ := reaches
  cases lands with
  | exact spells => exact ⟨_, _, Spine.cut_exact sound brackets spells⟩
  | inside shared byte tail rest label spells parts _ =>
    by_cases low : Bytes.order (shared ++ rest) sub.label = .lt
    · exact ⟨_, _, Spine.cut_inside_low brackets label spells parts low⟩
    · exact ⟨_, _, Spine.cut_inside_high brackets label spells parts low⟩
  | between left right byte rest children spells lower higher =>
    exact ⟨_, _, Spine.cut_between sound brackets children spells lower higher⟩

end RadixLog
