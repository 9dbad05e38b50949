/-
**Descents by index.**

A descent may leave its key whole, count the bytes that are behind it, and read what it needs of the
key at indices. Where an index is out of range there is no answer. On a tree every index is in
range, and a descent visits at most one node more than its key has bytes.

* `Arena.descendAt`: the descent that reads its key at indices;
* `Arena.descendAt_of_descend`: it answers what the descent answers;
* `Landing.InRange`: what is read where a descent has ended is there;
* `Reaches.length_trail_le`: every node below the root takes a byte of the key.
-/

import RadixLog.Proofs.Descent

namespace RadixLog

variable {α : Type} {arena : Arena α} {spine : Spine α} {sub trunk : Subtree α} {key : Bytes}

namespace Bytes

/-- The bytes from an index on, unless the index is out of range. -/
def onward? (bytes : Bytes) (index : Nat) : Option Bytes :=
  if index ≤ bytes.length then some (bytes.drop index) else none

/-- An index in range is at the end, or there is a byte at it. -/
theorem ended_or_onward (bytes : Bytes) {index : Nat} (inside : index ≤ bytes.length) :
    (index = bytes.length ∧ bytes.drop index = []) ∨ ∃ byte rest, bytes[index]? = some byte ∧
      index ≠ bytes.length ∧ bytes.drop index = byte :: rest := by
  by_cases ends : index = bytes.length
  · exact .inl ⟨ends, List.drop_eq_nil_of_le ends.ge⟩
  · have further : index < bytes.length := Nat.lt_of_le_of_ne inside ends
    exact .inr ⟨bytes[index], bytes.drop (index + 1), List.getElem?_eq_getElem further, ends,
      List.drop_eq_getElem_cons further⟩

theorem common_le_length (a b : Bytes) : common a b ≤ b.length := by
  obtain ⟨shared, _, others, _, rfl, length, _⟩ := exists_parting a b
  rw [← length, List.length_append]
  exact Nat.le_add_right _ _

/-- Bytes that another byte string does not part from are what it starts with. -/
theorem eq_take_common {a b : Bytes} (whole : ¬ common a b < a.length) : a = b.take (common a b) := by
  obtain ⟨shared, onward, others, rfl, rfl, length, _⟩ := exists_parting a b
  rw [← length, List.length_append, Nat.lt_add_right_iff_pos, List.length_pos_iff, not_not] at whole
  rw [← length, List.take_left, whole, List.append_nil]

end Bytes

/-- The number of nodes on a path. -/
def Trail.length (trail : Trail) : Nat := trail.above.length + 1

/-- What is read where a descent has ended is there. An edge that the key leaves has a byte after
the shared ones, at which it is cut, and so has what is left of the key, unless it ends there. A key
that goes on has a byte to branch on, and the place for it is one of the table or right after it. -/
def Landing.InRange (node : Node α) : Landing → Prop
  | .exact => True
  | .inside common rest => common < node.label.length ∧ common ≤ rest.length
  | .between slot rest => slot ≤ node.children.length ∧ rest ≠ []

/-! ### Reading the key at indices -/

namespace Arena

/-- Continues a descent of a key into the node of `link`, with `depth` bytes of the key behind it.
There is no answer where an index is out of range or a link leads nowhere, or if the turns run
out. -/
def descendAt (arena : Arena α) (key : Bytes) :
    (turns : Nat) → (link : Link) → (above : List Link) → (depth : Nat) → Option (Descent α)
  | 0, _, _, _ => none
  | turns + 1, link, above, depth => do
    let node ← (arena.node link.node).toOption
    let rest ← key.onward? depth
    let common := Bytes.common node.label rest
    let trail : Trail := ⟨link, above, key.take depth ++ node.label⟩
    if common < node.label.length then
      return ⟨trail, node, .inside common rest⟩
    else if depth + common = key.length then
      return ⟨trail, node, .exact⟩
    else
      let byte ← key[depth + common]?
      match probe node.children byte with
      | .missing slot => return ⟨trail, node, .between slot (← key.onward? (depth + common))⟩
      | .found slot child =>
        arena.descendAt key turns ⟨child, slot⟩ (link :: above) (depth + common)

/-- **A descent that goes on well reads the key in range**, and takes a turn for every link that it
adds to its path and one for the node where it ends. -/
theorem descendAt_of_descendFrom {fuel depth : Nat} {link : Link} {above : List Link}
    {descent : Descent α} (inside : depth ≤ key.length)
    (goes : arena.descendFrom fuel link above (key.take depth) (key.drop depth) = .ok descent) :
    ∃ more, descent.trail.above.length = above.length + more ∧
      ∀ spare, arena.descendAt key (spare + more + 1) link above depth = some descent := by
  induction fuel generalizing link above depth with
  | zero => cases goes
  | succ fuel ih =>
    rw [descendFrom] at goes
    obtain ⟨node, read, goes⟩ := bind_eq_ok goes
    dsimp only at goes
    have here : key.onward? depth = some (key.drop depth) := if_pos inside
    obtain ⟨common, shared⟩ : ∃ common, Bytes.common node.label (key.drop depth) = common := ⟨_, rfl⟩
    rw [shared] at goes
    by_cases short : common < node.label.length
    · rw [if_pos short] at goes
      cases goes
      refine ⟨0, rfl, fun spare => ?_⟩
      simp [descendAt, read, Except.toOption, here, shared, short]
    · have whole : node.label = (key.drop depth).take common :=
        shared ▸ Bytes.eq_take_common (shared ▸ short)
      have still : depth + common ≤ key.length := by
        have fewer := Bytes.common_le_length node.label (key.drop depth)
        rw [shared, List.length_drop] at fewer
        omega
      rw [if_neg short, List.drop_drop] at goes
      rcases key.ended_or_onward still with ⟨ends, nothing⟩ | ⟨byte, rest, branch, further, next⟩
      · rw [nothing] at goes
        cases goes
        refine ⟨0, rfl, fun spare => ?_⟩
        simp [descendAt, read, Except.toOption, here, shared, short, ends]
      · rw [next] at goes
        dsimp only at goes
        have onward : key.onward? (depth + common) = some (byte :: rest) := next ▸ if_pos still
        cases search : probe node.children byte with
        | missing slot =>
          rw [search] at goes
          cases goes
          refine ⟨0, rfl, fun spare => ?_⟩
          simp [descendAt, read, Except.toOption, here, shared, short, further, branch, search,
            onward]
        | found slot child =>
          rw [search] at goes
          dsimp only at goes
          have spelled : key.take depth ++ node.label = key.take (depth + common) := by
            rw [List.take_add, ← whole]
          rw [spelled, ← next] at goes
          obtain ⟨more, links, answers⟩ := ih still goes
          refine ⟨more + 1, ?_, fun spare => ?_⟩
          · rw [links, List.length_cons]
            omega
          · rw [descendAt, read]
            simp only [Except.toOption, here, Option.bind_eq_bind, Option.bind_some, shared,
              if_neg short, if_neg further, branch, search]
            exact answers spare

/-- **A descent from a root reads its key in range**, if it may take a turn for every node that it
visits. -/
theorem descendAt_of_descend {root : NodeRef} {descent : Descent α} {turns : Nat}
    (goes : arena.descend root key = .ok descent) (enough : descent.trail.length ≤ turns) :
    arena.descendAt key turns ⟨root, 0⟩ [] 0 = some descent := by
  obtain ⟨more, links, answers⟩ :=
    @descendAt_of_descendFrom α arena key _ 0 ⟨root, 0⟩ [] descent (Nat.zero_le _) goes
  rw [Trail.length, links, List.length_nil, Nat.zero_add] at enough
  obtain ⟨spare, rfl⟩ := Nat.exists_eq_add_of_le' enough
  exact answers spare

end Arena

/-! ### Where a descent has ended -/

theorem Spine.length_links (spine : Spine α) : spine.links.length = spine.length := by
  induction spine with
  | nil => rfl
  | cons frame spine ih => rw [links, List.length_cons, ih, List.length_cons]

/-- Every node below the root has a label with a byte in it. -/
theorem Spine.length_le_spelled (sound : (plug spine sub).Sound) :
    spine.length ≤ spine.spelled.length + 1 := by
  induction spine generalizing sub with
  | nil => exact Nat.zero_le _
  | cons frame spine ih =>
    have shorter := ih sound
    rw [spelled, List.length_append, List.length_cons]
    by_cases top : spine = []
    · rw [top]
      exact Nat.le_add_left _ _
    · obtain ⟨rest, label⟩ : ∃ rest, frame.label = frame.edge.byte :: rest :=
        ((@sound_of_plug α spine (frame.close sub) sound).2 top).exists_cons
      rw [label, List.length_cons]
      omega

namespace Reaches

variable {landing : Landing}

/-- **A descent visits at most one node more than its key has bytes.** -/
theorem length_trail_le (sound : trunk.Sound) (reaches : Reaches trunk key spine sub landing) :
    (spine.trail sub).length ≤ key.length + 1 := by
  obtain ⟨rfl, _, lands⟩ := reaches
  apply Nat.succ_le_succ
  show spine.links.length ≤ key.length
  rw [spine.length_links]
  by_cases top : spine = []
  · rw [top]
    exact Nat.zero_le _
  · -- The last node takes a byte more, whichever way the key stands to it.
    have above := Spine.length_le_spelled sound
    obtain ⟨rest, label⟩ := ((Spine.sound_of_plug sound).2 top).exists_cons
    suffices further : spine.spelled.length + 1 ≤ key.length from above.trans further
    cases lands with
    | exact spells =>
      rw [spells, label]
      simp
    | inside shared byte tail rest _ spells _ entered =>
      have some := List.length_pos_iff.mpr (entered top)
      rw [spells, List.length_append, List.length_append]
      omega
    | between left right byte rest _ spells =>
      rw [spells, label]
      simp

/-- **What is read where a descent has ended is there.** -/
theorem inRange (reaches : Reaches trunk key spine sub landing) : landing.InRange sub.top := by
  cases reaches.lands with
  | exact => trivial
  | inside shared byte tail rest label => exact ⟨by simp [label], by simp⟩
  | between left right byte rest children => exact ⟨by simp [children], List.cons_ne_nil _ _⟩

end Reaches

end RadixLog
