/-
**Moves around a subtree.**

Whatever node is on top of the registers of a cursor, keyed or not, there are the keys under it, which
the buffer is the beginning of, those after all of these, and those before. Going down comes to the
ends of the first, and climbing to the nearest of the others. A key on the way from the root is
before all that is under it.

* `Spine.keys_under`, `Spine.keys_after`, `Spine.keys_before`: the keys of a tree around a subtree;
* `Tree.Shows.exists_spine`: a path of a tree leads to a subtree under its spine;
* `Tree.keysUnder`, `Tree.Shows.keysUnder_eq`: the keys at the ends of the paths that go on;
* `Registers.Around`, `Registers.moves_around_subtree`: where the four moves come to.
-/

import RadixLog.Proofs.Tree.Canonical
import RadixLog.Proofs.Workspace.Frames

namespace RadixLog

variable {α : Type}

/-- What goes on from a byte string comes after it. -/
theorem Bytes.lt_of_prefix {short long : Bytes} (leads : short <+: long)
    (longer : short.length < long.length) : short < long := by
  obtain ⟨rest, rfl⟩ := leads
  cases rest with
  | nil => exact absurd longer (by simp)
  | cons byte rest => exact lt_append_cons short rest byte

/-! ### The keys around a subtree -/

namespace Spine

open Subtree

variable {spine : Spine α} {sub : Subtree α}

/-- **All that goes on from the path to a subtree** is between what is before and what is after it. -/
theorem brackets_onward (sound : (plug spine sub).Sound) (rest : Bytes) :
    spine.Brackets (spine.spelled ++ sub.label ++ rest) := by
  induction spine generalizing sub rest with
  | nil => exact .nil _
  | cons frame spine ih =>
    have whole : (plug spine (frame.close sub)).Sound := sound
    have closed := (sound_of_plug whole).1
    have headed := closed.headed
    have sorted := closed.sorted
    obtain ⟨tail, label⟩ := (headed sub (by simp [Frame.close])).exists_cons
    simp only [Frame.close, Edge.Sorted, List.map_append, List.map_cons, List.pairwise_append,
      List.pairwise_cons, List.mem_cons, List.mem_map] at sorted headed
    have above : Brackets spine (spelled (frame :: spine) ++ sub.label ++ rest) := by
      rw [List.append_assoc]
      exact ih whole (sub.label ++ rest)
    have split : spelled (frame :: spine) ++ sub.label ++ rest =
        spelled spine ++ frame.label ++ sub.edge.byte :: (tail ++ rest) := by
      rw [label, List.append_assoc]
      rfl
    exact above.enter split (fun child inside => headed child (by simp [inside]))
      (fun child inside => sorted.2.2 _ ⟨child, inside, rfl⟩ _ (.inl rfl))
      (fun child inside => headed child (by simp [inside]))
      (fun child inside => sorted.2.1.1 _ ⟨child, inside, rfl⟩)

/-- **The keys under a node** are those that go on from its path. -/
theorem keys_under (sound : (plug spine sub).Sound) : Seek.keys (sub.entries spine.spelled) =
    {key ∈ Seek.keys ((plug spine sub).entries []) | spine.spelled ++ sub.label <+: key} := by
  ext key
  constructor
  · rintro ⟨value, member⟩
    obtain ⟨rest, spelled⟩ := exists_append_of_mem_entries member
    exact ⟨⟨value, by simp [entries_plug, member]⟩, rest, spelled.symm⟩
  · rintro ⟨⟨value, member⟩, rest, rfl⟩
    have brackets := brackets_onward sound rest
    rw [entries_plug, List.mem_append, List.mem_append] at member
    rcases member with (early | inside) | late
    · exact absurd (brackets.1 _ early) (lt_irrefl _)
    · exact ⟨value, inside⟩
    · exact absurd (brackets.2 _ late) (lt_irrefl _)

theorem before_lt (sound : (plug spine sub).Sound) {entry below : Bytes × α}
    (early : entry ∈ spine.before) (inside : below ∈ sub.entries spine.spelled) :
    entry.1 < below.1 := by
  have ascend := sound.ascend []
  rw [entries_plug, Ascend, List.pairwise_append] at ascend
  exact (List.pairwise_append.mp ascend.1).2.2 _ early _ inside

theorem lt_after (sound : (plug spine sub).Sound) {entry below : Bytes × α}
    (late : entry ∈ spine.after) (inside : below ∈ sub.entries spine.spelled) :
    below.1 < entry.1 := by
  have ascend := sound.ascend []
  rw [entries_plug, Ascend, List.pairwise_append] at ascend
  exact ascend.2.2 _ (List.mem_append_right _ inside) _ late

/-- **The keys after a subtree** are those above all of its own. -/
theorem keys_after (sound : (plug spine sub).Sound) : Seek.keys spine.after =
    {key ∈ Seek.keys ((plug spine sub).entries []) |
      ∀ below ∈ Seek.keys (sub.entries spine.spelled), below < key} := by
  ext key
  constructor
  · rintro ⟨value, late⟩
    refine ⟨⟨value, by simp [entries_plug, late]⟩, ?_⟩
    rintro below ⟨other, inside⟩
    exact lt_after sound late inside
  · rintro ⟨⟨value, member⟩, above⟩
    rw [entries_plug, List.mem_append, List.mem_append] at member
    rcases member with (early | inside) | late
    · obtain ⟨below, other, inside⟩ := (sound_of_plug sound).1.exists_key spine.spelled
      exact absurd (before_lt sound early inside) (lt_asymm (above below ⟨other, inside⟩))
    · exact absurd (above key ⟨value, inside⟩) (lt_irrefl _)
    · exact ⟨value, late⟩

/-- **The keys before a subtree** are those below all of its own. -/
theorem keys_before (sound : (plug spine sub).Sound) : Seek.keys spine.before =
    {key ∈ Seek.keys ((plug spine sub).entries []) |
      ∀ below ∈ Seek.keys (sub.entries spine.spelled), key < below} := by
  ext key
  constructor
  · rintro ⟨value, early⟩
    refine ⟨⟨value, by simp [entries_plug, early]⟩, ?_⟩
    rintro below ⟨other, inside⟩
    exact before_lt sound early inside
  · rintro ⟨⟨value, member⟩, above⟩
    rw [entries_plug, List.mem_append, List.mem_append] at member
    rcases member with (early | inside) | late
    · exact ⟨value, early⟩
    · exact absurd (above key ⟨value, inside⟩) (lt_irrefl _)
    · obtain ⟨below, other, inside⟩ := (sound_of_plug sound).1.exists_key spine.spelled
      exact absurd (lt_after sound late inside) (lt_asymm (above below ⟨other, inside⟩))

end Spine

/-! ### Paths and spines -/

namespace Tree

variable {tree : Tree α} {trunk : Trunk α} {spine : Spine α} {sub : Subtree α}
  {stack longer : List Link} {key key' : Bytes} {node node' : Node α} {top parent : Link}
  {above : List Link}

/-- A path with more than one frame goes on from the one without its top. -/
theorem Path.exists_parent (path : tree.Path (top :: parent :: above) key node) :
    ∃ key' node', tree.Path (parent :: above) key' node' ∧ tree.arena.node top.node = .ok node ∧
      key = key' ++ node.label := by
  generalize frames : top :: parent :: above = stack at path
  cases path with
  | root start found => cases frames
  | child path here found =>
    cases frames
    exact ⟨_, _, path, found, rfl⟩

/-- **A stack is the path of one key and to one node.** -/
theorem Path.unique (first : tree.Path stack key node) (second : tree.Path stack key' node') :
    key = key' ∧ node = node' := by
  induction first generalizing key' node' with
  | root start found =>
    cases second with
    | root start' found' =>
      cases found.symm.trans found'
      exact ⟨rfl, rfl⟩
  | child path here found ih =>
    obtain ⟨middle, parent, path', found', rfl⟩ := second.exists_parent
    cases found.symm.trans found'
    exact ⟨congrArg (· ++ _) (ih path').1, rfl⟩

/-- **A path that goes on spells what goes on.** -/
theorem Path.prefix_of_suffix (long : tree.Path longer key' node') (short : tree.Path stack key node)
    (suffix : stack <:+ longer) : key <+: key' := by
  induction long with
  | root start found =>
    rcases List.suffix_cons_iff.mp suffix with rfl | nothing
    · rw [(Path.root start found).unique short |>.1]
    · cases List.suffix_nil.mp nothing
      cases short
  | child path here found ih =>
    rcases List.suffix_cons_iff.mp suffix with rfl | suffix
    · rw [(Path.child path here found).unique short |>.1]
    · exact (ih suffix).trans (List.prefix_append _ _)

/-- **A path of a tree leads to a subtree under its spine.** -/
theorem Shows.exists_spine (shows : tree.Shows trunk) (path : tree.Path stack key node) :
    ∃ (spine : Spine α) (sub : Subtree α), trunk = some (spine.plug sub) ∧
      stack = ⟨sub.id, spine.slot⟩ :: spine.links ∧ key = spine.spelled ++ sub.label ∧
      node = sub.top := by
  induction path with
  | root start found =>
    obtain ⟨whole, rfl, rfl⟩ := Option.map_eq_some_iff.mp (shows.root.symm.trans start)
    have read : tree.arena.node whole.id = .ok whole.top := shows.stores.read whole.top_mem_nodes
    cases found.symm.trans read
    exact ⟨[], whole, rfl, rfl, rfl, rfl⟩
  | @child _ _ _ _ _ slot _ path here found ih =>
    obtain ⟨spine, sub, rfl, links, rfl, rfl⟩ := ih
    rw [Subtree.top_children, List.getElem?_map] at here
    obtain ⟨below, there, rfl⟩ := Option.map_eq_some_iff.mp here
    obtain ⟨inside, rfl⟩ := List.getElem?_eq_some_iff.mp there
    -- The subtree is cut open at the slot that the path goes on through.
    have children : sub.children =
        sub.children.take slot ++ sub.children[slot] :: sub.children.drop (slot + 1) := by
      rw [← List.drop_eq_getElem_cons inside, List.take_append_drop]
    have whole : spine.plug sub = Spine.plug
        (sub.cut (sub.children.take slot) (sub.children.drop (slot + 1)) :: spine)
        sub.children[slot] := by
      rw [Spine.plug, Subtree.close_cut children]
    have read : tree.arena.node sub.children[slot].id = .ok sub.children[slot].top :=
      Arena.Holds.read_sub (whole ▸ shows.stores.toHolds)
    cases found.symm.trans read
    refine ⟨_, _, congrArg some whole, ?_, rfl, rfl⟩
    rw [links, Spine.slot, Spine.links, Subtree.cut, List.length_take_of_le (Nat.le_of_lt inside)]

/-- **A path to a node with a value spells a key.** -/
theorem Shows.key_mem (shows : tree.Shows trunk) (path : tree.Path stack key node)
    (keyed : node.keyed = true) : key ∈ Seek.keys trunk.entries := by
  obtain ⟨spine, sub, rfl, -, rfl, rfl⟩ := shows.exists_spine path
  obtain ⟨value, found⟩ := Option.isSome_iff_exists.mp keyed
  refine ⟨value, ?_⟩
  rw [Trunk.entries, Spine.entries_plug_own, show sub.value = some value from found]
  simp

/-! ### The keys under a node -/

/-- **The keys under the node on top of a stack**: those at whose node a path ends that goes on from
the stack, or is the stack. -/
def keysUnder (tree : Tree α) (stack : List Link) : Set Bytes :=
  {key | ∃ longer node, tree.Path longer key node ∧ stack <:+ longer ∧ node.keyed = true}

/-- **The keys after a node**: those above all under it. -/
def keysAfter (tree : Tree α) (stack : List Link) : Set Bytes :=
  {key ∈ tree.keys | ∀ below ∈ tree.keysUnder stack, below < key}

/-- **The keys before a node**: those below all under it. -/
def keysBefore (tree : Tree α) (stack : List Link) : Set Bytes :=
  {key ∈ tree.keys | ∀ below ∈ tree.keysUnder stack, key < below}

/-- To each entry of a subtree a path goes on from the one to its node. -/
theorem Shows.exists_path_under (shows : tree.Shows (some (spine.plug sub))) {entry : Bytes × α}
    (member : entry ∈ sub.entries spine.spelled) :
    ∃ longer node, tree.Path longer entry.1 node ∧
      (⟨sub.id, spine.slot⟩ :: spine.links) <:+ longer ∧ node.keyed = true := by
  induction sub using Subtree.induction generalizing spine with
  | node edge label value children ih =>
    let sub : Subtree α := ⟨edge, label, value, children⟩
    rw [Subtree.entries, List.mem_append, List.mem_flatMap] at member
    rcases member with here | ⟨child, inside, found⟩
    · refine ⟨_, sub.top, own_key here ▸ shows.path, List.suffix_rfl, ?_⟩
      cases value with
      | none => cases here
      | some value => rfl
    · obtain ⟨left, right, split⟩ := List.append_of_mem inside
      have whole : Spine.plug (sub.cut left right :: spine) child = spine.plug sub := by
        rw [Spine.plug, Subtree.close_cut split]
      have below : tree.Shows (some (Spine.plug (sub.cut left right :: spine) child)) := whole ▸ shows
      obtain ⟨longer, node, path, suffix, keyed⟩ := ih child inside below found
      exact ⟨longer, node, path, (List.suffix_cons _ _).trans suffix, keyed⟩

/-- **The keys under a node are those of the subtree there.** -/
theorem Shows.keysUnder_eq (shows : tree.Shows (some (spine.plug sub))) :
    tree.keysUnder (⟨sub.id, spine.slot⟩ :: spine.links) =
      Seek.keys (sub.entries spine.spelled) := by
  ext key
  constructor
  · rintro ⟨longer, node, path, suffix, keyed⟩
    rw [Spine.keys_under (shows.sound _ rfl)]
    exact ⟨shows.key_mem path keyed, path.prefix_of_suffix shows.path suffix⟩
  · rintro ⟨value, member⟩
    exact shows.exists_path_under member

/-- **A key on the way to a node is before all under it.** -/
theorem Shows.ancestor_mem_keysBefore (shows : tree.Shows trunk)
    (path : tree.Path longer key' node') (way : tree.Path stack key node)
    (suffix : stack <:+ longer) (proper : stack ≠ longer) (present : key ∈ tree.keys) :
    key ∈ tree.keysBefore longer := by
  have shorter : key.length < key'.length := by
    obtain ⟨spine, sub, rfl, rfl, rfl, rfl⟩ := shows.exists_spine path
    cases spine with
    | nil =>
      rcases List.suffix_cons_iff.mp suffix with same | nothing
      · exact absurd same proper
      · cases List.suffix_nil.mp nothing
        cases way
    | cons frame spine =>
      -- The label at the end of the path is not empty, so its key is longer than that of its parent.
      obtain ⟨tail, label⟩ :=
        ((Spine.sound_of_plug (shows.sound _ rfl)).2 (List.cons_ne_nil _ _)).exists_cons
      obtain ⟨middle, parent, path', -, spelled⟩ := path.exists_parent
      have upper := (List.suffix_cons_iff.mp suffix).resolve_left proper
      have leads := (path'.prefix_of_suffix way upper).length_le
      rw [spelled, List.length_append, Subtree.top_label, label, List.length_cons]
      omega
  refine ⟨present, ?_⟩
  rintro below ⟨longest, other, onward, further, -⟩
  have leads := onward.prefix_of_suffix path further
  exact Bytes.lt_of_prefix (onward.prefix_of_suffix way (suffix.trans further))
    (shorter.trans_le leads.length_le)

end Tree

/-! ### Where moves come to -/

namespace Registers

variable {tree : Tree α} {registers : Registers} {trunk : Trunk α} {position : Position}
  {entries : List (Bytes × α)} {key : Bytes} {node : Node α}

/-- **Registers are at a key of a tree**: the stack is the path to it, the buffer holds it, and its
value is read. -/
structure At (registers : Registers) (tree : Tree α) (key : Bytes) : Prop where
  state : registers.state = .positioned
  buffer : registers.key = key
  path : ∃ node, tree.Path registers.stack key node
  reads : ∃ value, tree.find? key = .ok (some value) ∧
    registers.current tree = .ok (some (key, value))

/-- **What is around the node on top of the registers is come to exactly.** -/
structure Around (registers : Registers) (tree : Tree α) : Prop where
  /-- Under the node are the keys that the buffer is the beginning of. -/
  under : tree.keysUnder registers.stack = {key ∈ tree.keys | registers.key <+: key}
  least : ∃ after key, registers.descendMin tree.arena = .ok after ∧ after.At tree key ∧
    IsLeast {key ∈ tree.keys | registers.key <+: key} key
  greatest : ∃ after key, registers.descendMax tree.arena = .ok after ∧ after.At tree key ∧
    IsGreatest {key ∈ tree.keys | registers.key <+: key} key
  next : ∃ after, registers.ascendNext tree.arena = .ok after ∧
    ((∃ key, after.At tree key ∧ IsLeast (tree.keysAfter registers.stack) key) ∨
      (tree.keysAfter registers.stack = ∅ ∧ after = reset .afterLast))
  previous : ∃ after, registers.ascendPrev tree.arena = .ok after ∧
    ((∃ key, after.At tree key ∧ IsGreatest (tree.keysBefore registers.stack) key) ∨
      (tree.keysBefore registers.stack = ∅ ∧ after = reset .beforeFirst))
  /-- A key on the way to the node is before it. -/
  ancestors : ∀ stack key node, tree.Path stack key node → stack <:+ registers.stack →
    stack ≠ registers.stack → node.keyed = true → key ∈ tree.keysBefore registers.stack

theorem at_of_on (shows : tree.Shows trunk) {entry : Bytes × α} (on : position.On trunk entry) :
    (ofPosition position).At tree entry.1 := by
  have reads := shows.entryAt on
  rw [← current_ofPosition] at reads
  have member := on.mem
  obtain ⟨spine, sub, value, rfl, keyed⟩ := on
  obtain ⟨lower, found, upper, cut, finds⟩ := shows.find? (spine.spelled ++ sub.label)
  rw [cut.mem_iff.mp member] at finds
  exact ⟨rfl, rfl, ⟨sub.top, shows.path⟩, value, finds, reads⟩

/-- At the first of ascending entries, the registers are at the least of their keys. -/
theorem at_least (shows : tree.Shows trunk) (ascend : Ascend entries)
    (ahead : position.Ahead trunk entries) (nonempty : entries ≠ []) :
    ∃ key, (ofPosition position).At tree key ∧ IsLeast (Seek.keys entries) key := by
  obtain ⟨entry, rest, rfl⟩ := List.exists_cons_of_ne_nil nonempty
  exact ⟨entry.1, at_of_on shows ahead, @Seek.wants_of_pick _ _ _ .min [] ascend rfl⟩

theorem at_greatest (shows : tree.Shows trunk) (ascend : Ascend entries)
    (behind : position.Behind trunk entries) (nonempty : entries ≠ []) :
    ∃ key, (ofPosition position).At tree key ∧ IsGreatest (Seek.keys entries) key := by
  have last := List.getLast?_eq_some_getLast nonempty
  rw [Position.Behind, last] at behind
  exact ⟨_, at_of_on shows behind, @Seek.wants_of_pick _ _ _ .max [] ascend last⟩

/-- At the first of ascending entries, the registers are at the least of their keys; if there is none,
they are cleared. -/
theorem at_least_or_reset (shows : tree.Shows trunk) (ascend : Ascend entries)
    (ahead : position.Ahead trunk entries) :
    (∃ key, (ofPosition position).At tree key ∧ IsLeast (Seek.keys entries) key) ∨
      (Seek.keys entries = ∅ ∧ ofPosition position = reset .afterLast) := by
  by_cases nothing : entries = []
  · subst nothing
    obtain rfl : position = .afterLast := ahead
    exact .inr ⟨by simp [Seek.keys], rfl⟩
  · exact .inl (at_least shows ascend ahead nothing)

theorem at_greatest_or_reset (shows : tree.Shows trunk) (ascend : Ascend entries)
    (behind : position.Behind trunk entries) :
    (∃ key, (ofPosition position).At tree key ∧ IsGreatest (Seek.keys entries) key) ∨
      (Seek.keys entries = ∅ ∧ ofPosition position = reset .beforeFirst) := by
  by_cases nothing : entries = []
  · subst nothing
    obtain rfl : position = .beforeFirst := behind
    exact .inr ⟨by simp [Seek.keys], rfl⟩
  · exact .inl (at_greatest shows ascend behind nothing)

/-- **Moves around a subtree are exact**, in every tree that can come about, whatever node is on top of
a path. Going down comes to the least and to the greatest key that the path leads on to. Climbing
comes to the least key after all of these, or to the greatest before all of them, and if there is
none, the registers are cleared. -/
theorem moves_around_subtree (reachable : tree.Reachable)
    (path : tree.Path registers.stack registers.key node) : registers.Around tree := by
  obtain ⟨trunk, shows, keys⟩ := reachable.exists_shows
  obtain ⟨spine, sub, rfl, links, spelled, rfl⟩ := shows.exists_spine path
  obtain ⟨stack, buffer, state⟩ := registers
  obtain rfl : stack = _ := links
  obtain rfl : buffer = _ := spelled
  have holds := shows.stores.toHolds
  have sound := shows.sound _ rfl
  have whole : tree.keys = Seek.keys ((spine.plug sub).entries []) := keys
  have under := shows.keysUnder_eq
  have onward : {key ∈ tree.keys | spine.spelled ++ sub.label <+: key} =
      Seek.keys (sub.entries spine.spelled) := by rw [whole, Spine.keys_under sound]
  have later : tree.keysAfter (⟨sub.id, spine.slot⟩ :: spine.links) = Seek.keys spine.after := by
    rw [Tree.keysAfter, under, whole, Spine.keys_after sound]
  have earlier : tree.keysBefore (⟨sub.id, spine.slot⟩ :: spine.links) = Seek.keys spine.before := by
    rw [Tree.keysBefore, under, whole, Spine.keys_before sound]
  have ascend := sound.ascend []
  rw [Spine.entries_plug, Ascend, List.pairwise_append, List.pairwise_append] at ascend
  have nonempty := (Spine.sound_of_plug sound).1.entries_ne_nil spine.spelled
  constructor
  case under => rw [under, onward]
  case least =>
    obtain ⟨position, goes, ahead⟩ := Arena.least_ahead holds sound rfl
    obtain ⟨key, here, least⟩ := at_least shows ascend.1.2.1 ahead nonempty
    refine ⟨_, key, ?_, here, onward ▸ least⟩
    exact (descendMin_load tree.arena (spine.trail sub) state).trans (goes ▸ rfl)
  case greatest =>
    obtain ⟨position, goes, behind⟩ := Arena.greatest_behind holds sound rfl
    obtain ⟨key, here, greatest⟩ := at_greatest shows ascend.1.2.1 behind nonempty
    refine ⟨_, key, ?_, here, onward ▸ greatest⟩
    exact (descendMax_load tree.arena (spine.trail sub) state).trans (goes ▸ rfl)
  case next =>
    obtain ⟨position, goes, ahead⟩ := Arena.after_ahead holds sound rfl
    refine ⟨ofPosition position, ?_, later ▸ at_least_or_reset shows ascend.2.1 ahead⟩
    exact (ascendNext_load tree.arena (spine.trail sub) state).trans (goes ▸ rfl)
  case previous =>
    obtain ⟨position, goes, behind⟩ := Arena.before_behind holds sound rfl
    refine ⟨ofPosition position, ?_, earlier ▸ at_greatest_or_reset shows ascend.1.1 behind⟩
    exact (ascendPrev_load tree.arena (spine.trail sub) state).trans (goes ▸ rfl)
  case ancestors =>
    intro stack key node way suffix proper keyed
    exact shows.ancestor_mem_keysBefore path way suffix proper (whole ▸ shows.key_mem way keyed)

/-- Of the keys [], 7 1, 7 2 and 9, the first and the last are around the branch 7, to which no key
belongs, and the others are under it. -/
theorem moves_around_branch : ∃ (tree : Tree Nat) (registers : Registers),
    tree.Reachable ∧ registers.key = [7] ∧ registers.Around tree ∧
      (∃ stack, registers.descendMin tree.arena = .ok ⟨stack, [7, 1], .positioned⟩) ∧
      (∃ stack, registers.descendMax tree.arena = .ok ⟨stack, [7, 2], .positioned⟩) ∧
      (∃ stack, registers.ascendNext tree.arena = .ok ⟨stack, [9], .positioned⟩) ∧
      ∃ stack, registers.ascendPrev tree.arena = .ok ⟨stack, [], .positioned⟩ := by
  have reachable := (Tree.Reachable.empty (α := Nat) {} 0).runAll
    [.insert [] 3, .insert [7, 1] 4, .insert [7, 2] 5, .insert [9] 6] rfl
  let top : Node Nat := ⟨[], [⟨7, 2⟩, ⟨9, 4⟩], some 3⟩
  let branch : Node Nat := ⟨[7], [⟨1, 1⟩, ⟨2, 3⟩], none⟩
  refine ⟨_, ⟨[⟨2, 0⟩, ⟨0, 0⟩], [7], .positioned⟩, reachable, rfl,
    @moves_around_subtree Nat _ _ branch reachable ?_, ⟨_, rfl⟩, ⟨_, rfl⟩, ⟨_, rfl⟩, ⟨_, rfl⟩⟩
  exact @Tree.Path.child Nat _ ⟨0, 0⟩ [] [] top branch 0 ⟨7, 2⟩
    (@Tree.Path.root Nat _ 0 top rfl rfl) rfl rfl

end Registers

end RadixLog
