/-
**The shape of a tree is determined by its keys.**

The nodes of a tree are its keys and the places where two of them part, and the list of their paths
tells for each node how deep it stands and which part of its path is its label. So two trees with
the same keys have the same outline, whatever led to them.

* `stem`: the paths that lead to a path;
* `Subtree.Sound.stem_visits`: depth and label of a node from the paths of all nodes;
* `Trunk.lines_eq`: trunks with the same keys have the same outline;
* `Tree.shape_canonical`: what holds of trees that operations lead to.
-/

import RadixLog.Proofs.Cursor.Locate
import RadixLog.Proofs.Subtree.Partings
import RadixLog.Proofs.Tree.Integrity

namespace RadixLog

variable {α β : Type}

/-! ### Stems -/

/-- The paths that a path goes on from, of these. -/
def stem (paths : List Bytes) (path : Bytes) : List Bytes :=
  paths.filter fun other => decide (other <+: path ∧ other ≠ path)

theorem stem_append (first second : List Bytes) (path : Bytes) :
    stem (first ++ second) path = stem first path ++ stem second path := List.filter_append _ _

theorem stem_cons {other path : Bytes} (leads : other <+: path) (proper : other ≠ path)
    (paths : List Bytes) : stem (other :: paths) path = other :: stem paths path :=
  List.filter_cons_of_pos (decide_eq_true ⟨leads, proper⟩)

theorem stem_eq_nil {paths : List Bytes} {path : Bytes}
    (apart : ∀ other ∈ paths, other <+: path → other = path) : stem paths path = [] := by
  refine List.filter_eq_nil_iff.mpr fun other member here => ?_
  have proper := of_decide_eq_true here
  exact proper.2 (apart other member proper.1)

namespace Subtree

variable {sub child : Subtree α} {above : Bytes} {depth : Nat} {visit : Visit α}

/-- The paths of a walk over a subtree. -/
def paths (above : Bytes) (depth : Nat) (sub : Subtree α) : List Bytes :=
  (sub.visits above depth).map Visit.path

theorem paths_eq (above : Bytes) (depth : Nat) (sub : Subtree α) : sub.paths above depth =
    (above ++ sub.label) :: sub.children.flatMap (paths (above ++ sub.label) (depth + 1)) := by
  rw [paths, visits_eq, List.map_cons, List.map_flatMap]
  rfl

/-- What stands under other children is on no way to a path under one child. -/
theorem Headed.stem_paths_eq_nil (headed : sub.Headed) {byte : UInt8} {rest : Bytes}
    (different : sub.edge.byte ≠ byte) :
    stem (sub.paths above depth) (above ++ byte :: rest) = [] := by
  refine stem_eq_nil fun other member leads => absurd leads fun leads => ?_
  obtain ⟨visit, found, rfl⟩ := List.mem_map.mp member
  obtain ⟨more, spelled⟩ := headed.exists_append_of_mem_visits found
  rw [spelled, List.prefix_append_right_inj, List.cons_prefix_cons] at leads
  exact different leads.1

/-- **The way to a path under a child** starts at the node and goes on in the child. -/
theorem Sound.stem_paths_child (sound : sub.Sound) (member : child ∈ sub.children)
    (found : visit ∈ child.visits (above ++ sub.label) (depth + 1)) :
    stem (sub.paths above depth) visit.path =
      (above ++ sub.label) :: stem (child.paths (above ++ sub.label) (depth + 1)) visit.path := by
  obtain ⟨left, right, children⟩ := List.append_of_mem member
  obtain ⟨rest, spelled⟩ := (sound.headed child member).exists_append_of_mem_visits found
  have leads : (above ++ sub.label) <+: visit.path := spelled ▸ List.prefix_append _ _
  have proper : above ++ sub.label ≠ visit.path :=
    spelled ▸ ne_of_lt (Bytes.lt_append_cons _ _ _)
  have sorted := sound.sorted
  rw [children, Edge.Sorted, List.pairwise_map, List.pairwise_append, List.pairwise_cons] at sorted
  have outside : ∀ side ⊆ sub.children,
      (∀ other ∈ side, other.edge.byte ≠ child.edge.byte) →
      stem (side.flatMap (paths (above ++ sub.label) (depth + 1))) visit.path = [] := by
    intro side inside different
    rw [stem, List.filter_flatMap, List.flatMap_eq_nil_iff, spelled]
    exact fun other here =>
      (sound.headed other (inside here)).stem_paths_eq_nil (different other here)
  have before := outside left (by simp [children])
    fun other here => UInt8.ne_of_lt (sorted.2.2 other here child List.mem_cons_self)
  have after := outside right (by simp [children])
    fun other here => (UInt8.ne_of_lt (sorted.2.1.1 other here)).symm
  rw [paths_eq, stem_cons leads proper, children, List.flatMap_append, List.flatMap_cons,
    stem_append, stem_append, before, after, List.nil_append, List.append_nil]

/-- **The paths of all nodes tell how deep a node stands**, which is how many paths lead to its own,
and what its label is, which is how its path goes on from the last of those. -/
theorem Sound.stem_visits (sound : sub.Sound) (member : visit ∈ sub.visits above depth) :
    visit.depth = depth + (stem (sub.paths above depth) visit.path).length ∧
      visit.path =
        (stem (sub.paths above depth) visit.path).getLast?.getD above ++ visit.node.label := by
  induction sound generalizing above depth with
  | @node sub headed sorted full sound ih =>
    rw [visits_eq, List.mem_cons, List.mem_flatMap] at member
    rcases member with rfl | ⟨child, inside, found⟩
    · -- No path under a node leads to its own.
      have nothing : stem (sub.paths above depth) (above ++ sub.label) = [] := by
        refine stem_eq_nil fun other member leads => ?_
        obtain ⟨visit, found, rfl⟩ := List.mem_map.mp member
        obtain ⟨rest, spelled⟩ := exists_append_of_mem_visits found
        exact leads.sublist.antisymm (spelled ▸ List.prefix_append _ _ : _ <+: _).sublist
      rw [nothing]
      exact ⟨rfl, rfl⟩
    · obtain ⟨deep, goesOn⟩ := ih child inside found
      rw [(Sound.node headed sorted full sound).stem_paths_child inside found,
        List.getLast?_cons, Option.getD_some, List.length_cons]
      exact ⟨by omega, goesOn⟩

end Subtree

/-! ### Outlines -/

namespace Trunk

variable {trunk : Trunk α} {other : Trunk β} {visit : Visit α}

/-- The paths of all nodes. -/
def paths (trunk : Trunk α) : List Bytes := trunk.visits.map Visit.path

theorem ascend_paths (sound : ∀ sub, trunk = some sub → sub.Sound) :
    trunk.paths.Pairwise (· < ·) := List.pairwise_map.mpr (ascend_visits sound)

theorem mem_paths_iff {path : Bytes} (sound : ∀ sub, trunk = some sub → sub.Sound) :
    path ∈ trunk.paths ↔ path ∈ Seek.keys trunk.entries ∨
      ∃ a ∈ Seek.keys trunk.entries, ∃ b ∈ Seek.keys trunk.entries,
        a ≠ b ∧ Bytes.PartAt a b path := by
  rw [← exists_visit_iff sound, paths, List.mem_map]

theorem stem_visits (sound : ∀ sub, trunk = some sub → sub.Sound) (member : visit ∈ trunk.visits) :
    visit.depth = (stem trunk.paths visit.path).length ∧
      visit.path = (stem trunk.paths visit.path).getLast?.getD [] ++ visit.node.label := by
  cases trunk with
  | none => exact absurd member List.not_mem_nil
  | some whole =>
    obtain ⟨deep, goesOn⟩ := (sound whole rfl).stem_visits member
    exact ⟨by rw [deep, Nat.zero_add]; rfl, goesOn⟩

/-- **Trunks with the same keys have the same paths.** -/
theorem paths_eq (sound : ∀ sub, trunk = some sub → sub.Sound)
    (sound' : ∀ sub, other = some sub → sub.Sound)
    (same : Seek.keys trunk.entries = Seek.keys other.entries) : trunk.paths = other.paths := by
  refine (ascend_paths sound).eq_of_mem_iff (ascend_paths sound') fun path => ?_
  rw [mem_paths_iff sound, mem_paths_iff sound', same]

/-- **Trunks with the same keys have the same outline**, line by line. -/
theorem lines_eq (sound : ∀ sub, trunk = some sub → sub.Sound)
    (sound' : ∀ sub, other = some sub → sub.Sound)
    (same : Seek.keys trunk.entries = Seek.keys other.entries) :
    trunk.visits.map Visit.line = other.visits.map Visit.line := by
  have paths : trunk.visits.map Visit.path = other.visits.map Visit.path :=
    paths_eq sound sound' same
  have length : trunk.visits.length = other.visits.length := by
    simpa using congrArg List.length paths
  refine List.ext_getElem (by simpa using length) fun place first second => ?_
  rw [List.length_map] at first second
  rw [List.getElem_map, List.getElem_map]
  have left := List.getElem_mem first
  have right := List.getElem_mem second
  have path : trunk.visits[place].path = other.visits[place].path := by
    have here := List.getElem_of_eq paths (by simpa using first)
    rwa [List.getElem_map, List.getElem_map] at here
  obtain ⟨deep, goesOn⟩ := stem_visits sound left
  obtain ⟨deep', goesOn'⟩ := stem_visits sound' right
  have keyed : trunk.visits[place].node.keyed = other.visits[place].node.keyed := by
    rw [Bool.eq_iff_iff, keyed_iff_mem_keys sound left, keyed_iff_mem_keys sound' right, path, same]
  have stems : stem trunk.paths trunk.visits[place].path =
      stem other.paths other.visits[place].path := by
    rw [paths_eq sound sound' same, path]
  have label : trunk.visits[place].node.label = other.visits[place].node.label := by
    rw [stems] at goesOn
    exact List.append_cancel_left (goesOn.symm.trans (path.trans goesOn'))
  rw [Visit.line, Visit.line, deep, deep', stems, label, keyed]

end Trunk

/-- The text of an outline with these lines. -/
def outlineText (lines : List (List Char)) : String :=
  if lines.isEmpty then "(empty)\n" else String.ofList lines.flatten

namespace Tree

/-- **The outline of a tree** is made of the lines of all nodes that a walk visits. -/
theorem outline_of_visits {tree : Tree α} {trunk : Trunk α} (root : tree.root = trunk.map Subtree.id)
    (visits : tree.visits = .ok trunk.visits) :
    tree.outline = .ok (outlineText (trunk.visits.map Visit.line)) := by
  rw [Tree.outline, root, visits]
  cases trunk with
  | none => rfl
  | some whole =>
    have nonempty : (whole.visits [] 0).map Visit.line ≠ [] := by
      rw [Subtree.visits_eq]
      exact List.cons_ne_nil _ _
    rw [outlineText, if_neg (by simpa [Trunk.visits] using nonempty), ← List.flatMap_def]
    rfl

theorem Shows.outline {tree : Tree α} {trunk : Trunk α} (shows : tree.Shows trunk) :
    tree.outline = .ok (outlineText (trunk.visits.map Visit.line)) :=
  outline_of_visits shows.root shows.visits

theorem Reachable.exists_shows {tree : Tree α} (reachable : tree.Reachable) :
    ∃ trunk, tree.Shows trunk ∧ tree.keys = Seek.keys trunk.entries := by
  obtain ⟨register, represents⟩ := reachable.represents
  obtain ⟨trunk, shows, entries⟩ := represents.shows
  exact ⟨trunk, shows, by rw [represents.keys_eq, entries]⟩

/-- **The keys of a tree** are the paths of the nodes with a value that a walk visits. -/
theorem Reachable.mem_keys_iff {tree : Tree α} {visits : List (Visit α)} {key : Bytes}
    (reachable : tree.Reachable) (walks : tree.visits = .ok visits) :
    key ∈ tree.keys ↔ key ∈ (visits.filter (·.node.keyed)).map Visit.path := by
  obtain ⟨trunk, shows, keys⟩ := reachable.exists_shows
  cases walks.symm.trans shows.visits
  rw [keys, Trunk.mem_keys_iff_exists_visit]
  simp only [List.mem_map, List.mem_filter, and_assoc, and_comm]

/-- Trees that show trunks with the same keys look the same and have equally many nodes. -/
theorem Shows.same_shape {tree : Tree α} {other : Tree β} {trunk : Trunk α} {trunk' : Trunk β}
    (shows : tree.Shows trunk) (shows' : other.Shows trunk')
    (same : Seek.keys trunk.entries = Seek.keys trunk'.entries) :
    (∃ text, tree.outline = .ok text ∧ other.outline = .ok text) ∧
      tree.nodeCount = other.nodeCount := by
  have lines : trunk.visits.map Visit.line = trunk'.visits.map Visit.line :=
    Trunk.lines_eq shows.sound shows'.sound same
  refine ⟨⟨_, shows.outline, lines ▸ shows'.outline⟩, ?_⟩
  rw [shows.intact.nodeCount, shows'.intact.nodeCount]
  simpa using congrArg List.length lines

/-- **The shape of a tree is determined by its keys.** The paths of the nodes of a tree that can
come about are distinct, and are its keys and the places where two of its keys part; a node is a key
if its path is one. Two such trees with the same keys have the same outline and equally many
nodes. -/
theorem shape_canonical :
    (∀ tree : Tree α, tree.Reachable → ∃ visits, tree.visits = .ok visits ∧
      (visits.map Visit.path).Nodup ∧
      (∀ path, path ∈ visits.map Visit.path ↔ path ∈ tree.keys ∨
        ∃ a ∈ tree.keys, ∃ b ∈ tree.keys, a ≠ b ∧ Bytes.PartAt a b path) ∧
      ∀ visit ∈ visits, visit.node.keyed = true ↔ visit.path ∈ tree.keys) ∧
    ∀ (tree : Tree α) (other : Tree β), tree.Reachable → other.Reachable → tree.keys = other.keys →
      (∃ text, tree.outline = .ok text ∧ other.outline = .ok text) ∧
        tree.nodeCount = other.nodeCount := by
  constructor
  · intro tree reachable
    obtain ⟨trunk, shows, keys⟩ := reachable.exists_shows
    refine ⟨trunk.visits, shows.visits, ?_, fun path => ?_, fun visit member => ?_⟩
    · exact Trunk.nodup_paths shows.sound
    · rw [keys]
      exact Trunk.mem_paths_iff shows.sound
    · rw [keys]
      exact Trunk.keyed_iff_mem_keys shows.sound member
  · intro tree other reachable reachable' same
    obtain ⟨trunk, shows, keys⟩ := reachable.exists_shows
    obtain ⟨trunk', shows', keys'⟩ := reachable'.exists_shows
    exact shows.same_shape shows' (by rw [← keys, ← keys', same])

/-- The key 7 inserted alone, and left over of the keys 7 and 7 1, looks the same, though its node is
not in the same slot. -/
theorem outline_after_removal : ∃ tree other : Tree Nat, tree.Reachable ∧ other.Reachable ∧
    tree.keys = {[7]} ∧ other.keys = {[7]} ∧ tree.root = some 0 ∧ other.root = some 1 ∧
    tree.outline = .ok "\"\\x07\" key\n" ∧ other.outline = .ok "\"\\x07\" key\n" ∧
    tree.nodeCount = 1 ∧ other.nodeCount = 1 := by
  let alone : Tree Nat := ⟨⟨#[some ⟨[7], [], some 3⟩], [], 1, 64, 0⟩, some 0, 1, 1, 0⟩
  let left : Tree Nat := ⟨⟨#[none, some ⟨[7], [], some 5⟩], [0], 1, 64, 1⟩, some 1, 1, 3, 0⟩
  have start := Reachable.empty (α := Nat) {} 0
  have inserted : alone.Reachable := start.runAll [.insert [7] 3] rfl
  have removed : left.Reachable :=
    start.runAll [.insert [7, 1] 4, .insert [7] 5, .remove [7, 1]] rfl
  have visited : alone.visits = .ok [⟨0, ⟨[7], [], some 3⟩, [7], 0⟩] := rfl
  have visited' : left.visits = .ok [⟨1, ⟨[7], [], some 5⟩, [7], 0⟩] := rfl
  have keys : alone.keys = {[7]} :=
    Set.ext fun _ => (inserted.mem_keys_iff visited).trans List.mem_singleton
  have keys' : left.keys = {[7]} :=
    Set.ext fun _ => (removed.mem_keys_iff visited').trans List.mem_singleton
  obtain ⟨⟨text, shown, shown'⟩, counts⟩ :=
    shape_canonical.2 alone left inserted removed (keys.trans keys'.symm)
  have seen : alone.outline = .ok "\"\\x07\" key\n" := rfl
  cases seen.symm.trans shown
  exact ⟨alone, left, inserted, removed, keys, keys', rfl, rfl, shown, shown', rfl, counts.symm⟩

end Tree

end RadixLog
