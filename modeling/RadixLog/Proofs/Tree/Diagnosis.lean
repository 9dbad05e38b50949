/-
**The integrity check is sound and complete.**

The check is meant for trees that are not as operations leave them. Whatever has happened to the
nodes of a tree, as long as its links still span a tree, the check reports nothing if and only if the
tree is whole, and a whole tree is a finite map: nothing that escapes the check can be seen from the
outside, even if one damage makes up for another.

* `Tree.Damaged.orderly`: damage leaves the bookkeeping of the arena right;
* `Arena.Fit`, `Tree.Whole`: what the check is to find, said of the nodes that paths meet;
* `Visit.exists_violations`: the reports on one node;
* `Tree.Whole.shows`: a whole tree shows the trunk that its links span;
* `Tree.integrity_check_decides`: the check against all this.
-/

import Mathlib.Data.Set.Card
import RadixLog.Proofs.Arena.Steps
import RadixLog.Proofs.Cursor.Directed
import RadixLog.Proofs.Tree.Integrity
import RadixLog.Proofs.Tree.Linked

namespace RadixLog

variable {α : Type} {arena : Arena α} {tree : Tree α} {trunk : Trunk α}

/-! ### Damage and the bookkeeping -/

theorem Arena.Orderly.damage {id : NodeRef} {damage : Damage α} {after : Arena α}
    (orderly : arena.Orderly) (damages : damage.arena arena id = some after) : after.Orderly := by
  unfold Damage.arena at damages
  split at damages
  · split at damages
    · cases damages
      exact orderly.alloc ‹_›
    · cases damages
  · split at damages
    · obtain ⟨new, _, rfl⟩ := Option.map_eq_some_iff.mp damages
      exact orderly.put ‹_› new
    · cases damages

/-- A tree that operations led to and that was then damaged, any number of times. -/
inductive Tree.Damaged : Tree α → Prop where
  | reachable {tree : Tree α} (reachable : tree.Reachable) : Damaged tree
  | damage {tree after : Tree α} {path : List Nat} {damage : Damage α} (before : Damaged tree)
    (damages : tree.damage path damage = some after) : Damaged after

/-- **Damage leaves the bookkeeping right.** -/
theorem Tree.Damaged.orderly (damaged : tree.Damaged) : tree.arena.Orderly := by
  induction damaged with
  | reachable reachable =>
    obtain ⟨register, represents⟩ := reachable.represents
    obtain ⟨trunk, shows, _⟩ := represents.shows
    exact ⟨_, shows.stores⟩
  | damage before damages ih =>
    obtain ⟨root, _, rest⟩ := Option.bind_eq_some_iff.mp damages
    obtain ⟨id, _, rest⟩ := Option.bind_eq_some_iff.mp rest
    obtain ⟨arena, changes, same⟩ := Option.bind_eq_some_iff.mp rest
    cases same
    exact ih.damage changes

/-! ### What the check is to find -/

/-- **A node is as path compression promises.** -/
structure Arena.Fit (arena : Arena α) (node : Node α) : Prop where
  /-- Without a value it has at least two children. -/
  full : node.value = none → 2 ≤ node.children.length
  /-- Its children stand in strictly ascending order of bytes. -/
  sorted : Edge.Sorted node.children
  /-- The byte that leads to a child is the first of the child's label. -/
  headed : ∀ edge ∈ node.children,
    ∃ child, arena.node edge.child = .ok child ∧ child.label.head? = some edge.byte

/-- **A tree is whole**, as its nodes show that paths from the root meet. -/
structure Tree.Whole (tree : Tree α) : Prop where
  fit : ∀ {path id node}, tree.Meets path id node → tree.arena.Fit node
  /-- A node other than the root has a label. -/
  labelled : ∀ {path id node}, tree.Meets path id node → path ≠ [] → node.label ≠ []
  /-- Every node in use is met. -/
  reached : ∀ {id node}, tree.arena.node id = .ok node → ∃ path, tree.Meets path id node
  /-- The size is the number of nodes met that are keys. -/
  counted : tree.size = {id | ∃ path node, tree.Meets path id node ∧ node.keyed = true}.ncard

/-! ### Reports -/

theorem Edge.sorted_of_ascending {edges : List Edge} (ascends : ascending edges = true) :
    Edge.Sorted edges := by
  unfold Edge.Sorted
  rw [← List.isChain_iff_pairwise]
  induction edges with
  | nil => exact .nil
  | cons first edges ih =>
    cases edges with
    | nil => exact .singleton first
    | cons second edges =>
      rw [ascending, Bool.and_eq_true, decide_eq_true_eq] at ascends
      exact .cons_cons ascends.1 (ih ascends.2)

/-- Reports on one item after another are none if and only if there is none on any of them. -/
theorem exists_mapM_flatten {ε β γ : Type} {report : β → Except ε (List γ)} {clean : β → Prop}
    {items : List β} (reports : ∀ item ∈ items, ∃ made, report item = .ok made ∧
      (made = [] ↔ clean item)) :
    ∃ made, items.mapM report = .ok made ∧ (made.flatten = [] ↔ ∀ item ∈ items, clean item) := by
  induction items with
  | nil => exact ⟨[], rfl, by simp⟩
  | cons item items ih =>
    obtain ⟨first, reported, none⟩ := reports item List.mem_cons_self
    obtain ⟨made, goesOn, noneLater⟩ :=
      ih fun other member => reports other (List.mem_cons_of_mem _ member)
    refine ⟨first :: made, ?_, ?_⟩
    · rw [List.mapM_cons, reported, ok_bind, goesOn]
      rfl
    · rw [List.flatten_cons, List.append_eq_nil_iff, none, noneLater, List.forall_mem_cons]

theorem report_if_eq_nil {γ : Type} {broken : Prop} [Decidable broken] {report : γ} :
    (if broken then [report] else []) = [] ↔ ¬ broken := by
  by_cases holds : broken
  · rw [if_pos holds]
    exact iff_of_false (List.cons_ne_nil _ _) (not_not_intro holds)
  · rw [if_neg holds]
    exact iff_of_true rfl holds

theorem report_unless_eq_nil {γ : Type} {fine : Prop} [Decidable fine] {report : γ} :
    (if fine then [] else [report]) = [] ↔ fine := by
  by_cases holds : fine
  · rw [if_pos holds]
    exact iff_of_true rfl holds
  · rw [if_neg holds]
    exact iff_of_false (List.cons_ne_nil _ _) holds

theorem Arena.exists_edgeViolation {edge : Edge} (path : Bytes)
    (live : ∃ child, arena.node edge.child = .ok child) :
    ∃ made, arena.edgeViolation path edge = .ok made ∧ (made = [] ↔
      ∃ child, arena.node edge.child = .ok child ∧ child.label.head? = some edge.byte) := by
  obtain ⟨child, found⟩ := live
  refine ⟨_, by rw [edgeViolation, found]; rfl, report_unless_eq_nil.trans ?_⟩
  constructor
  · intro headed
    exact ⟨child, found, headed⟩
  · rintro ⟨child', found', headed⟩
    cases found.symm.trans found'
    exact headed

/-- **The check reports nothing on a node if and only if it is fit** and, unless it is the root, has
a label. -/
theorem Visit.exists_violations {visit : Visit α} (root : Option NodeRef)
    (live : ∀ edge ∈ visit.node.children, ∃ child, arena.node edge.child = .ok child) :
    ∃ made, visit.violations arena root = .ok made ∧ (made = [] ↔
      arena.Fit visit.node ∧ (root ≠ some visit.id → visit.node.label ≠ [])) := by
  obtain ⟨misplaced, reported, placed⟩ := exists_mapM_flatten
    fun edge member => Arena.exists_edgeViolation visit.path (live edge member)
  refine ⟨_, by rw [violations, reported]; rfl, ?_⟩
  have full : ¬ (!visit.node.keyed && visit.node.children.length < 2) = true ↔
      (visit.node.value = none → 2 ≤ visit.node.children.length) := by
    cases value : visit.node.value <;> simp [Node.keyed, value, Nat.succ_le_iff]
  have sorted : ascending visit.node.children = true ↔ Edge.Sorted visit.node.children :=
    ⟨Edge.sorted_of_ascending, Edge.Sorted.ascending⟩
  simp only [List.append_eq_nil_iff, report_if_eq_nil, report_unless_eq_nil, placed, full, sorted,
    not_and]
  constructor
  · rintro ⟨⟨⟨full, labelled⟩, sorted⟩, headed⟩
    exact ⟨⟨full, sorted, headed⟩, labelled⟩
  · rintro ⟨⟨full, sorted, headed⟩, labelled⟩
    exact ⟨⟨⟨full, labelled⟩, sorted⟩, headed⟩

/-! ### What the walk finds -/

namespace Tree.Spans

/-- What the walk visits, some path meets. -/
theorem meets_visit (spans : tree.Spans trunk) {visit : Visit α} (member : visit ∈ trunk.visits) :
    ∃ path, tree.Meets path visit.id visit.node := by
  rw [← spans.meets, ← trunk.nodes_visits]
  exact List.mem_map.mpr ⟨visit, member, rfl⟩

/-- What some path meets, the walk visits. -/
theorem exists_visit (spans : tree.Spans trunk) {path : List Nat} {id : NodeRef} {node : Node α}
    (meets : tree.Meets path id node) :
    ∃ visit ∈ trunk.visits, visit.id = id ∧ visit.node = node := by
  have member := (spans.meets id node).mpr ⟨path, meets⟩
  rw [← trunk.nodes_visits] at member
  obtain ⟨visit, inside, same⟩ := List.mem_map.mp member
  exact ⟨visit, inside, Prod.mk.inj same⟩

theorem visits (spans : tree.Spans trunk) : tree.visits = .ok trunk.visits := by
  unfold Tree.visits Arena.visits
  rw [spans.root]
  cases trunk with
  | none => rfl
  | some whole => exact Arena.visitsFrom_eq spans.holds.read spans.holds.length_le [] 0

/-- **The walk counts the nodes met that are keys**, each once. -/
theorem ncard_keyed (spans : tree.Spans trunk) :
    {id | ∃ path node, tree.Meets path id node ∧ node.keyed = true}.ncard =
      trunk.visits.countP (·.node.keyed) := by
  have distinct : ((trunk.nodes.filter (·.2.keyed)).map Prod.fst).Nodup :=
    (List.filter_sublist.map Prod.fst).nodup spans.holds.distinct
  have same : {id | ∃ path node, tree.Meets path id node ∧ node.keyed = true} =
      (((trunk.nodes.filter (·.2.keyed)).map Prod.fst).toFinset : Set NodeRef) := by
    ext id
    simp only [Set.mem_ofPred_eq, List.coe_toFinset, List.mem_map, List.mem_filter]
    constructor
    · rintro ⟨path, node, meets, keyed⟩
      exact ⟨(id, node), ⟨(spans.meets id node).mpr ⟨path, meets⟩, keyed⟩, rfl⟩
    · rintro ⟨⟨_, node⟩, ⟨member, keyed⟩, rfl⟩
      obtain ⟨path, meets⟩ := (spans.meets _ node).mp member
      exact ⟨path, node, meets, keyed⟩
  rw [same, Set.ncard_coe_finset, List.toFinset_card_of_nodup distinct, List.length_map,
    ← List.countP_eq_length_filter, ← trunk.nodes_visits, List.countP_map]
  rfl

/-- **The walk visits as many nodes as are in use if and only if it visits them all.** -/
theorem length_visits_iff (spans : tree.Spans trunk) (orderly : tree.arena.Orderly) :
    trunk.visits.length = tree.nodeCount ↔
      ∀ {id node}, tree.arena.node id = .ok node → ∃ path, tree.Meets path id node := by
  obtain ⟨nodes, stores⟩ := orderly
  have length : trunk.visits.length = trunk.nodes.length := by
    rw [← trunk.nodes_visits, List.length_map]
  have fewer : trunk.nodes.Subperm nodes := List.subperm_of_subset (.of_map _ spans.holds.distinct)
    fun _ member => stores.only (spans.holds.read member)
  rw [length, Tree.nodeCount, stores.counted]
  constructor
  · intro equal id node found
    have all := fewer.perm_of_length_le equal.ge
    exact (spans.meets id node).mp (all.mem_iff.mpr (stores.only found))
  · intro reached
    refine Nat.le_antisymm fewer.length_le (List.subperm_of_subset (.of_map _ stores.distinct) ?_).length_le
    rintro ⟨id, node⟩ member
    exact (spans.meets id node).mpr (reached (stores.read member))

end Tree.Spans

/-- **The check reports nothing if and only if the tree is whole.** -/
theorem Tree.Linked.exists_violations (linked : tree.Linked) (orderly : tree.arena.Orderly) :
    ∃ reports, tree.violations = .ok reports ∧ (reports = [] ↔ tree.Whole) := by
  have spans := linked.spans
  have live : ∀ visit ∈ tree.trunk.visits, ∀ edge ∈ visit.node.children,
      ∃ child, tree.arena.node edge.child = .ok child := by
    intro visit member edge inside
    obtain ⟨path, leads, found⟩ := spans.meets_visit member
    obtain ⟨slot, here⟩ := List.mem_iff_getElem?.mp inside
    have below : tree.Leads (path ++ [slot]) edge.child := by
      rw [leads.append, Damage.reach_cons found, here]
      rfl
    obtain ⟨child, -, found⟩ := linked.live below
    exact ⟨child, found⟩
  obtain ⟨nodewise, reported, clean⟩ := exists_mapM_flatten
    fun visit member => Visit.exists_violations tree.root (live visit member)
  have elsewhere : ∀ {path id node}, tree.Meets path id node →
      (path ≠ [] ↔ tree.root ≠ some id) := by
    intro path id node meets
    refine not_congr ⟨?_, fun root => linked.once meets.1 ⟨id, root, rfl⟩⟩
    rintro rfl
    obtain ⟨root, start, reach⟩ := meets.1
    rwa [← Option.some.inj reach]
  refine ⟨_, by rw [violations, spans.visits, ok_bind, reported]; rfl, ?_⟩
  simp only [List.append_eq_nil_iff, report_unless_eq_nil, clean, spans.length_visits_iff orderly,
    ← spans.ncard_keyed]
  constructor
  · rintro ⟨⟨nodes, reached⟩, counted⟩
    have met : ∀ {path id node}, tree.Meets path id node →
        tree.arena.Fit node ∧ (tree.root ≠ some id → node.label ≠ []) := by
      intro path id node meets
      obtain ⟨visit, member, rfl, rfl⟩ := spans.exists_visit meets
      exact nodes visit member
    exact ⟨fun meets => (met meets).1, fun meets below => (met meets).2 ((elsewhere meets).mp below),
      reached, counted.symm⟩
  · intro whole
    refine ⟨⟨fun visit member => ?_, whole.reached⟩, whole.counted.symm⟩
    obtain ⟨path, meets⟩ := spans.meets_visit member
    exact ⟨whole.fit meets, fun other => whole.labelled meets ((elsewhere meets).mpr other)⟩

/-! ### A whole tree -/

/-- A subtree whose nodes are all fit is sound. -/
theorem Arena.Holds.sound {sub : Subtree α} (holds : arena.Holds sub.nodes)
    (fit : ∀ entry ∈ sub.nodes, arena.Fit entry.2) : sub.Sound := by
  induction sub using Subtree.induction with
  | node edge label value children ih =>
    have here : arena.Fit ⟨label, children.map Subtree.edge, value⟩ :=
      fit _ (Subtree.top_mem_nodes ⟨edge, label, value, children⟩)
    have under : ∀ child ∈ children, arena.Holds child.nodes := by
      intro child member
      obtain ⟨slot, found⟩ := List.mem_iff_getElem?.mp member
      exact holds.under found
    refine .node (fun child member => ?_) here.sorted (fun valueless => ?_) fun child member => ?_
    · obtain ⟨top, found, headed⟩ := here.headed child.edge (List.mem_map.mpr ⟨child, member, rfl⟩)
      have read : arena.node child.id = .ok child.top :=
        (under child member).read child.top_mem_nodes
      cases read.symm.trans found
      exact headed
    · simpa using here.full valueless
    · refine ih child member (under child member) fun entry inside => fit entry ?_
      exact @Subtree.nodes_subset _ ⟨edge, label, value, children⟩ child member _ inside

/-- **A whole tree shows the trunk that its links span.** -/
theorem Tree.Whole.shows (whole : tree.Whole) (spans : tree.Spans trunk)
    (orderly : tree.arena.Orderly) : tree.Shows trunk where
  root := spans.root
  stores := by
    obtain ⟨nodes, stores⟩ := orderly
    refine stores.perm ((List.perm_ext_iff_of_nodup (.of_map _ stores.distinct)
      (.of_map _ spans.holds.distinct)).mpr ?_)
    rintro ⟨id, node⟩
    rw [spans.meets]
    constructor
    · intro member
      exact whole.reached (stores.read member)
    · rintro ⟨path, meets⟩
      exact stores.only meets.2
  sound := by
    rintro sub rfl
    refine spans.holds.sound fun entry member => ?_
    obtain ⟨path, meets⟩ := (spans.meets entry.1 entry.2).mp member
    exact whole.fit meets
  size := by
    rw [whole.counted, spans.ncard_keyed, ← trunk.entries_visits, Subtree.length_flatMap_own]

/-- **Ascending entries are those of a map.** -/
theorem Ascend.exists_map {entries : List (Bytes × α)} (ascend : Ascend entries) :
    ∃ map : KeyMap α, map.toList = entries := by
  induction entries with
  | nil => exact ⟨∅, by simp⟩
  | cons entry entries ih =>
    obtain ⟨above, later⟩ := List.pairwise_cons.mp ascend
    obtain ⟨map, same⟩ := ih later
    have cut : Cut map.toList entry.1 [] none entries := ⟨same, nofun, above⟩
    exact ⟨map.insert entry.1 entry.2, cut.toList_insert entry.2⟩

/-- **What a tree shows is a register.** -/
theorem Tree.Shows.exists_represents (shows : tree.Shows trunk) :
    ∃ register, tree.Represents register := by
  have ascend : Ascend trunk.entries := by
    cases trunk with
    | none => exact .nil
    | some whole => exact (shows.sound whole rfl).ascend []
  obtain ⟨map, same⟩ := ascend.exists_map
  exact ⟨⟨map, tree.generation⟩, ⟨trunk, shows, same.symm⟩, rfl⟩

/-- **A tree behaves as the finite map with these entries.** -/
structure Tree.Maps (tree : Tree α) (entries : List (Bytes × α)) : Prop where
  /-- They are what is handed out from the least key on, however much more is asked for. -/
  scan : ∃ begun ended, tree.scan .min [] = .ok begun ∧
    ∀ count, entries.length < count → begun.take count = .ok (entries, ended)
  lists : tree.entries = .ok entries
  ascend : Ascend entries
  /-- Looking up a key answers its value if it has an entry, and nothing else. -/
  find? : ∀ key, ∃ found, tree.find? key = .ok found ∧
    ∀ value, found = some value ↔ (key, value) ∈ entries
  size : tree.size = entries.length

theorem Tree.Represents.maps {register : Register α} (represents : tree.Represents register) :
    tree.Maps register.map.toList where
  scan := by
    obtain ⟨position, ended, starts, _, takes, _⟩ := represents.scan_drains .min [] .default
    exact ⟨_, ended, starts, Seek.stretch_min [] register.map.toList ▸ takes⟩
  lists := represents.entries
  ascend := register.map.ascend
  find? := by
    intro key
    refine ⟨_, represents.find? key, fun value => ?_⟩
    rw [Std.ExtTreeMap.mem_toList_iff_getElem?_eq_some]
  size := by rw [represents.size, Std.ExtTreeMap.length_toList]

/-! ### The check against damage -/

namespace Tree

/-- **The integrity check decides whether a tree is whole**, whatever has happened to it, as long as
its links span a tree; and a tree on which it reports nothing is a finite map. -/
theorem integrity_check_decides (orderly : tree.arena.Orderly) (linked : tree.Linked) :
    ∃ reports, tree.violations = .ok reports ∧ (reports = [] ↔ tree.Whole) ∧
      (reports = [] → ∃ entries, tree.Maps entries) := by
  obtain ⟨reports, checks, decides⟩ := linked.exists_violations orderly
  refine ⟨reports, checks, decides, fun none => ?_⟩
  obtain ⟨register, represents⟩ :=
    ((decides.mp none).shows linked.spans orderly).exists_represents
  exact ⟨_, represents.maps⟩

/-- Of the keys 1, 2, 2 1 and 2 2, the value of 2 is taken and the branch above 1 and 2 is given one
instead: the check reports nothing, and the empty key has taken the place of 2. -/
theorem unreported_exchange : ∃ tree : Tree Nat, tree.Damaged ∧ tree.arena.Orderly ∧ tree.Linked ∧
    tree.violations = .ok [] ∧ tree.find? [] = .ok (some 8) ∧ tree.find? [2] = .ok none ∧
    ∃ entries, tree.Maps entries := by
  let exchanged : Tree Nat :=
    ⟨⟨#[some ⟨[1], [], some 3⟩, some ⟨[], [⟨1, 0⟩, ⟨2, 2⟩], some 8⟩,
      some ⟨[2], [⟨1, 3⟩, ⟨2, 4⟩], none⟩, some ⟨[1], [], some 5⟩, some ⟨[2], [], some 6⟩],
      [], 5, 64, 0⟩, some 1, 4, 4, 0⟩
  have sound := (Reachable.empty (α := Nat) {} 0).runAll
    [.insertAll [([1], 3), ([2], 4), ([2, 1], 5), ([2, 2], 6)]] rfl
  have dropped := @Damaged.damage Nat _ _ [1] .dropValue (.reachable sound) rfl
  have damaged : exchanged.Damaged := @Damaged.damage Nat _ _ [] (.putValue 8) dropped rfl
  have nodes : exchanged.trunk.nodes =
      [(1, ⟨[], [⟨1, 0⟩, ⟨2, 2⟩], some 8⟩), (0, ⟨[1], [], some 3⟩), (2, ⟨[2], [⟨1, 3⟩, ⟨2, 4⟩], none⟩),
        (3, ⟨[1], [], some 5⟩), (4, ⟨[2], [], some 6⟩)] := by
    simp [exchanged, Tree.trunk, Trunk.nodes, Arena.subtree, Arena.node, Subtree.nodes]
  have holds : exchanged.arena.Holds exchanged.trunk.nodes := by
    rw [nodes]
    refine ⟨fun {id node} member => ?_, by decide⟩
    simp only [List.mem_cons, Prod.mk.injEq, List.not_mem_nil, or_false] at member
    rcases member with ⟨rfl, rfl⟩ | ⟨rfl, rfl⟩ | ⟨rfl, rfl⟩ | ⟨rfl, rfl⟩ | ⟨rfl, rfl⟩ <;> rfl
  have linked : exchanged.Linked := .of_holds rfl holds
  obtain ⟨reports, checks, _, maps⟩ := integrity_check_decides damaged.orderly linked
  have none : exchanged.violations = .ok [] := by decide
  cases none.symm.trans checks
  exact ⟨exchanged, damaged, damaged.orderly, linked, none, rfl, rfl, maps rfl⟩

end Tree

end RadixLog
