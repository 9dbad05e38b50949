/-
**Links that span a tree.**

A tree is linked when the links from its root on lead to nodes in use only, and to none of them
twice. Nothing else is asked of its nodes, so a tree may be linked and badly damaged. What the links
span is then a subtree as a value whose nodes the arena holds, and wherever the arena holds the nodes
of a subtree under the root, the tree is linked.

* `Tree.Leads`, `Tree.Meets`: where the child slots of a path lead, and to which node;
* `Tree.Linked`: nodes in use only, and none twice;
* `Arena.subtree`, `Tree.trunk`: what the links span, read off the arena;
* `Tree.Linked.spans`: the nodes of it are those that some path meets;
* `Tree.Linked.of_holds`: a tree whose arena holds a trunk is linked.
-/

import Mathlib.Data.Finset.Card
import Mathlib.Data.Finset.Range
import RadixLog.Proofs.Arena.Stores
import RadixLog.Proofs.Subtree
import RadixLog.Tree.Damage

namespace RadixLog

variable {α : Type} {arena : Arena α} {tree : Tree α} {id : NodeRef} {node : Node α}
  {path more : List Nat}

/-! ### Paths of child slots -/

namespace Damage

/-- From a node in use, the first slot of a path picks one of its children. -/
theorem reach_cons (found : arena.node id = .ok node) (slot : Nat) (path : List Nat) :
    reach arena id (slot :: path) =
      node.children[slot]?.bind fun edge => reach arena edge.child path := by
  rw [reach, found]
  dsimp only
  cases node.children[slot]? <;> rfl

theorem reach_append (arena : Arena α) (id : NodeRef) (path more : List Nat) :
    reach arena id (path ++ more) =
      (reach arena id path).bind fun middle => reach arena middle more := by
  induction path generalizing id with
  | nil => rfl
  | cons slot path ih =>
    cases found : arena.node id with
    | error fault => simp [reach, found]
    | ok node =>
      rw [List.cons_append, reach_cons found, reach_cons found]
      cases node.children[slot]? with
      | none => rfl
      | some edge => exact ih edge.child

end Damage

namespace Tree

/-- The child slots of a path lead from the root to this node. -/
def Leads (tree : Tree α) (path : List Nat) (id : NodeRef) : Prop :=
  ∃ root, tree.root = some root ∧ Damage.reach tree.arena root path = some id

/-- They lead to this node, which is in use. -/
def Meets (tree : Tree α) (path : List Nat) (id : NodeRef) (node : Node α) : Prop :=
  tree.Leads path id ∧ tree.arena.node id = .ok node

/-- **The links of a tree span a tree**: from the root on they lead to nodes in use only, and to no
node on two ways. -/
structure Linked (tree : Tree α) : Prop where
  live : ∀ {path id}, tree.Leads path id → ∃ node, tree.Meets path id node
  once : ∀ {path other id}, tree.Leads path id → tree.Leads other id → path = other

/-- A path goes on from where its first part leads. -/
theorem Leads.append (leads : tree.Leads path id) {below : NodeRef} :
    tree.Leads (path ++ more) below ↔ Damage.reach tree.arena id more = some below := by
  obtain ⟨root, start, reach⟩ := leads
  constructor
  · rintro ⟨root', start', reach'⟩
    cases start.symm.trans start'
    rwa [Damage.reach_append, reach, Option.bind_some] at reach'
  · intro reach'
    exact ⟨root, start, by rw [Damage.reach_append, reach, Option.bind_some, reach']⟩

/-- A path goes on through each slot of the node at its end. -/
theorem Leads.step (leads : tree.Leads path id) (found : tree.arena.node id = .ok node) {slot : Nat}
    {child : Edge} (here : node.children[slot]? = some child) :
    tree.Leads (path ++ [slot]) child.child := by
  rw [leads.append, Damage.reach_cons found, here]
  rfl

/-- The first part of a path leads somewhere as well. -/
theorem Leads.exists_of_append (leads : tree.Leads (path ++ more) id) :
    ∃ middle, tree.Leads path middle := by
  obtain ⟨root, start, reach⟩ := leads
  rw [Damage.reach_append] at reach
  obtain ⟨middle, first, _⟩ := Option.bind_eq_some_iff.mp reach
  exact ⟨middle, root, start, first⟩

namespace Linked

/-- **A path is shorter than the arena has slots**, since it passes through no slot twice. -/
theorem length_lt (linked : tree.Linked) (leads : tree.Leads path id) :
    path.length < tree.arena.slots.size := by
  have onWay : ∀ count, ∃ middle, tree.Leads (path.take count) middle := by
    intro count
    rw [← List.take_append_drop count path] at leads
    exact leads.exists_of_append
  choose middle leadsTo using onWay
  have distinct : Set.InjOn middle (Finset.range (path.length + 1)) := by
    intro first inFirst second inSecond same
    have taken := linked.once (leadsTo first) (same ▸ leadsTo second)
    have lengths := congrArg List.length taken
    simp only [List.length_take, Finset.coe_range, Set.mem_Iio] at lengths inFirst inSecond
    omega
  have inside : ∀ count ∈ Finset.range (path.length + 1),
      middle count ∈ Finset.range tree.arena.slots.size := by
    intro count _
    obtain ⟨node, meets⟩ := linked.live (leadsTo count)
    exact Finset.mem_range.mpr (Arena.lt_size_of_node meets.2)
  have fewer := Finset.card_le_card_of_injOn middle inside distinct
  rwa [Finset.card_range, Finset.card_range] at fewer

end Linked

end Tree

/-! ### What the links span -/

/-- The subtree that an edge leads to, down to `fuel` nodes; a node that is not in use ends it. -/
def Arena.subtree (arena : Arena α) : (fuel : Nat) → Edge → Subtree α
  | 0, edge => ⟨edge, [], none, []⟩
  | fuel + 1, edge =>
    match arena.node edge.child with
    | .ok node => ⟨edge, node.label, node.value, node.children.map (arena.subtree fuel)⟩
    | .error _ => ⟨edge, [], none, []⟩

theorem Arena.subtree_edge (arena : Arena α) (fuel : Nat) (edge : Edge) :
    (arena.subtree fuel edge).edge = edge := by
  cases fuel with
  | zero => rfl
  | succ fuel =>
    unfold subtree
    split <;> rfl

theorem Arena.nodes_subtree {edge : Edge} (found : arena.node edge.child = .ok node) (fuel : Nat) :
    (arena.subtree (fuel + 1) edge).nodes =
      (edge.child, node) :: node.children.flatMap fun child => (arena.subtree fuel child).nodes := by
  have edges : (node.children.map (arena.subtree fuel)).map Subtree.edge = node.children := by
    rw [List.map_map]
    exact List.map_id'' (arena.subtree_edge fuel) _
  rw [subtree, found, Subtree.nodes, edges, List.flatMap_map]

namespace Tree

/-- The trunk that the links of a tree span. -/
def trunk (tree : Tree α) : Trunk α :=
  tree.root.map fun root => tree.arena.subtree tree.arena.slots.size ⟨0, root⟩

/-- **A trunk is what the links of a tree span**: its root is that of the tree, and its nodes are in
use, all different, and those that some path meets. -/
structure Spans (tree : Tree α) (trunk : Trunk α) : Prop where
  root : tree.root = trunk.map Subtree.id
  holds : tree.arena.Holds trunk.nodes
  meets : ∀ id node, (id, node) ∈ trunk.nodes ↔ ∃ path, tree.Meets path id node

namespace Linked

variable {fuel slot : Nat} {edge child : Edge}

/-- **The nodes of the subtree at the end of a path** are those that some path leads to from
there. -/
theorem mem_subtree_iff (linked : tree.Linked) (leads : tree.Leads path edge.child)
    (enough : tree.arena.slots.size ≤ path.length + fuel) (id : NodeRef) :
    id ∈ (tree.arena.subtree fuel edge).nodes.map Prod.fst ↔
      ∃ more, Damage.reach tree.arena edge.child more = some id := by
  induction fuel generalizing edge path with
  | zero => exact absurd (linked.length_lt leads) (Nat.not_lt.mpr enough)
  | succ fuel ih =>
    obtain ⟨node, -, found⟩ := linked.live leads
    have below : ∀ (slot : Nat) (child : Edge), node.children[slot]? = some child →
        (id ∈ (tree.arena.subtree fuel child).nodes.map Prod.fst ↔
          ∃ more, Damage.reach tree.arena child.child more = some id) := by
      intro slot child here
      apply ih (leads.step found here)
      rw [List.length_append, List.length_singleton]
      omega
    rw [Arena.nodes_subtree found, List.map_cons, List.map_flatMap, List.mem_cons,
      List.mem_flatMap]
    constructor
    · rintro (rfl | ⟨child, inside, member⟩)
      · exact ⟨[], rfl⟩
      · obtain ⟨slot, here⟩ := List.mem_iff_getElem?.mp inside
        obtain ⟨more, reach⟩ := (below slot child here).mp member
        refine ⟨slot :: more, ?_⟩
        rw [Damage.reach_cons found, here]
        exact reach
    · rintro ⟨more, reach⟩
      cases more with
      | nil => exact .inl (Option.some.inj reach).symm
      | cons slot more =>
        rw [Damage.reach_cons found] at reach
        obtain ⟨child, here, reach⟩ := Option.bind_eq_some_iff.mp reach
        exact .inr ⟨child, List.mem_of_getElem? here, (below slot child here).mpr ⟨more, reach⟩⟩

/-- What is under a slot of the node at the end of a path, a path through that slot leads to. -/
theorem exists_leads_through (linked : tree.Linked) (leads : tree.Leads path edge.child)
    (enough : tree.arena.slots.size ≤ path.length + (fuel + 1))
    (found : tree.arena.node edge.child = .ok node) (here : node.children[slot]? = some child)
    (member : id ∈ (tree.arena.subtree fuel child).nodes.map Prod.fst) :
    ∃ more, tree.Leads (path ++ slot :: more) id := by
  have onward := leads.step found here
  have enough' : tree.arena.slots.size ≤ (path ++ [slot]).length + fuel := by
    rw [List.length_append, List.length_singleton]
    omega
  obtain ⟨more, reach⟩ := (linked.mem_subtree_iff onward enough' id).mp member
  refine ⟨more, ?_⟩
  rw [List.append_cons, onward.append]
  exact reach

/-- **The arena holds the subtree at the end of a path.** -/
theorem holds_subtree (linked : tree.Linked) (leads : tree.Leads path edge.child)
    (enough : tree.arena.slots.size ≤ path.length + fuel) :
    tree.arena.Holds (tree.arena.subtree fuel edge).nodes := by
  induction fuel generalizing edge path with
  | zero => exact absurd (linked.length_lt leads) (Nat.not_lt.mpr enough)
  | succ fuel ih =>
    obtain ⟨node, -, found⟩ := linked.live leads
    have below : ∀ child ∈ node.children,
        tree.arena.Holds (tree.arena.subtree fuel child).nodes := by
      intro child member
      obtain ⟨slot, here⟩ := List.mem_iff_getElem?.mp member
      apply ih (leads.step found here)
      rw [List.length_append, List.length_singleton]
      omega
    rw [Arena.nodes_subtree found]
    constructor
    · intro id other member
      rcases List.mem_cons.mp member with same | under
      · cases same
        exact found
      · obtain ⟨child, inside, member⟩ := List.mem_flatMap.mp under
        exact (below child inside).read member
    · rw [List.map_cons, List.map_flatMap, List.nodup_cons, List.nodup_flatMap]
      refine ⟨fun again => ?_, fun child inside => (below child inside).distinct, ?_⟩
      · obtain ⟨child, inside, member⟩ := List.mem_flatMap.mp again
        obtain ⟨slot, here⟩ := List.mem_iff_getElem?.mp inside
        obtain ⟨more, leads'⟩ := linked.exists_leads_through leads enough found here member
        simpa using linked.once leads leads'
      · -- A node under two slots would be at the end of two paths.
        refine List.pairwise_iff_getElem.mpr fun i j iIn jIn less id inLeft inRight => ?_
        obtain ⟨left, leadsLeft⟩ := linked.exists_leads_through leads enough found
          (List.getElem?_eq_getElem iIn) inLeft
        obtain ⟨right, leadsRight⟩ := linked.exists_leads_through leads enough found
          (List.getElem?_eq_getElem jIn) inRight
        have same := linked.once leadsLeft leadsRight
        rw [List.append_cancel_left_eq, List.cons.injEq] at same
        exact Nat.ne_of_lt less same.1

/-- **What the links of a tree span is a trunk that its arena holds.** -/
theorem spans (linked : tree.Linked) : tree.Spans tree.trunk := by
  unfold trunk
  cases start : tree.root with
  | none =>
    refine ⟨start, ⟨nofun, List.nodup_nil⟩, fun id node => ⟨nofun, ?_⟩⟩
    rintro ⟨path, ⟨root, start', _⟩, _⟩
    cases start.symm.trans start'
  | some root =>
    let edge : Edge := ⟨0, root⟩
    have leads : tree.Leads [] edge.child := ⟨root, start, rfl⟩
    have enough : tree.arena.slots.size ≤ ([] : List Nat).length + tree.arena.slots.size :=
      (Nat.zero_add _).ge
    have holds := linked.holds_subtree leads enough
    have ids := linked.mem_subtree_iff leads enough
    refine ⟨?_, holds, fun id node => ?_⟩
    · rw [start, Option.map_some, Option.map_some, Subtree.id, Arena.subtree_edge]
    · constructor
      · intro member
        obtain ⟨path, reach⟩ := (ids id).mp (List.mem_map.mpr ⟨_, member, rfl⟩)
        exact ⟨path, ⟨root, start, reach⟩, holds.read member⟩
      · rintro ⟨path, ⟨root', start', reach⟩, found⟩
        cases start.symm.trans start'
        obtain ⟨⟨_, other⟩, member, rfl⟩ := List.mem_map.mp ((ids id).mpr ⟨path, reach⟩)
        cases found.symm.trans (holds.read member)
        exact member

end Linked

end Tree

/-! ### Trees that hold a trunk -/

namespace Arena.Holds

variable {sub child : Subtree α} {slot : Nat}

/-- What holds a subtree holds what is under each of its slots. -/
theorem under (holds : arena.Holds sub.nodes) (here : sub.children[slot]? = some child) :
    arena.Holds child.nodes := by
  have inside := List.mem_of_getElem? here
  have distinct := holds.distinct
  rw [sub.nodes_eq, List.map_cons, List.map_flatMap, List.nodup_cons, List.nodup_flatMap] at distinct
  exact ⟨fun member => holds.read (Subtree.nodes_subset inside member), distinct.2.1 child inside⟩

/-- A path from a subtree leads on from one of its children. -/
theorem reach_cons (holds : arena.Holds sub.nodes) (slot : Nat) (path : List Nat) :
    Damage.reach arena sub.id (slot :: path) =
      sub.children[slot]?.bind fun child => Damage.reach arena child.id path := by
  have found : arena.node sub.id = .ok sub.top := holds.read sub.top_mem_nodes
  rw [Damage.reach_cons found, Subtree.top_children, List.getElem?_map]
  cases sub.children[slot]? <;> rfl

/-- Every path from a subtree leads to one of its nodes. -/
theorem mem_of_reach (holds : arena.Holds sub.nodes)
    (reach : Damage.reach arena sub.id path = some id) : id ∈ sub.nodes.map Prod.fst := by
  induction path generalizing sub with
  | nil =>
    rw [← Option.some.inj reach]
    exact List.mem_map_of_mem sub.top_mem_nodes
  | cons slot path ih =>
    rw [holds.reach_cons] at reach
    obtain ⟨child, here, reach⟩ := Option.bind_eq_some_iff.mp reach
    have below := Subtree.nodes_subset (List.mem_of_getElem? here)
    exact List.map_subset Prod.fst below (ih (holds.under here) reach)

/-- No node is under two slots. -/
theorem slot_eq (holds : arena.Holds sub.nodes) {first second : Nat} {left right : Subtree α}
    (hereLeft : sub.children[first]? = some left) (hereRight : sub.children[second]? = some right)
    (inLeft : id ∈ left.nodes.map Prod.fst) (inRight : id ∈ right.nodes.map Prod.fst) :
    first = second := by
  have distinct := holds.distinct
  rw [sub.nodes_eq, List.map_cons, List.map_flatMap, List.nodup_cons, List.nodup_flatMap] at distinct
  have apart := List.pairwise_iff_getElem.mp distinct.2.2
  obtain ⟨inside, rfl⟩ := List.getElem?_eq_some_iff.mp hereLeft
  obtain ⟨inside', rfl⟩ := List.getElem?_eq_some_iff.mp hereRight
  rcases Nat.lt_trichotomy first second with less | same | greater
  · exact absurd inRight (apart first second inside inside' less inLeft)
  · exact same
  · exact absurd inLeft (apart second first inside' inside greater inRight)

/-- A path from a subtree to a node under one of its slots goes through that slot. -/
theorem exists_through (holds : arena.Holds sub.nodes) (here : sub.children[slot]? = some child)
    (inside : id ∈ child.nodes.map Prod.fst) (reach : Damage.reach arena sub.id path = some id) :
    ∃ rest, path = slot :: rest ∧ Damage.reach arena child.id rest = some id := by
  cases path with
  | nil =>
    cases Option.some.inj reach
    have distinct := holds.distinct
    rw [sub.nodes_eq, List.map_cons, List.map_flatMap, List.nodup_cons] at distinct
    exact absurd (List.mem_flatMap.mpr ⟨child, List.mem_of_getElem? here, inside⟩) distinct.1
  | cons other rest =>
    rw [holds.reach_cons] at reach
    obtain ⟨child', here', reach⟩ := Option.bind_eq_some_iff.mp reach
    obtain rfl := holds.slot_eq here here' inside ((holds.under here').mem_of_reach reach)
    cases here.symm.trans here'
    exact ⟨rest, rfl, reach⟩

/-- No two paths from a subtree lead to the same node. -/
theorem eq_of_reach (holds : arena.Holds sub.nodes) {other : List Nat}
    (first : Damage.reach arena sub.id path = some id)
    (second : Damage.reach arena sub.id other = some id) : path = other := by
  induction path generalizing sub other with
  | nil =>
    cases other with
    | nil => rfl
    | cons slot other =>
      rw [holds.reach_cons] at second
      obtain ⟨child, here, second⟩ := Option.bind_eq_some_iff.mp second
      obtain ⟨rest, same, -⟩ :=
        holds.exists_through here ((holds.under here).mem_of_reach second) first
      cases same
  | cons slot path ih =>
    rw [holds.reach_cons] at first
    obtain ⟨child, here, first⟩ := Option.bind_eq_some_iff.mp first
    obtain ⟨rest, rfl, onward⟩ :=
      holds.exists_through here ((holds.under here).mem_of_reach first) second
    rw [ih (holds.under here) first onward]

end Arena.Holds

/-- **A tree whose arena holds the nodes of a trunk is linked.** -/
theorem Tree.Linked.of_holds {trunk : Trunk α} (root : tree.root = trunk.map Subtree.id)
    (holds : tree.arena.Holds trunk.nodes) : tree.Linked := by
  cases trunk with
  | none =>
    have nowhere : ∀ path id, ¬ tree.Leads path id := by
      rintro path id ⟨start, begins, _⟩
      cases root.symm.trans begins
    exact ⟨fun leads => absurd leads (nowhere _ _), fun leads => absurd leads (nowhere _ _)⟩
  | some whole =>
    have reaches : ∀ {path id}, tree.Leads path id →
        Damage.reach tree.arena whole.id path = some id := by
      rintro path id ⟨start, begins, reach⟩
      cases root.symm.trans begins
      exact reach
    refine ⟨fun leads => ?_, fun first second => holds.eq_of_reach (reaches first) (reaches second)⟩
    obtain ⟨⟨_, node⟩, member, rfl⟩ := List.mem_map.mp (holds.mem_of_reach (reaches leads))
    exact ⟨node, leads, holds.read member⟩

end RadixLog
