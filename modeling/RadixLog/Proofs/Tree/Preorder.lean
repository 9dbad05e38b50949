/-
**A walk is in preorder.**

A walk keeps the nodes still to be visited on a stack, each with the number of bytes that are spelled
above it, and one buffer for the paths of all nodes. Whatever has been visited since a node was pushed,
the buffer goes on from the bytes above that node, so that cutting it back gives these. So the walk
visits what the links of a tree span, also in a damaged one: each node once, with its true path and
depth, parents first and children as their table has them. In a tree that operations lead to, the
keys met on the way are those that a scan hands out.

* `Walker.step`, `Tree.walk`: the walk with its stack and its buffer;
* `Walker.Keeps.step`, `Walker.Keeps.run`: one step, and a whole walk;
* `Link.slots`, `Tree.Path.meets`: the place that a stack of frames leads to;
* `Tree.Preorder`, `Tree.Linked.preorder`: what the visits of a walk are;
* `Tree.walk_in_preorder`: damaged trees, and trees that operations lead to.
-/

import RadixLog.Proofs.Descent.Indexed
import RadixLog.Proofs.Tree.Outline
import RadixLog.Proofs.Workspace.Frames

namespace RadixLog

variable {α : Type} {arena : Arena α} {tree : Tree α} {trunk : Trunk α}

/-! ### The walk in place -/

/-- A node still to be visited: its slot, its distance from the root, and how many bytes are spelled
above it. -/
structure Pending where
  id : NodeRef
  depth : Nat
  base : Nat
  deriving DecidableEq, Repr

/-- A walk on its way: the nodes still to be visited, the next one first, and the buffer of paths. -/
structure Walker where
  stack : List Pending
  key : Bytes
  deriving DecidableEq, Repr

namespace Walker

/-- Pops a node and visits it, unless there is none left. The buffer is cut back to what is spelled
above the node and goes on with its label; its children are pushed, the last one first. -/
def step (walker : Walker) (arena : Arena α) : Except Fault (Option (Visit α × Walker)) :=
  match walker.stack with
  | [] => return none
  | pending :: stack => do
    let node ← arena.node pending.id
    let key := walker.key.take pending.base ++ node.label
    let stack := node.children.reverse.foldl
      (fun stack edge => ⟨edge.child, pending.depth + 1, key.length⟩ :: stack) stack
    return some (⟨pending.id, node, key, pending.depth⟩, ⟨stack, key⟩)

/-- The visits of a walk that makes fewer steps than `fuel`, until no node is left. -/
def run (arena : Arena α) : (fuel : Nat) → Walker → Except Fault (List (Visit α))
  | 0, _ => .error .endless
  | fuel + 1, walker => do
    match ← walker.step arena with
    | none => return []
    | some (visit, walker) => return visit :: (← run arena fuel walker)

end Walker

/-- The walk over a tree, with its stack and its buffer. -/
def Tree.walk (tree : Tree α) (fuel : Nat) : Except Fault (List (Visit α)) :=
  match tree.root with
  | none => return []
  | some root => Walker.run tree.arena fuel ⟨[⟨root, 0, 0⟩], []⟩

namespace Walker

/-! ### What is left of a walk -/

/-- A part of a tree that is still to be walked, with the bytes spelled above it and the number of
nodes there. -/
structure Part (α : Type) where
  sub : Subtree α
  above : Bytes
  depth : Nat

namespace Part

/-- What the stack remembers of a part. -/
def pending (part : Part α) : Pending := ⟨part.sub.id, part.depth, part.above.length⟩

/-- The bytes through the label of its node. -/
def path (part : Part α) : Bytes := part.above ++ part.sub.label

/-- The visit of its node. -/
def visit (part : Part α) : Visit α := ⟨part.sub.id, part.sub.top, part.path, part.depth⟩

/-- The visits of a walk over it. -/
def visits (part : Part α) : List (Visit α) := part.sub.visits part.above part.depth

/-- The parts under its node. -/
def below (part : Part α) : List (Part α) :=
  part.sub.children.map fun child => ⟨child, part.path, part.depth + 1⟩

theorem visits_eq (part : Part α) : part.visits = part.visit :: part.below.flatMap visits := by
  rw [visits, Subtree.visits_eq, below, List.flatMap_map]
  rfl

theorem map_pending_below (part : Part α) : part.below.map pending =
    part.sub.top.children.map fun edge => ⟨edge.child, part.depth + 1, part.path.length⟩ := by
  rw [below, Subtree.top_children, List.map_map, List.map_map]
  rfl

theorem above_below {part other : Part α} (inside : other ∈ part.below) :
    other.above = part.path := by
  obtain ⟨child, -, rfl⟩ := List.mem_map.mp inside
  rfl

theorem nodes_below {part other : Part α} (inside : other ∈ part.below) :
    other.sub.nodes ⊆ part.sub.nodes := by
  obtain ⟨child, member, rfl⟩ := List.mem_map.mp inside
  exact Subtree.nodes_subset member

/-- **What goes on from the bytes above a part goes on from those above the next one**; so it is still
when those under its node have taken its place. -/
theorem spelled_below {part : Part α} {parts : List (Part α)}
    (chain : ((part :: parts).map above).Pairwise fun long short => short <+: long) :
    (part.path :: (part.below ++ parts).map above).Pairwise fun long short => short <+: long := by
  obtain ⟨onward, others⟩ := List.pairwise_cons.mp chain
  have under : ∀ short ∈ part.below.map above, short = part.path := by
    intro short member
    obtain ⟨other, inside, rfl⟩ := List.mem_map.mp member
    exact above_below inside
  have further : ∀ short ∈ parts.map above, short <+: part.path := fun short member =>
    (onward short member).trans (List.prefix_append _ _)
  rw [List.map_append, List.pairwise_cons, List.pairwise_append]
  refine ⟨fun short member => ?_, ?_, others, fun long inside short member => ?_⟩
  · rcases List.mem_append.mp member with inside | later
    · rw [under short inside]
    · exact further short later
  · refine List.pairwise_of_forall_mem_list fun long inside short inside' => ?_
    rw [under long inside, under short inside']
  · rw [under long inside]
    exact further short member

end Part

/-- **What a walk keeps**, with some parts of a tree still to be walked: they are on its stack, the
arena has their nodes, and the buffer goes on from what is spelled above the first of them, which goes
on from what is spelled above the second, and so on. -/
structure Keeps (arena : Arena α) (parts : List (Part α)) (walker : Walker) : Prop where
  stack : walker.stack = parts.map Part.pending
  read : ∀ part ∈ parts, ∀ {id node}, (id, node) ∈ part.sub.nodes → arena.node id = .ok node
  spelled : (walker.key :: parts.map Part.above).Pairwise fun long short => short <+: long

variable {part : Part α} {parts : List (Part α)} {walker : Walker}

/-- **One step visits the node of the first part** and leaves those under it to be walked, in the order
of the child table. -/
theorem Keeps.step (keeps : walker.Keeps arena (part :: parts)) :
    ∃ after, walker.step arena = .ok (some (part.visit, after)) ∧
      after.Keeps arena (part.below ++ parts) := by
  obtain ⟨stack, key⟩ := walker
  obtain rfl : stack = _ := keeps.stack
  have here : arena.node part.sub.id = .ok part.sub.top :=
    keeps.read part List.mem_cons_self part.sub.top_mem_nodes
  obtain ⟨buffer, chain⟩ := List.pairwise_cons.mp keeps.spelled
  -- Nothing of what is spelled above the part has been cut off the buffer.
  have cut : key.take part.above.length = part.above :=
    (List.prefix_iff_eq_take.mp (buffer _ List.mem_cons_self)).symm
  refine ⟨⟨(part.below ++ parts).map Part.pending, part.path⟩, ?_, rfl, ?_, Part.spelled_below chain⟩
  · rw [Walker.step, List.map_cons]
    dsimp only [Part.pending]
    rw [here, ok_bind, List.foldl_reverse, List.foldr_cons_eq_append, cut, List.map_append,
      Part.map_pending_below]
    rfl
  · intro other member
    rcases List.mem_append.mp member with inside | later
    · exact fun found => keeps.read part List.mem_cons_self (Part.nodes_below inside found)
    · exact keeps.read other (List.mem_cons_of_mem _ later)

/-- **A walk makes the visits of all parts**, one part after the other. -/
theorem Keeps.run (keeps : walker.Keeps arena parts) {fuel : Nat}
    (enough : (parts.flatMap Part.visits).length < fuel) :
    Walker.run arena fuel walker = .ok (parts.flatMap Part.visits) := by
  induction fuel generalizing walker parts with
  | zero => exact absurd enough (Nat.not_lt_zero _)
  | succ fuel ih =>
    cases parts with
    | nil =>
      obtain ⟨stack, key⟩ := walker
      obtain rfl : stack = [] := keeps.stack
      rfl
    | cons part parts =>
      obtain ⟨after, steps, later⟩ := keeps.step
      have split : (part :: parts).flatMap Part.visits =
          part.visit :: (part.below ++ parts).flatMap Part.visits := by
        rw [List.flatMap_cons, Part.visits_eq, List.flatMap_append, List.cons_append]
      rw [split] at enough ⊢
      have rest := ih later (Nat.lt_of_succ_lt_succ enough)
      rw [Walker.run, steps, ok_bind]
      dsimp only
      rw [rest]
      rfl

end Walker

/-- **The walk visits all that the links span**, and ends as soon as it has. -/
theorem Tree.Spans.walk (spans : tree.Spans trunk) {fuel : Nat}
    (enough : trunk.visits.length < fuel) : tree.walk fuel = .ok trunk.visits := by
  rw [Tree.walk, spans.root]
  cases trunk with
  | none => rfl
  | some whole =>
    have start : Walker.Keeps tree.arena [⟨whole, [], 0⟩] ⟨[⟨whole.id, 0, 0⟩], []⟩ := by
      refine ⟨rfl, fun part member => ?_, by simp⟩
      obtain rfl := List.mem_singleton.mp member
      exact spans.holds.read
    have visits : ([⟨whole, [], 0⟩] : List (Walker.Part α)).flatMap Walker.Part.visits =
        Trunk.visits (some whole) := List.append_nil _
    rw [← visits] at enough ⊢
    exact start.run enough

/-! ### Places -/

/-- The child slots that a stack of frames goes through, from the root down. -/
def Link.slots (stack : List Link) : List Nat := (stack.dropLast.map Link.slot).reverse

/-- **A path leads through its slots** to the node on top. -/
theorem Tree.Path.meets {top : Link} {above : List Link} {key : Bytes} {node : Node α}
    (path : tree.Path (top :: above) key node) :
    tree.Meets (Link.slots (top :: above)) top.node node := by
  generalize frames : top :: above = stack at path
  induction path generalizing top above with
  | root start found =>
    cases frames
    exact ⟨⟨_, start, rfl⟩, found⟩
  | child path here found ih =>
    cases frames
    have upper := ih rfl
    have slots := upper.1.step upper.2 here
    rw [Link.slots, List.dropLast_cons_cons, List.map_cons, List.reverse_cons]
    exact ⟨slots, found⟩

namespace Arena.Holds

variable {sub : Subtree α}

/-- **The visits of a walk over a subtree are in the order of places.** -/
theorem ordered (holds : arena.Holds sub.nodes) (above : Bytes) (depth : Nat) :
    (sub.visits above depth).Pairwise fun a b => ∀ place other,
      Damage.reach arena sub.id place = some a.id → Damage.reach arena sub.id other = some b.id →
        place < other := by
  induction sub using Subtree.induction generalizing above depth with
  | node edge label value children ih =>
    let sub : Subtree α := ⟨edge, label, value, children⟩
    have slots : ∀ child ∈ children, ∃ slot : Nat, sub.children[slot]? = some child :=
      fun child inside => List.mem_iff_getElem?.mp inside
    have met : ∀ {child : Subtree α} {visit : Visit α},
        visit ∈ child.visits (above ++ label) (depth + 1) → visit.id ∈ child.nodes.map Prod.fst := by
      intro child visit member
      rw [← child.nodes_visits (above ++ label) (depth + 1), List.map_map]
      exact List.mem_map_of_mem member
    rw [Subtree.visits, List.pairwise_cons, List.pairwise_flatMap]
    refine ⟨fun later member place other first second => ?_, fun child inside => ?_, ?_⟩
    · -- The place of the node itself is empty, and begins all others.
      obtain ⟨child, inside, found⟩ := List.mem_flatMap.mp member
      obtain ⟨slot, here⟩ := slots child inside
      obtain ⟨rest, rfl, -⟩ := holds.exists_through here (met found) second
      obtain rfl : place = [] := holds.eq_of_reach first rfl
      exact List.nil_lt_cons _ _
    · obtain ⟨slot, here⟩ := slots child inside
      refine (ih child inside (holds.under here) _ _).imp_of_mem
        fun {a b} memberLeft memberRight less place other first second => ?_
      obtain ⟨rest, rfl, first'⟩ := holds.exists_through here (met memberLeft) first
      obtain ⟨rest', rfl, second'⟩ := holds.exists_through here (met memberRight) second
      exact List.cons_lt_cons_self.mpr (less _ _ first' second')
    · refine List.pairwise_iff_getElem.mpr
        fun i j iIn jIn earlier a memberLeft b memberRight place other first second => ?_
      obtain ⟨rest, rfl, -⟩ :=
        holds.exists_through (List.getElem?_eq_getElem iIn) (met memberLeft) first
      obtain ⟨rest', rfl, -⟩ :=
        holds.exists_through (List.getElem?_eq_getElem jIn) (met memberRight) second
      exact List.cons_lt_cons_iff.mpr (.inl earlier)

end Arena.Holds

/-! ### Preorder -/

namespace Tree

/-- **Visits are a tree in preorder.** -/
structure Preorder (tree : Tree α) (visits : List (Visit α)) : Prop where
  /-- Every node that child slots lead to is visited, and only those. -/
  all : ∀ id, id ∈ visits.map Visit.id ↔ ∃ place, tree.Leads place id
  /-- None is visited twice. -/
  distinct : (visits.map Visit.id).Nodup
  /-- The path is what the labels from the root through the node spell, and the depth is the number of
  nodes above it. -/
  placed : ∀ visit ∈ visits, ∃ slot above,
    tree.Path (⟨visit.id, slot⟩ :: above) visit.path visit.node ∧
      tree.Leads (Link.slots (⟨visit.id, slot⟩ :: above)) visit.id ∧ above.length = visit.depth
  /-- A node comes before all under it, and all under one of its child slots before all under a later
  one. -/
  ordered : visits.Pairwise fun a b => ∀ place other,
    tree.Leads place a.id → tree.Leads other b.id → place < other

namespace Spans

theorem nodup_ids (spans : tree.Spans trunk) : (trunk.visits.map Visit.id).Nodup := by
  have distinct := spans.holds.distinct
  rwa [← trunk.nodes_visits, List.map_map] at distinct

theorem placed (spans : tree.Spans trunk) {visit : Visit α} (member : visit ∈ trunk.visits) :
    ∃ slot above, tree.Path (⟨visit.id, slot⟩ :: above) visit.path visit.node ∧
      tree.Leads (Link.slots (⟨visit.id, slot⟩ :: above)) visit.id ∧
      above.length = visit.depth := by
  obtain ⟨spine, sub, rfl, rfl⟩ := Trunk.exists_spine_of_mem_visits member
  have path := path_of_holds spans.root spans.holds
  exact ⟨spine.slot, spine.links, path, path.meets.1, spine.length_links⟩

theorem ordered (spans : tree.Spans trunk) : trunk.visits.Pairwise fun a b => ∀ place other,
    tree.Leads place a.id → tree.Leads other b.id → place < other := by
  cases trunk with
  | none => exact .nil
  | some whole =>
    refine (Arena.Holds.ordered spans.holds [] 0).imp fun less place other first second => ?_
    obtain ⟨root, start, first⟩ := first
    obtain ⟨root', start', second⟩ := second
    cases spans.root.symm.trans start
    cases spans.root.symm.trans start'
    exact less place other first second

end Spans

/-- **What the links of a tree span is walked in preorder.** -/
theorem Linked.preorder (linked : tree.Linked) : tree.Preorder tree.trunk.visits := by
  have spans := linked.spans
  refine ⟨fun id => ⟨fun member => ?_, ?_⟩, spans.nodup_ids, fun visit => spans.placed, spans.ordered⟩
  · obtain ⟨visit, inside, rfl⟩ := List.mem_map.mp member
    obtain ⟨place, meets⟩ := spans.meets_visit inside
    exact ⟨place, meets.1⟩
  · rintro ⟨place, leads⟩
    obtain ⟨node, meets⟩ := linked.live leads
    obtain ⟨visit, inside, rfl, -⟩ := spans.exists_visit meets
    exact List.mem_map_of_mem inside

end Tree

/-- **The paths of the keys met on a walk** are the keys of the entries, in the same order. -/
theorem Trunk.map_path_keyed (trunk : Trunk α) :
    (trunk.visits.filter (·.node.keyed)).map Visit.path = trunk.entries.map Prod.fst := by
  rw [← trunk.entries_visits]
  induction trunk.visits with
  | nil => rfl
  | cons visit visits ih =>
    rw [List.flatMap_cons, List.map_append, Subtree.map_fst_own, ← ih, List.filter_cons, Node.keyed]
    split <;> rfl

namespace Tree

/-- **A walk is in preorder**, over every tree whose links span one, whatever has happened to it: it
ends as soon as it has visited each of its nodes once, parents before children and children in the
order of the child table, each with its true path and depth. In every tree that operations lead to,
the paths of the keys met on the way are the keys that a scan hands out, in the same order. -/
theorem walk_in_preorder :
    (∀ tree : Tree α, tree.Linked → ∃ visits, tree.visits = .ok visits ∧ tree.Preorder visits ∧
      ∀ fuel, visits.length < fuel → tree.walk fuel = .ok visits) ∧
    ∀ tree : Tree α, tree.Reachable → tree.Linked ∧ ∃ visits entries, tree.visits = .ok visits ∧
      tree.Maps entries ∧ (visits.filter (·.node.keyed)).map Visit.path = entries.map Prod.fst := by
  constructor
  · intro tree linked
    exact ⟨_, linked.spans.visits, linked.preorder, fun fuel => linked.spans.walk⟩
  · intro tree reachable
    obtain ⟨register, represents⟩ := reachable.represents
    obtain ⟨trunk, shows, entries⟩ := represents.shows
    refine ⟨reachable.linked, trunk.visits, _, shows.visits, represents.maps, ?_⟩
    rw [trunk.map_path_keyed, entries]

/-- With the two entries of its child table exchanged, the branch above the keys 7 and 9 is walked in the
order of its table. Before the damage, the walk met the keys in their own order. -/
theorem walk_over_exchange : ∃ before after : Tree Nat, before.Reachable ∧ after.Damaged ∧
    after.Linked ∧ (∃ visits, after.visits = .ok visits ∧ after.Preorder visits ∧
      after.walk 4 = .ok visits ∧ visits.map Visit.path = [[], [9], [7]]) ∧
    ∃ visits entries, before.visits = .ok visits ∧ before.Maps entries ∧
      (visits.filter (·.node.keyed)).map Visit.path = entries.map Prod.fst := by
  let exchanged : Tree Nat :=
    ⟨⟨#[some ⟨[7], [], some 3⟩, some ⟨[], [⟨9, 2⟩, ⟨7, 0⟩], none⟩, some ⟨[9], [], some 4⟩],
      [], 3, 64, 0⟩, some 1, 2, 2, 0⟩
  let whole : Subtree Nat := ⟨⟨0, 1⟩, [], none, [⟨⟨9, 2⟩, [9], some 4, []⟩, ⟨⟨7, 0⟩, [7], some 3, []⟩]⟩
  have sound := (Reachable.empty (α := Nat) {} 0).runAll [.insertAll [([7], 3), ([9], 4)]] rfl
  have damaged : exchanged.Damaged := @Damaged.damage Nat _ _ [] (.swap 0 1) (.reachable sound) rfl
  have nodes : whole.nodes = [(1, ⟨[], [⟨9, 2⟩, ⟨7, 0⟩], none⟩), (2, ⟨[9], [], some 4⟩),
      (0, ⟨[7], [], some 3⟩)] := by
    simp [whole, Subtree.nodes]
  have holds : exchanged.arena.Holds (Trunk.nodes (some whole)) := by
    rw [Trunk.nodes, nodes]
    refine ⟨fun {id node} member => ?_, by decide⟩
    simp only [List.mem_cons, Prod.mk.injEq, List.not_mem_nil, or_false] at member
    rcases member with ⟨rfl, rfl⟩ | ⟨rfl, rfl⟩ | ⟨rfl, rfl⟩ <;> rfl
  have linked : exchanged.Linked := .of_holds rfl holds
  obtain ⟨visits, made, preorder, walks⟩ := (@walk_in_preorder Nat).1 exchanged linked
  have visited : exchanged.visits = .ok [⟨1, ⟨[], [⟨9, 2⟩, ⟨7, 0⟩], none⟩, [], 0⟩,
      ⟨2, ⟨[9], [], some 4⟩, [9], 1⟩, ⟨0, ⟨[7], [], some 3⟩, [7], 1⟩] := rfl
  cases made.symm.trans visited
  exact ⟨_, exchanged, sound, damaged, linked,
    ⟨_, visited, preorder, walks 4 (by decide), rfl⟩, ((@walk_in_preorder Nat).2 _ sound).2⟩

end Tree

end RadixLog
