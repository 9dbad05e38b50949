/-
**Every slot of a tree is accounted for.**

The slots of a tree are occupied or on the free list, and the occupied ones are the nodes under its
root, each under one entry of one child table. Every operation on a tree goes in steps with one
trend: it takes slots into use and never one in which a node lives, or it gives slots back. So the
slots are never more than the nodes have been at some time since the tree was last cleared.

* `Tree.insert_steps`, `Tree.remove_steps`, `Operation.run_steps`: operations are made of steps;
* `Tree.Past`: how many nodes a tree has had;
* `Tree.Past.size_le`: there are no more slots than there have been nodes;
* `Arena.Links`, `Tree.Linked.links_unique`: the entry that leads to a node;
* `Tree.arena_accounted`: all of it, of every tree that operations lead to.
-/

import RadixLog.Proofs.Tree.Diagnosis

namespace RadixLog

variable {α : Type} {arena : Arena α} {tree : Tree α} {trunk : Trunk α} {id : NodeRef}

/-! ### Operations are made of steps -/

/-- The node at the end of a descent is in use. -/
theorem Arena.node_of_descendFrom {fuel : Nat} {link : Link} {above : List Link}
    {spelled rest : Bytes} {descent : Descent α}
    (goes : arena.descendFrom fuel link above spelled rest = .ok descent) :
    arena.node descent.trail.top.node = .ok descent.node := by
  induction fuel generalizing link above spelled rest with
  | zero => cases goes
  | succ fuel ih =>
    rw [descendFrom] at goes
    obtain ⟨node, found, goes⟩ := bind_eq_ok goes
    dsimp only at goes
    by_cases short : Bytes.common node.label rest < node.label.length
    · rw [if_pos short] at goes
      cases goes
      exact found
    · rw [if_neg short] at goes
      cases left : rest.drop (Bytes.common node.label rest) with
      | nil =>
        rw [left] at goes
        cases goes
        exact found
      | cons byte rest =>
        rw [left] at goes
        dsimp only at goes
        cases search : probe node.children byte with
        | missing slot =>
          rw [search] at goes
          cases goes
          exact found
        | found slot child =>
          rw [search] at goes
          exact ih goes

namespace Tree

variable {trend : Arena.Trend} {key label : Bytes} {value : α} {change : Change α} {later : Tree α}

theorem node_of_descend? {descent : Descent α} (goes : tree.descend? key = .ok (some descent)) :
    tree.arena.node descent.trail.top.node = .ok descent.node := by
  unfold descend? at goes
  cases start : tree.root with
  | none =>
    rw [start] at goes
    cases goes
  | some root =>
    rw [start] at goes
    obtain ⟨found, descends, goes⟩ := bind_eq_ok goes
    cases goes
    exact Arena.node_of_descendFrom descends

theorem relink_steps {trail : Trail} (goes : tree.relink trail id = .ok later) :
    Arena.Steps trend tree.arena later.arena := by
  unfold relink at goes
  cases above : trail.above with
  | nil =>
    rw [above] at goes
    cases goes
    exact .refl
  | cons parent links =>
    rw [above] at goes
    obtain ⟨arena, redirects, goes⟩ := bind_eq_ok goes
    cases goes
    exact .single (Arena.redirect_step redirects)

theorem addLeaf_steps (goes : tree.addLeaf id label value = .ok later) :
    Arena.Steps .growing tree.arena later.arena := by
  obtain ⟨⟨leaf, grown⟩, takes, goes⟩ := bind_eq_ok goes
  obtain ⟨arena, attaches, goes⟩ := bind_eq_ok goes
  cases goes
  exact .tail (.single (.alloc takes)) (Arena.attach_step attaches)

/-- **Inserting only takes slots into use.** -/
theorem insert_steps (goes : tree.insert key value = .ok change) :
    Arena.Steps .growing tree.arena change.tree.arena := by
  obtain ⟨found, descends, goes⟩ := bind_eq_ok goes
  cases found with
  | none =>
    obtain ⟨⟨leaf, grown⟩, takes, goes⟩ := bind_eq_ok goes
    cases goes
    exact .single (.alloc takes)
  | some descent =>
    have here := node_of_descend? descends
    obtain ⟨trail, node, landing⟩ := descent
    cases landing with
    | exact =>
      have put : Arena.Step .growing tree.arena
        (tree.arena.put trail.top.node { node with value := some value }) := .put here _
      cases goes
      by_cases keyed : node.keyed = true
      · simpa [keyed] using Relation.ReflTransGen.single put
      · simpa [keyed, gained] using Relation.ReflTransGen.single put
    | between slot rest =>
      obtain ⟨after, adds, goes⟩ := bind_eq_ok goes
      have hung := addLeaf_steps adds
      cases goes
      exact hung
    | inside common rest =>
      obtain ⟨⟨branch, cut⟩, cuts, goes⟩ := bind_eq_ok goes
      obtain ⟨linked, relinks, goes⟩ := bind_eq_ok goes
      have before : Arena.Steps .growing tree.arena linked.arena :=
        (Arena.cutEdge_steps cuts).trans (relink_steps relinks)
      dsimp only at goes
      cases left : rest.drop common with
      | nil =>
        rw [left] at goes
        obtain ⟨parted, found, goes⟩ := bind_eq_ok goes
        cases goes
        exact before.tail (.put found _)
      | cons byte rest =>
        rw [left] at goes
        obtain ⟨after, adds, goes⟩ := bind_eq_ok goes
        have hung := addLeaf_steps adds
        cases goes
        exact before.trans hung

theorem merge_steps {reshapes : List Reshape} (goes : tree.merge id = .ok (later, reshapes)) :
    Arena.Steps .thinning tree.arena later.arena := by
  obtain ⟨⟨child, arena⟩, absorbs, goes⟩ := bind_eq_ok goes
  cases goes
  exact Arena.absorb_steps absorbs

theorem prune_steps {trail : Trail} {reshapes : List Reshape}
    (goes : tree.prune trail = .ok (later, reshapes)) :
    Arena.Steps .thinning tree.arena later.arena := by
  obtain ⟨⟨freed, arena⟩, gives, goes⟩ := bind_eq_ok goes
  have release : Arena.Steps .thinning tree.arena arena := .single (.release gives)
  cases above : trail.above with
  | nil =>
    rw [above] at goes
    cases goes
    exact release
  | cons parent links =>
    rw [above] at goes
    obtain ⟨detached, detaches, goes⟩ := bind_eq_ok goes
    have before := release.tail (Arena.detach_step detaches)
    obtain ⟨node, _, goes⟩ := bind_eq_ok goes
    by_cases single : (!node.keyed && node.children.length == 1) = true
    · rw [if_pos single] at goes
      exact before.trans (merge_steps goes)
    · rw [if_neg single] at goes
      cases goes
      exact before

/-- **Removing only gives slots back.** -/
theorem remove_steps (goes : tree.remove key = .ok change) :
    Arena.Steps .thinning tree.arena change.tree.arena := by
  obtain ⟨found, descends, goes⟩ := bind_eq_ok goes
  split at goes
  · next trail label children previous =>
    have put : Arena.Step .thinning tree.arena
      (tree.arena.put trail.top.node ⟨label, children, none⟩) := .put (node_of_descend? descends) _
    split at goes
    · obtain ⟨⟨pruned, reshapes⟩, prunes, goes⟩ := bind_eq_ok goes
      cases goes
      exact .head put (prune_steps prunes)
    · obtain ⟨⟨merged, reshapes⟩, merges, goes⟩ := bind_eq_ok goes
      cases goes
      exact .head put (merge_steps merges)
    · cases goes
      exact .single put
  · cases goes
    exact .refl

theorem assign_steps (goes : tree.assign key value = .ok change) :
    Arena.Steps trend tree.arena change.tree.arena := by
  obtain ⟨found, descends, goes⟩ := bind_eq_ok goes
  split at goes
  · cases goes
    exact .single (.put (node_of_descend? descends) _)
  · cases goes
    exact .refl

theorem insertAll_steps {entries : List (Bytes × α)} {reshapes : List Reshape}
    (goes : tree.insertAll entries = .ok (later, reshapes)) :
    Arena.Steps .growing tree.arena later.arena := by
  induction entries generalizing tree later reshapes with
  | nil =>
    cases goes
    exact .refl
  | cons entry entries ih =>
    obtain ⟨change, inserts, goes⟩ := bind_eq_ok goes
    obtain ⟨⟨last, more⟩, goesOn, goes⟩ := bind_eq_ok goes
    cases goes
    exact (insert_steps inserts).trans (ih goesOn)

end Tree

/-- **Every operation goes in steps with one trend.** -/
theorem Operation.run_steps {operation : Operation α} {change : Change α}
    (runs : operation.run tree = .ok change) :
    ∃ trend, Arena.Steps trend tree.arena change.tree.arena := by
  cases operation with
  | find key =>
    obtain ⟨found, _, runs⟩ := bind_eq_ok runs
    cases runs
    exact ⟨.growing, .refl⟩
  | insert key value => exact ⟨.growing, Tree.insert_steps runs⟩
  | remove key => exact ⟨.thinning, Tree.remove_steps runs⟩
  | assign key value => exact ⟨.growing, Tree.assign_steps runs⟩
  | insertAll entries =>
    obtain ⟨⟨last, reshapes⟩, inserts, runs⟩ := bind_eq_ok runs
    cases runs
    exact ⟨.growing, Tree.insertAll_steps inserts⟩
  | clear =>
    cases runs
    exact ⟨.thinning, .single (.clear _)⟩
  | shrink =>
    cases runs
    exact ⟨.thinning, .single (.shrink _)⟩

/-! ### The past of a tree -/

/-- The numbers of nodes to look back on after an operation that leaves `count` nodes: clearing
starts afresh. -/
def Operation.lookBack (count : Nat) (counts : List Nat) : Operation α → List Nat
  | .clear => [count]
  | _ => count :: counts

/-- **How many nodes a tree has had** since it was made or last cleared, or since the tree was that it
is a copy of. -/
inductive Tree.Past : Tree α → List Nat → Prop where
  | empty (options : TreeOptions) (identity : Nat) : Past (.empty options identity) [0]
  | operate {tree : Tree α} {counts : List Nat} {operation : Operation α} {change : Change α}
    (before : Past tree counts) (runs : operation.run tree = .ok change) :
    Past change.tree (operation.lookBack change.tree.nodeCount counts)
  | copy {tree : Tree α} {counts : List Nat} (before : Past tree counts) (identity : Nat) :
    Past (tree.copy identity) counts

namespace Tree

variable {counts : List Nat}

theorem Reachable.exists_past (reachable : tree.Reachable) : ∃ counts, tree.Past counts := by
  induction reachable with
  | empty options identity => exact ⟨_, .empty options identity⟩
  | operate before runs ih =>
    obtain ⟨counts, past⟩ := ih
    exact ⟨_, past.operate runs⟩
  | copy before identity ih =>
    obtain ⟨counts, past⟩ := ih
    exact ⟨_, past.copy identity⟩

theorem Past.reachable (past : tree.Past counts) : tree.Reachable := by
  induction past with
  | empty options identity => exact .empty options identity
  | operate before runs ih => exact ih.operate runs
  | copy before identity ih => exact ih.copy identity

theorem Reachable.orderly (reachable : tree.Reachable) : tree.arena.Orderly :=
  (Damaged.reachable reachable).orderly

/-- **There are no more slots than there have been nodes** at one time. -/
theorem Past.size_le (past : tree.Past counts) :
    ∃ count ∈ counts, tree.arena.slots.size ≤ count := by
  induction past with
  | empty options identity => exact ⟨0, List.mem_singleton_self 0, Nat.le_refl 0⟩
  | copy before identity ih => exact ih
  | @operate tree counts operation change before runs ih =>
    cases operation with
    | clear =>
      cases runs
      exact ⟨0, List.mem_singleton_self 0, Nat.le_refl 0⟩
    | _ =>
      obtain ⟨count, member, room⟩ := ih
      obtain ⟨trend, steps⟩ := Operation.run_steps runs
      have size := steps.size_le before.reachable.orderly
      -- The slots were bounded by a past number of nodes; if more are needed, it is for the present.
      rcases Nat.le_total tree.arena.slots.size change.tree.nodeCount with more | fewer
      · exact ⟨_, List.mem_cons_self, size.trans (max_le more le_rfl)⟩
      · exact ⟨count, List.mem_cons_of_mem _ member, size.trans (max_le room (fewer.trans room))⟩

end Tree

/-! ### Entries that lead to nodes -/

/-- The entry in a place of the child table of a node leads to another node. -/
def Arena.Links (arena : Arena α) (parent : NodeRef) (slot : Nat) (child : NodeRef) : Prop :=
  ∃ node edge, arena.node parent = .ok node ∧ node.children[slot]? = some edge ∧
    edge.child = child

namespace Tree

variable {parent other : NodeRef} {slot place : Nat} {node : Node α}

/-- In a whole tree every entry that leads somewhere is the last on some path. -/
theorem Whole.leads_of_links (whole : tree.Whole) (links : tree.arena.Links parent slot id) :
    ∃ path, tree.Leads path parent ∧ tree.Leads (path ++ [slot]) id := by
  obtain ⟨node, edge, found, here, rfl⟩ := links
  obtain ⟨path, leads, _⟩ := whole.reached found
  exact ⟨path, leads, leads.step found here⟩

/-- **No entry leads to the root.** -/
theorem Linked.not_links_root (linked : tree.Linked) (whole : tree.Whole)
    (root : tree.root = some id) : ¬ tree.arena.Links parent slot id := by
  intro links
  obtain ⟨path, _, leads⟩ := whole.leads_of_links links
  have start : tree.Leads [] id := ⟨id, root, rfl⟩
  have same := linked.once leads start
  exact absurd same (by simp)

/-- **No two entries lead to the same node.** -/
theorem Linked.links_unique (linked : tree.Linked) (whole : tree.Whole)
    (links : tree.arena.Links parent slot id) (links' : tree.arena.Links other place id) :
    parent = other ∧ slot = place := by
  obtain ⟨path, leads, onward⟩ := whole.leads_of_links links
  obtain ⟨path', leads', onward'⟩ := whole.leads_of_links links'
  obtain ⟨rfl, last⟩ := List.append_inj' (linked.once onward onward') rfl
  obtain ⟨root, start, reach⟩ := leads
  obtain ⟨root', start', reach'⟩ := leads'
  cases start.symm.trans start'
  exact ⟨Option.some.inj (reach.symm.trans reach'), List.head_eq_of_cons_eq last⟩

/-- **An entry leads to every node but the root.** -/
theorem Linked.exists_links (linked : tree.Linked) (whole : tree.Whole)
    (found : tree.arena.node id = .ok node) (below : tree.root ≠ some id) :
    ∃ parent slot, tree.arena.Links parent slot id := by
  obtain ⟨path, leads, _⟩ := whole.reached found
  rcases List.eq_nil_or_concat path with rfl | ⟨init, slot, rfl⟩
  · obtain ⟨root, start, reach⟩ := leads
    exact absurd (start.trans reach) below
  · rw [List.concat_eq_append] at leads
    obtain ⟨parent, leads'⟩ := leads.exists_of_append
    obtain ⟨node, _, found⟩ := linked.live leads'
    have reach := leads'.append.mp leads
    rw [Damage.reach_cons found] at reach
    obtain ⟨edge, here, reach⟩ := Option.bind_eq_some_iff.mp reach
    exact ⟨parent, slot, node, edge, found, here, Option.some.inj reach⟩

/-! ### Every slot is accounted for -/

/-- **Every slot of a tree is accounted for.** -/
structure Accounted (tree : Tree α) : Prop where
  /-- The free list names the vacant slots, each once. -/
  vacant : ∀ id, id ∈ tree.arena.free ↔ tree.arena.slots[id]? = some none
  distinct : tree.arena.free.Nodup
  /-- The number of nodes is that of the occupied slots. -/
  nodeCount : tree.nodeCount = tree.arena.slots.countP Option.isSome
  /-- The occupied slots are those that paths lead to from the root. -/
  reached : ∀ id, (∃ node, tree.arena.slots[id]? = some (some node)) ↔
    ∃ path, tree.Leads path id
  /-- No entry of a child table leads to the root, and exactly one to each other node. -/
  root : ∀ id, tree.root = some id → ∀ parent slot, ¬ tree.arena.Links parent slot id
  parent : ∀ id node, tree.arena.slots[id]? = some (some node) → tree.root ≠ some id →
    ∃! link : NodeRef × Nat, tree.arena.Links link.1 link.2 id
  /-- Operations go in steps with one trend. -/
  steps : ∀ (operation : Operation α) change, operation.run tree = .ok change →
    ∃ trend, Arena.Steps trend tree.arena change.tree.arena
  /-- However many steps have been taken, a slot that is then taken into use is a vacant one. -/
  fresh : ∀ trend arena, Arena.Steps trend tree.arena arena → arena.TakesVacant

theorem Shows.accounted (shows : tree.Shows trunk) : tree.Accounted := by
  have orderly : tree.arena.Orderly := ⟨_, shows.stores⟩
  have linked : tree.Linked := .of_holds shows.root shows.stores.toHolds
  have whole : tree.Whole := by
    obtain ⟨reports, checks, decides⟩ := linked.exists_violations orderly
    cases shows.intact.violations.symm.trans checks
    exact decides.mp rfl
  refine ⟨shows.stores.vacant, shows.stores.freeDistinct, orderly.live_eq, fun id => ?_,
    fun id root parent slot => linked.not_links_root whole root, fun id node here below => ?_,
    fun operation change runs => Operation.run_steps runs,
    fun trend arena steps => (steps.orderly orderly).takesVacant⟩
  · constructor
    · rintro ⟨node, here⟩
      obtain ⟨path, leads, _⟩ := whole.reached (Arena.node_eq_ok.mpr here)
      exact ⟨path, leads⟩
    · rintro ⟨path, leads⟩
      obtain ⟨node, _, found⟩ := linked.live leads
      exact ⟨node, Arena.node_eq_ok.mp found⟩
  · obtain ⟨parent, slot, links⟩ := linked.exists_links whole (Arena.node_eq_ok.mpr here) below
    refine ⟨(parent, slot), links, fun link links' => ?_⟩
    obtain ⟨same, same'⟩ := linked.links_unique whole links' links
    exact Prod.ext same same'

/-- **The arena of a tree neither leaks nor aliases.** In every tree that operations lead to, every
slot is accounted for, and there are no more slots than the tree has had nodes at some time since it
was made or last cleared. -/
theorem arena_accounted (reachable : tree.Reachable) :
    tree.Accounted ∧ (∃ counts, tree.Past counts) ∧
      ∀ counts, tree.Past counts → ∃ count ∈ counts, tree.arena.slots.size ≤ count := by
  obtain ⟨register, represents⟩ := reachable.represents
  obtain ⟨trunk, shows, _⟩ := represents.shows
  exact ⟨shows.accounted, reachable.exists_past, fun counts past => past.size_le⟩

/-- The keys 7 1 and 7 2 part under a branch, and take three slots. When one of them goes away, one
node is left, with two vacant slots beside it. -/
theorem slots_after_folding : ∃ tree : Tree Nat, tree.nodeCount = 1 ∧ tree.arena.free = [2, 0] ∧
    tree.Accounted ∧ ∃ count ∈ [1, 3, 1, 0], tree.arena.slots.size ≤ count := by
  have one := @Past.operate Nat _ _ (.insert [7, 1] 3) _ (.empty {} 0) rfl
  have two := @Past.operate Nat _ _ (.insert [7, 2] 4) _ one rfl
  have three := @Past.operate Nat _ _ (.remove [7, 1]) _ two rfl
  obtain ⟨accounted, _, room⟩ := arena_accounted three.reachable
  exact ⟨_, rfl, rfl, accounted, room _ three⟩

end Tree

end RadixLog
