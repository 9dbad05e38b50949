/-
**Removing.**

The node of a removed key goes away if it has no children, is folded together with its only child,
or stays as a branch. Where it goes away and leaves a branch with a single child, the two are folded
together. Folding changes no entry.

* `Subtree.folded`, `Subtree.entries_folded`: a branch folded together with its only child;
* `Tree.exists_merge`: what folding stores;
* `Tree.Shows.remove`: removing is an edit.
-/

import RadixLog.Proofs.Tree.Edit

namespace RadixLog

variable {α : Type} {tree : Tree α} {trunk : Trunk α} {sub other child : Subtree α}
  {spine : Spine α} {frame : Frame α} {key : Bytes} {previous : α} {lower upper : List (Bytes × α)}

namespace Subtree

/-! ### Folding -/

/-- A child in the place of its parent, with the labels joined. -/
def folded (sub child : Subtree α) : Subtree α :=
  { child with edge := sub.edge, label := sub.label ++ child.label }

theorem Sound.folded (sound : child.Sound) : (sub.folded child).Sound :=
  .node sound.headed sound.sorted sound.full sound.child

theorem Headed.folded (headed : sub.Headed) : (sub.folded child).Headed := by
  obtain ⟨rest, label⟩ := headed.exists_cons
  simp [Headed, Subtree.folded, label]

/-- **Folding a branch together with its only child changes no entry.** -/
theorem entries_folded (valueless : sub.value = none) (children : sub.children = [child])
    (above : Bytes) : (sub.folded child).entries above = sub.entries above := by
  rw [entries_eq, entries_eq above sub, valueless, children]
  simp [folded, entries_eq (above ++ sub.label) child]

end Subtree

/-! ### A child fewer -/

/-- A frame without the child it was cut out for. -/
def Frame.opened (frame : Frame α) : Subtree α :=
  ⟨frame.edge, frame.label, frame.value, frame.left ++ frame.right⟩

theorem Spine.nodes_plug_opened (spine : Spine α) (frame : Frame α) :
    (spine.plug frame.opened).nodes.Perm
      ((frame.edge.child,
          ⟨frame.label, frame.left.map Subtree.edge ++ frame.right.map Subtree.edge,
            frame.value⟩) ::
        (frame.left.flatMap Subtree.nodes ++ frame.right.flatMap Subtree.nodes ++
          spine.nodes frame.edge)) := by
  have perm := spine.nodes_plug_cons frame.opened
  rwa [Frame.opened, Subtree.top, List.flatMap_append, List.map_append] at perm

/-- **Without the child the entries are those before and after it.** -/
theorem Spine.entries_plug_opened (spine : Spine α) (frame : Frame α) :
    (spine.plug frame.opened).entries [] =
      Spine.before (frame :: spine) ++ Spine.after (frame :: spine) := by
  rw [entries_plug_own]
  simp [Frame.opened, before, after]

/-- **A node is folded together with its only child.** -/
theorem Tree.exists_merge (stores : tree.arena.Stores (spine.plug sub).nodes)
    (children : sub.children = [child]) :
    ∃ arena, tree.merge sub.id = .ok ({ tree with arena }, [.merged child.id sub.id]) ∧
      arena.Stores (spine.plug (sub.folded child)).nodes := by
  have apart := stores.perm (spine.nodes_plug_cons sub)
  rw [children, List.flatMap_singleton, Subtree.nodes_eq child] at apart
  have table : sub.top.children = child.edge :: [] := by simp [children]
  obtain ⟨arena, absorbs, stored⟩ := apart.absorb table
  refine ⟨arena, by rw [Tree.merge, absorbs]; rfl, stored.perm ?_⟩
  exact (spine.nodes_plug_cons (sub.folded child)).symm

namespace Tree.Shows

/-! ### Removing -/

/-- A key is lost with another subtree in the place of one. -/
theorem lose_plug (shows : tree.Shows (some (spine.plug sub)))
    (cut : Cut ((spine.plug sub).entries []) key lower (some previous) upper) (other : Subtree α)
    {arena : Arena α} {root : Option NodeRef} (leads : root = some (spine.plug other).id)
    (stores : arena.Stores (spine.plug other).nodes) (sound : other.Sound)
    (byte : other.edge.byte = sub.edge.byte) (headed : spine ≠ [] → other.Headed)
    (entries : (spine.plug other).entries [] = lower ++ upper) :
    tree.Edit ((spine.plug sub).entries []) key (some previous) none
      { tree with arena, root }.lost := by
  refine shows.lose cut (some (spine.plug other)) leads stores ?_ entries
  rintro _ ⟨⟩
  exact Spine.sound_plug (shows.sound _ rfl) sound byte headed

/-- A key is lost with a branch in the place of a subtree, and the branch folded together with its
only child. -/
theorem lose_merge (shows : tree.Shows (some (spine.plug sub)))
    (cut : Cut ((spine.plug sub).entries []) key lower (some previous) upper) (branch : Subtree α)
    {arena : Arena α} {root : Option NodeRef} (leads : root = some (spine.plug branch).id)
    (stores : arena.Stores (spine.plug branch).nodes) (valueless : branch.value = none)
    (children : branch.children = [child]) (sound : child.Sound)
    (byte : branch.edge.byte = sub.edge.byte) (headed : spine ≠ [] → branch.Headed)
    (entries : (spine.plug branch).entries [] = lower ++ upper) :
    ∃ after reshapes, { tree with arena, root }.lost.merge branch.id = .ok (after, reshapes) ∧
      tree.Edit ((spine.plug sub).entries []) key (some previous) none after := by
  obtain ⟨merged, merges, folded⟩ :=
    @exists_merge _ { tree with arena, root }.lost branch child spine stores children
  refine ⟨_, _, merges, shows.lose_plug cut (branch.folded child) ?_ folded sound.folded byte
    (fun below => (headed below).folded) ?_⟩
  · exact leads.trans (congrArg some (Spine.plug_id rfl))
  · rw [Spine.entries_plug] at entries ⊢
    rw [Subtree.entries_folded valueless children, entries]

/-- **A node is left without one of its children**, which had a key only, and is folded
if need be. -/
theorem prune_child (shows : tree.Shows (some (spine.plug (frame.close sub))))
    (cut : Cut ((spine.plug (frame.close sub)).entries []) key (Spine.before (frame :: spine))
      (some previous) (Spine.after (frame :: spine))) {arena : Arena α}
    (stores : arena.Stores (spine.plug frame.opened).nodes) :
    ∃ after reshapes,
      (if !frame.opened.top.keyed && frame.opened.top.children.length == 1 then
        { tree with arena }.lost.merge frame.edge.child
      else .ok ({ tree with arena }.lost, [])) = .ok (after, reshapes) ∧
      tree.Edit ((spine.plug (frame.close sub)).entries []) key (some previous) none after := by
  obtain ⟨closed, headed⟩ := Spine.sound_of_plug (shows.sound _ rfl)
  have inside : ∀ child ∈ frame.left ++ frame.right, child ∈ (frame.close sub).children := by
    intro child member
    simp only [Frame.close, List.mem_append, List.mem_cons] at member ⊢
    tauto
  have leads : tree.root = some (spine.plug frame.opened).id :=
    shows.root.trans (congrArg some (Spine.plug_id rfl))
  have entries := spine.entries_plug_opened frame
  by_cases single : frame.value = none ∧ (frame.left ++ frame.right).length = 1
  · obtain ⟨child, children⟩ := List.length_eq_one_iff.mp single.2
    have sound := closed.child child (inside child (by simp [children]))
    obtain ⟨after, reshapes, merges, edit⟩ :=
      shows.lose_merge cut frame.opened leads stores single.1 children sound rfl headed entries
    refine ⟨after, reshapes, ?_, edit⟩
    rw [if_pos (by simpa [Node.keyed, Frame.opened, single.1] using single.2)]
    exact merges
  · have sound : frame.opened.Sound := by
      refine .node (fun child member => closed.headed child (inside child member)) ?_
        (fun valueless => ?_) fun child member => closed.child child (inside child member)
      · refine closed.sorted.sublist ?_
        simp only [Frame.close, Frame.opened, List.map_append, List.map_cons]
        exact (List.sublist_cons_self _ _).append_left _
      · have several := closed.full valueless
        have other : (frame.left ++ frame.right).length ≠ 1 := fun one => single ⟨valueless, one⟩
        simp only [Frame.close, Frame.opened, List.length_append, List.length_cons]
          at several other ⊢
        omega
    refine ⟨_, [], ?_, shows.lose_plug cut frame.opened leads stores sound rfl headed entries⟩
    rw [if_neg (by simpa [Node.keyed, Frame.opened] using single)]

/-- **The leaf of a key is taken away**, and the branch above it is folded if need be. -/
theorem prune (shows : tree.Shows (some (spine.plug sub))) (children : sub.children = [])
    (cut : Cut ((spine.plug sub).entries []) key spine.before (some previous) spine.after)
    {arena : Arena α} (stores : arena.Stores (spine.plug { sub with value := none }).nodes) :
    ∃ after reshapes, { tree with arena }.lost.prune (spine.trail sub) = .ok (after, reshapes) ∧
      tree.Edit ((spine.plug sub).entries []) key (some previous) none after := by
  have apart := stores.perm (spine.nodes_plug_cons { sub with value := none })
  simp only [children, List.flatMap_nil, List.nil_append] at apart
  obtain ⟨freed, releases, around⟩ := apart.release
  cases spine with
  | nil =>
    refine ⟨_, [], ?_, shows.lose cut none rfl around nofun rfl⟩
    rw [Tree.prune, Spine.trail]
    simp [lost, releases, Spine.links]
  | cons frame spine =>
    have table : (frame.top sub.edge).children =
      frame.left.map Subtree.edge ++ sub.edge :: frame.right.map Subtree.edge := rfl
    obtain ⟨detached, detaches, stored⟩ := around.detach table
    rw [List.length_map] at detaches
    replace stored := stored.perm (Spine.nodes_plug_opened spine frame).symm
    have read : detached.node frame.edge.child = .ok frame.opened.top :=
      Arena.Holds.read_sub stored.toHolds
    obtain ⟨after, reshapes, ends, edit⟩ := prune_child shows cut stored
    refine ⟨after, reshapes, ?_, edit⟩
    rw [← ends, Tree.prune, Spine.trail]
    simp only [lost, releases, Spine.links, Spine.slot, ok_bind, detaches, pure_eq_ok]
    rw [read]
    rfl

/-- **Removing never fails, and edits the key.** -/
theorem remove (shows : tree.Shows trunk) (key : Bytes) :
    ∃ change, tree.remove key = .ok change ∧
      tree.Edit trunk.entries key change.previous none change.tree := by
  rcases shows.present_or_absent key with
    ⟨spine, sub, previous, rfl, brackets, spells, keyed, descends⟩ |
      ⟨lower, upper, cut, descent, descends, absent⟩
  · have sound := shows.sound _ rfl
    obtain ⟨soundSub, headed⟩ := Spine.sound_of_plug sound
    let emptied : Subtree α := { sub with value := none }
    have stored : (tree.arena.put sub.id emptied.top).Stores (spine.plug emptied).nodes :=
      shows.stores.put_plug rfl rfl
    have leads : tree.root = some (spine.plug emptied).id :=
      shows.root.trans (congrArg some (Spine.plug_id rfl))
    have cut := Spine.cut_exact sound brackets spells
    rw [keyed] at cut
    have rest : (spine.plug emptied).entries [] =
        spine.before ++ (sub.children.flatMap (Subtree.entries key) ++ spine.after) := by
      rw [spells]
      exact spine.entries_plug_own emptied
    simp only [Tree.remove, descends, ok_bind, Subtree.top, keyed]
    cases children : sub.children with
    | nil =>
      simp only [children, List.flatMap_nil, List.nil_append] at cut
      obtain ⟨after, reshapes, prunes, edit⟩ := shows.prune children cut stored
      refine ⟨⟨after, some previous, reshapes ++ [.pruned key.length]⟩, ?_, edit⟩
      simp only [emptied, Subtree.top, children, Spine.trail, List.map_nil] at prunes ⊢
      rw [prunes]
      rfl
    | cons child others =>
      cases others with
      | nil =>
        obtain ⟨after, reshapes, merges, edit⟩ :=
          shows.lose_merge cut emptied leads stored rfl children
            (soundSub.child child (by simp [children])) rfl headed rest
        refine ⟨⟨after, some previous, reshapes⟩, ?_, edit⟩
        simp only [emptied, Subtree.top, children, Spine.trail, List.map_cons, List.map_nil]
          at merges ⊢
        rw [merges]
        rfl
      | cons second others =>
        have soundBranch : emptied.Sound :=
          .node soundSub.headed soundSub.sorted (fun _ => by simp [emptied, children])
            soundSub.child
        have edit := shows.lose_plug cut emptied leads stored soundBranch rfl headed rest
        refine ⟨⟨_, some previous, []⟩, ?_, edit⟩
        simp only [emptied, Subtree.top, children, Spine.trail, List.map_cons, pure_eq_ok]
        rfl
  · refine ⟨⟨tree, none, []⟩, ?_, shows.leave cut⟩
    rw [Tree.remove, descends, ok_bind]
    split
    · cases absent _ rfl rfl
    · rfl

end Tree.Shows

end RadixLog
