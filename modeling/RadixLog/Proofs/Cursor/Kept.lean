/-
**Paths that outlive changes.**

A change that moves no node, relabels none and keeps every key a key leaves all remembered paths
right: the same links lead through the tree as it is afterwards, and spell the same bytes.

* `Tree.Keeps.exists_spine`: a path of the tree before is one of the tree after;
* `Position.Fits.kept`: a position that fitted still does.
-/

import RadixLog.Proofs.Cursor.Place

namespace RadixLog

variable {α : Type} {tree later : Tree α} {trunk trunk' : Trunk α} {sub sub' : Subtree α}
  {spine spine' : Spine α}

/-- A node in the same slot has the same label and table, and is as much a key. -/
theorem Tree.Keeps.same_node (keeps : tree.Keeps later)
    (before : tree.Shows (some (spine.plug sub)))
    (after : later.Shows (some (spine'.plug sub'))) (same : sub'.id = sub.id) :
    sub'.label = sub.label ∧ sub'.children.map Subtree.edge = sub.children.map Subtree.edge ∧
      sub'.value.isSome = sub.value.isSome := by
  have read : tree.arena.node sub.id = .ok sub.top := Arena.Holds.read_sub before.stores.toHolds
  have read' : later.arena.node sub'.id = .ok sub'.top := Arena.Holds.read_sub after.stores.toHolds
  obtain ⟨value, found, keyed⟩ := keeps.2 sub.id sub.top read
  rw [same, found] at read'
  have top := Except.ok.inj read'
  exact ⟨congrArg Node.label top.symm, congrArg Node.children top.symm,
    (congrArg (Option.isSome ∘ Node.value) top.symm).trans keyed⟩

/-- **A path of the tree before is one of the tree after.** -/
theorem Tree.Keeps.exists_spine (keeps : tree.Keeps later) (before : tree.Shows trunk)
    (after : later.Shows trunk') (whole : trunk = some (spine.plug sub)) :
    ∃ (spine' : Spine α) (sub' : Subtree α), trunk' = some (spine'.plug sub') ∧
      spine'.trail sub' = spine.trail sub ∧ sub'.value.isSome = sub.value.isSome := by
  -- From the root down: the table of a parent that is found again leads to its children again.
  induction spine generalizing sub with
  | nil =>
    subst whole
    have root : trunk'.map Subtree.id = some sub.id :=
      after.root.symm.trans (keeps.1.trans before.root)
    obtain ⟨sub', rfl, same⟩ := Option.map_eq_some_iff.mp root
    obtain ⟨label, _, keyed⟩ := @same_node _ _ _ sub sub' [] [] keeps before after same
    exact ⟨[], sub', rfl, by rw [Spine.trail, Spine.trail, same, label], keyed⟩
  | cons frame spine ih =>
    obtain ⟨spine', parent, rfl, trail, _⟩ := ih whole
    subst whole
    have id : parent.edge.child = frame.edge.child :=
      congrArg (fun trail : Trail => trail.top.node) trail
    have slot : Spine.slot spine' = Spine.slot spine :=
      congrArg (fun trail : Trail => trail.top.slot) trail
    have above : Spine.links spine' = Spine.links spine := congrArg Trail.above trail
    have spelled : Spine.spelled spine' ++ parent.label = Spine.spelled spine ++ frame.label :=
      congrArg Trail.key trail
    have table := (@same_node _ _ _ (frame.close sub) parent spine spine' keeps before after id).2.1
    simp only [Frame.close, List.map_append, List.map_cons] at table
    obtain ⟨left, others, children, lefts, tail⟩ := List.map_eq_append_iff.mp table
    obtain ⟨sub', right, rfl, edge, _⟩ := List.map_eq_cons_iff.mp tail
    let frame' := parent.cut left right
    have inside : Spine.plug (frame' :: spine') sub' = Spine.plug spine' parent := by
      rw [Spine.plug, Subtree.close_cut children]
    obtain ⟨label, _, keyed⟩ := @same_node _ _ _ sub sub' (frame :: spine) (frame' :: spine') keeps
      before (inside ▸ after) (congrArg Edge.child edge)
    refine ⟨frame' :: spine', sub', by rw [inside], ?_, keyed⟩
    have length : left.length = frame.left.length := by
      rw [← List.length_map Subtree.edge, lefts, List.length_map]
    have same : sub'.id = sub.id := congrArg Edge.child edge
    show (⟨⟨sub'.id, left.length⟩, ⟨parent.edge.child, Spine.slot spine'⟩ :: Spine.links spine',
        Spine.spelled spine' ++ parent.label ++ sub'.label⟩ : Trail) =
      ⟨⟨sub.id, frame.left.length⟩, ⟨frame.edge.child, Spine.slot spine⟩ :: Spine.links spine,
        Spine.spelled spine ++ frame.label ++ sub.label⟩
    rw [same, length, id, slot, above, spelled, label]

/-- **A position that fitted still does.** -/
theorem Position.Fits.kept {position : Position} (fits : position.Fits trunk)
    (keeps : tree.Keeps later) (before : tree.Shows trunk) (after : later.Shows trunk') :
    position.Fits trunk' := by
  cases position with
  | beforeFirst => trivial
  | afterLast => trivial
  | positioned trail =>
    obtain ⟨entry, spine, sub, value, whole, keyed⟩ := fits
    obtain ⟨spine', sub', whole', trail, same⟩ := keeps.exists_spine before after whole
    obtain ⟨value', keyed'⟩ := Option.isSome_iff_exists.mp (same.trans (by rw [keyed]; rfl))
    rw [← trail]
    exact ⟨_, .node spine' sub' value' whole' keyed'⟩

end RadixLog
