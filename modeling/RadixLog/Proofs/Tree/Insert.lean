/-
**Inserting.**

A new key ends at a branch, hangs a leaf under a node, or cuts the edge that it leaves. Each way
replaces one subtree by another that has the entry of the key besides the old ones.

* `Subtree.hang`, `Subtree.Sound.hang`: a child more;
* `Subtree.parted`, `Subtree.entries_remnant`: an edge cut in two;
* `Tree.exists_addLeaf`, `Tree.exists_relink`, `Tree.Shows.exists_split`: what the steps store;
* `Tree.Shows.insert`: inserting is an edit.
-/

import RadixLog.Proofs.Tree.Edit

namespace RadixLog

variable {α : Type} {tree : Tree α} {trunk : Trunk α} {sub other child : Subtree α}
  {spine : Spine α} {left right : List (Subtree α)} {shared tail rest key : Bytes} {byte : UInt8}
  {value : α} {lower upper : List (Bytes × α)}

namespace Subtree

/-! ### A child more -/

/-- A node with a value and no children. -/
def leaf (edge : Edge) (label : Bytes) (value : α) : Subtree α := ⟨edge, label, some value, []⟩

theorem sound_leaf (edge : Edge) (label : Bytes) (value : α) : (leaf edge label value).Sound :=
  .node nofun .nil nofun nofun

theorem sound_single (edge : Edge) (label : Bytes) (value : α) (headed : child.Headed)
    (sound : child.Sound) : (⟨edge, label, some value, [child]⟩ : Subtree α).Sound :=
  .node (by simpa using headed) (List.pairwise_singleton _ _) nofun (by simpa using sound)

theorem nodes_leaf (edge : Edge) (label : Bytes) (value : α) :
    (leaf edge label value).nodes = [(edge.child, .leaf label value)] := by
  rw [leaf, nodes]
  rfl

theorem entries_leaf (edge : Edge) (label above : Bytes) (value : α) :
    (leaf edge label value).entries above = [(above ++ label, value)] := by
  rw [entries_eq]
  rfl

/-- The subtree with a child between those at its left and its right. -/
def hang (sub : Subtree α) (left : List (Subtree α)) (child : Subtree α)
    (right : List (Subtree α)) : Subtree α :=
  { sub with children := left ++ child :: right }

/-- **A child may be hung between others** in order of their bytes, if a node without a value has
one already. -/
theorem Sound.hang (headed : ∀ child ∈ left ++ right, child.Headed)
    (sorted : Edge.Sorted ((left ++ right).map edge)) (sound : ∀ child ∈ left ++ right, child.Sound)
    (headedChild : child.Headed) (soundChild : child.Sound)
    (lower : ∀ other ∈ left, other.edge.byte < child.edge.byte)
    (higher : ∀ other ∈ right, child.edge.byte < other.edge.byte)
    (full : sub.value = none → left ++ right ≠ []) : (sub.hang left child right).Sound := by
  have around : ∀ other, other ∈ left ++ child :: right →
      other ∈ left ++ right ∨ other = child := by
    intro other member
    simp only [List.mem_append, List.mem_cons] at member ⊢
    tauto
  refine .node (fun other member => ?_) ?_ (fun valueless => ?_) fun other member => ?_
  · rcases around other member with old | rfl
    · exact headed other old
    · exact headedChild
  · simp only [Subtree.hang, Edge.Sorted, List.map_append, List.map_cons, List.pairwise_append,
      List.pairwise_cons, List.mem_map, List.mem_cons] at sorted ⊢
    grind
  · have several := List.length_pos_iff.mpr (full valueless)
    simp only [Subtree.hang, List.length_append, List.length_cons] at several ⊢
    omega
  · rcases around other member with old | rfl
    · exact sound other old
    · exact soundChild

/-! ### An edge cut in two -/

/-- The part of a subtree below a cut through its edge. -/
def remnant (sub : Subtree α) (byte : UInt8) (tail : Bytes) : Subtree α :=
  ⟨⟨byte, sub.id⟩, byte :: tail, sub.value, sub.children⟩

/-- The subtree under a new branch, which takes the part of the label above the cut. -/
def parted (sub : Subtree α) (branch : NodeRef) (shared : Bytes) (byte : UInt8) (tail : Bytes) :
    Subtree α :=
  ⟨{ sub.edge with child := branch }, shared, none, [sub.remnant byte tail]⟩

theorem Sound.remnant (sound : sub.Sound) : (sub.remnant byte tail).Sound :=
  .node sound.headed sound.sorted sound.full sound.child

/-- **Cutting an edge changes no entry.** -/
theorem entries_remnant (label : sub.label = shared ++ byte :: tail) (above : Bytes) :
    (sub.remnant byte tail).entries (above ++ shared) = sub.entries above := by
  rw [entries_eq, entries_eq above sub, label]
  simp [remnant]

end Subtree

/-- The branch above a cut is headed, as the node under the whole edge was. -/
theorem Spine.headed_parted (sound : (spine.plug sub).Sound)
    (label : sub.label = shared ++ byte :: tail) (entered : spine ≠ [] → shared ≠ [])
    (branch : NodeRef) :
    spine ≠ [] → (sub.parted branch shared byte tail).Headed := by
  intro below
  have headed := (Spine.sound_of_plug sound).2 below
  obtain ⟨first, others, rfl⟩ := List.exists_cons_of_ne_nil (entered below)
  rw [Subtree.Headed, label] at headed
  exact headed

/-! ### The steps of an insertion -/

/-- **A leaf is hung** under a node, between the children under lower and higher bytes. -/
theorem Tree.exists_addLeaf (stores : tree.arena.Stores (spine.plug sub).nodes)
    (children : sub.children = left ++ right)
    (sorted : Edge.Sorted ((left ++ right).map Subtree.edge))
    (lower : ∀ child ∈ left, child.edge.byte < byte)
    (higher : ∀ child ∈ right, byte < child.edge.byte)
    (tail : Bytes) (value : α) :
    ∃ id arena, tree.addLeaf sub.id (byte :: tail) value = .ok { tree with arena } ∧
      arena.Stores
        (spine.plug (sub.hang left (.leaf ⟨byte, id⟩ (byte :: tail) value) right)).nodes := by
  obtain ⟨id, grown, takes, grew⟩ := stores.exists_alloc (.leaf (byte :: tail) value)
  have added := grew.perm ((spine.nodes_plug_cons sub).cons _)
  rw [List.map_append] at sorted
  have headed : (Node.leaf (byte :: tail) value).label.head? = some byte := rfl
  obtain ⟨arena, attaches, stored⟩ := added.attach headed (by simp [children]) sorted
    (by simpa using lower) (by simpa using higher)
  refine ⟨id, arena, by rw [Tree.addLeaf, takes]; simp [attaches], stored.perm ?_⟩
  have target := spine.nodes_plug_cons (sub.hang left (.leaf ⟨byte, id⟩ (byte :: tail) value) right)
  refine List.Perm.trans ?_ target.symm
  rw [children]
  simp only [Subtree.hang, Subtree.top, Subtree.leaf, Subtree.nodes, List.map_append, List.map_cons,
    List.flatMap_append, List.flatMap_cons, List.map_nil, List.flatMap_nil, List.append_assoc,
    List.cons_append, List.nil_append]
  exact (List.Perm.swap _ _ _).trans (List.perm_middle.symm.cons _)

/-- **The link into a node is led to another**, in its parent or at the root. -/
theorem Tree.exists_relink {nodes : List (NodeRef × Node α)}
    (stores : tree.arena.Stores (nodes ++ spine.nodes sub.edge))
    (leads : tree.root = some (spine.plug sub).id) {id : NodeRef}
    (edge : other.edge = { sub.edge with child := id }) :
    ∃ arena root, tree.relink (spine.trail sub) id = .ok { tree with arena, root } ∧
      arena.Stores (nodes ++ spine.nodes other.edge) ∧ root = some (spine.plug other).id := by
  cases spine with
  | nil => exact ⟨_, _, rfl, stores, by rw [Spine.plug, Subtree.id, edge]⟩
  | cons frame spine =>
    have turned := stores.perm List.perm_append_comm
    rw [Spine.nodes] at turned
    have children : (frame.top sub.edge).children =
      frame.left.map Subtree.edge ++ sub.edge :: frame.right.map Subtree.edge := rfl
    obtain ⟨arena, redirects, stored⟩ := turned.redirect children id
    rw [List.length_map] at redirects
    refine ⟨arena, tree.root, ?_, ?_, ?_⟩
    · simp [Tree.relink, Spine.trail, Spine.links, Spine.slot, redirects]
    · rw [Spine.nodes, edge]
      exact stored.perm (@List.perm_append_comm _ (_ :: _) nodes)
    · exact leads.trans
        (congrArg some (@Spine.plug_id _ (frame.close other) (frame.close sub) spine rfl))

namespace Tree.Shows

/-- **The edge into a node is cut**, and the new branch takes its place in the tree. -/
theorem exists_split (shows : tree.Shows (some (spine.plug sub)))
    (label : sub.label = shared ++ byte :: tail) :
    ∃ branch cut arena root, tree.arena.cutEdge sub.id shared.length = .ok (branch, cut) ∧
      { tree with arena := cut }.relink (spine.trail sub) branch = .ok { tree with arena, root } ∧
      arena.Stores (spine.plug (sub.parted branch shared byte tail)).nodes ∧
      root = some (spine.plug (sub.parted branch shared byte tail)).id := by
  obtain ⟨branch, cut, cuts, stored⟩ :=
    (shows.stores.perm (spine.nodes_plug_cons sub)).cutEdge label
  let parted := sub.parted branch shared byte tail
  have parts : cut.Stores (parted.nodes ++ spine.nodes sub.edge) := by
    simpa [parted, Subtree.parted, Subtree.remnant, Subtree.nodes] using stored
  obtain ⟨arena, root, relinks, final, leads⟩ :=
    @exists_relink _ { tree with arena := cut } sub parted spine _ parts shows.root branch rfl
  exact ⟨branch, cut, arena, root, cuts, relinks, final.perm (spine.nodes_plug parted).symm, leads⟩

/-! ### Inserting -/

/-- A key is gained with another subtree in the place of one. -/
theorem gain_plug (shows : tree.Shows (some (spine.plug sub)))
    (cut : Cut ((spine.plug sub).entries []) key lower none upper) (other : Subtree α)
    {arena : Arena α}
    {root : Option NodeRef} (leads : root = some (spine.plug other).id)
    (stores : arena.Stores (spine.plug other).nodes) (sound : other.Sound)
    (byte : other.edge.byte = sub.edge.byte) (headed : spine ≠ [] → other.Headed)
    (entries : (spine.plug other).entries [] = lower ++ (key, value) :: upper) :
    tree.Edit ((spine.plug sub).entries []) key none (some value)
      { tree with arena, root }.gained := by
  refine shows.gain cut (some (spine.plug other)) leads stores ?_ entries
  rintro _ ⟨⟩
  exact Spine.sound_plug (shows.sound _ rfl) sound byte headed

/-- **A key that goes on past a node** gets a leaf there. -/
theorem insert_between (shows : tree.Shows (some (spine.plug sub))) (brackets : spine.Brackets key)
    (children : sub.children = left ++ right)
    (spells : key = spine.spelled ++ sub.label ++ byte :: rest)
    (lower : ∀ child ∈ left, child.edge.byte < byte)
    (higher : ∀ child ∈ right, byte < child.edge.byte)
    (value : α) :
    ∃ after, tree.addLeaf sub.id (byte :: rest) value = .ok after ∧
      tree.Edit ((spine.plug sub).entries []) key none (some value) after.gained := by
  have sound := shows.sound _ rfl
  obtain ⟨soundSub, headed⟩ := Spine.sound_of_plug sound
  have cut := spine.cut_between sound brackets children spells lower higher
  obtain ⟨id, arena, adds, stored⟩ := exists_addLeaf shows.stores children
    (children ▸ soundSub.sorted) lower higher rest value
  refine ⟨_, adds, shows.gain_plug cut _ ?_ stored ?_ rfl headed ?_⟩
  · exact shows.root.trans (congrArg some (Spine.plug_id rfl))
  · have full : sub.value = none → left ++ right ≠ [] := by
      intro valueless nothing
      have several := soundSub.full valueless
      simp [children, nothing] at several
    exact .hang (children ▸ soundSub.headed) (children ▸ soundSub.sorted)
      (children ▸ soundSub.child) rfl (Subtree.sound_leaf _ _ _) lower higher full
  · rw [Spine.entries_plug_own]
    simp [Subtree.hang, Subtree.entries_leaf, spells]

/-- **A key that ends inside an edge** becomes the key of a new branch. -/
theorem insert_ending (shows : tree.Shows (some (spine.plug sub))) (brackets : spine.Brackets key)
    (label : sub.label = shared ++ byte :: tail) (spells : key = spine.spelled ++ shared)
    (entered : spine ≠ [] → shared ≠ []) (value : α)
    (descends : tree.descend? key =
      .ok (some ⟨spine.trail sub, sub.top, .inside shared.length shared⟩)) :
    ∃ change, tree.insert key value = .ok change ∧
      tree.Edit ((spine.plug sub).entries []) key change.previous (some value) change.tree := by
  have sound := shows.sound _ rfl
  obtain ⟨branch, cut, arena, root, cuts, relinks, stored, leads⟩ := shows.exists_split label
  let written : Subtree α := { sub.parted branch shared byte tail with value := some value }
  have read : arena.node branch = .ok (sub.parted branch shared byte tail).top :=
    Arena.Holds.read_sub stored.toHolds
  have put : (arena.put branch written.top).Stores (spine.plug written).nodes :=
    stored.put_plug rfl rfl
  have low : Bytes.order (shared ++ []) sub.label = .lt := by
    rw [Bytes.order_eq_lt, label, List.append_nil]
    exact Bytes.lt_append_cons _ _ _
  have before := Spine.cut_inside_low brackets label (by rw [spells, List.append_nil]) (by simp) low
  have soundWritten : written.Sound :=
    Subtree.sound_single _ _ _ rfl (Spine.sound_of_plug sound).1.remnant
  have entries : (spine.plug written).entries [] =
      spine.before ++ (key, value) :: (sub.entries spine.spelled ++ spine.after) := by
    rw [Spine.entries_plug_own]
    simp [written, Subtree.parted, spells, Subtree.entries_remnant label]
  have edit := shows.gain_plug before written (leads.trans (congrArg some (Spine.plug_id rfl))) put
    soundWritten rfl (Spine.headed_parted sound label entered branch) entries
  refine ⟨⟨_, none, [.split sub.id shared.length branch]⟩, ?_, edit⟩
  rw [Tree.insert, descends]
  simp only [Spine.trail] at relinks
  simp [Spine.trail, cuts, relinks, read]
  rfl

/-- **A key that leaves an edge** becomes the key of a leaf beside the part below the cut. -/
theorem insert_leaving (shows : tree.Shows (some (spine.plug sub)))
    (label : sub.label = shared ++ byte :: tail) {next : UInt8}
    (spells : key = spine.spelled ++ (shared ++ next :: rest)) (entered : spine ≠ [] → shared ≠ [])
    (children : [sub.remnant byte tail] = left ++ right)
    (lower : ∀ child ∈ left, child.edge.byte < next)
    (higher : ∀ child ∈ right, next < child.edge.byte)
    (cut : Cut ((spine.plug sub).entries []) key
      (spine.before ++ left.flatMap (Subtree.entries (spine.spelled ++ shared))) none
      (right.flatMap (Subtree.entries (spine.spelled ++ shared)) ++ spine.after)) (value : α)
    (descends : tree.descend? key =
      .ok (some ⟨spine.trail sub, sub.top, .inside shared.length (shared ++ next :: rest)⟩)) :
    ∃ change, tree.insert key value = .ok change ∧
      tree.Edit ((spine.plug sub).entries []) key change.previous (some value) change.tree := by
  have sound := shows.sound _ rfl
  have soundRemnant : (sub.remnant byte tail).Sound := (Spine.sound_of_plug sound).1.remnant
  obtain ⟨branch, cutArena, split, root, cuts, relinks, parted, leads⟩ := shows.exists_split label
  obtain ⟨id, arena, adds, stored⟩ := @exists_addLeaf _ { tree with arena := split, root }
    (sub.parted branch shared byte tail) spine left right next parted children
    (children ▸ List.pairwise_singleton _ _) lower higher rest value
  let fork :=
    (sub.parted branch shared byte tail).hang left (.leaf ⟨next, id⟩ (next :: rest) value) right
  have soundFork : fork.Sound :=
    .hang (children ▸ by simp [Subtree.Headed, Subtree.remnant])
      (children ▸ List.pairwise_singleton _ _) (children ▸ by simpa using soundRemnant) rfl
      (Subtree.sound_leaf _ _ _) lower higher (fun _ => children ▸ List.cons_ne_nil _ _)
  have entries : (spine.plug fork).entries [] =
      spine.before ++ left.flatMap (Subtree.entries (spine.spelled ++ shared)) ++
        (key, value) ::
          (right.flatMap (Subtree.entries (spine.spelled ++ shared)) ++ spine.after) := by
    rw [Spine.entries_plug_own]
    simp [fork, Subtree.hang, Subtree.parted, Subtree.entries_leaf, spells]
  have edit := shows.gain_plug cut fork (leads.trans (congrArg some (Spine.plug_id rfl))) stored
    soundFork rfl (Spine.headed_parted sound label entered branch) entries
  refine ⟨⟨{ tree with arena, root }.gained, none, [.split sub.id shared.length branch]⟩, ?_, edit⟩
  rw [Tree.insert, descends]
  simp only [Spine.trail] at relinks
  simp only [Subtree.parted] at adds
  simp [Spine.trail, cuts, relinks, adds]

/-- **A key that parts from an edge** gets the edge cut there. -/
theorem insert_inside (shows : tree.Shows (some (spine.plug sub))) (brackets : spine.Brackets key)
    (label : sub.label = shared ++ byte :: tail) (spells : key = spine.spelled ++ (shared ++ rest))
    (parts : rest.head? ≠ some byte) (entered : spine ≠ [] → shared ≠ []) (value : α)
    (descends : tree.descend? key =
      .ok (some ⟨spine.trail sub, sub.top, .inside shared.length (shared ++ rest)⟩)) :
    ∃ change, tree.insert key value = .ok change ∧
      tree.Edit ((spine.plug sub).entries []) key change.previous (some value) change.tree := by
  cases rest with
  | nil =>
    rw [List.append_nil] at spells descends
    exact shows.insert_ending brackets label spells entered value descends
  | cons next rest =>
    have remains := Subtree.entries_remnant label spine.spelled
    have different : next ≠ byte := by simpa using parts
    rcases UInt8.lt_or_lt_of_ne different with less | greater
    · have low : Bytes.order (shared ++ next :: rest) sub.label = .lt := by
        rw [Bytes.order_eq_lt, label]
        exact Bytes.append_cons_lt shared less _ _
      have cut := Spine.cut_inside_low brackets label spells parts low
      have last : [sub.remnant byte tail] = [] ++ [sub.remnant byte tail] := rfl
      exact shows.insert_leaving label spells entered last (by simp)
        (by simpa [Subtree.remnant] using less) (by simpa [remains] using cut) value descends
    · have high : Bytes.order (shared ++ next :: rest) sub.label ≠ .lt := by
        rw [ne_eq, Bytes.order_eq_lt, label, not_lt]
        exact (Bytes.append_cons_lt shared greater _ _).le
      have cut := Spine.cut_inside_high brackets label spells parts high
      have first : [sub.remnant byte tail] = [sub.remnant byte tail] ++ [] := rfl
      exact shows.insert_leaving label spells entered first
        (by simpa [Subtree.remnant] using greater) (by simp) (by simpa [remains] using cut)
        value descends

/-- **Inserting never fails, and edits the key.** -/
theorem insert (shows : tree.Shows trunk) (key : Bytes) (value : α) :
    ∃ change, tree.insert key value = .ok change ∧
      tree.Edit trunk.entries key change.previous (some value) change.tree := by
  cases trunk with
  | none =>
    have cut : Cut (Trunk.entries (none : Trunk α)) key [] none [] := ⟨rfl, by simp, by simp⟩
    obtain ⟨id, arena, takes, stored⟩ := shows.stores.exists_alloc (.leaf key value)
    have held : arena.Stores (Trunk.nodes (some (.leaf ⟨0, id⟩ key value))) := by
      rwa [Trunk.nodes, Subtree.nodes_leaf]
    refine ⟨⟨{ tree with arena, root := some id }.gained, none, []⟩, ?_,
      shows.gain cut _ rfl held ?_ (Subtree.entries_leaf _ _ _ _)⟩
    · rw [Tree.insert, shows.descend?_none key]
      simp [takes]
    · rintro _ ⟨⟩
      exact Subtree.sound_leaf _ _ _
  | some whole =>
    obtain ⟨spine, sub, landing, ⟨rfl, brackets, lands⟩, descends⟩ := shows.descend? key
    have sound := shows.sound _ rfl
    obtain ⟨soundSub, headed⟩ := Spine.sound_of_plug sound
    cases lands with
    | exact spells =>
      cases keyed : sub.value with
      | some previous =>
        refine ⟨⟨_, some previous, []⟩, ?_, shows.overwrite brackets spells keyed value⟩
        rw [Tree.insert, descends]
        simp [Node.keyed, keyed, Spine.trail]
      | none =>
        let written : Subtree α := { sub with value := some value }
        have put : (tree.arena.put sub.id written.top).Stores (spine.plug written).nodes :=
          shows.stores.put_plug rfl rfl
        have cut := spine.cut_exact sound brackets spells
        rw [keyed] at cut
        have edit := shows.gain_plug cut written
          (shows.root.trans (congrArg some (Spine.plug_id rfl))) put
          (.node soundSub.headed soundSub.sorted (by simp) soundSub.child) rfl headed
          (spells ▸ spine.entries_plug_own written)
        refine ⟨⟨_, none, []⟩, ?_, edit⟩
        rw [Tree.insert, descends]
        simp [Node.keyed, keyed, Spine.trail]
        rfl
    | between left right byte rest children spells lower higher =>
      obtain ⟨after, adds, edit⟩ := shows.insert_between brackets children spells lower higher value
      refine ⟨⟨after.gained, none, []⟩, ?_, edit⟩
      rw [Tree.insert, descends]
      simp [Spine.trail, adds]
    | inside shared byte tail rest label spells parts entered =>
      exact shows.insert_inside brackets label spells parts entered value descends

end Tree.Shows

end RadixLog
