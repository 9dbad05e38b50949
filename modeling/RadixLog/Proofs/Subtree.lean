/-
**Trees as values.**

A subtree is a node together with everything under it, cut loose from its arena. It lists the nodes
an arena has to store for it and the entries it stands for. What surrounds a subtree in a larger one
is its spine: the frames of the nodes above it, the nearest first. Every path of an arena is the
trail of a spine, and every change of a tree replaces a subtree under its spine.

* `Subtree.Sound`: what path compression promises;
* `Subtree.nodes`, `Spine.nodes_plug`: the nodes, with a subtree and its spine apart;
* `Subtree.entries`, `Spine.entries_plug`: the entries, with those before and after a subtree apart.
-/

import Mathlib.Tactic.Common
import RadixLog.Arena.Descent
import RadixLog.Proofs.Arena.Probe
import RadixLog.Proofs.Entries

namespace RadixLog

/-- An entry of a child table with the node it leads to and everything under that node. Nothing
leads to a root, and the byte of its edge means nothing. -/
structure Subtree (α : Type) where
  edge : Edge
  label : Bytes
  value : Option α
  children : List (Subtree α)

variable {α : Type}

namespace Subtree

/-- A property that a node has as soon as all its children have it is one of all subtrees. -/
theorem induction {motive : Subtree α → Prop}
    (node : ∀ edge label value children, (∀ child ∈ children, motive child) →
      motive ⟨edge, label, value, children⟩) : ∀ sub, motive sub
  | ⟨edge, label, value, children⟩ =>
    node edge label value children fun child _ => induction node child

/-! ### Nodes -/

/-- The slot of the node. -/
abbrev id (sub : Subtree α) : NodeRef := sub.edge.child

/-- The node itself, as an arena stores it. -/
def top (sub : Subtree α) : Node α := ⟨sub.label, sub.children.map edge, sub.value⟩

@[simp]
theorem top_label (sub : Subtree α) : sub.top.label = sub.label := rfl

@[simp]
theorem top_children (sub : Subtree α) : sub.top.children = sub.children.map edge := rfl

@[simp]
theorem top_value (sub : Subtree α) : sub.top.value = sub.value := rfl

/-- All nodes with their slots, in preorder. -/
def nodes : Subtree α → List (NodeRef × Node α)
  | ⟨edge, label, value, children⟩ =>
    (edge.child, ⟨label, children.map Subtree.edge, value⟩) :: children.flatMap nodes

theorem nodes_eq (sub : Subtree α) :
    sub.nodes = (sub.id, sub.top) :: sub.children.flatMap nodes := by
  cases sub
  rw [nodes]
  rfl

theorem top_mem_nodes (sub : Subtree α) : (sub.id, sub.top) ∈ sub.nodes := by
  rw [nodes_eq]
  exact List.mem_cons_self

/-- What is under a child is under its parent. -/
theorem nodes_subset {sub child : Subtree α} (member : child ∈ sub.children) :
    child.nodes ⊆ sub.nodes := by
  intro entry inside
  rw [nodes_eq]
  exact List.mem_cons_of_mem _ (List.mem_flatMap.mpr ⟨child, member, inside⟩)

theorem length_nodes_lt {sub child : Subtree α} (member : child ∈ sub.children) :
    child.nodes.length < sub.nodes.length := by
  obtain ⟨left, right, split⟩ := List.append_of_mem member
  rw [nodes_eq sub, split, List.flatMap_append, List.flatMap_cons]
  simp only [List.length_cons, List.length_append]
  omega

/-! ### Entries -/

/-- All entries, in preorder, given the bytes spelled above. -/
def entries (above : Bytes) : Subtree α → List (Bytes × α)
  | ⟨_, label, value, children⟩ =>
    own (above ++ label) value ++ children.flatMap (entries (above ++ label))

theorem entries_eq (above : Bytes) (sub : Subtree α) : sub.entries above =
    own (above ++ sub.label) sub.value ++ sub.children.flatMap (entries (above ++ sub.label)) := by
  cases sub
  rw [entries]

/-- Every key of a subtree goes on from the path to its node. -/
theorem exists_append_of_mem_entries {above : Bytes} {sub : Subtree α} {entry : Bytes × α}
    (member : entry ∈ sub.entries above) : ∃ rest, entry.1 = above ++ sub.label ++ rest := by
  induction sub using Subtree.induction generalizing above with
  | node edge label value children ih =>
    rw [entries, List.mem_append, List.mem_flatMap] at member
    rcases member with here | ⟨child, inside, found⟩
    · obtain ⟨value, rfl⟩ : ∃ v, entry = (above ++ label, v) := by
        cases value <;> simp_all [own]
      exact ⟨[], (List.append_nil _).symm⟩
    · obtain ⟨rest, spelled⟩ := ih child inside found
      exact ⟨child.label ++ rest, by rw [spelled, List.append_assoc (above ++ label)]⟩

/-! ### Soundness -/

/-- A child's label starts with the byte that leads to it. -/
def Headed (sub : Subtree α) : Prop := sub.label.head? = some sub.edge.byte

/-- **A path-compressed subtree**: children stand in order of the bytes their labels start with, and
a node without a value has at least two. -/
inductive Sound : Subtree α → Prop where
  | node {sub : Subtree α} (headed : ∀ child ∈ sub.children, child.Headed)
    (sorted : Edge.Sorted (sub.children.map edge))
    (full : sub.value = none → 2 ≤ sub.children.length)
    (sound : ∀ child ∈ sub.children, Sound child) : Sound sub

variable {sub : Subtree α}

theorem Sound.headed (sound : Sound sub) : ∀ child ∈ sub.children, child.Headed := by
  cases sound; assumption

theorem Sound.sorted (sound : Sound sub) : Edge.Sorted (sub.children.map edge) := by
  cases sound; assumption

theorem Sound.full (sound : Sound sub) : sub.value = none → 2 ≤ sub.children.length := by
  cases sound; assumption

theorem Sound.child (sound : Sound sub) : ∀ child ∈ sub.children, Sound child := by
  cases sound; assumption

end Subtree

/-! ### Frames and spines -/

/-- A node on the way to a subtree: its edge, label and value, and the children to the left and to
the right of the one the way goes on to. -/
structure Frame (α : Type) where
  edge : Edge
  label : Bytes
  value : Option α
  left : List (Subtree α)
  right : List (Subtree α)

/-- The frames above a subtree, the nearest first. -/
abbrev Spine (α : Type) := List (Frame α)

namespace Frame

/-- The node of a frame, over a child that `edge` leads to. -/
def top (frame : Frame α) (edge : Edge) : Node α :=
  ⟨frame.label, frame.left.map Subtree.edge ++ edge :: frame.right.map Subtree.edge, frame.value⟩

/-- A frame with the child it was cut out for. -/
def close (frame : Frame α) (sub : Subtree α) : Subtree α :=
  ⟨frame.edge, frame.label, frame.value, frame.left ++ sub :: frame.right⟩

end Frame

/-- The frame that a subtree leaves around one of its children. -/
def Subtree.cut (sub : Subtree α) (left right : List (Subtree α)) : Frame α :=
  ⟨sub.edge, sub.label, sub.value, left, right⟩

theorem Subtree.close_cut {sub child : Subtree α} {left right : List (Subtree α)}
    (split : sub.children = left ++ child :: right) : (sub.cut left right).close child = sub := by
  cases sub
  simp_all [cut, Frame.close]

namespace Spine

open Subtree

/-- The whole tree around a subtree. -/
def plug : Spine α → Subtree α → Subtree α
  | [], sub => sub
  | frame :: spine, sub => plug spine (frame.close sub)

/-- The bytes spelled above a subtree. -/
def spelled : Spine α → Bytes
  | [] => []
  | frame :: spine => spelled spine ++ frame.label

/-- The place of a subtree in its parent's child table; a root has place 0. -/
def slot : Spine α → Nat
  | [] => 0
  | frame :: _ => frame.left.length

/-- The links above a subtree. -/
def links : Spine α → List Link
  | [] => []
  | frame :: spine => ⟨frame.edge.child, slot spine⟩ :: links spine

/-- The path to the node of a subtree. -/
def trail (spine : Spine α) (sub : Subtree α) : Trail :=
  ⟨⟨sub.id, slot spine⟩, links spine, spelled spine ++ sub.label⟩

/-- The nodes around a subtree that `edge` leads to. -/
def nodes : Spine α → Edge → List (NodeRef × Node α)
  | [], _ => []
  | frame :: spine, edge =>
    (frame.edge.child, frame.top edge) ::
      (frame.left.flatMap Subtree.nodes ++ frame.right.flatMap Subtree.nodes ++
        nodes spine frame.edge)

/-- The entries before a subtree. -/
def before : Spine α → List (Bytes × α)
  | [] => []
  | frame :: spine =>
    before spine ++ (own (spelled spine ++ frame.label) frame.value ++
      frame.left.flatMap (entries (spelled spine ++ frame.label)))

/-- The entries after a subtree. -/
def after : Spine α → List (Bytes × α)
  | [] => []
  | frame :: spine => frame.right.flatMap (entries (spelled spine ++ frame.label)) ++ after spine

/-- **The nodes of a tree are those of a subtree and those around it.** -/
theorem nodes_plug (spine : Spine α) (sub : Subtree α) :
    (plug spine sub).nodes.Perm (sub.nodes ++ nodes spine sub.edge) := by
  induction spine generalizing sub with
  | nil => simp [plug, nodes]
  | cons frame spine ih =>
    refine (ih _).trans ?_
    rw [nodes_eq, nodes]
    simp only [Frame.close, Frame.top, Subtree.top, List.map_append, List.map_cons,
      List.flatMap_append, List.flatMap_cons, List.cons_append]
    refine (List.Perm.cons _ ?_).trans List.perm_middle.symm
    simp only [← List.append_assoc]
    exact (List.perm_append_comm.append_right _).append_right _

/-- **The entries of a tree are those of a subtree, between those before and those after it.** -/
theorem entries_plug (spine : Spine α) (sub : Subtree α) :
    (plug spine sub).entries [] = before spine ++ sub.entries (spelled spine) ++ after spine := by
  induction spine generalizing sub with
  | nil => simp [plug, before, after, spelled]
  | cons frame spine ih =>
    rw [plug, ih, entries_eq]
    simp [Frame.close, before, after, spelled]

/-- The entries of a tree around the one of a node. -/
theorem entries_plug_own (spine : Spine α) (sub : Subtree α) : (plug spine sub).entries [] =
    before spine ++ (own (spelled spine ++ sub.label) sub.value ++
      (sub.children.flatMap (entries (spelled spine ++ sub.label)) ++ after spine)) := by
  rw [entries_plug, entries_eq]
  simp

/-! ### Soundness of the parts -/

/-- A subtree of a sound tree is sound, and headed unless it is the whole tree. -/
theorem sound_of_plug {spine : Spine α} {sub : Subtree α} (sound : (plug spine sub).Sound) :
    sub.Sound ∧ (spine ≠ [] → sub.Headed) := by
  induction spine generalizing sub with
  | nil => exact ⟨sound, fun nonempty => absurd rfl nonempty⟩
  | cons frame spine ih =>
    have member : sub ∈ (frame.close sub).children := by simp [Frame.close]
    have closed := (ih sound).1
    exact ⟨closed.child sub member, fun _ => closed.headed sub member⟩

/-- A frame closed over another sound child under the same byte is as sound as before. -/
theorem sound_close {frame : Frame α} {sub other : Subtree α} (sound : (frame.close sub).Sound)
    (new : other.Sound) (byte : other.edge.byte = sub.edge.byte) (headed : other.Headed) :
    (frame.close other).Sound := by
  have around : ∀ child, child ∈ (frame.close other).children →
      child ∈ (frame.close sub).children ∨ child = other := by
    intro child member
    simp only [Frame.close, List.mem_append, List.mem_cons] at member ⊢
    tauto
  refine .node (fun child member => ?_) ?_ (fun valueless => ?_) fun child member => ?_
  · rcases around child member with old | rfl
    · exact sound.headed child old
    · exact headed
  · have sorted := sound.sorted
    simp only [Frame.close, Edge.Sorted, List.map_append, List.map_cons, List.pairwise_append,
      List.pairwise_cons, List.mem_cons, byte] at sorted ⊢
    grind
  · have full := sound.full valueless
    simpa [Frame.close] using full
  · rcases around child member with old | rfl
    · exact sound.child child old
    · exact new

/-- **A sound subtree may take another's place** under the same byte. -/
theorem sound_plug {spine : Spine α} {sub other : Subtree α} (sound : (plug spine sub).Sound)
    (new : other.Sound) (byte : other.edge.byte = sub.edge.byte)
    (headed : spine ≠ [] → other.Headed) : (plug spine other).Sound := by
  induction spine generalizing sub other with
  | nil => exact new
  | cons frame spine ih =>
    obtain ⟨closed, frameHeaded⟩ :=
      sound_of_plug (show (plug spine (frame.close sub)).Sound from sound)
    exact ih sound (sound_close closed new byte (headed (List.cons_ne_nil _ _))) rfl frameHeaded

end Spine

/-! ### Trunks -/

/-- The root of a tree with everything under it, unless the tree is empty. -/
abbrev Trunk (α : Type) := Option (Subtree α)

namespace Trunk

/-- All nodes. -/
def nodes : Trunk α → List (NodeRef × Node α)
  | none => []
  | some sub => sub.nodes

/-- All entries. -/
def entries : Trunk α → List (Bytes × α)
  | none => []
  | some sub => sub.entries []

end Trunk

end RadixLog
