/-
**Arenas step by step.**

The bookkeeping of an arena is right when it is that of an arena storing certain nodes, whichever
they are: each slot is then occupied or on the free list. Arenas change in steps that either take
slots into use or give slots back. All steps keep the bookkeeping right, no slot is taken into use
while a node lives in it, and a slot is added only when all others are occupied.

* `Arena.Orderly`: the bookkeeping of an arena is right;
* `Arena.Orderly.live_eq`, `Arena.Orderly.size_eq`: occupied slots and vacant ones, counted;
* `Arena.Step`, `Arena.Steps`: writes to an arena, one and many;
* `Arena.Orderly.takesVacant`: what is taken into use was vacant;
* `Arena.Steps.size_le`: there are no more slots than there were, or else than there are nodes.
-/

import Mathlib.Logic.Relation
import RadixLog.Proofs.Arena.Stores
import RadixLog.Proofs.Fault

namespace RadixLog.Arena

variable {α : Type} {arena later : Arena α} {id : NodeRef} {old : Node α}

/-! ### Places of a list -/

/-- **Items that a condition holds of are counted by their places.** -/
theorem length_eq_countP {β : Type} {items : List β} {holds : β → Bool} {places : List Nat}
    (distinct : places.Nodup)
    (same : ∀ place, place ∈ places ↔ ∃ item, items[place]? = some item ∧ holds item = true) :
    places.length = items.countP holds := by
  have counted : (List.range items.length).countP (fun place => items[place]?.any holds) =
      items.countP holds := by
    clear same
    induction items with
    | nil => rfl
    | cons item items ih =>
      rw [List.length_cons, List.range_succ_eq_map, List.countP_cons, List.countP_map,
        List.countP_cons, ← ih]
      rfl
  rw [← counted, List.countP_eq_length_filter]
  refine ((List.perm_ext_iff_of_nodup distinct (List.nodup_range.filter _)).mpr ?_).length_eq
  intro place
  rw [same, List.mem_filter, List.mem_range, Option.any_eq_true]
  constructor
  · rintro ⟨item, here, good⟩
    exact ⟨(List.getElem?_eq_some_iff.mp here).1, item, here, good⟩
  · rintro ⟨_, item, here, good⟩
    exact ⟨item, here, good⟩

/-! ### Bookkeeping -/

/-- **The bookkeeping of an arena is right**: it is that of an arena storing certain nodes. -/
def Orderly (arena : Arena α) : Prop := ∃ nodes, arena.Stores nodes

namespace Orderly

theorem put (orderly : arena.Orderly) (found : arena.node id = .ok old) (new : Node α) :
    (arena.put id new).Orderly := by
  obtain ⟨nodes, stores⟩ := orderly
  obtain ⟨before, after, rfl⟩ := List.append_of_mem (stores.only found)
  exact ⟨_, (stores.perm List.perm_middle).put new⟩

theorem alloc (orderly : arena.Orderly) {new : Node α} (takes : arena.alloc new = .ok (id, later)) :
    later.Orderly := by
  obtain ⟨nodes, stores⟩ := orderly
  exact ⟨_, stores.alloc takes⟩

theorem release (orderly : arena.Orderly) (gives : arena.release id = .ok (old, later)) :
    later.Orderly := by
  obtain ⟨node, found, _⟩ := bind_eq_ok gives
  obtain ⟨nodes, stores⟩ := orderly
  obtain ⟨before, after, rfl⟩ := List.append_of_mem (stores.only found)
  obtain ⟨left, gives', stored⟩ := (stores.perm List.perm_middle).release
  cases gives.symm.trans gives'
  exact ⟨_, stored⟩

/-- **The number of nodes is that of the occupied slots.** -/
theorem live_eq (orderly : arena.Orderly) : arena.live = arena.slots.countP Option.isSome := by
  obtain ⟨nodes, stores⟩ := orderly
  rw [stores.counted, ← List.length_map Prod.fst, ← Array.countP_toList]
  refine length_eq_countP stores.distinct fun id => ?_
  rw [List.mem_map, Array.getElem?_toList]
  constructor
  · rintro ⟨⟨id, node⟩, member, rfl⟩
    exact ⟨some node, node_eq_ok.mp (stores.read member), rfl⟩
  · rintro ⟨slot, here, occupied⟩
    obtain ⟨node, rfl⟩ := Option.isSome_iff_exists.mp occupied
    exact ⟨(id, node), stores.only (node_eq_ok.mpr here), rfl⟩

/-- **Each slot is occupied or on the free list.** -/
theorem size_eq (orderly : arena.Orderly) :
    arena.slots.size = arena.live + arena.free.length := by
  have occupied := orderly.live_eq
  obtain ⟨nodes, stores⟩ := orderly
  have vacant : arena.free.length = arena.slots.toList.countP fun slot => ¬ slot.isSome := by
    refine length_eq_countP stores.freeDistinct fun id => ?_
    rw [stores.vacant, Array.getElem?_toList]
    constructor
    · intro here
      exact ⟨none, here, rfl⟩
    · rintro ⟨slot, here, empty⟩
      cases slot with
      | none => exact here
      | some node => cases empty
  rw [occupied, vacant, ← Array.countP_toList, ← Array.length_toList]
  exact List.length_eq_countP_add_countP _

end Orderly

/-! ### Taking slots into use -/

/-- **A slot can be taken into use, and was vacant**: no node lived in it, and every other slot stays
as it is. -/
def TakesVacant (arena : Arena α) : Prop :=
  ∀ new : Node α, ∃ id after, arena.alloc new = .ok (id, after) ∧
    (∀ old, arena.node id ≠ .ok old) ∧ after.node id = .ok new ∧
    ∀ other, other ≠ id → after.node other = arena.node other

theorem Orderly.takesVacant (orderly : arena.Orderly) : arena.TakesVacant := by
  obtain ⟨nodes, stores⟩ := orderly
  intro new
  obtain ⟨id, after, takes⟩ := stores.listsVacant.exists_alloc new
  exact ⟨id, after, takes, stores.listsVacant.node_alloc_ne takes, node_alloc_same takes,
    fun other different => node_alloc_other takes different⟩

/-! ### Steps -/

/-- Whether slots are being taken into use or given back. -/
inductive Trend where
  | growing
  | thinning

/-- **A write to an arena**: a node in use is rewritten, a slot is taken into use, or slots are given
back or given up. -/
inductive Step : Trend → Arena α → Arena α → Prop where
  | put {trend : Trend} {arena : Arena α} {id : NodeRef} {old : Node α}
    (found : arena.node id = .ok old) (new : Node α) : Step trend arena (arena.put id new)
  | alloc {arena later : Arena α} {new : Node α} {id : NodeRef}
    (takes : arena.alloc new = .ok (id, later)) : Step .growing arena later
  | release {arena later : Arena α} {id : NodeRef} {old : Node α}
    (gives : arena.release id = .ok (old, later)) : Step .thinning arena later
  | clear (arena : Arena α) : Step .thinning arena arena.clear
  | shrink (arena : Arena α) : Step .thinning arena arena.shrink

/-- Any number of writes with one trend. -/
abbrev Steps (trend : Trend) : Arena α → Arena α → Prop := Relation.ReflTransGen (Step trend)

theorem Step.orderly {trend : Trend} (step : Step trend arena later) (orderly : arena.Orderly) :
    later.Orderly := by
  cases step with
  | put found new => exact orderly.put found new
  | alloc takes => exact orderly.alloc takes
  | release gives => exact orderly.release gives
  | clear => exact ⟨_, .clear arena⟩
  | shrink =>
    obtain ⟨nodes, stores⟩ := orderly
    exact ⟨nodes, stores.shrink⟩

theorem size_shrink_le (arena : Arena α) : arena.shrink.slots.size ≤ arena.slots.size := by
  obtain ⟨tail, split, _⟩ := exists_occupiedPart_append arena.slots
  have lengths := congrArg List.length split
  rw [List.length_append, Array.length_toList, Array.length_toList] at lengths
  exact lengths ▸ Nat.le_add_right _ _

theorem Step.size_thinning (step : Step .thinning arena later) :
    later.slots.size ≤ arena.slots.size := by
  cases step with
  | put found new => exact Array.size_setIfInBounds.le
  | release gives =>
    obtain ⟨node, _, rest⟩ := bind_eq_ok gives
    cases rest
    exact Array.size_setIfInBounds.le
  | clear => exact Nat.zero_le _
  | shrink => exact size_shrink_le arena

/-- **A slot is added only when all others are occupied.** -/
theorem Step.size_growing (step : Step .growing arena later) (orderly : arena.Orderly) :
    arena.live ≤ later.live ∧ later.slots.size ≤ max arena.slots.size later.live := by
  cases step with
  | put found new => exact ⟨le_rfl, Array.size_setIfInBounds.le.trans (le_max_left _ _)⟩
  | alloc takes =>
    have size := orderly.size_eq
    obtain ⟨others, -, -, rfl⟩ | ⟨free, -, rfl⟩ := alloc_cases takes
    · exact ⟨Nat.le_succ _, Array.size_setIfInBounds.le.trans (le_max_left _ _)⟩
    · rw [free, List.length_nil, Nat.add_zero] at size
      refine ⟨Nat.le_succ _, Nat.le_trans ?_ (le_max_right _ _)⟩
      dsimp only
      rw [Array.size_push, size]

namespace Steps

variable {trend : Trend}

theorem orderly (steps : Steps trend arena later) (orderly : arena.Orderly) : later.Orderly := by
  induction steps with
  | refl => exact orderly
  | tail _ step ih => exact step.orderly ih

theorem size_growing (steps : Steps .growing arena later) (orderly : arena.Orderly) :
    arena.live ≤ later.live ∧ later.slots.size ≤ max arena.slots.size later.live := by
  induction steps with
  | refl => exact ⟨le_rfl, le_max_left _ _⟩
  | tail before step ih =>
    have last := step.size_growing (Steps.orderly before orderly)
    omega

theorem size_thinning (steps : Steps .thinning arena later) :
    later.slots.size ≤ arena.slots.size := by
  induction steps with
  | refl => exact le_rfl
  | tail _ step ih => exact step.size_thinning.trans ih

/-- **There are no more slots than there were, or else than there are nodes.** -/
theorem size_le (steps : Steps trend arena later) (orderly : arena.Orderly) :
    later.slots.size ≤ max arena.slots.size later.live := by
  cases trend with
  | growing => exact (size_growing steps orderly).2
  | thinning => exact (size_thinning steps).trans (le_max_left _ _)

end Steps

/-! ### Reshapings are made of steps -/

section Reshapings

variable {trend : Trend} {parent child : NodeRef} {slot cut : Nat}

theorem attach_step (goes : arena.attach parent child = .ok later) : Step trend arena later := by
  obtain ⟨leaf, _, goes⟩ := bind_eq_ok goes
  cases label : leaf.label with
  | nil =>
    rw [label] at goes
    cases goes
  | cons byte rest =>
    rw [label] at goes
    obtain ⟨node, found, goes⟩ := bind_eq_ok goes
    cases search : probe node.children byte with
    | found place other =>
      rw [search] at goes
      cases goes
    | missing place =>
      rw [search] at goes
      cases goes
      exact .put found _

theorem detach_step (goes : arena.detach parent slot = .ok later) : Step trend arena later := by
  obtain ⟨node, found, goes⟩ := bind_eq_ok goes
  by_cases inside : slot < node.children.length
  · rw [if_pos inside] at goes
    cases goes
    exact .put found _
  · rw [if_neg inside] at goes
    cases goes

theorem redirect_step (goes : arena.redirect parent slot child = .ok later) :
    Step trend arena later := by
  obtain ⟨node, found, goes⟩ := bind_eq_ok goes
  cases here : node.children[slot]? with
  | none =>
    rw [here] at goes
    cases goes
  | some edge =>
    rw [here] at goes
    cases goes
    exact .put found _

theorem cutEdge_steps {branch : NodeRef} (goes : arena.cutEdge id cut = .ok (branch, later)) :
    Steps .growing arena later := by
  obtain ⟨node, found, goes⟩ := bind_eq_ok goes
  cases tail : node.label.drop cut with
  | nil =>
    rw [tail] at goes
    cases goes
  | cons byte rest =>
    rw [tail] at goes
    exact .tail (.single (.put found _)) (.alloc goes)

theorem absorb_steps (goes : arena.absorb id = .ok (child, later)) :
    Steps .thinning arena later := by
  obtain ⟨node, _, goes⟩ := bind_eq_ok goes
  cases children : node.children with
  | nil =>
    rw [children] at goes
    cases goes
  | cons edge edges =>
    rw [children] at goes
    obtain ⟨⟨freed, middle⟩, gives, goes⟩ := bind_eq_ok goes
    obtain ⟨merged, found, goes⟩ := bind_eq_ok goes
    cases goes
    exact .tail (.single (.release gives)) (.put found _)

end Reshapings

end RadixLog.Arena
