/-
**Trees are finite maps.**

A register is what a tree is to those who use it: a finite map from byte strings, and a count of the
changes of its set of keys. Every operation on a tree answers and leaves behind what the same
operation on its register does.

* `Register.run`: the operations on a register;
* `Register.turns`: which operations change the set of keys;
* `Register.generation_run`: those, and no others, let the generation grow;
* `Tree.Represents`: the tree and its register agree;
* `Tree.Represents.run`: and they still do after every operation;
* `Tree.Reachable.represents`: every tree that operations lead to has a register.
-/

import RadixLog.Proofs.KeyMap
import RadixLog.Proofs.Tree.Insert
import RadixLog.Proofs.Tree.Remove
import RadixLog.Tree.Operation

namespace RadixLog

variable {α : Type}

/-- A finite map and the number of times its keys have changed. -/
structure Register (α : Type) where
  map : KeyMap α
  generation : Nat

namespace Register

/-- The register of a new tree. -/
def empty : Register α := ⟨∅, 0⟩

/-- Puts a value under a key. A key that was absent is a change of the keys. -/
def insert (register : Register α) (key : Bytes) (value : α) : Register α :=
  ⟨register.map.insert key value, register.generation + if key ∈ register.map then 0 else 1⟩

/-- Takes a key away. A key that was present is a change of the keys. -/
def remove (register : Register α) (key : Bytes) : Register α :=
  ⟨register.map.erase key, register.generation + if key ∈ register.map then 1 else 0⟩

/-- Puts a value under a key if the key is present. -/
def assign (register : Register α) (key : Bytes) (value : α) : Register α :=
  if key ∈ register.map then { register with map := register.map.insert key value } else register

/-- Puts values under keys, one after the other, so that later ones win. -/
def insertAll (register : Register α) (entries : List (Bytes × α)) : Register α :=
  entries.foldl (fun register entry => register.insert entry.1 entry.2) register

/-- Takes all keys away. This is a change of the keys, even of none. -/
def clear (register : Register α) : Register α := ⟨∅, register.generation + 1⟩

/-- What an operation answers, and the register after it. -/
def run (register : Register α) : Operation α → Option α × Register α
  | .find key => (register.map[key]?, register)
  | .insert key value => (register.map[key]?, register.insert key value)
  | .remove key => (register.map[key]?, register.remove key)
  | .assign key value => (register.map[key]?, register.assign key value)
  | .insertAll entries => (none, register.insertAll entries)
  | .clear => (none, register.clear)
  | .shrink => (none, register)

/-! ### Changes of the keys -/

/-- Whether an operation gains a key, loses a key or clears. -/
def turns (register : Register α) : Operation α → Bool
  | .insert key _ => !register.map.contains key
  | .remove key => register.map.contains key
  | .insertAll entries => entries.any fun entry => !register.map.contains entry.1
  | .clear => true
  | _ => false

theorem generation_insert (register : Register α) (key : Bytes) (value : α) :
    (register.insert key value).generation =
      register.generation + if register.map.contains key then 0 else 1 := by
  by_cases member : key ∈ register.map <;> simp [insert, member]

theorem le_generation_insertAll (register : Register α) (entries : List (Bytes × α)) :
    register.generation ≤ (register.insertAll entries).generation := by
  induction entries generalizing register with
  | nil => exact le_rfl
  | cons entry entries ih =>
    exact (Nat.le_add_right _ _).trans (ih (register.insert entry.1 entry.2))

/-- **Inserting entries changes the keys** if and only if one of theirs is absent. -/
theorem generation_insertAll (register : Register α) (entries : List (Bytes × α)) :
    if entries.any fun entry => !register.map.contains entry.1
    then register.generation < (register.insertAll entries).generation
    else (register.insertAll entries).generation = register.generation := by
  induction entries generalizing register with
  | nil => rfl
  | cons entry entries ih =>
    have first := register.generation_insert entry.1 entry.2
    rw [List.any_cons]
    cases here : register.map.contains entry.1 with
    | false =>
      -- The first entry alone makes the generation grow, and later ones cannot take that back.
      rw [here] at first
      exact lt_of_lt_of_le (by rw [first]; exact Nat.lt_succ_self _)
        (le_generation_insertAll (register.insert entry.1 entry.2) entries)
    | true =>
      rw [here] at first
      have same (key : Bytes) : (register.insert entry.1 entry.2).map.contains key =
          register.map.contains key := by
        rw [insert, Std.ExtTreeMap.contains_insert]
        cases found : Bytes.order entry.1 key == .eq
        · rfl
        · rw [← Bytes.order_eq_eq.mp (beq_iff_eq.mp found), here]
          rfl
      have rest := ih (register.insert entry.1 entry.2)
      simp only [same, first] at rest
      exact rest

/-- **The generation grows with every change of the keys**, and with nothing else. -/
theorem generation_run (register : Register α) (operation : Operation α) :
    if register.turns operation then register.generation < (register.run operation).2.generation
    else (register.run operation).2.generation = register.generation := by
  cases operation with
  | find key => rfl
  | insert key value =>
    rw [turns, run, generation_insert]
    cases register.map.contains key <;> simp
  | remove key =>
    by_cases member : key ∈ register.map <;> simp [turns, run, remove, member]
  | assign key value =>
    by_cases member : key ∈ register.map <;> simp [turns, run, assign, member]
  | insertAll entries => exact register.generation_insertAll entries
  | clear => exact Nat.lt_succ_self _
  | shrink => rfl

/-! ### Changes of one key -/

/-- Gives a key a value, or none. The keys change if the key had none before, or does
not any more. -/
def set (register : Register α) (key : Bytes) (new : Option α) : Register α where
  map := match new with
    | some value => register.map.insert key value
    | none => register.map.erase key
  generation := register.generation + if register.map[key]?.isSome = new.isSome then 0 else 1

theorem insert_eq_set (register : Register α) (key : Bytes) (value : α) :
    register.insert key value = register.set key (some value) := by
  simp [insert, set]

theorem remove_eq_set (register : Register α) (key : Bytes) :
    register.remove key = register.set key none := by
  by_cases member : key ∈ register.map <;> simp [remove, set, member]

theorem assign_eq_set (register : Register α) (key : Bytes) (value : α) :
    register.assign key value = register.set key (register.map[key]?.map fun _ => value) := by
  by_cases member : key ∈ register.map
  · simp [assign, set, member]
  · have absent := Std.ExtTreeMap.getElem?_eq_none member
    have same : register.map.erase key = register.map := by
      refine Std.ExtTreeMap.ext_getElem? fun other => ?_
      rw [Std.ExtTreeMap.getElem?_erase]
      split_ifs with found
      · rw [← Bytes.order_eq_eq.mp found, absent]
      · rfl
    simp [assign, set, member, same]

end Register

/-- **A tree represents a register** when the trunk that it shows has the entries of the map, and
the generations agree. -/
structure Tree.Represents (tree : Tree α) (register : Register α) : Prop where
  shows : ∃ trunk, tree.Shows trunk ∧ trunk.entries = register.map.toList
  generation : tree.generation = register.generation

/-- **A change follows a register** through an operation: it answers and leaves behind the same, in
the same tree, and moves no node unless the keys change. -/
structure Change.Follows (change : Change α) (tree : Tree α) (register : Register α)
    (operation : Operation α) : Prop where
  previous : change.previous = (register.run operation).1
  represents : change.tree.Represents (register.run operation).2
  identity : change.tree.identity = tree.identity
  keeps : register.turns operation = false → tree.Keeps change.tree

namespace Tree.Represents

variable {tree : Tree α} {register : Register α}

/-! ### Looking at a tree -/

/-- **The size of a tree is that of the map.** -/
theorem size (represents : tree.Represents register) : tree.size = register.map.size := by
  obtain ⟨trunk, shows, entries⟩ := represents.shows
  rw [shows.size, entries, Std.ExtTreeMap.length_toList]

/-- **Looking up a key answers what the map gives it.** -/
theorem find? (represents : tree.Represents register) (key : Bytes) :
    tree.find? key = .ok register.map[key]? := by
  obtain ⟨trunk, shows, entries⟩ := represents.shows
  obtain ⟨lower, value, upper, cut, finds⟩ := shows.find? key
  rw [entries] at cut
  rw [finds, cut.getElem?_eq]

theorem contains (represents : tree.Represents register) (key : Bytes) :
    tree.contains key = .ok (register.map.contains key) := by
  rw [Tree.contains, represents.find? key, map_ok, Std.ExtTreeMap.contains_eq_isSome_getElem?]

/-! ### Changing a tree -/

/-- An edit of the entries of a map is a change of one key of its register. -/
theorem edit {key : Bytes} {old new : Option α} {after : Tree α}
    (represents : tree.Represents register)
    (edit : tree.Edit register.map.toList key old new after) :
    old = register.map[key]? ∧ after.Represents (register.set key new) := by
  obtain ⟨lower, upper, trunk, cut, shows, entries⟩ := edit.shows
  refine ⟨cut.getElem?_eq.symm, ⟨trunk, shows, entries.trans ?_⟩, ?_⟩
  · cases new with
    | some value => exact (cut.toList_insert value).symm
    | none => exact cut.toList_erase.symm
  · rw [edit.generation, represents.generation, ← cut.getElem?_eq]
    rfl

theorem insert (represents : tree.Represents register) (key : Bytes) (value : α) :
    ∃ change, tree.insert key value = .ok change ∧
      change.Follows tree register (.insert key value) := by
  obtain ⟨trunk, shows, entries⟩ := represents.shows
  obtain ⟨change, inserts, edit⟩ := shows.insert key value
  obtain ⟨previous, after⟩ := represents.edit (entries ▸ edit)
  rw [← register.insert_eq_set] at after
  refine ⟨change, inserts, previous, after, edit.identity, fun kept => edit.keeps ?_⟩
  have present : register.map.contains key = true := by simpa [Register.turns] using kept
  rw [previous, ← Std.ExtTreeMap.contains_eq_isSome_getElem?, present]
  rfl

theorem remove (represents : tree.Represents register) (key : Bytes) :
    ∃ change, tree.remove key = .ok change ∧ change.Follows tree register (.remove key) := by
  obtain ⟨trunk, shows, entries⟩ := represents.shows
  obtain ⟨change, removes, edit⟩ := shows.remove key
  obtain ⟨previous, after⟩ := represents.edit (entries ▸ edit)
  rw [← register.remove_eq_set] at after
  refine ⟨change, removes, previous, after, edit.identity, fun absent => edit.keeps ?_⟩
  rw [previous, Std.ExtTreeMap.getElem?_eq_none_of_contains_eq_false absent]

theorem assign (represents : tree.Represents register) (key : Bytes) (value : α) :
    ∃ change, tree.assign key value = .ok change ∧
      change.Follows tree register (.assign key value) := by
  obtain ⟨trunk, shows, entries⟩ := represents.shows
  obtain ⟨change, assigns, edit⟩ := shows.assign key value
  obtain ⟨previous, after⟩ := represents.edit (entries ▸ edit)
  rw [previous, ← register.assign_eq_set] at after
  exact ⟨change, assigns, previous, after, edit.identity, fun _ => edit.keeps (by simp)⟩

/-- **Inserting entries one after the other** gains no key if all of theirs are present. -/
theorem insertAll (represents : tree.Represents register) (entries : List (Bytes × α)) :
    ∃ after reshapes, tree.insertAll entries = .ok (after, reshapes) ∧
      after.Represents (register.insertAll entries) ∧ after.identity = tree.identity ∧
      ((∀ entry ∈ entries, entry.1 ∈ register.map) → tree.Keeps after) := by
  induction entries generalizing tree register with
  | nil => exact ⟨tree, [], rfl, represents, rfl, fun _ => .refl tree⟩
  | cons entry entries ih =>
    obtain ⟨change, inserts, follows⟩ := represents.insert entry.1 entry.2
    obtain ⟨after, reshapes, goesOn, last, identity, keeps⟩ := ih follows.represents
    refine ⟨after, change.reshapes ++ reshapes, ?_, last, identity.trans follows.identity, ?_⟩
    · rw [Tree.insertAll, inserts, ok_bind, goesOn]
      rfl
    · intro present
      have here : entry.1 ∈ register.map := present entry List.mem_cons_self
      have kept : register.turns (.insert entry.1 entry.2) = false := by
        rw [Register.turns, Std.ExtTreeMap.mem_iff_contains.mp here]
        rfl
      refine (follows.keeps kept).trans (keeps fun later member => ?_)
      exact Std.ExtTreeMap.mem_insert.mpr (.inr (present later (List.mem_cons_of_mem _ member)))

/-! ### The whole of a tree -/

theorem empty (options : TreeOptions) (identity : Nat) :
    (Tree.empty options identity : Tree α).Represents .empty where
  shows := ⟨none, ⟨rfl, .empty _, nofun, rfl⟩, by simp [Trunk.entries, Register.empty]⟩
  generation := rfl

theorem clear (represents : tree.Represents register) : tree.clear.Represents register.clear where
  shows := ⟨none, ⟨rfl, .clear _, nofun, rfl⟩, by simp [Trunk.entries, Register.clear]⟩
  generation := congrArg (· + 1) represents.generation

theorem shrink (represents : tree.Represents register) : tree.shrink.Represents register := by
  obtain ⟨trunk, shows, entries⟩ := represents.shows
  exact ⟨⟨trunk, ⟨shows.root, shows.stores.shrink, shows.sound, shows.size⟩, entries⟩,
    represents.generation⟩

/-- **A copy has the same entries, at generation 0.** -/
theorem copy (represents : tree.Represents register) (identity : Nat) :
    (tree.copy identity).Represents { register with generation := 0 } := by
  obtain ⟨trunk, shows, entries⟩ := represents.shows
  exact ⟨⟨trunk, ⟨shows.root, shows.stores.copy, shows.sound, shows.size⟩, entries⟩, rfl⟩

/-! ### Every operation -/

/-- **Operations on a tree never fail, and follow those on its register.** -/
theorem run (represents : tree.Represents register) (operation : Operation α) :
    ∃ change, operation.run tree = .ok change ∧ change.Follows tree register operation := by
  cases operation with
  | find key =>
    refine ⟨⟨tree, _, []⟩, ?_, rfl, represents, rfl, fun _ => .refl tree⟩
    rw [Operation.run, represents.find? key]
    rfl
  | insert key value => exact represents.insert key value
  | remove key => exact represents.remove key
  | assign key value => exact represents.assign key value
  | insertAll entries =>
    obtain ⟨after, reshapes, inserts, last, identity, keeps⟩ := represents.insertAll entries
    refine ⟨⟨after, none, reshapes⟩, ?_, rfl, last, identity, fun kept => keeps ?_⟩
    · rw [Operation.run, inserts]
      rfl
    · simpa [Register.turns] using kept
  | clear => exact ⟨_, rfl, rfl, represents.clear, rfl, nofun⟩
  | shrink =>
    refine ⟨_, rfl, rfl, represents.shrink, rfl, fun _ => ⟨rfl, fun id node found => ?_⟩⟩
    exact ⟨node.value, (Arena.node_shrink _ _).trans found, rfl⟩

end Tree.Represents

/-! ### Trees that operations lead to -/

/-- A tree that can come about: a new one, one after an operation, or a copy of one. -/
inductive Tree.Reachable : Tree α → Prop where
  | empty (options : TreeOptions) (identity : Nat) : Reachable (.empty options identity)
  | operate {tree : Tree α} {operation : Operation α} {change : Change α} (before : Reachable tree)
    (runs : operation.run tree = .ok change) : Reachable change.tree
  | copy {tree : Tree α} (before : Reachable tree) (identity : Nat) : Reachable (tree.copy identity)

/-- So is one after any operations, one after the other. -/
theorem Tree.Reachable.runAll {tree after : Tree α} {answers : List (Option α)}
    (before : tree.Reachable) (operations : List (Operation α))
    (runs : Operation.runAll tree operations = .ok (after, answers)) : after.Reachable := by
  induction operations generalizing tree answers with
  | nil =>
    cases runs
    exact before
  | cons operation operations ih =>
    obtain ⟨change, goes, goesOn⟩ := bind_eq_ok runs
    obtain ⟨⟨last, others⟩, rest, ends⟩ := bind_eq_ok goesOn
    cases ends
    exact ih (before.operate goes) rest

/-- **Every tree that can come about is a finite map.** -/
theorem Tree.Reachable.represents {tree : Tree α} (reachable : tree.Reachable) :
    ∃ register, tree.Represents register := by
  induction reachable with
  | empty options identity => exact ⟨_, .empty options identity⟩
  | operate before runs ih =>
    obtain ⟨register, represents⟩ := ih
    obtain ⟨change, runs', follows⟩ := represents.run _
    cases runs.symm.trans runs'
    exact ⟨_, follows.represents⟩
  | copy before identity ih =>
    obtain ⟨register, represents⟩ := ih
    exact ⟨_, represents.copy identity⟩

end RadixLog
