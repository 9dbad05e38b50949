/-
**Entries filed under identifiers.**

A tree files a map from identifiers when its keys are the encoded identifiers of the map, with the
entries that the map gives them. Operations on the tree are then operations on the map.

* `Tree.Files`: a tree files a map;
* `Tree.Files.insert`, `Tree.Files.remove`: changes of one identifier;
* `Tree.Represents.dropKeys`: removing the first keys of a tree, one by one;
* `Journal.trim_files`: trimming keeps the greatest identifiers.
-/

import RadixLog.Proofs.Journal.Log
import RadixLog.Proofs.Tree.Coded

namespace RadixLog

variable {tree : Tree Entry} {map : IdMap} {id : EntryId}

/-- The form of identifiers as keys keeps their order. -/
theorem EntryId.codes : Codes EntryId.encode EntryId.order := EntryId.order_encode

/-- **A tree files a map from identifiers.** -/
def Tree.Files (tree : Tree Entry) (map : IdMap) : Prop :=
  ∃ register, tree.Represents register ∧ Mirrors EntryId.encode register.map map

namespace Tree.Files

theorem empty (options : TreeOptions) (identity : Nat) :
    (Tree.empty options identity : Tree Entry).Files ∅ := Coded.empty options identity

theorem size (files : tree.Files map) : tree.size = map.size := Coded.size files EntryId.codes

theorem find? (files : tree.Files map) (id : EntryId) : tree.find? id.encode = .ok map[id]? :=
  Coded.find? files id

/-- The tree has room for all entries. -/
theorem size_le (files : tree.Files map) : map.size ≤ tree.arena.slots.size := by
  rw [← files.size]
  obtain ⟨register, represents, _⟩ := files
  obtain ⟨trunk, shows, _⟩ := represents.shows
  exact shows.size_le

/-- **The keys of the tree are the encoded identifiers.** -/
theorem exists_encode_eq (files : tree.Files map) {key : Bytes} (member : key ∈ tree.keys) :
    ∃ id ∈ map, id.encode = key := by
  rwa [Coded.keys_eq files EntryId.codes] at member

theorem insert (files : tree.Files map) (id : EntryId) (entry : Entry) :
    ∃ change, tree.insert id.encode entry = .ok change ∧
      change.tree.Files (map.insert id entry) := by
  obtain ⟨change, inserts, _, after⟩ := Coded.insert files EntryId.codes id entry
  exact ⟨change, inserts, after⟩

theorem remove (files : tree.Files map) (id : EntryId) :
    ∃ change, tree.remove id.encode = .ok change ∧ change.previous = map[id]? ∧
      change.tree.Files (map.erase id) := Coded.remove files EntryId.codes id

end Tree.Files

/-! ### Trimming -/

/-- **Removing the first keys of a tree**, one by one, leaves the others. -/
theorem Tree.Represents.dropKeys {register : Register Entry} {doomed kept : List (Bytes × Entry)}
    (represents : tree.Represents register) (split : register.map.toList = doomed ++ kept) :
    ∃ later reshapes, Journal.dropKeys tree (doomed.map (·.1)) = .ok (later, reshapes) ∧
      ∃ register', later.Represents register' ∧ register'.map.toList = kept := by
  induction doomed generalizing tree register with
  | nil => exact ⟨tree, [], rfl, register, represents, split⟩
  | cons entry doomed ih =>
    obtain ⟨change, removes, follows⟩ := represents.remove entry.1
    have front : register.map.toList = [] ++ (own entry.1 (some entry.2) ++ (doomed ++ kept)) :=
      split
    have cut := Cut.of_split register.map.ascend front
    obtain ⟨later, reshapes, drops, left⟩ := ih follows.represents cut.toList_erase
    refine ⟨later, change.reshapes ++ reshapes, ?_, left⟩
    rw [List.map_cons, Journal.dropKeys, removes, ok_bind, drops]
    rfl

/-- **Trimming keeps the greatest identifiers**, and changes nothing but the tree. -/
theorem Journal.trim_files {journal : Journal} (files : journal.tree.Files map) (maxSize : Nat) :
    ∃ tree events, journal.trim maxSize =
        .ok ⟨map.size - maxSize, { journal with tree }, events⟩ ∧
      tree.Files (map.keep maxSize) := by
  have excess : journal.size - maxSize = map.size - maxSize := by rw [Journal.size, files.size]
  by_cases fits : map.size ≤ maxSize
  · have whole : map.keep maxSize = map := IdMap.keep_of_size_le fits
    refine ⟨journal.tree, [], ?_, whole.symm ▸ files⟩
    rw [trim, excess, Nat.sub_eq_zero_of_le fits]
    rfl
  · obtain ⟨register, represents, mirrors⟩ := files
    have listed := mirrors.toList EntryId.codes
    -- The keys to drop are listed by a scan of the tree as it was, before the first one goes.
    have all : register.map.toList <:+ Direction.default.along register.map.toList :=
      List.suffix_rfl
    have first : Seek.min.pick [] register.map.toList = register.map.toList.head? := rfl
    obtain ⟨position, starts, leaves⟩ := represents.scan_leaves all first
    obtain ⟨later, takes, _⟩ := leaves.take (map.size - maxSize)
    obtain ⟨tree, reshapes, drops, register', represents', left⟩ :=
      represents.dropKeys (List.take_append_drop (map.size - maxSize) _).symm
    refine ⟨tree, reshapes.map .reshaped ++ [.trimmed (map.size - maxSize) maxSize], ?_, register',
      represents', .of_toList EntryId.codes ?_⟩
    · rw [trim, excess]
      dsimp only
      rw [if_neg (Nat.sub_ne_zero_of_lt (Nat.lt_of_not_le fits)), starts, ok_bind, takes, ok_bind]
      dsimp only
      rw [drops]
      rfl
    · rw [left, listed, IdMap.toList_keep, List.map_drop]

end RadixLog
