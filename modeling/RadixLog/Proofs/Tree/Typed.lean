/-
**Typed trees are finite maps.**

A tree that is used with keys of one type alone is a finite map from these keys in the order of their
type. Calls answer as the map does, every key that a scan is at can be read as a key of the map, and
scans and seeks follow the order of the type.

* `TypedCall.onMap`, `TypedCall.onMapAll`: what calls answer on a map;
* `Tree.Typed`: what a tree with typed keys has in common with a map;
* `Tree.typed_calls_refine_map`: every run of calls on a new tree.
-/

import RadixLog.Proofs.Key.Order
import RadixLog.Proofs.Tree.Coded
import RadixLog.Typed

namespace RadixLog

variable {α : Type} {type : KeyType} {tree : Tree α}

/-- A finite map from the keys of a type, in the order of the type. -/
abbrev TypedMap (type : KeyType) (α : Type) := Std.ExtTreeMap type.Value α type.order

variable {map : TypedMap type α}

namespace TypedCall

/-- What a call answers on a map, and the map after it. -/
def onMap (map : TypedMap type α) : TypedCall type α → Option α × TypedMap type α
  | .insert key value => (map[key]?, map.insert key value)
  | .remove key => (map[key]?, map.erase key)
  | .get key => (map[key]?, map)

/-- What each of some calls answers, with the size of the map after it, and the last map. -/
def onMapAll (map : TypedMap type α) :
    List (TypedCall type α) → List (Option α × Nat) × TypedMap type α
  | [] => ([], map)
  | call :: calls =>
    let (answer, map) := call.onMap map
    let (answers, last) := onMapAll map calls
    ((answer, map.size) :: answers, last)

/-- **A typed call on a tree is one on its map.** -/
theorem run_coded (coded : tree.Coded type.encode map) (call : TypedCall type α) :
    ∃ after, call.run tree = .ok ((call.onMap map).1, after) ∧
      after.Coded type.encode (call.onMap map).2 := by
  cases call with
  | insert key value =>
    obtain ⟨change, inserts, previous, after⟩ := coded.insert type.codes key value
    refine ⟨change.tree, ?_, after⟩
    rw [run, Tree.insertTyped, inserts, ok_bind, previous]
    rfl
  | remove key =>
    obtain ⟨change, removes, previous, after⟩ := coded.remove type.codes key
    refine ⟨change.tree, ?_, after⟩
    rw [run, Tree.removeTyped, removes, ok_bind, previous]
    rfl
  | get key =>
    refine ⟨tree, ?_, coded⟩
    rw [run, Tree.findTyped, coded.find?]
    rfl

/-- **So are runs of typed calls**, sizes included. -/
theorem runAll_coded (coded : tree.Coded type.encode map) (calls : List (TypedCall type α)) :
    ∃ after, runAll tree calls = .ok ((onMapAll map calls).1, after) ∧
      after.Coded type.encode (onMapAll map calls).2 := by
  induction calls generalizing tree map with
  | nil => exact ⟨tree, rfl, coded⟩
  | cons call calls ih =>
    obtain ⟨middle, runs, between⟩ := run_coded coded call
    obtain ⟨after, goesOn, last⟩ := ih between
    refine ⟨after, ?_, last⟩
    rw [runAll, runs]
    dsimp only [ok_bind]
    rw [goesOn, between.size type.codes]
    rfl

end TypedCall

/-- **A tree with typed keys is a map**, as far as its keys can be told by their type. -/
structure Tree.Typed (tree : Tree α) (type : KeyType) (map : TypedMap type α) : Prop where
  size : tree.size = map.size
  finds : ∀ key, tree.findTyped type key = .ok map[key]?
  /-- The keys of the map stand in strictly ascending order of the type. -/
  ascend : map.toList.Pairwise fun a b => type.order a.1 b.1 = .lt
  /-- After any moves, the key that a scan is at reads as a key of the map. -/
  reads : ∀ moves, ∃ items scan, (Scan.ofTree tree).runAll moves = .ok (items, scan) ∧
    ∀ read, scan.position.decodeKey type = some read → ∃ key ∈ map, read = .ok key
  /-- From the first key in a direction on, a scan hands out the entries of the map in this direction,
  and the key that it is at reads as that of the entry handed out last. -/
  lists : ∀ direction : Direction, ∃ begun, tree.scan direction.outset [] = .ok begun ∧
    ∀ count, ∃ items later, (begun.towards direction).take (count + 1) = .ok (items, later) ∧
      items.map (fun item => (type.decode item.1, item.2)) =
        ((direction.along map.toList).take (count + 1)).map (fun entry => (.ok entry.1, entry.2)) ∧
      later.position.decodeKey type =
        (direction.along map.toList)[count]?.map fun entry => .ok entry.1
  /-- A seek comes to the key that its operator asks for in the order of the type, and otherwise ends
  beyond the end that the operator looks towards. -/
  seeks : ∀ op target, ∃ scan, tree.seekTyped type op target = .ok scan ∧
    ((∃ key value, op.Asks type.order {key | key ∈ map} target key ∧ map[key]? = some value ∧
        scan.position.decodeKey type = some (.ok key) ∧
        scan.current = .ok (some (type.encode key, value))) ∨
      ((∀ key, ¬ op.Asks type.order {key | key ∈ map} target key) ∧
        scan.position = op.beyond ∧ scan.current = .ok none))

theorem Position.decodeKey_encode {position : Position} {key : type.Value}
    (here : position.key? = some (type.encode key)) :
    position.decodeKey type = some (.ok key) := by
  rw [decodeKey, here, Option.map_some, type.decode_encode]

/-- **A tree under the forms of typed keys is a map from these keys.** -/
theorem Tree.Coded.typed (coded : tree.Coded type.encode map) : tree.Typed type map where
  size := coded.size type.codes
  finds := coded.find?
  ascend := map.ordered_keys_toList
  reads := by
    intro moves
    obtain ⟨items, scan, runs, reads⟩ := coded.scan_reads type.codes moves
    refine ⟨items, scan, runs, fun read decoded => ?_⟩
    obtain ⟨code, here, rfl⟩ := Option.map_eq_some_iff.mp decoded
    obtain ⟨key, member, rfl⟩ := reads code here
    exact ⟨key, member, type.decode_encode key⟩
  lists := by
    intro direction
    obtain ⟨begun, starts, takes⟩ := coded.scan_lists type.codes direction
    refine ⟨begun, starts, fun count => ?_⟩
    obtain ⟨later, goes, here⟩ := takes count
    refine ⟨_, later, goes, ?_, ?_⟩
    · rw [List.map_map]
      refine List.map_congr_left fun entry _ => ?_
      show (type.decode (type.encode entry.1), entry.2) = _
      rw [type.decode_encode]
    · rw [Position.decodeKey, here, Option.map_map]
      exact congrArg (Option.map · _) (funext fun entry => type.decode_encode entry.1)
  seeks := by
    intro op target
    obtain ⟨scan, seeks, found | nothing⟩ := coded.scan_asks type.codes op target
    · obtain ⟨key, value, asks, held, here, reads⟩ := found
      exact ⟨scan, seeks, .inl ⟨key, value, asks, held, Position.decodeKey_encode here, reads⟩⟩
    · exact ⟨scan, seeks, .inr nothing⟩

/-- **Typed calls on a new tree answer as on a map from the keys of the type**, with its sizes, and
the tree that they lead to is the map that they lead to. -/
theorem Tree.typed_calls_refine_map (options : TreeOptions) (identity : Nat)
    (calls : List (TypedCall type α)) :
    ∃ tree, TypedCall.runAll (Tree.empty options identity) calls =
        .ok ((TypedCall.onMapAll ∅ calls).1, tree) ∧
      tree.Typed type (TypedCall.onMapAll ∅ calls).2 := by
  obtain ⟨tree, runs, coded⟩ := TypedCall.runAll_coded (.empty options identity) calls
  exact ⟨tree, runs, coded.typed⟩

end RadixLog
