/-
**Places among the keys of a map.**

A place is a position without its path: a key, or one of the two places beyond the ends. Seeking and
stepping are said of places by comparing keys alone. A position that has come about by seeks and
steps remembers a real path, and moves as its place does.

* `Place.seek`, `Place.step`: moves among the keys of a map;
* `Position.Fits`: a position remembers a path to a key of the tree;
* `Tree.Shows.neighbour`: a step along the path is a step among the keys;
* `Cursor.moves_refine_places`: every run of moves of a cursor.
-/

import RadixLog.Proofs.Cursor.Locate

namespace RadixLog

variable {α : Type}

/-! ### Places -/

/-- A key, or one of the places beyond the ends. -/
inductive Place where
  | beforeFirst
  | on (key : Bytes)
  | afterLast
  deriving DecidableEq, Repr

/-- A position without its path. -/
def Position.place : Position → Place
  | .beforeFirst => .beforeFirst
  | .positioned trail => .on trail.key
  | .afterLast => .afterLast

namespace Place

/-- The state of a cursor at the place. -/
def state : Place → CursorState
  | .beforeFirst => .beforeFirst
  | .on _ => .positioned
  | .afterLast => .afterLast

/-- Whether the place is a key. -/
def onKey : Place → Bool
  | .on _ => true
  | _ => false

/-- The key at the place. -/
def key? : Place → Option Bytes
  | .on key => some key
  | _ => none

/-- The key at the place, with the value that the map gives it. -/
def item? (map : KeyMap α) : Place → Option (Bytes × α)
  | .on key => map[key]?.map (key, ·)
  | _ => none

/-- The place of the entry that an operator picks, or beyond the end that it looks towards. -/
def seek (map : KeyMap α) (op : Seek) (target : Bytes) : Place :=
  match op.pick target map.toList with
  | some entry => .on entry.1
  | none => op.beyond.place

/-- The place one key further. From beyond an end, going back comes to the key at that end, and
going on stays. -/
def step (map : KeyMap α) (direction : Direction) (place : Place) : Place :=
  match place, direction with
  | .on key, .forward => seek map .gt key
  | .on key, .backward => seek map .lt key
  | .beforeFirst, .forward => seek map .min []
  | .beforeFirst, .backward => .beforeFirst
  | .afterLast, .forward => .afterLast
  | .afterLast, .backward => seek map .max []

end Place

namespace Position

theorem place_state (position : Position) : position.place.state = position.state := by
  cases position <;> rfl

theorem place_onKey (position : Position) : position.place.onKey = position.onKey := by
  cases position <;> rfl

theorem place_key? (position : Position) : position.place.key? = position.key? := by
  cases position <;> rfl

/-! ### Positions that fit -/

/-- **A position fits a trunk** if it is beyond an end or remembers the path to the node
of a key. -/
def Fits (trunk : Trunk α) : Position → Prop
  | .positioned trail => ∃ entry, On trunk (.positioned trail) entry
  | _ => True

variable {trunk : Trunk α} {position : Position}

theorem On.fits {entry : Bytes × α} (on : position.On trunk entry) : position.Fits trunk := by
  obtain ⟨spine, sub, value, whole, keyed⟩ := on
  exact ⟨_, .node spine sub value whole keyed⟩

theorem On.mem {entry : Bytes × α} (on : position.On trunk entry) : entry ∈ trunk.entries := by
  obtain ⟨spine, sub, value, rfl, keyed⟩ := on
  rw [Trunk.entries, spine.entries_plug_own, keyed]
  simp

theorem On.place {entry : Bytes × α} (on : position.On trunk entry) :
    position.place = .on entry.1 := by
  obtain ⟨spine, sub, value, whole, keyed⟩ := on
  rfl

end Position

/-- **A position at the entry that an operator picks** fits, and is at the place of that entry. -/
theorem Position.OnOr.settles {trunk : Trunk α} {map : KeyMap α} {position : Position} {op : Seek}
    {target : Bytes} (reads : position.OnOr trunk (op.pick target map.toList) op.beyond) :
    position.Fits trunk ∧ position.place = Place.seek map op target := by
  rw [Place.seek]
  cases picked : op.pick target map.toList with
  | some entry =>
    rw [picked] at reads
    exact ⟨Position.On.fits reads, Position.On.place reads⟩
  | none =>
    rw [picked] at reads
    obtain rfl : position = op.beyond := reads
    exact ⟨by cases op <;> trivial, rfl⟩

namespace Tree.Shows

variable {tree : Tree α} {trunk : Trunk α} {map : KeyMap α} {position : Position}

/-- **Seeking in a tree is seeking among its keys.** -/
theorem locate_place (shows : tree.Shows trunk) (entries : trunk.entries = map.toList) (op : Seek)
    (target : Bytes) : ∃ after, tree.locate op target = .ok after ∧ after.Fits trunk ∧
      after.place = Place.seek map op target := by
  obtain ⟨after, goes, reads⟩ := shows.locate op target
  rw [entries] at reads
  exact ⟨after, goes, reads.settles⟩

/-- **Stepping along a path is stepping among the keys.** -/
theorem neighbour_place (shows : tree.Shows trunk) (entries : trunk.entries = map.toList)
    (fits : position.Fits trunk) (direction : Direction) :
    ∃ after, tree.neighbour direction position = .ok after ∧ after.Fits trunk ∧
      after.place = position.place.step map direction := by
  cases position with
  | beforeFirst =>
    cases direction with
    | forward => exact shows.locate_place entries .min []
    | backward => exact ⟨.beforeFirst, rfl, trivial, rfl⟩
  | afterLast =>
    cases direction with
    | forward => exact ⟨.afterLast, rfl, trivial, rfl⟩
    | backward => exact shows.locate_place entries .max []
  | positioned trail =>
    obtain ⟨entry, spine, sub, value, rfl, keyed⟩ := fits
    have holds := shows.stores.toHolds
    have sound := shows.sound _ rfl
    have split := spine.entries_plug_own sub
    rw [keyed] at split
    have cut := Cut.of_split (sound.ascend []) split
    rw [show (spine.plug sub).entries [] = map.toList from entries] at cut
    cases direction with
    | forward =>
      obtain ⟨after, goes, ahead⟩ := Arena.next_ahead holds sound rfl
      have upper : Seek.gt.pick (spine.trail sub).key map.toList = _ :=
        congrArg List.head? cut.filter_gt
      exact ⟨after, goes, Position.OnOr.settles (upper.symm ▸ ahead)⟩
    | backward =>
      obtain ⟨after, goes, behind⟩ := Arena.before_behind holds sound rfl
      have lower : Seek.lt.pick (spine.trail sub).key map.toList = _ :=
        congrArg List.getLast? cut.filter_lt
      exact ⟨after, goes, Position.OnOr.settles (lower.symm ▸ behind)⟩

/-- **A position that fits reads what the map gives its key.** -/
theorem entryAt_place (shows : tree.Shows trunk) (entries : trunk.entries = map.toList)
    (fits : position.Fits trunk) :
    tree.entryAt position = .ok (position.place.item? map) := by
  cases position with
  | beforeFirst => rfl
  | afterLast => rfl
  | positioned trail =>
    obtain ⟨entry, on⟩ := fits
    have key : Place.on trail.key = .on entry.1 := on.place
    have found := Std.ExtTreeMap.mem_toList_iff_getElem?_eq_some.mp (entries ▸ on.mem)
    rw [shows.entryAt on, Position.place, key, Place.item?, found]
    rfl

end Tree.Shows

/-! ### Runs of moves -/

/-- A move of a cursor. -/
inductive Cursor.Move where
  | seek (op : Seek) (target : Bytes)
  | step (direction : Direction)
  deriving DecidableEq, Repr

/-- The place after a move. -/
def Place.move (map : KeyMap α) (place : Place) : Cursor.Move → Place
  | .seek op target => seek map op target
  | .step direction => place.step map direction

/-- The places after each of some moves. -/
def Place.moveAll (map : KeyMap α) (place : Place) : List Cursor.Move → List Place
  | [] => []
  | move :: moves => place.move map move :: moveAll map (place.move map move) moves

namespace Cursor

/-- What a move answers, and the cursor after it. -/
def move (cursor : Cursor) (tree : Tree α) : Move → Except Fault Moved
  | .seek op target => cursor.seek tree op target
  | .step direction => cursor.step tree direction

/-- What each of some moves answers, with the cursor after it. -/
def moveAll (cursor : Cursor) (tree : Tree α) : List Move → Except Fault (List Moved)
  | [] => return []
  | move :: moves => do
    let moved ← cursor.move tree move
    return moved :: (← moved.2.moveAll tree moves)

/-- **After a move, a cursor and a place agree**: the move came to a key if the place is one, and
the cursor is in the same state, at the same key, and reads the value that the map gives it. -/
structure Agrees (tree : Tree α) (map : KeyMap α) (moved : Moved) (place : Place) : Prop where
  outcome : moved.1 = .ok place.onKey
  state : moved.2.position.state = place.state
  key : moved.2.position.key? = place.key?
  entry : moved.2.current tree = .ok (.ok (place.item? map))

/-- A cursor that belongs to the tree as it is, and remembers a path of it. -/
structure InStep (tree : Tree α) (trunk : Trunk α) (cursor : Cursor) : Prop where
  identity : cursor.identity = tree.identity
  generation : cursor.generation = tree.generation
  fits : cursor.position.Fits trunk

variable {tree : Tree α} {trunk : Trunk α} {map : KeyMap α} {cursor : Cursor}

theorem InStep.check (inStep : cursor.InStep tree trunk) : cursor.check tree = .ok () := by
  rw [Cursor.check, checkTree, if_pos inStep.identity, ok_bind, if_pos inStep.generation]
  rfl

theorem InStep.current (shows : tree.Shows trunk) (entries : trunk.entries = map.toList)
    (inStep : cursor.InStep tree trunk) :
    cursor.current tree = .ok (.ok (cursor.position.place.item? map)) := by
  rw [Cursor.current, inStep.check]
  simp only [shows.entryAt_place entries inStep.fits]
  rfl

/-- **Seeking puts a cursor in step** with its own tree, wherever it was. -/
theorem seek_inStep (shows : tree.Shows trunk) (entries : trunk.entries = map.toList)
    (own : cursor.identity = tree.identity) (op : Seek) (target : Bytes) :
    ∃ after, cursor.seek tree op target = .ok (.ok after.position.onKey, after) ∧
      after.InStep tree trunk ∧ after.position.place = Place.seek map op target := by
  obtain ⟨position, goes, fits, place⟩ := shows.locate_place entries op target
  refine ⟨{ cursor with position, generation := tree.generation }, ?_, ⟨own, rfl, fits⟩, place⟩
  rw [Cursor.seek, checkTree, if_pos own]
  simp only [goes]
  rfl

/-- **A cursor in step steps as its place does.** -/
theorem InStep.step (shows : tree.Shows trunk) (entries : trunk.entries = map.toList)
    (inStep : cursor.InStep tree trunk) (direction : Direction) :
    ∃ after, cursor.step tree direction = .ok (.ok after.position.onKey, after) ∧
      after.InStep tree trunk ∧
      after.position.place = cursor.position.place.step map direction := by
  obtain ⟨position, goes, fits, place⟩ := shows.neighbour_place entries inStep.fits direction
  refine ⟨{ cursor with position }, ?_, ⟨inStep.identity, inStep.generation, fits⟩, place⟩
  rw [Cursor.step, inStep.check]
  simp only [goes]
  rfl

/-- **A cursor moves as its place does.** -/
theorem InStep.move (shows : tree.Shows trunk) (entries : trunk.entries = map.toList)
    (inStep : cursor.InStep tree trunk) (move : Move) :
    ∃ after, cursor.move tree move = .ok (.ok after.position.onKey, after) ∧
      after.InStep tree trunk ∧ after.position.place = cursor.position.place.move map move := by
  cases move with
  | seek op target => exact seek_inStep shows entries inStep.identity op target
  | step direction => exact inStep.step shows entries direction

/-- **Moves of a cursor in step agree with moves of its place.** -/
theorem InStep.moveAll (shows : tree.Shows trunk) (entries : trunk.entries = map.toList)
    (inStep : cursor.InStep tree trunk) (moves : List Move) :
    ∃ trace, cursor.moveAll tree moves = .ok trace ∧
      List.Forall₂ (Agrees tree map) trace (Place.moveAll map cursor.position.place moves) := by
  induction moves generalizing cursor with
  | nil => exact ⟨[], rfl, .nil⟩
  | cons move moves ih =>
    obtain ⟨after, goes, later, place⟩ := inStep.move shows entries move
    obtain ⟨trace, runs, agree⟩ := ih later
    refine ⟨(.ok after.position.onKey, after) :: trace, ?_, ?_⟩
    · rw [Cursor.moveAll, goes, ok_bind, runs]
      rfl
    · rw [Place.moveAll, ← place]
      refine .cons ⟨?_, ?_, ?_, later.current shows entries⟩ agree
      · rw [Position.place_onKey]
      · rw [Position.place_state]
      · rw [Position.place_key?]

/-- **A run of moves of a cursor is a run of moves of its place** among the keys of the map that the
tree is. -/
theorem moves_refine_places (reachable : tree.Reachable) :
    ∃ map : KeyMap α, (∀ key, tree.find? key = .ok map[key]?) ∧
      ∀ moves, ∃ trace, (ofTree tree).moveAll tree moves = .ok trace ∧
        List.Forall₂ (Agrees tree map) trace (Place.moveAll map .beforeFirst moves) := by
  obtain ⟨register, represents⟩ := reachable.represents
  obtain ⟨trunk, shows, entries⟩ := represents.shows
  have start : (ofTree tree).InStep tree trunk := ⟨rfl, rfl, trivial⟩
  exact ⟨register.map, represents.find?, start.moveAll shows entries⟩

/-- A cursor sought among the keys 7 and 7 1 and stepped back over both agrees with its place. -/
theorem moves_over_branch :
    ∃ (tree : Tree Nat) (map : KeyMap Nat), tree.Reachable ∧ map[([7] : Bytes)]? = some 3 ∧
      map[([7, 1] : Bytes)]? = some 4 ∧
      ∃ trace, (ofTree tree).moveAll tree [.seek .gt [7, 0], .step .backward, .step .backward] =
          .ok trace ∧
        trace.map (fun moved => (moved.1, moved.2.position.key?)) =
          [(.ok true, some [7, 1]), (.ok true, some [7]), (.ok false, none)] ∧
        List.Forall₂ (Agrees tree map) trace (Place.moveAll map .beforeFirst
          [.seek .gt [7, 0], .step .backward, .step .backward]) := by
  have reachable := (Tree.Reachable.empty (α := Nat) {} 0).runAll
    [.insert [7] 3, .insert [7, 1] 4] rfl
  obtain ⟨map, finds, runs⟩ := moves_refine_places reachable
  obtain ⟨trace, goes, agrees⟩ := runs [.seek .gt [7, 0], .step .backward, .step .backward]
  cases goes
  exact ⟨_, map, reachable, Except.ok.inj (finds [7]).symm, Except.ok.inj (finds [7, 1]).symm, _,
    rfl, rfl, agrees⟩

end Cursor

end RadixLog
