/-
**Cursors never read through a reshaped path.**

A session is what a workspace is to those who use it: registers for its trees, and for each cursor a
marker that knows its tree, whether the keys of that tree have changed since the marker was put
where it is, and its place among them. Calls on trees and cursors, in any order, are answered on a
workspace as they are in its session.

* `Session.answer`: what a session answers to a call;
* `Cursor.Marked.aged`: a cursor and its marker still agree after any request to the trees;
* `Workspace.answer_call`: a call is answered as in the session;
* `Workspace.answer_refused`: a refused call changes nothing;
* `Workspace.cursors_refine_markers`: what holds of every run.
-/

import RadixLog.Proofs.Cursor.Kept
import RadixLog.Proofs.Cursor.Sweep
import RadixLog.Proofs.Workspace.Shelf

namespace RadixLog

variable {α : Type}

/-! ### Markers and sessions -/

/-- The number of a tree, a generation of it, whether its keys have changed since then, and a place
among them. -/
structure Marker where
  tree : Nat
  bound : Nat
  stale : Bool
  place : Place

/-- Why a marker is refused when it is used with a tree, if it is: it belongs to another tree, or
the keys have changed. -/
def Marker.refusal? (marker : Marker) (tree : Nat) (register : Register α) : Option Error :=
  if marker.tree ≠ tree then some .foreignTree
  else if marker.stale then some (.staleCursor marker.bound register.generation)
  else none

theorem Marker.refusal?_eq_none {marker : Marker} {tree : Nat} {register : Register α} :
    marker.refusal? tree register = none ↔ marker.tree = tree ∧ marker.stale = false := by
  rw [refusal?]
  split_ifs with other stale
  · simp [other]
  · simp [stale]
  · simp [not_not.mp other, stale]

/-- The marker after a request to the trees, which may have changed the keys of its own. -/
def Marker.after (marker : Marker) (shelf : Shelf α) (request : Request α) : Marker :=
  { marker with stale := marker.stale || request.turns shelf marker.tree }

/-- Registers and markers by number. -/
structure Session (α : Type) where
  shelf : Shelf α
  markers : List Marker

namespace Session

open Workspace (Answer Call)

/-- A session without trees. -/
def empty : Session α := ⟨[], []⟩

/-- The marker of a given number. -/
def marker (session : Session α) (index : Nat) : Except Fault Marker :=
  match session.markers[index]? with
  | some marker => .ok marker
  | none => .error (.unknown index)

/-- Takes up a new marker and answers its number. -/
def add (session : Session α) (marker : Marker) : Answer α × Session α :=
  (.number session.markers.length, { session with markers := session.markers ++ [marker] })

/-- Puts a marker where a move has come to, and answers whether there is a key. -/
def put (session : Session α) (index : Nat) (marker : Marker) : Answer α × Session α :=
  (.moved (.ok marker.place.onKey), { session with markers := session.markers.set index marker })

/-- Hands a request on to the shelf. -/
def ask (session : Session α) (request : Request α) : Except Fault (Answer α × Session α) := do
  let (answer, shelf) ← session.shelf.answer request
  return (answer, ⟨shelf, session.markers.map (·.after session.shelf request)⟩)

/-- What a session answers to a call, and the session after it. -/
def answer (session : Session α) : Call α → Except Fault (Answer α × Session α)
  | .create options => session.ask (.create options)
  | .collect entries => session.ask (.collect entries)
  | .copy index => session.ask (.copy index)
  | .operate index operation => session.ask (.operate index operation)
  | .bind index => do
    let register ← session.shelf.register index
    return session.add ⟨index, register.generation, false, .beforeFirst⟩
  | .scan index moves => do
    let register ← session.shelf.register index
    let sweep := (Sweep.start.runAll register.map moves).2
    return session.add ⟨index, register.generation, false, sweep.place⟩
  | .duplicate index => do
    let marker ← session.marker index
    return session.add marker
  | .seek index tree op target => do
    let marker ← session.marker index
    let register ← session.shelf.register tree
    if marker.tree ≠ tree then return (.moved (.error .foreignTree), session)
    return session.put index ⟨tree, register.generation, false, .seek register.map op target⟩
  | .step index tree direction => do
    let marker ← session.marker index
    let register ← session.shelf.register tree
    match marker.refusal? tree register with
    | some refusal => return (.moved (.error refusal), session)
    | none =>
      let place := marker.place.step register.map direction
      return session.put index { marker with place }
  | .current index tree => do
    let marker ← session.marker index
    let register ← session.shelf.register tree
    match marker.refusal? tree register with
    | some refusal => return (.entry (.error refusal), session)
    | none => return (.entry (.ok (marker.place.item? register.map)), session)

end Session

/-! ### A cursor and its marker -/

/-- **A cursor and its marker agree** about the tree that they belong to. Unless its keys have
changed since, the cursor remembers a path of it. -/
structure Cursor.Marked (tree : Tree α) (cursor : Cursor) (marker : Marker) : Prop where
  identity : cursor.identity = marker.tree
  generation : cursor.generation = marker.bound
  place : cursor.position.place = marker.place
  since : if marker.stale then marker.bound < tree.generation
    else marker.bound = tree.generation ∧ ∀ trunk, tree.Shows trunk → cursor.position.Fits trunk

namespace Cursor

variable {tree later : Tree α} {trunk : Trunk α} {cursor : Cursor} {marker : Marker}
  {register : Register α}

/-- **A cursor and its marker still agree** after the tree has aged: a path is only ever lost
together with the generation. -/
theorem Marked.aged {turns : Bool} (marked : cursor.Marked tree marker) (shows : tree.Shows trunk)
    (aged : tree.Aged later turns) :
    cursor.Marked later { marker with stale := marker.stale || turns } := by
  refine ⟨marked.identity, marked.generation, marked.place, ?_⟩
  have since := marked.since
  cases stale : marker.stale with
  | true =>
    rw [stale] at since
    exact lt_of_lt_of_le since aged.generation_le
  | false =>
    rw [stale] at since
    obtain ⟨bound, fits⟩ := since
    cases turns with
    | true => exact bound.trans_lt aged
    | false =>
      obtain ⟨generation, keeps⟩ := aged
      exact ⟨bound.trans generation.symm,
        fun _ after => (fits trunk shows).kept keeps shows after⟩

/-- A cursor in step with its tree agrees with the marker of its place. -/
theorem Marked.fresh {index : Nat} {place : Place} (represents : tree.Represents register)
    (identity : tree.identity = index) (shows : tree.Shows trunk)
    (inStep : cursor.InStep tree trunk) (here : cursor.position.place = place) :
    cursor.Marked tree ⟨index, register.generation, false, place⟩ where
  identity := inStep.identity.trans identity
  generation := inStep.generation.trans represents.generation
  place := here
  since := ⟨represents.generation.symm,
    fun _ shows' => inStep.fits.kept (.refl tree) shows shows'⟩

theorem Marked.checkTree_foreign (marked : cursor.Marked tree marker)
    (other : marker.tree ≠ later.identity) : cursor.checkTree later = .error .foreignTree := by
  rw [checkTree, marked.identity, if_neg other]

/-- **A cursor is refused as its marker is**, or else is in step with the tree. -/
theorem Marked.refused_or_inStep {own : Tree α} (marked : cursor.Marked own marker)
    (same : marker.tree = tree.identity → own = tree) (represents : tree.Represents register) :
    (∃ refusal, marker.refusal? tree.identity register = some refusal ∧
      cursor.check tree = .error refusal) ∨
    (marker.refusal? tree.identity register = none ∧ ∃ trunk, tree.Shows trunk ∧
      trunk.entries = register.map.toList ∧ cursor.InStep tree trunk) := by
  by_cases foreign : marker.tree = tree.identity
  · obtain rfl := same foreign
    have identity := marked.identity.trans foreign
    have since := marked.since
    cases stale : marker.stale with
    | true =>
      rw [stale] at since
      have apart : cursor.generation ≠ own.generation := by
        rw [marked.generation]
        exact Nat.ne_of_lt since
      refine .inl ⟨.staleCursor marker.bound register.generation, ?_, ?_⟩
      · rw [Marker.refusal?, if_neg (not_not.mpr foreign), stale, if_pos rfl]
      · rw [check, checkTree, if_pos identity, ok_bind, if_neg apart, marked.generation,
          represents.generation]
        rfl
    | false =>
      rw [stale] at since
      obtain ⟨trunk, shows, entries⟩ := represents.shows
      refine .inr ⟨?_, trunk, shows, entries, identity, marked.generation.trans since.1,
        since.2 trunk shows⟩
      rw [Marker.refusal?, if_neg (not_not.mpr foreign), stale, if_neg Bool.false_ne_true]
  · refine .inl ⟨.foreignTree, if_pos foreign, ?_⟩
    rw [check, marked.checkTree_foreign foreign, error_bind]

/-- A granted move changes the place of a marker and nothing else. -/
theorem Marked.moved {own : Tree α} {after : Cursor} {place : Place}
    (marked : cursor.Marked own marker)
    (granted : marker.refusal? tree.identity register = none)
    (represents : tree.Represents register) (shows : tree.Shows trunk)
    (before : cursor.InStep tree trunk) (inStep : after.InStep tree trunk)
    (here : after.position.place = place) : after.Marked tree { marker with place } := by
  obtain ⟨number, stale⟩ := Marker.refusal?_eq_none.mp granted
  have bound : marker.bound = register.generation :=
    marked.generation.symm.trans (before.generation.trans represents.generation)
  have fresh := Marked.fresh represents number.symm shows inStep here
  rwa [← bound, ← stale] at fresh

end Cursor

namespace Workspace

variable {workspace : Workspace α} {session : Session α} {cursor : Cursor} {tree : Tree α}
  {trunk : Trunk α} {register : Register α}

/-! ### One call -/

/-- **A workspace follows a session** when trees and registers go together, and each cursor agrees
with the marker of the same number. -/
structure Follows (workspace : Workspace α) (session : Session α) : Prop where
  shelved : workspace.Shelved session.shelf
  marked : Paired (fun _ cursor marker => ∃ tree : Tree α,
    workspace.trees[marker.tree]? = some tree ∧ cursor.Marked tree marker)
    workspace.cursors session.markers

/-- Looking for a cursor goes on with a cursor and its marker, or ends in the same fault. -/
theorem Follows.bind_cursor {β σ τ : Type} {related : σ → τ → Prop}
    (follows : workspace.Follows session) (index : Nat) {next : Cursor → Except Fault (β × σ)}
    {other : Marker → Except Fault (β × τ)}
    (goesOn : ∀ cursor marker own, workspace.cursors[index]? = some cursor →
      workspace.trees[marker.tree]? = some own → cursor.Marked own marker →
      Matches related (next cursor) (other marker)) :
    Matches related (workspace.cursor index >>= next) (session.marker index >>= other) := by
  rw [Workspace.cursor, Session.marker]
  obtain ⟨cursor, marker, first, second, own, found, marked⟩ | ⟨first, second⟩ :=
    follows.marked.exists_or_none index
  · rw [first, second]
    exact goesOn cursor marker own first found marked
  · rw [first, second]
    rfl

/-- Looking for a cursor and a tree goes on with both, or ends in the same fault. The tree that the
cursor agrees with is this one, if its marker has the number of it. -/
theorem Follows.bind_both {β σ τ : Type} {related : σ → τ → Prop}
    (follows : workspace.Follows session) (index number : Nat)
    {next : Cursor → Tree α → Except Fault (β × σ)}
    {other : Marker → Register α → Except Fault (β × τ)}
    (goesOn : ∀ cursor marker own tree register, workspace.cursors[index]? = some cursor →
      workspace.trees[number]? = some tree → tree.identity = number → tree.Represents register →
      cursor.Marked own marker → (marker.tree = number → own = tree) →
      Matches related (next cursor tree) (other marker register)) :
    Matches related
      (workspace.cursor index >>= fun cursor => workspace.tree number >>= next cursor)
      (session.marker index >>= fun marker => session.shelf.register number >>= other marker) := by
  refine follows.bind_cursor index fun cursor marker own found foundOwn marked => ?_
  refine follows.shelved.bind_tree number fun tree register foundTree _ identity represents => ?_
  refine goesOn cursor marker own tree register found foundTree identity represents marked ?_
  intro same
  exact Option.some.inj (foundOwn.symm.trans (same ▸ foundTree))

/-- **A request leaves every cursor in agreement** with its marker. -/
theorem Follows.ask (follows : workspace.Follows session) (request : Request α) :
    Matches Follows (workspace.answer request.call) (session.ask request) := by
  rw [← bind_pure (workspace.answer request.call)]
  refine (answer_request follows.shelved request).bind fun answer after shelf' served => ⟨rfl, ?_⟩
  refine ⟨served.shelved, served.cursors ▸ follows.marked.map_right ?_⟩
  rintro _ cursor marker ⟨tree, found, marked⟩
  obtain ⟨later, found', aged⟩ := served.aged found
  obtain ⟨register, _, _, represents⟩ := follows.shelved.exists_right found
  obtain ⟨trunk, shows, _⟩ := represents.shows
  exact ⟨later, found', marked.aged shows aged⟩

theorem Follows.add {marker : Marker} (follows : workspace.Follows session)
    (found : workspace.trees[marker.tree]? = some tree) (marked : cursor.Marked tree marker) :
    Matches Follows (.ok (workspace.addCursor cursor)) (.ok (session.add marker)) :=
  ⟨congrArg _ follows.marked.length, follows.shelved, follows.marked.append ⟨tree, found, marked⟩⟩

theorem Follows.put {index : Nat} {marker : Marker} (follows : workspace.Follows session)
    (found : workspace.trees[marker.tree]? = some tree) (marked : cursor.Marked tree marker) :
    Matches Follows (.ok (workspace.setCursor index (.ok cursor.position.onKey, cursor)))
      (.ok (session.put index marker)) := by
  refine ⟨?_, follows.shelved, follows.marked.set ⟨tree, found, marked⟩⟩
  rw [← Position.place_onKey, marked.place]

/-- A refused move leaves the workspace as it was. -/
theorem setCursor_refused {index : Nat} (found : workspace.cursors[index]? = some cursor)
    (refusal : Error) :
    workspace.setCursor index (.error refusal, cursor) = (.moved (.error refusal), workspace) := by
  obtain ⟨inside, rfl⟩ := List.getElem?_eq_some_iff.mp found
  rw [setCursor, List.set_getElem_self]

theorem Follows.refuse {index : Nat} (follows : workspace.Follows session)
    (found : workspace.cursors[index]? = some cursor) (refusal : Error) :
    Matches Follows (.ok (workspace.setCursor index (.error refusal, cursor)))
      (.ok (.moved (.error refusal), session)) := by
  rw [setCursor_refused found]
  exact ⟨rfl, follows⟩

/-- **A call is answered as in the session.** -/
theorem answer_call (follows : workspace.Follows session) (call : Call α) :
    Matches Follows (workspace.answer call) (session.answer call) := by
  cases call with
  | create options => exact follows.ask (.create options)
  | collect entries => exact follows.ask (.collect entries)
  | copy index => exact follows.ask (.copy index)
  | operate index operation => exact follows.ask (.operate index operation)
  | bind index =>
    refine follows.shelved.bind_tree index fun tree register found _ identity represents => ?_
    obtain ⟨trunk, shows, _⟩ := represents.shows
    exact follows.add found (.fresh represents identity shows ⟨rfl, rfl, trivial⟩ rfl)
  | scan index moves =>
    refine follows.shelved.bind_tree index fun tree register found _ identity represents => ?_
    obtain ⟨trunk, shows, entries⟩ := represents.shows
    obtain ⟨scan, runs, sweeps⟩ := (Scan.Sweeps.start tree trunk).runAll shows entries moves
    rw [runs]
    have inStep : scan.toCursor.InStep tree trunk :=
      ⟨congrArg Tree.identity sweeps.tree, congrArg Tree.generation sweeps.tree, sweeps.fits⟩
    exact follows.add found (.fresh represents identity shows inStep sweeps.place)
  | duplicate index =>
    exact follows.bind_cursor index fun cursor marker own _ found marked => follows.add found marked
  | seek index number op target =>
    refine follows.bind_both index number
      fun cursor marker own tree register found foundTree identity represents marked same => ?_
    subst identity
    by_cases foreign : marker.tree = tree.identity
    · obtain ⟨trunk, shows, entries⟩ := represents.shows
      obtain ⟨after, seeks, inStep, here⟩ := Cursor.seek_inStep shows entries
        (marked.identity.trans foreign) op target
      rw [if_neg (not_not.mpr foreign), seeks]
      exact follows.put foundTree (.fresh represents rfl shows inStep here)
    · rw [if_pos foreign, Cursor.seek, marked.checkTree_foreign foreign]
      exact follows.refuse found .foreignTree
  | step index number direction =>
    refine follows.bind_both index number
      fun cursor marker own tree register found foundTree identity represents marked same => ?_
    subst identity
    obtain ⟨refusal, refused, checks⟩ | ⟨granted, trunk, shows, entries, inStep⟩ :=
      marked.refused_or_inStep same represents
    · rw [refused, Cursor.step, checks]
      exact follows.refuse found refusal
    · obtain ⟨after, steps, later, here⟩ := inStep.step shows entries direction
      have moved := marked.moved granted represents shows inStep later (marked.place ▸ here)
      rw [granted, steps]
      exact follows.put ((Marker.refusal?_eq_none.mp granted).1 ▸ foundTree) moved
  | current index number =>
    refine follows.bind_both index number
      fun cursor marker own tree register found foundTree identity represents marked same => ?_
    subst identity
    obtain ⟨refusal, refused, checks⟩ | ⟨granted, trunk, shows, entries, inStep⟩ :=
      marked.refused_or_inStep same represents
    · rw [refused, Cursor.current, checks]
      exact ⟨rfl, follows⟩
    · rw [granted, inStep.current shows entries, marked.place]
      exact ⟨rfl, follows⟩

/-! ### Refused calls -/

/-- Whether an answer refuses a move or an entry. -/
def Answer.refused : Answer α → Bool
  | .moved (.error _) => true
  | .entry (.error _) => true
  | _ => false

end Workspace

theorem Cursor.seek_refused {cursor : Cursor} {tree : Tree α} {op : Seek} {target : Bytes}
    {moved : Moved} {refusal : Error} (seeks : cursor.seek tree op target = .ok moved)
    (refused : moved.1 = .error refusal) : moved.2 = cursor := by
  rw [Cursor.seek] at seeks
  cases own : cursor.checkTree tree with
  | error refusal' =>
    rw [own] at seeks
    cases seeks
    rfl
  | ok _ =>
    rw [own] at seeks
    obtain ⟨position, _, ends⟩ := bind_eq_ok seeks
    cases ends
    cases refused

theorem Cursor.step_refused {cursor : Cursor} {tree : Tree α} {direction : Direction}
    {moved : Moved} {refusal : Error} (steps : cursor.step tree direction = .ok moved)
    (refused : moved.1 = .error refusal) : moved.2 = cursor := by
  rw [Cursor.step] at steps
  cases own : cursor.check tree with
  | error refusal' =>
    rw [own] at steps
    cases steps
    rfl
  | ok _ =>
    rw [own] at steps
    obtain ⟨position, _, ends⟩ := bind_eq_ok steps
    cases ends
    cases refused

namespace Workspace

variable {workspace after : Workspace α} {session : Session α}

theorem getElem?_of_cursor {index : Nat} {cursor : Cursor}
    (found : workspace.cursor index = .ok cursor) : workspace.cursors[index]? = some cursor := by
  rw [Workspace.cursor] at found
  split at found
  · rename_i here
    rw [here, Except.ok.inj found]
  · cases found

/-- A move that leaves a refused cursor as it was leaves the whole workspace so. -/
theorem setCursor_of_refused {index : Nat} {cursor : Cursor} {moved : Cursor.Moved}
    {answer : Answer α} (found : workspace.cursor index = .ok cursor)
    (unmoved : ∀ refusal, moved.1 = .error refusal → moved.2 = cursor)
    (sets : workspace.setCursor index moved = (answer, after)) (refused : answer.refused = true) :
    after = workspace := by
  obtain ⟨outcome, later⟩ := moved
  cases outcome with
  | ok onKey =>
    cases sets
    cases refused
  | error refusal =>
    obtain rfl : later = cursor := unmoved refusal rfl
    rw [setCursor_refused (getElem?_of_cursor found)] at sets
    exact (Prod.mk.inj sets).2.symm

/-- **A refused call changes nothing.** -/
theorem answer_refused {call : Call α} {answer : Answer α}
    (answers : workspace.answer call = .ok (answer, after)) (refused : answer.refused = true) :
    after = workspace := by
  cases call with
  | create options =>
    cases answers
    cases refused
  | collect _ | copy _ | bind _ | duplicate _ =>
    obtain ⟨_, _, ends⟩ := bind_eq_ok answers
    cases ends
    cases refused
  | operate _ _ | scan _ _ =>
    obtain ⟨_, _, goesOn⟩ := bind_eq_ok answers
    obtain ⟨_, _, ends⟩ := bind_eq_ok goesOn
    cases ends
    cases refused
  | seek index number op target =>
    obtain ⟨cursor, found, goesOn⟩ := bind_eq_ok answers
    obtain ⟨tree, _, goesOn⟩ := bind_eq_ok goesOn
    obtain ⟨moved, seeks, sets⟩ := bind_eq_ok goesOn
    exact setCursor_of_refused found (fun _ => Cursor.seek_refused seeks) (Except.ok.inj sets)
      refused
  | step index number direction =>
    obtain ⟨cursor, found, goesOn⟩ := bind_eq_ok answers
    obtain ⟨tree, _, goesOn⟩ := bind_eq_ok goesOn
    obtain ⟨moved, steps, sets⟩ := bind_eq_ok goesOn
    exact setCursor_of_refused found (fun _ => Cursor.step_refused steps) (Except.ok.inj sets)
      refused
  | current index number =>
    obtain ⟨cursor, _, goesOn⟩ := bind_eq_ok answers
    obtain ⟨tree, _, goesOn⟩ := bind_eq_ok goesOn
    obtain ⟨outcome, _, ends⟩ := bind_eq_ok goesOn
    cases ends
    rfl

/-! ### Runs of calls -/

/-- **A workspace looks like a session**: each tree like its register, and each cursor bound as its
marker is, in the same state, at the same key. -/
structure Reads (workspace : Workspace α) (session : Session α) : Prop where
  trees : workspace.Mirrors session.shelf
  cursors : Paired (fun _ cursor marker => cursor.identity = marker.tree ∧
    cursor.generation = marker.bound ∧ cursor.position.state = marker.place.state ∧
    cursor.position.key? = marker.place.key?) workspace.cursors session.markers

theorem Follows.reads (follows : workspace.Follows session) : workspace.Reads session where
  trees := follows.shelved.mirrors
  cursors := follows.marked.mono fun _ cursor marker ⟨_, _, marked⟩ => by
    refine ⟨marked.identity, marked.generation, ?_, ?_⟩
    · rw [← marked.place, Position.place_state]
    · rw [← marked.place, Position.place_key?]

theorem Follows.empty : (Workspace.empty : Workspace α).Follows .empty := ⟨.nil, .nil⟩

/-- **Runs of calls are answered as in the session.** -/
theorem Follows.runs (follows : workspace.Follows session) (calls : List (Call α)) :
    Matches Follows (workspace.answerAll calls) (answerEach Session.answer session calls) := by
  have runs : Matches Follows (workspace.answerAll (calls.map id))
      (answerEach Session.answer session calls) :=
    answerAll_matches (fun _ _ call follows => answer_call follows call) follows calls
  rwa [List.map_id] at runs

/-- **Cursors never read through a reshaped path.** Calls on any number of new trees and their
cursors, in any order, are answered as in a session, where a marker whose tree has gained or lost a
key since is refused, and every other one moves among the keys as they are. A refused call changes
nothing. -/
theorem cursors_refine_markers :
    (∀ calls : List (Call α), Matches Reads ((empty : Workspace α).answerAll calls)
      (answerEach Session.answer .empty calls)) ∧
    ∀ {workspace after : Workspace α} {call : Call α} {answer : Answer α},
      workspace.answer call = .ok (answer, after) → answer.refused = true → after = workspace := by
  refine ⟨fun calls => ?_, answer_refused⟩
  have start : (empty : Workspace α).Follows .empty := .empty
  exact (start.runs calls).mono fun _ _ follows => follows.reads

/-- A cursor is sought to 7 1, among the keys 7 and 7 1, and 7 is removed: the node that it remembers is
folded into the one above, and its slot is vacant. The cursor may not step and not read, and stays as it
is, with its path. -/
theorem step_after_removal : ∃ workspace after after' : Workspace Nat, ∃ answers,
    empty.answerAll [.create {}, .operate 0 (.insert [7] 3), .operate 0 (.insert [7, 1] 4), .bind 0,
      .seek 0 0 .gt [7], .operate 0 (.remove [7])] = .ok (answers, workspace) ∧
    (∃ tree, workspace.trees = [tree] ∧ tree.arena.node 1 = .error (.vacant 1)) ∧
    workspace.cursors = [⟨.positioned ⟨⟨1, 0⟩, [⟨0, 0⟩], [7, 1]⟩, 0, 2⟩] ∧
    workspace.answer (.step 0 0 .forward) =
      .ok (.moved (.error (.staleCursor 2 3)), after) ∧ after = workspace ∧
    workspace.answer (.current 0 0) =
      .ok (.entry (.error (.staleCursor 2 3)), after') ∧ after' = workspace := by
  let tree : Tree Nat := ⟨⟨#[some ⟨[7, 1], [], some 4⟩, none], [1], 1, 64, 1⟩, some 0, 1, 3, 0⟩
  let cursor : Cursor := ⟨.positioned ⟨⟨1, 0⟩, [⟨0, 0⟩], [7, 1]⟩, 0, 2⟩
  let workspace : Workspace Nat := ⟨[tree], [cursor], [.merged 1 0]⟩
  have runs : empty.answerAll [.create {}, .operate 0 (.insert [7] 3),
      .operate 0 (.insert [7, 1] 4), .bind 0, .seek 0 0 .gt [7], .operate 0 (.remove [7])] =
    .ok (_, workspace) := rfl
  have steps : workspace.answer (.step 0 0 .forward) =
    .ok (.moved (.error (.staleCursor 2 3)), _) := rfl
  have reads : workspace.answer (.current 0 0) =
    .ok (.entry (.error (.staleCursor 2 3)), _) := rfl
  exact ⟨workspace, _, _, _, runs, ⟨tree, rfl, rfl⟩, rfl, steps, cursors_refine_markers.2 steps rfl,
    reads, cursors_refine_markers.2 reads rfl⟩

end Workspace

end RadixLog
