/-
**Positions among the keys.**

A position is a key of the tree, remembered with the whole path to its node, or one of the two places
beyond the ends. Moving uses the path: it goes to children, siblings and ancestors and never starts
again from the root.

* `Arena.least`, `Arena.greatest`: the end of a subtree;
* `Arena.after`, `Arena.before`: the nearest key outside a subtree;
* `Arena.settle`: from where a key leads to what an operator asks for;
* `Tree.locate`, `Tree.neighbour`: seeking and stepping.
-/

import RadixLog.Key
import RadixLog.Seek
import RadixLog.Tree

namespace RadixLog

/-- Whether a cursor is at a key, or beyond which end. -/
inductive CursorState where
  | beforeFirst
  | positioned
  | afterLast
  deriving DecidableEq, Repr

/-- The name that a state is shown by. -/
def CursorState.name : CursorState → String
  | .beforeFirst => "BeforeFirst"
  | .positioned => "Positioned"
  | .afterLast => "AfterLast"

/-- A place among the keys of a tree. -/
inductive Position where
  | beforeFirst
  | positioned (trail : Trail)
  | afterLast
  deriving DecidableEq, Repr

namespace Position

/-- The state of a cursor at the position. -/
def state : Position → CursorState
  | .beforeFirst => .beforeFirst
  | .positioned _ => .positioned
  | .afterLast => .afterLast

/-- The name of that state. -/
def stateName (position : Position) : String := position.state.name

/-- Whether the position is a key. -/
def onKey : Position → Bool
  | .positioned _ => true
  | _ => false

/-- The key at the position. -/
def key? : Position → Option Bytes
  | .positioned trail => some trail.key
  | _ => none

/-- The key at the position, decoded. -/
def decodeKey (position : Position) (type : KeyType) : Option (Except Error type.Value) :=
  position.key?.map type.decode

/-- Whether there is a key at the position that satisfies an operator. -/
def compare (position : Position) (op : Seek) (target : Bytes) : Bool :=
  match position.key? with
  | some key => op.holds (Bytes.order key target)
  | none => false

end Position

namespace Arena

variable {α : Type}

/-! ### One step along a path -/

/-- The path to a root. -/
def start (arena : Arena α) (root : NodeRef) : Except Fault Trail := do
  return ⟨⟨root, 0⟩, [], (← arena.node root).label⟩

/-- A path with a child of its last node added, found at `slot`. -/
def enter (arena : Arena α) (trail : Trail) (slot : Nat) (child : NodeRef) : Except Fault Trail := do
  return ⟨⟨child, slot⟩, trail.top :: trail.above, trail.key ++ (← arena.node child).label⟩

/-- The bytes that a path spells above its last node. -/
def keyAbove (arena : Arena α) (top : Link) (key : Bytes) : Except Fault Bytes := do
  let node ← arena.node top.node
  if node.label.length ≤ key.length then
    return key.take (key.length - node.label.length)
  else
    .error (.shortKey top.node)

/-! ### The ends of a subtree -/

/-- Goes down first children until a key is met. -/
def leastFrom (arena : Arena α) : (fuel : Nat) → Trail → Except Fault Position
  | 0, _ => .error .endless
  | fuel + 1, trail => do
    let node ← arena.node trail.top.node
    if node.keyed then return .positioned trail
    else match node.children with
      | [] => .error (.barrenBranch trail.top.node)
      | edge :: _ => do
        let trail ← arena.enter trail 0 edge.child
        arena.leastFrom fuel trail

/-- The least key at or under the end of a path. -/
def least (arena : Arena α) (trail : Trail) : Except Fault Position :=
  arena.leastFrom arena.slots.size trail

/-- Goes down last children until there are none. -/
def greatestFrom (arena : Arena α) : (fuel : Nat) → Trail → Except Fault Position
  | 0, _ => .error .endless
  | fuel + 1, trail => do
    let node ← arena.node trail.top.node
    match node.children.getLast? with
    | none => return .positioned trail
    | some edge => do
      let trail ← arena.enter trail (node.children.length - 1) edge.child
      arena.greatestFrom fuel trail

/-- The greatest key at or under the end of a path. -/
def greatest (arena : Arena α) (trail : Trail) : Except Fault Position :=
  arena.greatestFrom arena.slots.size trail

/-! ### Leaving a subtree -/

/-- Climbs from `top` to the first ancestor that has a further child, and goes to the least key under
that child. -/
def afterFrom (arena : Arena α) : (above : List Link) → (top : Link) → (key : Bytes) →
    Except Fault Position
  | [], top, key => do
    let _ ← arena.keyAbove top key
    return .afterLast
  | parent :: above, top, key => do
    let key ← arena.keyAbove top key
    let node ← arena.node parent.node
    match node.children[top.slot + 1]? with
    | some edge => do
      let trail ← arena.enter ⟨parent, above, key⟩ (top.slot + 1) edge.child
      arena.least trail
    | none => arena.afterFrom above parent key

/-- The least key after all those at or under the end of a path. -/
def after (arena : Arena α) (trail : Trail) : Except Fault Position :=
  arena.afterFrom trail.above trail.top trail.key

/-- Climbs from `top` to the first ancestor that has an earlier child, and goes to the greatest key
under that child, unless an ancestor met on the way is a key: it comes before all its children. -/
def beforeFrom (arena : Arena α) : (above : List Link) → (top : Link) → (key : Bytes) →
    Except Fault Position
  | [], top, key => do
    let _ ← arena.keyAbove top key
    return .beforeFirst
  | parent :: above, top, key => do
    let key ← arena.keyAbove top key
    let node ← arena.node parent.node
    match top.slot with
    | slot + 1 =>
      match node.children[slot]? with
      | some edge => do
        let trail ← arena.enter ⟨parent, above, key⟩ slot edge.child
        arena.greatest trail
      | none => .error (.noChild parent.node slot)
    | 0 =>
      if node.keyed then return .positioned ⟨parent, above, key⟩
      else arena.beforeFrom above parent key

/-- The greatest key before all those at or under the end of a path. -/
def before (arena : Arena α) (trail : Trail) : Except Fault Position :=
  arena.beforeFrom trail.above trail.top trail.key

/-- The least key after the key at the end of a path. -/
def next (arena : Arena α) (trail : Trail) : Except Fault Position := do
  let node ← arena.node trail.top.node
  match node.children with
  | [] => arena.after trail
  | edge :: _ => do
    let trail ← arena.enter trail 0 edge.child
    arena.least trail

/-! ### From a descent to a position -/

/-- How a seek resolves its target: exactly, upwards or downwards, and then with the target itself
left out or not. -/
inductive Side where
  | exactly
  | upwards (strict : Bool)
  | downwards (strict : Bool)
  deriving DecidableEq, Repr

/-- The target itself, if it is a key. -/
def settleExactly (descent : Descent α) : Position :=
  match descent.landing with
  | .exact => if descent.node.keyed then .positioned descent.trail else .afterLast
  | _ => .afterLast

/-- The least key above the target, or the target itself. Where the target leaves an edge, the whole
subtree under the edge lies on one side of it. -/
def settleUpwards (arena : Arena α) (descent : Descent α) (strict : Bool) : Except Fault Position :=
  let trail := descent.trail
  match descent.landing with
  | .inside _ rest =>
    if Bytes.order rest descent.node.label = .lt then arena.least trail else arena.after trail
  | .exact =>
    if !descent.node.keyed then arena.least trail
    else if strict then arena.next trail
    else return .positioned trail
  | .between slot _ =>
    match descent.node.children[slot]? with
    | some edge => do
      let trail ← arena.enter trail slot edge.child
      arena.least trail
    | none => arena.after trail

/-- The greatest key below the target, or the target itself. -/
def settleDownwards (arena : Arena α) (descent : Descent α) (strict : Bool) :
    Except Fault Position :=
  let trail := descent.trail
  match descent.landing with
  | .inside _ rest =>
    if Bytes.order rest descent.node.label = .lt then arena.before trail else arena.greatest trail
  | .exact =>
    if descent.node.keyed && !strict then return .positioned trail else arena.before trail
  | .between (slot + 1) _ =>
    match descent.node.children[slot]? with
    | some edge => do
      let trail ← arena.enter trail slot edge.child
      arena.greatest trail
    | none => .error (.noChild trail.top.node slot)
  | .between 0 _ =>
    if descent.node.keyed then return .positioned trail else arena.before trail

/-- The position that a side of the target asks for. -/
def settle (arena : Arena α) (descent : Descent α) : Side → Except Fault Position
  | .exactly => return settleExactly descent
  | .upwards strict => arena.settleUpwards descent strict
  | .downwards strict => arena.settleDownwards descent strict

end Arena

namespace Tree

variable {α : Type}

/-- Where a side leads in a tree without nodes. -/
def missing : Arena.Side → Position
  | .downwards _ => .beforeFirst
  | _ => .afterLast

/-- The position beside a target. -/
def locateBeside (tree : Tree α) (side : Arena.Side) (target : Bytes) : Except Fault Position := do
  match ← tree.descend? target with
  | none => return missing side
  | some descent => tree.arena.settle descent side

/-- The position of the key that an operator asks for. -/
def locate (tree : Tree α) (op : Seek) (target : Bytes) : Except Fault Position :=
  match op with
  | .eq => tree.locateBeside .exactly target
  | .gt => tree.locateBeside (.upwards true) target
  | .ge => tree.locateBeside (.upwards false) target
  | .lt => tree.locateBeside (.downwards true) target
  | .le => tree.locateBeside (.downwards false) target
  | .min =>
    match tree.root with
    | none => return .beforeFirst
    | some root => do
      let trail ← tree.arena.start root
      tree.arena.least trail
  | .max =>
    match tree.root with
    | none => return .afterLast
    | some root => do
      let trail ← tree.arena.start root
      tree.arena.greatest trail

/-- The position one key further. Beyond an end, going back comes to the key at that end, and going
on changes nothing. -/
def neighbour (tree : Tree α) (direction : Direction) : Position → Except Fault Position
  | .positioned trail =>
    match direction with
    | .forward => tree.arena.next trail
    | .backward => tree.arena.before trail
  | .beforeFirst =>
    match direction with
    | .forward => tree.locate .min []
    | .backward => return .beforeFirst
  | .afterLast =>
    match direction with
    | .forward => return .afterLast
    | .backward => tree.locate .max []

/-- The key at a position and its value. -/
def entryAt (tree : Tree α) (position : Position) : Except Fault (Option (Bytes × α)) :=
  match position with
  | .positioned trail => do
    let node ← tree.arena.node trail.top.node
    return node.value.map fun value => (trail.key, value)
  | _ => return none

/-- The entry that an operator asks for. -/
def seek (tree : Tree α) (op : Seek) (target : Bytes) : Except Fault (Option (Bytes × α)) := do
  let position ← tree.locate op target
  tree.entryAt position

end Tree

end RadixLog
