/-
**A cursor in place.**

A cursor is kept as three registers, which its moves change in place: a stack of frames, a buffer with
the bytes that their labels spell, and a state. Going down pushes a frame and its label, climbing
pops both, and running off an end clears the stack and the buffer. Whatever happens in between, the
registers come out as those of a position, so the moves among positions are what the moves in place
do.

* `Registers.seek`, `Registers.step`: the moves in place;
* `Registers.seek_eq`, `Registers.step_ofPosition`: they are the moves among positions;
* `Cursor.move_registers`, `Cursor.InStep.moveAll_registers`: a cursor and its registers, and runs of
  their moves.
-/

import RadixLog.Proofs.Cursor.Place

namespace RadixLog

variable {α : Type}

/-- The registers of a cursor. -/
structure Registers where
  /-- The frames of the path, the last one first. -/
  stack : List Link
  /-- The bytes that the labels along the path spell. -/
  key : Bytes
  state : CursorState
  deriving DecidableEq, Repr

namespace Registers

/-! ### Reading -/

/-- The key in the buffer, at a key. -/
def key? (registers : Registers) : Option Bytes :=
  if registers.state = .positioned then some registers.key else none

/-- The key in the buffer and the value of the node on top, at a key. -/
def current (registers : Registers) (tree : Tree α) : Except Fault (Option (Bytes × α)) := do
  if registers.state = .positioned then
    match registers.stack with
    | [] => return none
    | frame :: _ =>
      let node ← tree.arena.node frame.node
      return node.value.map (registers.key, ·)
  else return none

/-! ### One frame -/

/-- Clears the stack and the buffer. -/
def reset (state : CursorState) : Registers := ⟨[], [], state⟩

/-- Pushes a node and its label. -/
def push (registers : Registers) (arena : Arena α) (child : NodeRef) (slot : Nat) :
    Except Fault Registers := do
  let node ← arena.node child
  return { registers with
    stack := ⟨child, slot⟩ :: registers.stack, key := registers.key ++ node.label }

/-! ### Going down -/

/-- Pushes first children until a key is on top. -/
def descendMinFrom (arena : Arena α) : (fuel : Nat) → Registers → Except Fault Registers
  | 0, _ => .error .endless
  | fuel + 1, registers =>
    match registers.stack with
    | [] => return reset .afterLast
    | frame :: _ => do
      let node ← arena.node frame.node
      if node.keyed then return { registers with state := .positioned }
      else match node.children with
        | [] => .error (.barrenBranch frame.node)
        | edge :: _ => do
          let registers ← registers.push arena edge.child 0
          descendMinFrom arena fuel registers

/-- Comes to the least key at or under the top. -/
def descendMin (registers : Registers) (arena : Arena α) : Except Fault Registers :=
  descendMinFrom arena arena.slots.size registers

/-- Pushes last children until there are none. -/
def descendMaxFrom (arena : Arena α) : (fuel : Nat) → Registers → Except Fault Registers
  | 0, _ => .error .endless
  | fuel + 1, registers =>
    match registers.stack with
    | [] => return reset .beforeFirst
    | frame :: _ => do
      let node ← arena.node frame.node
      match node.children.getLast? with
      | none => return { registers with state := .positioned }
      | some edge => do
        let registers ← registers.push arena edge.child (node.children.length - 1)
        descendMaxFrom arena fuel registers

/-- Comes to the greatest key at or under the top. -/
def descendMax (registers : Registers) (arena : Arena α) : Except Fault Registers :=
  descendMaxFrom arena arena.slots.size registers

/-! ### Climbing -/

/-- Pops frames, with their labels, until one is on top that has a further child than the one popped,
and goes down to the least key under that child. -/
def ascendNextFrom (arena : Arena α) (state : CursorState) :
    (stack : List Link) → (key : Bytes) → Except Fault Registers
  | [], _ => return reset .afterLast
  | frame :: stack, key => do
    -- Popping a frame cuts its label off the buffer.
    let key ← arena.keyAbove frame key
    match stack with
    | [] => return reset .afterLast
    | parent :: _ => do
      let node ← arena.node parent.node
      match node.children[frame.slot + 1]? with
      | some edge => do
        let registers ← (Registers.mk stack key state).push arena edge.child (frame.slot + 1)
        registers.descendMin arena
      | none => ascendNextFrom arena state stack key

/-- Leaves what is at or under the top, for the least key after it. -/
def ascendNext (registers : Registers) (arena : Arena α) : Except Fault Registers :=
  ascendNextFrom arena registers.state registers.stack registers.key

/-- Pops frames, with their labels, until one is on top that has an earlier child than the one
popped, and goes down to the greatest key under that child, or until a key is on top. -/
def ascendPrevFrom (arena : Arena α) (state : CursorState) :
    (stack : List Link) → (key : Bytes) → Except Fault Registers
  | [], _ => return reset .beforeFirst
  | frame :: stack, key => do
    let key ← arena.keyAbove frame key
    match stack with
    | [] => return reset .beforeFirst
    | parent :: _ => do
      let node ← arena.node parent.node
      match frame.slot with
      | slot + 1 =>
        match node.children[slot]? with
        | some edge => do
          let registers ← (Registers.mk stack key state).push arena edge.child slot
          registers.descendMax arena
        | none => .error (.noChild parent.node slot)
      | 0 =>
        if node.keyed then return ⟨stack, key, .positioned⟩
        else ascendPrevFrom arena state stack key

/-- Leaves what is at or under the top, for the greatest key before it. -/
def ascendPrev (registers : Registers) (arena : Arena α) : Except Fault Registers :=
  ascendPrevFrom arena registers.state registers.stack registers.key

/-- Goes on from the key on top to the least one after it. -/
def forward (registers : Registers) (arena : Arena α) : Except Fault Registers :=
  match registers.stack with
  | [] => registers.ascendNext arena
  | frame :: _ => do
    let node ← arena.node frame.node
    match node.children with
    | [] => registers.ascendNext arena
    | edge :: _ => do
      let registers ← registers.push arena edge.child 0
      registers.descendMin arena

/-! ### Seeking and stepping -/

/-- Leaves a finished descent, whose path is on the stack, for the key on a side of its target. -/
def settle (registers : Registers) (arena : Arena α) (descent : Descent α) :
    Arena.Side → Except Fault Registers
  | .exactly =>
    match descent.landing with
    | .exact =>
      if descent.node.keyed then return { registers with state := .positioned }
      else return reset .afterLast
    | _ => return reset .afterLast
  | .upwards strict =>
    match descent.landing with
    | .inside _ rest =>
      if Bytes.order rest descent.node.label = .lt then registers.descendMin arena
      else registers.ascendNext arena
    | .exact =>
      if !descent.node.keyed then registers.descendMin arena
      else if strict then registers.forward arena
      else return { registers with state := .positioned }
    | .between slot _ =>
      match descent.node.children[slot]? with
      | some edge => do
        let registers ← registers.push arena edge.child slot
        registers.descendMin arena
      | none => registers.ascendNext arena
  | .downwards strict =>
    match descent.landing with
    | .inside _ rest =>
      if Bytes.order rest descent.node.label = .lt then registers.ascendPrev arena
      else registers.descendMax arena
    | .exact =>
      if descent.node.keyed && !strict then return { registers with state := .positioned }
      else registers.ascendPrev arena
    | .between (slot + 1) _ =>
      match descent.node.children[slot]? with
      | some edge => do
        let registers ← registers.push arena edge.child slot
        registers.descendMax arena
      | none => .error (.noChild descent.trail.top.node slot)
    | .between 0 _ =>
      if descent.node.keyed then return { registers with state := .positioned }
      else registers.ascendPrev arena

/-- The registers with a path on the stack. -/
def load (trail : Trail) (state : CursorState) : Registers :=
  ⟨trail.top :: trail.above, trail.key, state⟩

/-- The registers after a seek in a tree without nodes. -/
def missing : Arena.Side → Registers
  | .downwards _ => reset .beforeFirst
  | _ => { reset .beforeFirst with state := .afterLast }

/-- Resets the registers, pushes the path of a descent and settles it on a side of the target. -/
def seekBeside (tree : Tree α) (side : Arena.Side) (target : Bytes) : Except Fault Registers := do
  match ← tree.descend? target with
  | none => return missing side
  | some descent => (load descent.trail .beforeFirst).settle tree.arena descent side

/-- Resets the registers and comes to the key that an operator asks for. -/
def seek (tree : Tree α) (op : Seek) (target : Bytes) : Except Fault Registers :=
  match op with
  | .eq => seekBeside tree .exactly target
  | .gt => seekBeside tree (.upwards true) target
  | .ge => seekBeside tree (.upwards false) target
  | .lt => seekBeside tree (.downwards true) target
  | .le => seekBeside tree (.downwards false) target
  | .min =>
    match tree.root with
    | none => return reset .beforeFirst
    | some root => do
      let registers ← (reset .beforeFirst).push tree.arena root 0
      registers.descendMin tree.arena
  | .max =>
    match tree.root with
    | none => return { reset .beforeFirst with state := .afterLast }
    | some root => do
      let registers ← (reset .beforeFirst).push tree.arena root 0
      registers.descendMax tree.arena

/-- Comes to the next key in a direction. -/
def step (registers : Registers) (tree : Tree α) (direction : Direction) : Except Fault Registers :=
  match direction, registers.state with
  | .forward, .beforeFirst => seek tree .min []
  | .backward, .afterLast => seek tree .max []
  | .forward, .afterLast => return registers
  | .backward, .beforeFirst => return registers
  | .forward, .positioned => registers.forward tree.arena
  | .backward, .positioned => registers.ascendPrev tree.arena

/-- The registers after a move. -/
def move (registers : Registers) (tree : Tree α) : Cursor.Move → Except Fault Registers
  | .seek op target => seek tree op target
  | .step direction => registers.step tree direction

/-- The registers after each of some moves. -/
def moveAll (registers : Registers) (tree : Tree α) :
    List Cursor.Move → Except Fault (List Registers)
  | [] => return []
  | move :: moves => do
    let after ← registers.move tree move
    return after :: (← after.moveAll tree moves)

/-! ### Moves among positions -/

/-- **The registers of a position**: beyond an end, nothing is left of a path. -/
def ofPosition : Position → Registers
  | .beforeFirst => reset .beforeFirst
  | .positioned trail => load trail .positioned
  | .afterLast => reset .afterLast

variable {tree : Tree α} {arena : Arena α} {trail : Trail} {state : CursorState}

theorem push_load (child : NodeRef) (slot : Nat) : (load trail state).push arena child slot =
    (load · state) <$> arena.enter trail slot child := by
  rw [push, Arena.enter]
  cases arena.node child <;> rfl

/-- A child pushed and gone on from is a path entered and gone on from. -/
theorem push_load_bind (trail : Trail) {child : NodeRef} {slot : Nat}
    {next : Registers → Except Fault Registers} {next' : Trail → Except Fault Position}
    (goesOn : ∀ trail, next (load trail state) = ofPosition <$> next' trail) :
    ((load trail state).push arena child slot >>= next) =
      ofPosition <$> (arena.enter trail slot child >>= next') := by
  rw [push_load, bind_map_left, map_bind]
  exact bind_congr goesOn

/-- The root pushed on an empty stack and gone on from is a path begun there. -/
theorem push_root_bind (root : NodeRef) {next : Registers → Except Fault Registers}
    {next' : Trail → Except Fault Position}
    (goesOn : ∀ trail, next (load trail state) = ofPosition <$> next' trail) :
    ((reset state).push arena root 0 >>= next) = ofPosition <$> (arena.start root >>= next') := by
  have starts : (reset state).push arena root 0 = (load · state) <$> arena.start root := by
    rw [push, Arena.start]
    cases arena.node root <;> rfl
  rw [starts, bind_map_left, map_bind]
  exact bind_congr goesOn

theorem descendMinFrom_load (fuel : Nat) :
    descendMinFrom arena fuel (load trail state) = ofPosition <$> arena.leastFrom fuel trail := by
  induction fuel generalizing trail with
  | zero => rfl
  | succ fuel ih =>
    rw [descendMinFrom, Arena.leastFrom, map_bind]
    refine bind_congr fun node => ?_
    cases node.keyed with
    | true => rfl
    | false =>
      cases node.children with
      | nil => rfl
      | cons edge others => exact push_load_bind _ fun trail => ih

theorem descendMin_load (arena : Arena α) (trail : Trail) (state : CursorState) :
    (load trail state).descendMin arena = ofPosition <$> arena.least trail :=
  descendMinFrom_load _

theorem descendMaxFrom_load (fuel : Nat) :
    descendMaxFrom arena fuel (load trail state) = ofPosition <$> arena.greatestFrom fuel trail := by
  induction fuel generalizing trail with
  | zero => rfl
  | succ fuel ih =>
    rw [descendMaxFrom, Arena.greatestFrom, map_bind]
    refine bind_congr fun node => ?_
    cases node.children.getLast? with
    | none => rfl
    | some edge => exact push_load_bind _ fun trail => ih

theorem descendMax_load (arena : Arena α) (trail : Trail) (state : CursorState) :
    (load trail state).descendMax arena = ofPosition <$> arena.greatest trail :=
  descendMaxFrom_load _

theorem ascendNextFrom_cons (above : List Link) (top : Link) (key : Bytes) :
    ascendNextFrom arena state (top :: above) key = ofPosition <$> arena.afterFrom above top key := by
  induction above generalizing top key with
  | nil =>
    rw [ascendNextFrom, Arena.afterFrom, map_bind]
    exact bind_congr fun key => rfl
  | cons parent above ih =>
    rw [ascendNextFrom, Arena.afterFrom, map_bind]
    refine bind_congr fun key => ?_
    dsimp only
    rw [map_bind]
    refine bind_congr fun node => ?_
    cases node.children[top.slot + 1]? with
    | some edge =>
      exact push_load_bind ⟨parent, above, key⟩ fun trail => descendMin_load arena trail state
    | none => exact ih parent key

theorem ascendNext_load (arena : Arena α) (trail : Trail) (state : CursorState) :
    (load trail state).ascendNext arena = ofPosition <$> arena.after trail :=
  ascendNextFrom_cons _ _ _

theorem ascendPrevFrom_cons (above : List Link) (top : Link) (key : Bytes) :
    ascendPrevFrom arena state (top :: above) key =
      ofPosition <$> arena.beforeFrom above top key := by
  induction above generalizing top key with
  | nil =>
    rw [ascendPrevFrom, Arena.beforeFrom, map_bind]
    exact bind_congr fun key => rfl
  | cons parent above ih =>
    rw [ascendPrevFrom, Arena.beforeFrom, map_bind]
    refine bind_congr fun key => ?_
    dsimp only
    rw [map_bind]
    refine bind_congr fun node => ?_
    cases top.slot with
    | succ slot =>
      dsimp only
      cases node.children[slot]? with
      | some edge =>
        exact push_load_bind ⟨parent, above, key⟩ fun trail => descendMax_load arena trail state
      | none => rfl
    | zero =>
      cases node.keyed with
      | true => rfl
      | false => exact ih parent key

theorem ascendPrev_load (arena : Arena α) (trail : Trail) (state : CursorState) :
    (load trail state).ascendPrev arena = ofPosition <$> arena.before trail :=
  ascendPrevFrom_cons _ _ _

theorem forward_load (arena : Arena α) (trail : Trail) (state : CursorState) :
    (load trail state).forward arena = ofPosition <$> arena.next trail := by
  rw [forward, Arena.next, map_bind]
  refine bind_congr fun node => ?_
  cases node.children with
  | nil => exact ascendNext_load arena trail state
  | cons edge others => exact push_load_bind _ fun trail => descendMin_load arena trail state

/-- **Every way out of a seek** leaves the registers of the position that it comes to. -/
theorem settle_load (arena : Arena α) (descent : Descent α) (side : Arena.Side) :
    (load descent.trail state).settle arena descent side =
      ofPosition <$> arena.settle descent side := by
  obtain ⟨trail, node, landing⟩ := descent
  cases side with
  | exactly =>
    cases landing with
    | exact =>
      rw [settle, Arena.settle, Arena.settleExactly]
      dsimp only
      split_ifs <;> rfl
    | inside _ _ => rfl
    | between _ _ => rfl
  | upwards strict =>
    rw [settle, Arena.settle, Arena.settleUpwards]
    cases landing with
    | inside _ rest =>
      dsimp only
      split_ifs
      · exact descendMin_load arena trail state
      · exact ascendNext_load arena trail state
    | exact =>
      dsimp only
      split_ifs
      · exact descendMin_load arena trail state
      · exact forward_load arena trail state
      · rfl
    | between slot _ =>
      dsimp only
      cases node.children[slot]? with
      | some edge => exact push_load_bind _ fun trail => descendMin_load arena trail state
      | none => exact ascendNext_load arena trail state
  | downwards strict =>
    rw [settle, Arena.settle, Arena.settleDownwards]
    cases landing with
    | inside _ rest =>
      dsimp only
      split_ifs
      · exact ascendPrev_load arena trail state
      · exact descendMax_load arena trail state
    | exact =>
      dsimp only
      split_ifs
      · rfl
      · exact ascendPrev_load arena trail state
    | between slot _ =>
      cases slot with
      | succ slot =>
        dsimp only
        cases node.children[slot]? with
        | some edge => exact push_load_bind _ fun trail => descendMax_load arena trail state
        | none => rfl
      | zero =>
        dsimp only
        split_ifs
        · rfl
        · exact ascendPrev_load arena trail state

theorem seekBeside_eq (tree : Tree α) (side : Arena.Side) (target : Bytes) :
    seekBeside tree side target = ofPosition <$> tree.locateBeside side target := by
  rw [seekBeside, Tree.locateBeside, map_bind]
  refine bind_congr fun descent => ?_
  cases descent with
  | none => cases side <;> rfl
  | some descent => exact settle_load tree.arena descent side

/-- **Seeking in place is seeking**, whatever the registers were. -/
theorem seek_eq (tree : Tree α) (op : Seek) (target : Bytes) :
    seek tree op target = ofPosition <$> tree.locate op target := by
  cases op with
  | eq => exact seekBeside_eq tree .exactly target
  | gt => exact seekBeside_eq tree (.upwards true) target
  | ge => exact seekBeside_eq tree (.upwards false) target
  | lt => exact seekBeside_eq tree (.downwards true) target
  | le => exact seekBeside_eq tree (.downwards false) target
  | min =>
    rw [seek, Tree.locate]
    cases tree.root with
    | none => rfl
    | some root => exact push_root_bind root fun trail => descendMin_load tree.arena trail _
  | max =>
    rw [seek, Tree.locate]
    cases tree.root with
    | none => rfl
    | some root => exact push_root_bind root fun trail => descendMax_load tree.arena trail _

/-- **Stepping in place is stepping.** -/
theorem step_ofPosition (tree : Tree α) (position : Position) (direction : Direction) :
    (ofPosition position).step tree direction = ofPosition <$> tree.neighbour direction position := by
  cases position with
  | beforeFirst =>
    cases direction with
    | forward => exact seek_eq tree .min []
    | backward => rfl
  | afterLast =>
    cases direction with
    | forward => rfl
    | backward => exact seek_eq tree .max []
  | positioned trail =>
    cases direction with
    | forward => exact forward_load tree.arena trail .positioned
    | backward => exact ascendPrev_load tree.arena trail .positioned

theorem state_ofPosition (position : Position) : (ofPosition position).state = position.state := by
  cases position <;> rfl

theorem key?_ofPosition (position : Position) : (ofPosition position).key? = position.key? := by
  cases position <;> rfl

/-- **Reading in place is reading.** -/
theorem current_ofPosition (tree : Tree α) (position : Position) :
    (ofPosition position).current tree = tree.entryAt position := by
  cases position <;> rfl

end Registers

namespace Cursor

variable {tree : Tree α} {trunk : Trunk α} {map : KeyMap α} {cursor : Cursor}

/-- The registers of a cursor. -/
def registers (cursor : Cursor) : Registers := .ofPosition cursor.position

theorem checkTree_of_check (synced : cursor.check tree = .ok ()) : cursor.checkTree tree = .ok () := by
  obtain ⟨_, own, _⟩ := bind_eq_ok synced
  exact own

/-- **A cursor in sync moves as its registers do.** -/
theorem move_registers (synced : cursor.check tree = .ok ()) (move : Move) :
    cursor.registers.move tree move = (·.2.registers) <$> cursor.move tree move := by
  cases move with
  | seek op target =>
    show Registers.seek tree op target = _ <$> cursor.seek tree op target
    rw [Registers.seek_eq, Cursor.seek, checkTree_of_check synced]
    dsimp only
    cases tree.locate op target <;> rfl
  | step direction =>
    show cursor.registers.step tree direction = _ <$> cursor.step tree direction
    rw [registers, Registers.step_ofPosition, Cursor.step, synced]
    dsimp only
    cases tree.neighbour direction cursor.position <;> rfl

/-- **A cursor in sync reads what its registers hold.** -/
theorem current_registers (synced : cursor.check tree = .ok ()) :
    cursor.current tree = Except.ok <$> cursor.registers.current tree := by
  rw [Cursor.current, synced, registers, Registers.current_ofPosition]
  cases tree.entryAt cursor.position <;> rfl

/-- **Runs of moves in place are runs of moves**, all of them granted, and leave the cursor in step. -/
theorem InStep.moveAll_registers (shows : tree.Shows trunk) (entries : trunk.entries = map.toList)
    (inStep : cursor.InStep tree trunk) (moves : List Move) :
    ∃ trace, cursor.moveAll tree moves = .ok trace ∧
      cursor.registers.moveAll tree moves = .ok (trace.map (·.2.registers)) ∧
      ∀ moved ∈ trace, moved.1 = .ok moved.2.position.onKey ∧ moved.2.InStep tree trunk := by
  induction moves generalizing cursor with
  | nil => exact ⟨[], rfl, rfl, nofun⟩
  | cons move moves ih =>
    obtain ⟨after, goes, later, -⟩ := inStep.move shows entries move
    obtain ⟨trace, runs, inPlace, kept⟩ := ih later
    refine ⟨(.ok after.position.onKey, after) :: trace, ?_, ?_, ?_⟩
    · rw [Cursor.moveAll, goes, ok_bind, runs]
      rfl
    · rw [Registers.moveAll, move_registers inStep.check, goes, map_ok, ok_bind, inPlace]
      rfl
    · exact List.forall_mem_cons.mpr ⟨⟨rfl, later⟩, kept⟩

end Cursor

end RadixLog
