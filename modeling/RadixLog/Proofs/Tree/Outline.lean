/-
**An outline shows the shape of a tree, and nothing less.**

The lines of an outline can be told apart in its text: what stands before the first quote is the
indentation, the label ends at the next quote that is not shown for a byte, and the last word ends
its line. So the text gives back the rows, and the rows the shape. Trees that operations lead to have
the same shape exactly when they have the same keys.

* `Row.line_append_inj`, `outlineText_inj`: the rows from the text;
* `Tree.At`, `Tree.SameShape`: what is at a place, as child slots lead there;
* `Tree.Spans.sameShape_iff`: the shape of a tree is that of what its links span;
* `Tree.outline_shows_shape`: outlines against shapes, and against keys.
-/

import RadixLog.Proofs.Bytes.Escaped
import RadixLog.Proofs.Subtree.Shape
import RadixLog.Proofs.Tree.Canonical
import RadixLog.Proofs.Tree.Diagnosis

namespace RadixLog

variable {α β : Type}

/-! ### Lines -/

/-- The line of a row. -/
def Row.line (row : Row) : List Char :=
  List.replicate (2 * row.depth) ' ' ++ '"' :: Bytes.escaped row.label ++ ['"', ' ']
    ++ (if row.keyed then "key" else "branch").toList ++ ['\n']

/-- The lines of a walk show what its rows have. -/
theorem Trunk.map_line_visits (trunk : Trunk α) :
    trunk.visits.map Visit.line = trunk.rows.map Row.line := by
  rw [← trunk.map_row_visits, List.map_map]
  rfl

theorem replicate_quote_inj {count count' : Nat} {rest rest' : List Char}
    (same : List.replicate count ' ' ++ '"' :: rest = List.replicate count' ' ' ++ '"' :: rest') :
    count = count' ∧ rest = rest' := by
  induction count generalizing count' with
  | zero =>
    cases count' with
    | zero => exact ⟨rfl, (List.cons.inj same).2⟩
    | succ count' => exact absurd (List.cons.inj same).1 (by decide)
  | succ count ih =>
    cases count' with
    | zero => exact absurd (List.cons.inj same).1 (by decide)
    | succ count' =>
      obtain ⟨equal, after⟩ := ih (List.cons.inj same).2
      exact ⟨congrArg _ equal, after⟩

namespace Row

variable {row other : Row} {rows rows' : List Row} {rest rest' : List Char}

theorem line_append (row : Row) (rest : List Char) : row.line ++ rest =
    List.replicate (2 * row.depth) ' ' ++ '"' :: (Bytes.escaped row.label ++ '"' :: ' ' ::
      ((if row.keyed then "key" else "branch").toList ++ '\n' :: rest)) := by
  simp [line]

theorem kind_inj {keyed keyed' : Bool}
    (same : (if keyed then "key" else "branch").toList ++ '\n' :: rest =
      (if keyed' then "key" else "branch").toList ++ '\n' :: rest') :
    keyed = keyed' ∧ rest = rest' := by
  cases keyed <;> cases keyed' <;> simp_all

/-- **A row is known from its line**, whatever follows. -/
theorem line_append_inj (same : row.line ++ rest = other.line ++ rest') :
    row = other ∧ rest = rest' := by
  rw [line_append, line_append] at same
  obtain ⟨indent, same⟩ := replicate_quote_inj same
  obtain ⟨label, same⟩ := Bytes.escaped_quote_inj same
  obtain ⟨keyed, after⟩ := kind_inj (List.cons.inj same).2
  cases row
  cases other
  refine ⟨?_, after⟩
  rw [mk.injEq]
  exact ⟨Nat.eq_of_mul_eq_mul_left (by decide) indent, label, keyed⟩

theorem line_ne_nil (row : Row) : row.line ≠ [] := by
  simp [line]

theorem flatMap_line_inj (same : rows.flatMap line = rows'.flatMap line) : rows = rows' := by
  induction rows generalizing rows' with
  | nil =>
    cases rows' with
    | nil => rfl
    | cons row rows' =>
      rw [List.flatMap_cons] at same
      exact absurd (List.append_eq_nil_iff.mp same.symm).1 row.line_ne_nil
  | cons row rows ih =>
    cases rows' with
    | nil =>
      rw [List.flatMap_cons] at same
      exact absurd (List.append_eq_nil_iff.mp same).1 row.line_ne_nil
    | cons row' rows' =>
      rw [List.flatMap_cons, List.flatMap_cons] at same
      obtain ⟨first, later⟩ := line_append_inj same
      exact congrArg₂ List.cons first (ih later)

/-- A line begins with a blank or a quote. -/
theorem line_append_ne (row : Row) : row.line ++ rest ≠ '(' :: rest' := by
  rw [line_append]
  cases row.depth <;> exact fun same => absurd (List.cons.inj same).1 (by decide)

end Row

theorem toList_outlineText_cons (row : Row) (rows : List Row) :
    (outlineText ((row :: rows).map Row.line)).toList = (row :: rows).flatMap Row.line := by
  rw [outlineText, List.map_cons, List.isEmpty_cons, if_neg Bool.false_ne_true, String.toList_ofList,
    ← List.map_cons, List.flatMap_def]

/-- The text of an empty tree is no line. -/
theorem outlineText_cons_ne (row : Row) (rows : List Row) :
    outlineText ((row :: rows).map Row.line) ≠ outlineText [] := by
  intro same
  have texts := congrArg String.toList same
  rw [toList_outlineText_cons, List.flatMap_cons] at texts
  exact row.line_append_ne texts

/-- **The rows are known from the text of an outline.** -/
theorem outlineText_inj {rows rows' : List Row}
    (same : outlineText (rows.map Row.line) = outlineText (rows'.map Row.line)) : rows = rows' := by
  cases rows with
  | nil =>
    cases rows' with
    | nil => rfl
    | cons row' rows' => exact absurd same.symm (outlineText_cons_ne row' rows')
  | cons row rows =>
    cases rows' with
    | nil => exact absurd same (outlineText_cons_ne row rows)
    | cons row' rows' =>
      have texts := congrArg String.toList same
      rw [toList_outlineText_cons, toList_outlineText_cons] at texts
      exact Row.flatMap_line_inj texts

/-! ### The shape of a tree -/

section Shape

variable {arena : Arena α} {sub : Subtree α} {path : List Nat} {label : Bytes} {keyed : Bool}

/-- **The marks of a subtree are those of the nodes that child slots lead to** in an arena that holds
it. -/
theorem Arena.Holds.mark?_iff (holds : arena.Holds sub.nodes) :
    sub.mark? path = some (label, keyed) ↔ ∃ id node, Damage.reach arena sub.id path = some id ∧
      arena.node id = .ok node ∧ node.label = label ∧ node.keyed = keyed := by
  induction path generalizing sub with
  | nil =>
    have found : arena.node sub.id = .ok sub.top := holds.read sub.top_mem_nodes
    rw [Subtree.mark?, Option.some.injEq, Prod.mk.injEq]
    constructor
    · rintro ⟨here, keyed⟩
      exact ⟨sub.id, sub.top, rfl, found, here, keyed⟩
    · rintro ⟨id, node, ⟨⟩, found', here, keyed⟩
      cases found.symm.trans found'
      exact ⟨here, keyed⟩
  | cons slot path ih =>
    rw [Subtree.mark?, holds.reach_cons]
    cases here : sub.children[slot]? with
    | none =>
      refine iff_of_false (by rintro ⟨⟩) ?_
      rintro ⟨id, node, reach, _⟩
      cases reach
    | some child => exact ih (holds.under here)

namespace Tree

/-- **At the place that child slots lead to there is a node** with this label, at which a key ends or
not. -/
def At (tree : Tree α) (path : List Nat) (label : Bytes) (keyed : Bool) : Prop :=
  ∃ id node, tree.Meets path id node ∧ node.label = label ∧ node.keyed = keyed

/-- **Two trees have the same shape** when there is the same at every place of both. -/
def SameShape (tree : Tree α) (other : Tree β) : Prop :=
  ∀ path label keyed, tree.At path label keyed ↔ other.At path label keyed

variable {tree : Tree α} {other : Tree β} {trunk : Trunk α} {trunk' : Trunk β}

theorem Spans.at_iff (spans : tree.Spans trunk) :
    tree.At path label keyed ↔ trunk.mark? path = some (label, keyed) := by
  cases trunk with
  | none =>
    refine iff_of_false ?_ nofun
    rintro ⟨id, node, ⟨⟨root, start, _⟩, _⟩, _⟩
    cases start.symm.trans spans.root
  | some whole =>
    have holds : tree.arena.Holds whole.nodes := spans.holds
    show _ ↔ whole.mark? path = some (label, keyed)
    rw [holds.mark?_iff]
    constructor
    · rintro ⟨id, node, ⟨⟨root, start, reach⟩, found⟩, same⟩
      cases start.symm.trans spans.root
      exact ⟨id, node, reach, found, same⟩
    · rintro ⟨id, node, reach, found, same⟩
      exact ⟨id, node, ⟨⟨whole.id, spans.root, reach⟩, found⟩, same⟩

/-- **The shape of a tree is that of what its links span.** -/
theorem Spans.sameShape_iff (spans : tree.Spans trunk) (spans' : other.Spans trunk') :
    tree.SameShape other ↔ trunk.SameShape trunk' := by
  unfold SameShape Trunk.SameShape
  refine forall_congr' fun path => ?_
  simp only [spans.at_iff, spans'.at_iff]
  constructor
  · intro same
    exact Option.ext fun mark => same mark.1 mark.2
  · intro same label keyed
    rw [same]

/-- The outline of a tree is the text of the rows of what a walk visits. -/
theorem outline_of_rows (root : tree.root = trunk.map Subtree.id)
    (visits : tree.visits = .ok trunk.visits) :
    tree.outline = .ok (outlineText (trunk.rows.map Row.line)) := by
  rw [outline_of_visits root visits, trunk.map_line_visits]

/-- **Outlines are the same exactly when the shapes are.** -/
theorem outlineText_eq_iff (trunk : Trunk α) (trunk' : Trunk β) :
    outlineText (trunk.rows.map Row.line) = outlineText (trunk'.rows.map Row.line) ↔
      trunk.SameShape trunk' := by
  rw [← Trunk.rows_eq_iff]
  constructor
  · exact outlineText_inj
  · intro same
    rw [same]

/-- **What trees show has the same shape exactly when it has the same keys.** -/
theorem Shows.sameShape_iff (shows : tree.Shows trunk) (shows' : other.Shows trunk') :
    trunk.SameShape trunk' ↔ Seek.keys trunk.entries = Seek.keys trunk'.entries := by
  constructor
  · exact Trunk.SameShape.keys
  · intro same
    rw [← outlineText_eq_iff, ← trunk.map_line_visits, ← trunk'.map_line_visits,
      Trunk.lines_eq shows.sound shows'.sound same]

/-- Trees that operations lead to are linked. -/
theorem Reachable.linked (reachable : tree.Reachable) : tree.Linked := by
  obtain ⟨trunk, shows, -⟩ := reachable.exists_shows
  exact .of_holds shows.root shows.stores.toHolds

end Tree

end Shape

namespace Tree

/-- **An outline shows the shape of a tree, and nothing less.** Two trees whose links span a tree have
the same outline exactly when there is the same at every place of both. The links of trees that can
come about do, and two such trees have the same outline exactly when they have the same keys. -/
theorem outline_shows_shape :
    (∀ (tree : Tree α) (other : Tree β), tree.Linked → other.Linked → ∃ text text',
      tree.outline = .ok text ∧ other.outline = .ok text' ∧ (text = text' ↔ tree.SameShape other)) ∧
    (∀ tree : Tree α, tree.Reachable → tree.Linked) ∧
    ∀ (tree : Tree α) (other : Tree β), tree.Reachable → other.Reachable → ∃ text text',
      tree.outline = .ok text ∧ other.outline = .ok text' ∧
        (text = text' ↔ tree.keys = other.keys) := by
  refine ⟨fun tree other linked linked' => ?_, fun tree => Reachable.linked,
    fun tree other reachable reachable' => ?_⟩
  · refine ⟨_, _, outline_of_rows linked.spans.root linked.spans.visits,
      outline_of_rows linked'.spans.root linked'.spans.visits, ?_⟩
    rw [linked.spans.sameShape_iff linked'.spans]
    exact outlineText_eq_iff _ _
  · obtain ⟨trunk, shows, keys⟩ := reachable.exists_shows
    obtain ⟨trunk', shows', keys'⟩ := reachable'.exists_shows
    refine ⟨_, _, outline_of_rows shows.root shows.visits,
      outline_of_rows shows'.root shows'.visits, ?_⟩
    rw [keys, keys', ← shows.sameShape_iff shows']
    exact outlineText_eq_iff _ _

/-- A quote and a backslash before a quote are shown apart. -/
theorem outlines_of_quotes : ∃ tree other : Tree Nat, tree.Reachable ∧ other.Reachable ∧
    tree.Linked ∧ other.Linked ∧ tree.keys = {[0x22]} ∧ other.keys = {[0x5c, 0x22]} ∧
    tree.outline = .ok "\"\\\"\" key\n" ∧ other.outline = .ok "\"\\\\\\\"\" key\n" ∧
    tree.outline ≠ other.outline ∧ ¬ tree.SameShape other := by
  obtain ⟨shapes, links, keys⟩ := outline_shows_shape (α := Nat) (β := Nat)
  let bare : Tree Nat := ⟨⟨#[some ⟨[0x22], [], some 3⟩], [], 1, 64, 0⟩, some 0, 1, 1, 0⟩
  let led : Tree Nat := ⟨⟨#[some ⟨[0x5c, 0x22], [], some 3⟩], [], 1, 64, 0⟩, some 0, 1, 1, 0⟩
  have start := Reachable.empty (α := Nat) {} 0
  have first : bare.Reachable := start.runAll [.insert [0x22] 3] rfl
  have second : led.Reachable := start.runAll [.insert [0x5c, 0x22] 3] rfl
  have visited : bare.visits = .ok [⟨0, ⟨[0x22], [], some 3⟩, [0x22], 0⟩] := rfl
  have visited' : led.visits = .ok [⟨0, ⟨[0x5c, 0x22], [], some 3⟩, [0x5c, 0x22], 0⟩] := rfl
  have holds : bare.keys = {[0x22]} :=
    Set.ext fun _ => (first.mem_keys_iff visited).trans List.mem_singleton
  have holds' : led.keys = {[0x5c, 0x22]} :=
    Set.ext fun _ => (second.mem_keys_iff visited').trans List.mem_singleton
  obtain ⟨text, text', shown, shown', same⟩ := keys bare led first second
  obtain ⟨_, _, here, here', shape⟩ := shapes bare led (links bare first) (links led second)
  cases shown.symm.trans here
  cases shown'.symm.trans here'
  have apart : text ≠ text' := by
    intro equal
    have keys := same.mp equal
    rw [holds, holds', Set.singleton_eq_singleton_iff] at keys
    cases keys
  exact ⟨bare, led, first, second, links bare first, links led second, holds, holds', rfl, rfl,
    fun equal => apart (Except.ok.inj (shown.symm.trans (equal.trans shown'))),
    fun alike => apart (shape.mpr alike)⟩

end Tree

end RadixLog
