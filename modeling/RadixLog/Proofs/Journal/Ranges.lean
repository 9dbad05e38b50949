/-
**What a range has yet to hand out.**

A range between two bounds hands out the entries of the map that the tree files whose identifiers
both bounds admit, one by one, and then nothing more. Every key that it meets is the form of an
identifier, so that it never fails.

* `Bound.pick_from`, `Bound.pick_to`: the seek to a bound comes to the first identifier it admits;
* `Range.Leaves`: what is left of a range;
* `Range.Leaves.next`, `Range.Leaves.calls`, `Range.Leaves.take`: the first is handed out, and the
  others are left;
* `Journal.ascending_leaves`, `Journal.descending_leaves`: what a range hands out in all.
-/

import RadixLog.Proofs.Journal.Filing

namespace RadixLog

/-! ### Conditions along a list -/

section Conditions

variable {β : Type} {items : List β} {holds : β → Bool}

/-- A condition that items pass on to the ones before them holds up to some item. -/
theorem takeWhile_eq_filter (down : items.Pairwise fun a b => holds b → holds a) :
    items.takeWhile holds = items.filter holds := by
  induction items with
  | nil => rfl
  | cons first items ih =>
    obtain ⟨earlier, down⟩ := List.pairwise_cons.mp down
    by_cases here : holds first
    · rw [List.takeWhile_cons_of_pos here, List.filter_cons_of_pos here, ih down]
    · have nothing : items.filter holds = [] :=
        List.filter_eq_nil_iff.mpr fun item member good => here (earlier item member good)
      rw [List.takeWhile_cons_of_neg here, List.filter_cons_of_neg here, nothing]

/-- A condition that items pass on to the ones after them holds from some item on. -/
theorem filter_suffix (up : items.Pairwise fun a b => holds a → holds b) :
    items.filter holds <:+ items := by
  induction items with
  | nil => exact List.suffix_rfl
  | cons first items ih =>
    obtain ⟨later, up⟩ := List.pairwise_cons.mp up
    by_cases here : holds first
    · have all : items.filter holds = items :=
        List.filter_eq_self.mpr fun item member => later item member here
      rw [List.filter_cons_of_pos here, all]
    · rw [List.filter_cons_of_neg here]
      exact (ih up).trans (List.suffix_cons _ _)

end Conditions

/-! ### Bounds -/

namespace Bound

variable {a b : EntryId}

theorem admitsFrom_of_le (lower : Bound) (le : a ≤ b) (admits : lower.admitsFrom a = true) :
    lower.admitsFrom b = true := by
  cases lower with
  | unbounded => rfl
  | including bound => exact decide_eq_true (le_trans (of_decide_eq_true admits) le)
  | excluding bound => exact decide_eq_true (lt_of_lt_of_le (of_decide_eq_true admits) le)

theorem admitsTo_of_le (upper : Bound) (le : a ≤ b) (admits : upper.admitsTo b = true) :
    upper.admitsTo a = true := by
  cases upper with
  | unbounded => rfl
  | including bound => exact decide_eq_true (le_trans le (of_decide_eq_true admits))
  | excluding bound => exact decide_eq_true (lt_of_le_of_lt le (of_decide_eq_true admits))

/-- The operator that seeks a lower bound. -/
def opFrom : Bound → Seek
  | .unbounded => .min
  | .including _ => .ge
  | .excluding _ => .gt

/-- The operator that seeks an upper bound. -/
def opTo : Bound → Seek
  | .unbounded => .max
  | .including _ => .le
  | .excluding _ => .lt

/-- The target that a bound is sought by. -/
def target : Bound → Bytes
  | .unbounded => []
  | .including id => id.encode
  | .excluding id => id.encode

/-- A condition on encoded identifiers is one on identifiers. -/
theorem filter_underCode (items : List (EntryId × Entry)) (holds : Bytes → Bool)
    (admits : EntryId → Bool) (same : ∀ id : EntryId, holds id.encode = admits id) :
    (items.map (underCode EntryId.encode)).filter (fun entry => holds entry.1) =
      (items.filter fun item => admits item.1).map (underCode EntryId.encode) := by
  rw [List.filter_map]
  congr 1
  exact List.filter_congr fun item _ => same item.1

/-- **Seeking a lower bound** comes to the first identifier that it admits. -/
theorem pick_from (lower : Bound) (items : List (EntryId × Entry)) :
    lower.opFrom.pick lower.target (items.map (underCode EntryId.encode)) =
      ((items.filter fun item => lower.admitsFrom item.1).map
        (underCode EntryId.encode)).head? := by
  cases lower with
  | unbounded =>
    have all : (items.filter fun item => unbounded.admitsFrom item.1) = items :=
      List.filter_eq_self.mpr fun _ _ => rfl
    rw [all]
    rfl
  | including bound =>
    exact congrArg List.head? (filter_underCode items (fun key => bound.encode ≤ key)
      (including bound).admitsFrom fun id => decide_eq_decide.mpr EntryId.encode_le_encode)
  | excluding bound =>
    exact congrArg List.head? (filter_underCode items (fun key => bound.encode < key)
      (excluding bound).admitsFrom fun id => decide_eq_decide.mpr EntryId.encode_lt_encode)

/-- **Seeking an upper bound** comes to the last identifier that it admits. -/
theorem pick_to (upper : Bound) (items : List (EntryId × Entry)) :
    upper.opTo.pick upper.target (items.map (underCode EntryId.encode)) =
      ((items.filter fun item => upper.admitsTo item.1).map
        (underCode EntryId.encode)).getLast? := by
  cases upper with
  | unbounded =>
    have all : (items.filter fun item => unbounded.admitsTo item.1) = items :=
      List.filter_eq_self.mpr fun _ _ => rfl
    rw [all]
    rfl
  | including bound =>
    exact congrArg List.getLast? (filter_underCode items (fun key => key ≤ bound.encode)
      (including bound).admitsTo fun id => decide_eq_decide.mpr EntryId.encode_le_encode)
  | excluding bound =>
    exact congrArg List.getLast? (filter_underCode items (fun key => key < bound.encode)
      (excluding bound).admitsTo fun id => decide_eq_decide.mpr EntryId.encode_lt_encode)

end Bound

/-! ### Ranges -/

namespace Range

/-- **What a range has yet to hand out**: what its scan has, up to the first identifier that the
range does not admit. -/
def Leaves (range : Range) (items : List (EntryId × Entry)) : Prop :=
  ∃ left : List (EntryId × Entry), range.scan.Leaves (left.map (underCode EntryId.encode)) ∧
    items = if range.done then [] else left.takeWhile fun item => range.admits item.1

variable {range : Range} {items : List (EntryId × Entry)}

/-- What a range admits depends on its direction and its bound. -/
theorem admits_scan {scan : Scan Entry} (direction : scan.direction = range.scan.direction) :
    Range.admits { range with scan } = range.admits := by
  funext id
  rw [admits, admits, direction]

/-- **A range hands out the first of what is left**, and leaves the others. -/
theorem Leaves.next (leaves : range.Leaves items) :
    ∃ later, range.next = .ok (items.head?, later) ∧ later.Leaves items.tail := by
  obtain ⟨left, scans, rest⟩ := leaves
  by_cases finished : range.done = true
  · rw [if_pos finished] at rest
    subst rest
    refine ⟨range, ?_, left, scans, (if_pos finished).symm⟩
    rw [Range.next, if_pos finished]
    rfl
  · rw [if_neg finished] at rest
    subst rest
    obtain ⟨scan, goes, goesOn, _, direction⟩ := scans.next
    have same := admits_scan direction
    cases left with
    | nil =>
      refine ⟨{ range with scan }, ?_, [], goesOn, (ite_self _).symm⟩
      rw [Range.next, if_neg finished, goes]
      rfl
    | cons item left =>
      have goes : range.scan.next = .ok (some (item.1.encode, item.2), scan) := goes
      by_cases inside : range.admits item.1 = true
      · rw [List.takeWhile_cons, if_pos inside]
        refine ⟨{ range with scan }, ?_, left, goesOn, ?_⟩
        · rw [Range.next, if_neg finished, goes, ok_bind]
          dsimp only
          rw [EntryId.decode?_encode]
          exact if_pos inside
        · rw [if_neg finished, same]
          rfl
      · rw [List.takeWhile_cons, if_neg inside]
        refine ⟨{ range with scan, done := true }, ?_, left, goesOn, rfl⟩
        rw [Range.next, if_neg finished, goes, ok_bind]
        dsimp only
        rw [EntryId.decode?_encode]
        exact if_neg inside

/-- **Every call for the next entry is answered**, with the entries that are left, and then with
none. -/
theorem Leaves.calls (leaves : range.Leaves items) (count : Nat) :
    range.calls count = .ok ((List.range count).map fun place => items[place]?) := by
  induction count generalizing range items with
  | zero => rfl
  | succ count ih =>
    obtain ⟨later, goes, left⟩ := leaves.next
    rw [Range.calls, goes, ok_bind]
    dsimp only
    rw [ih left, ok_bind, pure_eq_ok, List.range_succ_eq_map, List.map_cons, List.map_map,
      List.head?_eq_getElem?]
    congr 2
    exact List.map_congr_left fun place _ => List.getElem?_tail

/-- **The next entries are those that are left**, in this order. -/
theorem Leaves.take (leaves : range.Leaves items) (count : Nat) :
    range.take count = .ok (items.take count) := by
  induction count generalizing range items with
  | zero => rfl
  | succ count ih =>
    obtain ⟨later, goes, left⟩ := leaves.next
    rw [Range.take, goes, ok_bind]
    cases items with
    | nil => rfl
    | cons item items =>
      dsimp only [List.head?_cons]
      rw [ih left]
      rfl

/-- **A range is listed as what is left of it**, if that is not more than the tree has room for. -/
theorem Leaves.toList (leaves : range.Leaves items)
    (fits : items.length ≤ range.scan.tree.arena.slots.size) : range.toList = .ok items := by
  rw [Range.toList, leaves.take, List.take_of_length_le (Nat.le_succ_of_le fits)]

end Range

/-! ### Ranges of a journal -/

theorem IdMap.admitsFrom_later (map : IdMap) (lower : Bound) :
    map.toList.Pairwise fun a b => lower.admitsFrom a.1 → lower.admitsFrom b.1 :=
  map.ascend.imp fun less => lower.admitsFrom_of_le (le_of_lt less)

theorem IdMap.admitsTo_earlier (map : IdMap) (upper : Bound) :
    map.toList.Pairwise fun a b => upper.admitsTo b.1 → upper.admitsTo a.1 :=
  map.ascend.imp fun less => upper.admitsTo_of_le (le_of_lt less)

namespace Journal

variable {journal : Journal} {map : IdMap}

/-- **A range from its least identifier on** hands out what is between its bounds. -/
theorem ascending_leaves (files : journal.tree.Files map) (lower upper : Bound) :
    ∃ range, journal.ascending lower upper = .ok range ∧ range.scan.tree = journal.tree ∧
      range.Leaves (map.between lower upper) := by
  obtain ⟨register, represents, mirrors⟩ := files
  -- What the lower bound admits is the end of all entries, and the scan starts where it begins.
  have suffix := (filter_suffix (map.admitsFrom_later lower)).map (underCode EntryId.encode)
  have first := lower.pick_from map.toList
  rw [← mirrors.toList EntryId.codes] at suffix first
  have along : _ <:+ Direction.forward.along register.map.toList := suffix
  obtain ⟨position, starts, leaves⟩ := represents.scan_leaves along first
  refine ⟨⟨⟨journal.tree, position, .forward, true⟩, upper, false⟩, ?_, rfl, _, leaves, ?_⟩
  · have seeks : journal.ascending lower upper =
        journal.tree.scan lower.opFrom lower.target >>= fun scan =>
          .ok ⟨scan.towards .forward, upper, false⟩ := by cases lower <;> rfl
    rw [seeks, starts]
    rfl
  · show map.between lower upper = List.takeWhile (fun item => upper.admitsTo item.1) _
    rw [takeWhile_eq_filter ((map.admitsTo_earlier upper).filter _), List.filter_filter]
    exact List.filter_congr fun item _ => Bool.and_comm _ _

/-- **A range from its greatest identifier on** hands out the same, the other way round. -/
theorem descending_leaves (files : journal.tree.Files map) (lower upper : Bound) :
    ∃ range, journal.descending lower upper = .ok range ∧ range.scan.tree = journal.tree ∧
      range.Leaves (map.between lower upper).reverse := by
  obtain ⟨register, represents, mirrors⟩ := files
  -- What the upper bound admits is the beginning of all entries, so read backwards it is their end.
  have initial : map.toList.filter (fun item => upper.admitsTo item.1) <+: map.toList := by
    rw [← takeWhile_eq_filter (map.admitsTo_earlier upper)]
    exact List.takeWhile_prefix _
  have front := initial.map (underCode EntryId.encode)
  have last := upper.pick_to map.toList
  rw [← mirrors.toList EntryId.codes] at front last
  rw [← List.head?_reverse, ← List.map_reverse] at last
  have along : _ <:+ Direction.backward.along register.map.toList := List.reverse_suffix.mpr front
  rw [← List.map_reverse] at along
  obtain ⟨position, starts, leaves⟩ := represents.scan_leaves along last
  refine ⟨⟨⟨journal.tree, position, .backward, true⟩, lower, false⟩, ?_, rfl, _, leaves, ?_⟩
  · have seeks : journal.descending lower upper =
        journal.tree.scan upper.opTo upper.target >>= fun scan =>
          .ok ⟨scan.towards .backward, lower, false⟩ := by cases upper <;> rfl
    rw [seeks, starts]
    rfl
  · show (map.between lower upper).reverse = List.takeWhile (fun item => lower.admitsFrom item.1) _
    have turned : (map.toList.filter fun item => upper.admitsTo item.1).reverse.Pairwise
        fun a b => lower.admitsFrom b.1 → lower.admitsFrom a.1 :=
      List.pairwise_reverse.mpr ((map.admitsFrom_later lower).filter _)
    rw [takeWhile_eq_filter turned, List.filter_reverse, List.filter_filter]
    rfl

/-- Between two bounds there are no more entries than the tree has room for. -/
theorem length_between_le (files : journal.tree.Files map) (lower upper : Bound) :
    (map.between lower upper).length ≤ journal.tree.arena.slots.size := by
  calc (map.between lower upper).length
      ≤ map.toList.length := List.length_filter_le _ _
    _ = map.size := Std.ExtTreeMap.length_toList
    _ ≤ journal.tree.arena.slots.size := files.size_le

/-- **The range without bounds lists all entries.** -/
theorem ascending_files (files : journal.tree.Files map) :
    ∃ range, journal.ascending .unbounded .unbounded = .ok range ∧
      range.toList = .ok map.toList := by
  obtain ⟨range, starts, tree, leaves⟩ := ascending_leaves files .unbounded .unbounded
  have room := length_between_le files .unbounded .unbounded
  rw [IdMap.between_unbounded] at leaves room
  exact ⟨range, starts, leaves.toList (tree ▸ room)⟩

/-- **The first entry of a journal** has the least identifier. -/
theorem first_files (files : journal.tree.Files map) : journal.first = .ok map.toList.head? := by
  obtain ⟨range, starts, _, leaves⟩ := ascending_leaves files .unbounded .unbounded
  obtain ⟨later, goes, _⟩ := leaves.next
  rw [first, starts, ok_bind, goes, IdMap.between_unbounded]
  rfl

/-- **The last entry of a journal** has the greatest identifier. -/
theorem last_files (files : journal.tree.Files map) : journal.last = .ok map.toList.getLast? := by
  obtain ⟨range, starts, _, leaves⟩ := descending_leaves files .unbounded .unbounded
  obtain ⟨later, goes, _⟩ := leaves.next
  rw [last, starts, ok_bind, goes, IdMap.between_unbounded, List.head?_reverse]
  rfl

end Journal

end RadixLog
