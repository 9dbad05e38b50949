/-
**Trees under encoded keys.**

Keys of any ordered type can be kept in a tree under forms that stand in the same order. The tree is
then a finite map from these keys: operations, seeks and scans can be said of the keys alone, and the
forms do not show.

* `Tree.Coded`: a tree holds a map from keys under their forms;
* `Seek.Asks`, `Seek.wants_iff_asks`: the key that an operator asks for in any order;
* `Tree.Coded.scan_asks`: a seek finds it;
* `Tree.Coded.scan_lists`: a scan from an end meets the keys in order;
* `Tree.Coded.scan_reads`: whatever its moves, a scan is at a key of the map or beyond an end.
-/

import RadixLog.Proofs.Cursor.Directed
import RadixLog.Proofs.Encoded

namespace RadixLog

variable {κ α : Type} {cmp : κ → κ → Ordering} {encode : κ → Bytes}

/-! ### Keys asked for -/

/-- A key of these that none of them comes before. -/
def Least (cmp : κ → κ → Ordering) (keys : Set κ) (key : κ) : Prop :=
  key ∈ keys ∧ ∀ other ∈ keys, cmp key other ≠ .gt

/-- A key of these that comes before none of them. -/
def Greatest (cmp : κ → κ → Ordering) (keys : Set κ) (key : κ) : Prop :=
  key ∈ keys ∧ ∀ other ∈ keys, cmp other key ≠ .gt

/-- **The key that an operator asks for**, among keys in any order. -/
def Seek.Asks (cmp : κ → κ → Ordering) (op : Seek) (keys : Set κ) (target key : κ) : Prop :=
  match op with
  | .eq => key = target ∧ target ∈ keys
  | .gt => Least cmp {other ∈ keys | cmp target other = .lt} key
  | .ge => Least cmp {other ∈ keys | cmp target other ≠ .gt} key
  | .lt => Greatest cmp {other ∈ keys | cmp other target = .lt} key
  | .le => Greatest cmp {other ∈ keys | cmp other target ≠ .gt} key
  | .min => Least cmp keys key
  | .max => Greatest cmp keys key

namespace Codes

theorem lt_iff (codes : Codes encode cmp) {a b : κ} : encode a < encode b ↔ cmp a b = .lt := by
  rw [← codes, Bytes.order_eq_lt]

theorem le_iff (codes : Codes encode cmp) {a b : κ} : encode a ≤ encode b ↔ cmp a b ≠ .gt := by
  rw [← codes, ne_eq, Bytes.order_eq_gt, not_lt]

variable [Std.LawfulEqCmp cmp] {keys : Set κ} {key : κ}

theorem isLeast_iff (codes : Codes encode cmp) :
    IsLeast (encode '' keys) (encode key) ↔ Least cmp keys key := by
  unfold IsLeast Least lowerBounds
  rw [codes.injective.mem_set_image]
  simp only [Set.mem_ofPred_eq, Set.forall_mem_image, codes.le_iff]

theorem isGreatest_iff (codes : Codes encode cmp) :
    IsGreatest (encode '' keys) (encode key) ↔ Greatest cmp keys key := by
  unfold IsGreatest Greatest upperBounds
  rw [codes.injective.mem_set_image]
  simp only [Set.mem_ofPred_eq, Set.forall_mem_image, codes.le_iff]

/-- The forms that satisfy a condition are those of the keys that do. -/
theorem sep_image {holds : Bytes → Prop} {good : κ → Prop}
    (same : ∀ key, holds (encode key) ↔ good key) :
    {code ∈ encode '' keys | holds code} = encode '' {key ∈ keys | good key} := by
  ext code
  constructor
  · rintro ⟨⟨key, member, rfl⟩, held⟩
    exact ⟨key, ⟨member, (same key).mp held⟩, rfl⟩
  · rintro ⟨key, ⟨member, held⟩, rfl⟩
    exact ⟨⟨key, member, rfl⟩, (same key).mpr held⟩

end Codes

/-- **Asking for a form is asking for its key.** -/
theorem Seek.wants_iff_asks [Std.LawfulEqCmp cmp] (codes : Codes encode cmp) {op : Seek}
    {keys : Set κ} {target key : κ} :
    op.Wants (encode '' keys) (encode target) (encode key) ↔ op.Asks cmp keys target key := by
  unfold Wants Asks
  cases op with
  | eq =>
    dsimp only
    rw [codes.injective.eq_iff, codes.injective.mem_set_image]
  | gt =>
    have above : {code ∈ encode '' keys | encode target < code} =
      encode '' {key ∈ keys | cmp target key = .lt} := Codes.sep_image fun _ => codes.lt_iff
    dsimp only
    rw [above, codes.isLeast_iff]
  | ge =>
    have above : {code ∈ encode '' keys | encode target ≤ code} =
      encode '' {key ∈ keys | cmp target key ≠ .gt} := Codes.sep_image fun _ => codes.le_iff
    dsimp only
    rw [above, codes.isLeast_iff]
  | lt =>
    have below : {code ∈ encode '' keys | code < encode target} =
      encode '' {key ∈ keys | cmp key target = .lt} := Codes.sep_image fun _ => codes.lt_iff
    dsimp only
    rw [below, codes.isGreatest_iff]
  | le =>
    have below : {code ∈ encode '' keys | code ≤ encode target} =
      encode '' {key ∈ keys | cmp key target ≠ .gt} := Codes.sep_image fun _ => codes.le_iff
    dsimp only
    rw [below, codes.isGreatest_iff]
  | min => exact codes.isLeast_iff
  | max => exact codes.isGreatest_iff

/-! ### Trees -/

/-- The operator that asks for the first key in a direction. -/
def Direction.outset : Direction → Seek
  | .forward => .min
  | .backward => .max

variable [Std.TransCmp cmp] {tree : Tree α} {map : Std.ExtTreeMap κ α cmp}

/-- **A tree holds a map from keys under their forms.** -/
def Tree.Coded (encode : κ → Bytes) (tree : Tree α) (map : Std.ExtTreeMap κ α cmp) : Prop :=
  ∃ register, tree.Represents register ∧ Mirrors encode register.map map

namespace Tree.Coded

theorem empty (options : TreeOptions) (identity : Nat) :
    Tree.Coded encode (.empty options identity) (∅ : Std.ExtTreeMap κ α cmp) :=
  ⟨_, .empty options identity, .empty⟩

theorem find? (coded : tree.Coded encode map) (key : κ) :
    tree.find? (encode key) = .ok map[key]? := by
  obtain ⟨register, represents, mirrors⟩ := coded
  rw [represents.find?, mirrors.getElem?]

theorem insert (coded : tree.Coded encode map) (codes : Codes encode cmp) (key : κ) (value : α) :
    ∃ change, tree.insert (encode key) value = .ok change ∧ change.previous = map[key]? ∧
      change.tree.Coded encode (map.insert key value) := by
  obtain ⟨register, represents, mirrors⟩ := coded
  obtain ⟨change, inserts, follows⟩ := represents.insert (encode key) value
  refine ⟨change, inserts, ?_, _, follows.represents, mirrors.insert codes key value⟩
  rw [follows.previous]
  exact mirrors.getElem? key

theorem remove (coded : tree.Coded encode map) (codes : Codes encode cmp) (key : κ) :
    ∃ change, tree.remove (encode key) = .ok change ∧ change.previous = map[key]? ∧
      change.tree.Coded encode (map.erase key) := by
  obtain ⟨register, represents, mirrors⟩ := coded
  obtain ⟨change, removes, follows⟩ := represents.remove (encode key)
  refine ⟨change, removes, ?_, _, follows.represents, mirrors.erase codes key⟩
  rw [follows.previous]
  exact mirrors.getElem? key

variable [Std.LawfulEqCmp cmp]

theorem size (coded : tree.Coded encode map) (codes : Codes encode cmp) :
    tree.size = map.size := by
  obtain ⟨register, represents, mirrors⟩ := coded
  rw [represents.size, mirrors.size codes]

/-- **The keys of the tree are the forms of the keys of the map.** -/
theorem keys_eq (coded : tree.Coded encode map) (codes : Codes encode cmp) :
    tree.keys = encode '' {key | key ∈ map} := by
  obtain ⟨register, represents, mirrors⟩ := coded
  ext code
  rw [represents.keys_eq]
  unfold Seek.keys
  rw [mirrors.toList codes]
  constructor
  · rintro ⟨value, found⟩
    obtain ⟨entry, inside, same⟩ := List.mem_map.mp found
    refine ⟨entry.1, ?_, congrArg Prod.fst same⟩
    have read := Std.ExtTreeMap.mem_toList_iff_getElem?_eq_some.mp inside
    exact Std.ExtTreeMap.mem_iff_isSome_getElem?.mpr (by rw [read]; rfl)
  · rintro ⟨key, member, rfl⟩
    obtain ⟨value, read⟩ :=
      Option.isSome_iff_exists.mp (Std.ExtTreeMap.mem_iff_isSome_getElem?.mp member)
    exact ⟨value, List.mem_map.mpr
      ⟨(key, value), Std.ExtTreeMap.mem_toList_iff_getElem?_eq_some.mpr read, rfl⟩⟩

/-- **A seek comes to the key that its operator asks for**, with the value that the map gives it, or
beyond the end that the operator looks towards. -/
theorem scan_asks (coded : tree.Coded encode map) (codes : Codes encode cmp) (op : Seek)
    (target : κ) : ∃ scan, tree.scan op (encode target) = .ok scan ∧
      ((∃ key value, op.Asks cmp {key | key ∈ map} target key ∧ map[key]? = some value ∧
          scan.position.key? = some (encode key) ∧
          scan.current = .ok (some (encode key, value))) ∨
        ((∀ key, ¬ op.Asks cmp {key | key ∈ map} target key) ∧ scan.position = op.beyond ∧
          scan.current = .ok none)) := by
  have keys := coded.keys_eq codes
  obtain ⟨register, represents, mirrors⟩ := coded
  obtain ⟨trunk, shows, entries⟩ := represents.shows
  obtain ⟨position, goes, reads⟩ := shows.locate op (encode target)
  rw [represents.keys_eq] at keys
  rw [entries] at reads
  refine ⟨⟨tree, position, .default, true⟩, ?_, ?_⟩
  · rw [Tree.scan, Scan.seek, Scan.ofTree, goes]
    rfl
  cases picked : op.pick (encode target) register.map.toList with
  | some entry =>
    rw [picked] at reads
    have wants := Seek.wants_of_pick register.map.ascend picked
    have found := Std.ExtTreeMap.mem_toList_iff_getElem?_eq_some.mp (Seek.pick_mem picked)
    obtain ⟨key, same⟩ := mirrors.encoded entry.1
      (Std.ExtTreeMap.mem_iff_isSome_getElem?.mpr (by rw [found]; rfl))
    rw [keys, ← same, Seek.wants_iff_asks codes] at wants
    rw [← same, mirrors.getElem?] at found
    refine .inl ⟨key, entry.2, wants, found, ?_, ?_⟩
    · show position.key? = some (encode key)
      rw [← Position.place_key?, Position.On.place reads, same]
      rfl
    · rw [Scan.current, shows.entryAt reads, same]
  | none =>
    rw [picked] at reads
    obtain rfl : position = op.beyond := reads
    refine .inr ⟨fun key asks => ?_, rfl, by cases op <;> rfl⟩
    refine Seek.not_wants_of_pick picked (encode key) ?_
    rwa [keys, Seek.wants_iff_asks codes]

/-- **A scan from an end meets the keys in the order of its direction**, each once: after some calls
it has handed out as many entries, if there are so many, and is at the key of the last one. -/
theorem scan_lists (coded : tree.Coded encode map) (codes : Codes encode cmp)
    (direction : Direction) : ∃ begun, tree.scan direction.outset [] = .ok begun ∧
      ∀ count, ∃ later, (begun.towards direction).take (count + 1) =
          .ok (((direction.along map.toList).take (count + 1)).map (underCode encode), later) ∧
        later.position.key? =
          (direction.along map.toList)[count]?.map fun entry => encode entry.1 := by
  obtain ⟨register, represents, mirrors⟩ := coded
  have along : direction.along register.map.toList =
      (direction.along map.toList).map (underCode encode) := by
    rw [mirrors.toList codes]
    cases direction with
    | forward => rfl
    | backward => exact List.map_reverse.symm
  have first : direction.outset.pick [] register.map.toList =
      (direction.along register.map.toList).head? := by
    cases direction with
    | forward => rfl
    | backward => exact List.head?_reverse.symm
  obtain ⟨position, starts, leaves⟩ := represents.scan_leaves List.suffix_rfl first
  refine ⟨_, starts, fun count => ?_⟩
  obtain ⟨later, takes, there⟩ := leaves.take_key count
  refine ⟨later, ?_, ?_⟩
  · rw [List.map_take, ← along]
    exact takes
  · rw [there, along, List.getElem?_map, Option.map_map]
    rfl

/-- **Whatever its moves, a scan is at a key of the map or beyond an end.** -/
theorem scan_reads (coded : tree.Coded encode map) (codes : Codes encode cmp)
    (moves : List Scan.Move) : ∃ items scan, (Scan.ofTree tree).runAll moves = .ok (items, scan) ∧
      ∀ code, scan.position.key? = some code → ∃ key ∈ map, encode key = code := by
  have keys := coded.keys_eq codes
  obtain ⟨register, represents, mirrors⟩ := coded
  obtain ⟨trunk, shows, entries⟩ := represents.shows
  obtain ⟨scan, runs, sweeps⟩ := (Scan.Sweeps.start tree trunk).runAll shows entries moves
  refine ⟨_, scan, runs, fun code here => ?_⟩
  have member : code ∈ tree.keys := by
    rw [represents.keys_eq, ← entries]
    cases position : scan.position with
    | positioned trail =>
      have fits := sweeps.fits
      rw [position] at fits here
      obtain ⟨entry, on⟩ := fits
      have place : Place.on trail.key = .on entry.1 := Position.On.place on
      rw [← Option.some.inj here, Place.on.inj place]
      exact ⟨entry.2, Position.On.mem on⟩
    | beforeFirst =>
      rw [position] at here
      cases here
    | afterLast =>
      rw [position] at here
      cases here
  rwa [keys] at member

end Tree.Coded

end RadixLog
