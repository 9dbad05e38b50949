/-
**The log of a journal.**

A log is what a journal promises of its entries, without the tree: a finite map from identifiers to
entries, the last identifier given out, and the number of entries ever added. A log does not choose
identifiers. It takes any one above the last that an append was given.

* `IdMap.keep`: the greatest identifiers of a map;
* `Log.Step`, `Log.Run`: how a log answers calls;
* `Log.Run.issued_ascend`: identifiers given out in a run ascend;
* `Log.Run.ranged`: the identifiers in the map were given out;
* `Log.Run.bounded`: a log with a greatest size keeps to it.
-/

import RadixLog.Journal.Hub
import RadixLog.Proofs.EntryId.Order

namespace RadixLog

/-! ### Maps from identifiers -/

/-- A finite map from identifiers to entries, in the order of identifiers. -/
abbrev IdMap := Std.ExtTreeMap EntryId Entry EntryId.order

namespace IdMap

/-- The map with only its `count` greatest identifiers, those with fewer than `count` above them. -/
def keep (map : IdMap) (count : Nat) : IdMap :=
  map.filter fun id _ => map.toList.countP (fun item => id < item.1) < count

/-- The entries between two bounds, in ascending order of identifiers. -/
def between (map : IdMap) (lower upper : Bound) : List (EntryId × Entry) :=
  map.toList.filter fun item => lower.admitsFrom item.1 && upper.admitsTo item.1

theorem ascend (map : IdMap) : map.toList.Pairwise fun a b => a.1 < b.1 := map.ordered_keys_toList

theorem between_unbounded (map : IdMap) : map.between .unbounded .unbounded = map.toList :=
  List.filter_eq_self.mpr fun _ _ => rfl

theorem filter_above {items : List (EntryId × Entry)} (count : Nat)
    (ascend : items.Pairwise fun a b => a.1 < b.1) :
    items.filter (fun item => items.countP (fun other => item.1 < other.1) < count) =
      items.drop (items.length - count) := by
  induction items with
  | nil => rw [List.filter_nil, List.drop_nil]
  | cons first items ih =>
    obtain ⟨least, ascend⟩ := List.pairwise_cons.mp ascend
    have all : (first :: items).countP (fun other => first.1 < other.1) = items.length := by
      rw [List.countP_cons_of_neg (by simp), List.countP_eq_length]
      exact fun other member => decide_eq_true (least other member)
    have others : items.filter (fun item =>
          (first :: items).countP (fun other => item.1 < other.1) < count) =
        items.drop (items.length - count) := by
      rw [← ih ascend]
      refine List.filter_congr fun item member => ?_
      rw [List.countP_cons_of_neg (by simpa using le_of_lt (least item member))]
    rw [List.filter_cons, others, all, List.length_cons]
    by_cases kept : items.length < count
    · have whole : items.length + 1 - count = 0 := by omega
      have rest : items.length - count = 0 := by omega
      rw [if_pos (decide_eq_true kept), whole, rest, List.drop_zero, List.drop_zero]
    · have shorter : items.length + 1 - count = items.length - count + 1 := by omega
      rw [if_neg (by simpa using kept), shorter, List.drop_succ_cons]

/-- **Keeping the greatest identifiers** drops the first entries. -/
theorem toList_keep (map : IdMap) (count : Nat) :
    (map.keep count).toList = map.toList.drop (map.size - count) := by
  rw [keep, Std.ExtTreeMap.toList_filter, filter_above count map.ascend,
    Std.ExtTreeMap.length_toList]

/-- Keeping at least as many as there are keeps all. -/
theorem keep_of_size_le {map : IdMap} {count : Nat} (fits : map.size ≤ count) :
    map.keep count = map := by
  refine Std.ExtTreeMap.ext_toList (.of_eq ?_)
  rw [toList_keep, Nat.sub_eq_zero_of_le fits, List.drop_zero]

theorem size_keep (map : IdMap) (count : Nat) : (map.keep count).size ≤ count := by
  rw [← Std.ExtTreeMap.length_toList, toList_keep, List.length_drop, Std.ExtTreeMap.length_toList]
  omega

theorem size_keep_le (map : IdMap) (count : Nat) : (map.keep count).size ≤ map.size :=
  Std.ExtTreeMap.size_filter_le_size

theorem mem_of_mem_keep {map : IdMap} {count : Nat} {id : EntryId} (member : id ∈ map.keep count) :
    id ∈ map := Std.ExtTreeMap.mem_of_mem_filter member

end IdMap

/-! ### Logs -/

/-- The identifier that a reply gives out. -/
def JournalReply.issued? : JournalReply → Option EntryId
  | .appended (.ok given) => some given
  | _ => none

/-- The identifiers that replies give out, in order. -/
def issued (replies : List JournalReply) : List EntryId := replies.filterMap JournalReply.issued?

theorem issued_cons (reply : JournalReply) (replies : List JournalReply) :
    issued (reply :: replies) = reply.issued?.toList ++ issued replies := by
  rw [issued, List.filterMap_cons]
  cases reply.issued? <;> rfl

/-- A map from identifiers to entries, the last identifier given out, and the number of entries ever
added. -/
structure Log where
  map : IdMap
  lastId : EntryId
  added : Nat

namespace Log

/-- A log without entries. -/
def empty : Log := ⟨∅, .least, 0⟩

/-- Takes an entry away, and nothing else. -/
def remove (log : Log) (id : EntryId) : Log := { log with map := log.map.erase id }

/-- Keeps the `maxSize` greatest identifiers. -/
def trim (log : Log) (maxSize : Nat) : Log := { log with map := log.map.keep maxSize }

/-- Adds an entry under an identifier given out. -/
def add (log : Log) (id : EntryId) (entry : Entry) : Log :=
  ⟨log.map.insert id entry, id, log.added + 1⟩

/-- Adds an entry and, if there is a greatest size, trims to it. -/
def append (log : Log) (maxSize : Option Nat) (id : EntryId) (entry : Entry) : Log :=
  match maxSize with
  | none => log.add id entry
  | some maxSize => (log.add id entry).trim maxSize

/-- **How a log answers a call**, and the log after it. -/
inductive Step (maxSize : Option Nat) (log : Log) : JournalCall → JournalReply → Log → Prop where
  /-- An append that is given an identifier above the last adds its entry. -/
  | appended {request : IdRequest} {entry : Entry} {now : UInt64} {id : EntryId}
    (above : log.lastId < id) :
    Step maxSize log (.append request entry now) (.appended (.ok id)) (log.append maxSize id entry)
  /-- An append that is refused changes nothing. -/
  | refused {request : IdRequest} {entry : Entry} {now : UInt64} {refusal : Error} :
    Step maxSize log (.append request entry now) (.appended (.error refusal)) log
  | get (id : EntryId) : Step maxSize log (.get id) (.entry log.map[id]?) log
  | remove (id : EntryId) : Step maxSize log (.remove id) (.entry log.map[id]?) (log.remove id)
  | trim (size : Nat) : Step maxSize log (.trim size) (.count (log.map.size - size)) (log.trim size)
  | size : Step maxSize log .size (.count log.map.size) log
  | isEmpty : Step maxSize log .isEmpty (.flag log.map.isEmpty) log
  | lastId : Step maxSize log .lastId (.id log.lastId) log
  | range (lower upper : Bound) (limit : Nat) :
    Step maxSize log (.range lower upper limit)
      (.items ((log.map.between lower upper).take limit)) log

/-- **How a log answers calls** made one after the other, and the log after them. -/
inductive Run (maxSize : Option Nat) : Log → List JournalCall → List JournalReply → Log → Prop where
  | nil (log : Log) : Run maxSize log [] [] log
  | cons {log middle last : Log} {call : JournalCall} {reply : JournalReply}
    {calls : List JournalCall} {replies : List JournalReply}
    (first : Step maxSize log call reply middle) (rest : Run maxSize middle calls replies last) :
    Run maxSize log (call :: calls) (reply :: replies) last

/-- The identifiers in the map were given out: they are above the least and not above the last. -/
def Ranged (log : Log) : Prop := ∀ id ∈ log.map, .least < id ∧ id ≤ log.lastId

/-- The map is no larger than the greatest size, if there is one. -/
def Bounded (maxSize : Option Nat) (log : Log) : Prop :=
  ∀ size, maxSize = some size → log.map.size ≤ size

variable {log later : Log} {maxSize : Option Nat} {call : JournalCall} {reply : JournalReply}
  {calls : List JournalCall} {replies : List JournalReply} {id : EntryId}

/-! ### One call -/

@[simp]
theorem append_lastId (log : Log) (maxSize : Option Nat) (id : EntryId) (entry : Entry) :
    (log.append maxSize id entry).lastId = id := by
  cases maxSize <;> rfl

@[simp]
theorem append_added (log : Log) (maxSize : Option Nat) (id : EntryId) (entry : Entry) :
    (log.append maxSize id entry).added = log.added + 1 := by
  cases maxSize <;> rfl

theorem mem_of_mem_append {entry : Entry} {other : EntryId}
    (member : other ∈ (log.append maxSize id entry).map) : other ∈ log.map.insert id entry := by
  cases maxSize with
  | none => exact member
  | some size => exact IdMap.mem_of_mem_keep member

/-- **An entry that is added can be looked up**, unless the log is to keep none. -/
theorem getElem?_append (ranged : log.Ranged) (above : log.lastId < id) (entry : Entry) :
    (log.append maxSize id entry).map[id]? = if maxSize = some 0 then none else some entry := by
  cases maxSize with
  | none => exact Std.ExtTreeMap.getElem?_insert_self
  | some size =>
    have greatest : (log.map.insert id entry).toList.countP (fun item => id < item.1) = 0 := by
      refine List.countP_eq_zero.mpr fun item member greater => ?_
      have inside := Std.ExtTreeMap.mem_toList_iff_getElem?_eq_some.mp member
      have known := Std.ExtTreeMap.mem_iff_isSome_getElem?.mpr (Option.isSome_of_eq_some inside)
      have greater : id < item.1 := of_decide_eq_true greater
      rcases Std.ExtTreeMap.mem_insert.mp known with same | earlier
      · exact greater.ne (EntryId.order_eq_eq.mp same)
      · exact not_le_of_gt (above.trans greater) (ranged item.1 earlier).2
    show (IdMap.keep (log.map.insert id entry) size)[id]? = _
    rw [IdMap.keep, Std.ExtTreeMap.getElem?_filter', Std.ExtTreeMap.getElem?_insert_self,
      Option.filter_some, greatest]
    cases size with
    | zero => rfl
    | succ size => rfl

theorem Ranged.empty : Ranged empty := fun _ member => absurd member Std.ExtTreeMap.not_mem_empty

theorem Bounded.empty (maxSize : Option Nat) : Bounded maxSize empty := by
  intro size _
  rw [Log.empty, Std.ExtTreeMap.size_empty]
  exact Nat.zero_le size

namespace Step

/-- **An identifier given out becomes the last one** and adds an entry; nothing else does. -/
theorem issues (step : Step maxSize log call reply later) :
    later.lastId = reply.issued?.getD log.lastId ∧
      later.added = log.added + reply.issued?.toList.length ∧
      ∀ id, reply.issued? = some id → log.lastId < id := by
  cases step with
  | appended above => exact ⟨append_lastId .., append_added .., by rintro _ ⟨⟩; exact above⟩
  | _ => exact ⟨rfl, rfl, nofun⟩

/-- **The last identifier never goes back.** -/
theorem lastId_le (step : Step maxSize log call reply later) : log.lastId ≤ later.lastId := by
  obtain ⟨last, _, above⟩ := step.issues
  rw [last]
  cases given : reply.issued? with
  | none => exact le_rfl
  | some id => exact le_of_lt (above id given)

theorem ranged (step : Step maxSize log call reply later) (ranged : log.Ranged) : later.Ranged := by
  cases step with
  | @appended request entry now id above =>
    intro other member
    rw [append_lastId]
    rcases Std.ExtTreeMap.mem_insert.mp (mem_of_mem_append member) with same | earlier
    · rw [← EntryId.order_eq_eq.mp same]
      exact ⟨lt_of_le_of_lt (EntryId.least_le _) above, le_rfl⟩
    · obtain ⟨low, high⟩ := ranged other earlier
      exact ⟨low, le_of_lt (lt_of_le_of_lt high above)⟩
  | remove id => exact fun other member => ranged other (Std.ExtTreeMap.mem_of_mem_erase member)
  | trim size => exact fun other member => ranged other (IdMap.mem_of_mem_keep member)
  | _ => exact ranged

theorem bounded (step : Step maxSize log call reply later) (bounded : log.Bounded maxSize) :
    later.Bounded maxSize := by
  intro size limit
  cases step with
  | appended above =>
    subst limit
    exact IdMap.size_keep _ size
  | remove id => exact Nat.le_trans Std.ExtTreeMap.size_erase_le (bounded size limit)
  | trim count => exact Nat.le_trans (IdMap.size_keep_le _ count) (bounded size limit)
  | _ => exact bounded size limit

end Step

/-! ### Many calls -/

namespace Run

theorem lastId_le (run : Run maxSize log calls replies later) : log.lastId ≤ later.lastId := by
  induction run with
  | nil log => exact le_rfl
  | cons first rest ih => exact le_trans first.lastId_le ih

theorem ranged (run : Run maxSize log calls replies later) (ranged : log.Ranged) :
    later.Ranged := by
  induction run with
  | nil log => exact ranged
  | cons first rest ih => exact ih (first.ranged ranged)

theorem bounded (run : Run maxSize log calls replies later) (bounded : log.Bounded maxSize) :
    later.Bounded maxSize := by
  induction run with
  | nil log => exact bounded
  | cons first rest ih => exact ih (first.bounded bounded)

/-- **A run gives out identifiers above the last one before it**, in ascending order. -/
theorem issued_ascend (run : Run maxSize log calls replies later) :
    (log.lastId :: issued replies).Pairwise (· < ·) := by
  induction run with
  | nil log => exact List.pairwise_singleton _ _
  | @cons log middle last call reply calls replies first rest ih =>
    obtain ⟨lastId, _, above⟩ := first.issues
    -- The rest of the run starts from the identifier that the first call gave out, if it gave one.
    rw [lastId] at ih
    rw [issued_cons]
    cases given : reply.issued? with
    | none => rwa [given] at ih
    | some id =>
      rw [given] at ih
      have ascend : (id :: issued replies).Pairwise (· < ·) := ih
      refine List.pairwise_cons.mpr ⟨fun other member => ?_, ascend⟩
      rcases List.mem_cons.mp member with rfl | later
      · exact above _ given
      · exact lt_trans (above _ given) (List.rel_of_pairwise_cons ascend later)

/-- **The last identifier given out is the last one**, and each added one entry. -/
theorem lastId_eq (run : Run maxSize log calls replies later) :
    later.lastId = (issued replies).getLast?.getD log.lastId ∧
      later.added = log.added + (issued replies).length := by
  induction run with
  | nil log => exact ⟨rfl, rfl⟩
  | @cons log middle last call reply calls replies first rest ih =>
    obtain ⟨lastId, added, _⟩ := first.issues
    rw [issued_cons, ih.1, ih.2, lastId, added, List.length_append, Nat.add_assoc]
    refine ⟨?_, rfl⟩
    cases reply.issued? with
    | none => rfl
    | some id => rw [Option.toList_some, List.singleton_append, List.getLast?_cons]; rfl

end Run

end Log

end RadixLog
