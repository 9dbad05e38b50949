/-
**Appends are refused for a reason.**

An append is refused when its entry has no fields; else when it asks for exactly an identifier that
is not above the last one; else when an identifier has to be generated and none is left. A journal
gives these reasons and no others, in this order, and a refusal leaves it as it is. An identifier
that is asked for and above the last one is given out unchanged.

* `IdRequest.reading?`: the time for which an identifier is generated, if one is;
* `Journal.Exhausted`: no identifier is left to be generated;
* `Journal.Refuses`: the reasons to refuse an append;
* `Journal.nextId_exhausted`, `Journal.exists_nextId`: whether one is generated;
* `Journal.refused_for_reason`: every append after every run of calls.
-/

import RadixLog.Proofs.Journal.Records

namespace RadixLog

/-! ### Numbers that run out -/

namespace EntryId

/-- **Nothing follows in a millisecond that is used up**, unless the clock has moved on. -/
theorem following_eq_none {last : EntryId} {now : UInt64} :
    following last now = none ↔ now ≤ last.ms ∧ last.seq.toNat = 2 ^ 64 - 1 := by
  unfold following
  by_cases later : last.ms < now
  · rw [if_pos later]
    exact ⟨nofun, fun used => absurd later (UInt64.not_lt.mpr used.1)⟩
  · rw [if_neg later]
    by_cases room : last.seq < partMax
    · rw [if_pos room]
      exact ⟨nofun, fun used => absurd used.2 (lt_partMax_iff.mp room)⟩
    · rw [if_neg room]
      exact ⟨fun _ => ⟨UInt64.not_lt.mp later, not_not.mp (mt lt_partMax_iff.mpr room)⟩,
        fun _ => rfl⟩

end EntryId

/-! ### Reasons -/

/-- The time for which an identifier is generated, unless the one asked for is given out or refused:
the reading of the clock, or the time of a suggestion that is not above the last identifier. -/
def IdRequest.reading? (last : EntryId) (now : UInt64) : IdRequest → Option UInt64
  | .auto => some now
  | .explicit _ => none
  | .suggested id => if id ≤ last then some id.ms else none

namespace Journal

/-- **No identifier is left to be generated** for a time: it has come already, the last millisecond
is used up, and the journal does not go on in the next one, by its policy or as there is none. -/
structure Exhausted (journal : Journal) (reading : UInt64) : Prop where
  come : reading ≤ journal.lastId.ms
  used : journal.lastId.seq.toNat = 2 ^ 64 - 1
  stuck : journal.options.overflow = .reject ∨ journal.lastId.ms.toNat = 2 ^ 64 - 1

/-- **The reasons to refuse an append**, each with its refusal. -/
inductive Refuses (journal : Journal) (request : IdRequest) (entry : Entry) (now : UInt64) :
    Error → Prop where
  | emptyEntry (bare : entry.fields = []) : Refuses journal request entry now .emptyEntry
  | notIncreasing {id : EntryId} (filled : entry.fields ≠ []) (asked : request = .explicit id)
    (low : id ≤ journal.lastId) :
    Refuses journal request entry now (.notIncreasing id journal.lastId)
  | exhausted {reading : UInt64} (filled : entry.fields ≠ [])
    (generated : request.reading? journal.lastId now = some reading)
    (left : journal.Exhausted reading) :
    Refuses journal request entry now (.sequenceExhausted journal.lastId.ms)

/-- **What is promised of the outcome of an append.** -/
structure Settles (journal : Journal) (request : IdRequest) (entry : Entry) (now : UInt64)
    (outcome : Outcome (Except Error EntryId)) : Prop where
  /-- It is refused for the reasons that there are. -/
  refused : ∀ refusal, outcome.answer = .error refusal ↔ journal.Refuses request entry now refusal
  /-- If there is none, it is given an identifier. -/
  given : (∃ id, outcome.answer = .ok id) ↔ ∀ refusal, ¬ journal.Refuses request entry now refusal
  /-- If it asks for one that is above the last, that one is given out. -/
  asked : ∀ id, request = .explicit id ∨ request = .suggested id → journal.lastId < id →
    entry.fields ≠ [] → outcome.answer = .ok id
  /-- A refusal leaves the journal as it is. -/
  unchanged : ∀ refusal, outcome.answer = .error refusal → outcome.journal = journal

variable {journal : Journal} {request : IdRequest} {entry : Entry} {now reading : UInt64}
  {id : EntryId} {refusal : Error} {outcome : Outcome (Except Error EntryId)}

/-! ### Generated identifiers -/

theorem nextId_exhausted (left : journal.Exhausted reading) :
    (journal.nextId reading).1 = .error (.sequenceExhausted journal.lastId.ms) := by
  unfold nextId
  rw [EntryId.following_eq_none.mpr ⟨left.come, left.used⟩]
  cases policy : journal.options.overflow with
  | reject => rfl
  | advance =>
    have last : journal.lastId.ms.toNat = 2 ^ 64 - 1 := by
      apply left.stuck.resolve_left
      rw [policy]
      nofun
    have full : ¬ journal.lastId.ms < EntryId.partMax := fun room =>
      EntryId.lt_partMax_iff.mp room last
    dsimp only
    rw [if_neg full]

/-- There is no millisecond after the last one to go on in. -/
example : (nextId ⟨.empty {} 0, .greatest, 0, { overflow := .advance }⟩ 5).1 =
    .error (.sequenceExhausted EntryId.partMax) := rfl

theorem exists_nextId (room : ¬ journal.Exhausted reading) :
    ∃ id, (journal.nextId reading).1 = .ok id := by
  unfold nextId
  cases next : EntryId.following journal.lastId reading with
  | some id => exact ⟨id, rfl⟩
  | none =>
    obtain ⟨come, used⟩ := EntryId.following_eq_none.mp next
    cases policy : journal.options.overflow with
    | reject => exact absurd ⟨come, used, .inl policy⟩ room
    | advance =>
      have more : journal.lastId.ms < EntryId.partMax :=
        EntryId.lt_partMax_iff.mpr fun last => room ⟨come, used, .inr last⟩
      dsimp only
      rw [if_pos more]
      exact ⟨_, rfl⟩

/-- An identifier that has to be generated is generated for the reading. -/
theorem assignId_generated (generated : request.reading? journal.lastId now = some reading) :
    (journal.assignId request now).1 = (journal.nextId reading).1 := by
  cases request with
  | auto =>
    obtain rfl := Option.some.inj generated
    rfl
  | explicit id => cases generated
  | suggested id =>
    obtain ⟨low, same⟩ := Option.ite_none_right_eq_some.mp generated
    obtain rfl := Option.some.inj same
    unfold assignId
    dsimp only
    rw [if_neg (not_lt_of_ge low)]

/-- An identifier that is asked for and above the last one is given out. -/
theorem assignId_asked (asked : request = .explicit id ∨ request = .suggested id)
    (above : journal.lastId < id) : (journal.assignId request now).1 = .ok id := by
  rcases asked with rfl | rfl
  · exact congrArg Prod.fst (if_pos above)
  · exact congrArg Prod.fst (if_pos above)

/-! ### Appends -/

/-- **What an append answers**: a refusal, if its entry has no fields, else the identifier assigned
to it or the refusal to assign one. It changes nothing when it refuses. -/
theorem append_answer (goes : journal.append request entry now = .ok outcome) :
    outcome.answer =
        (if entry.fields = [] then .error .emptyEntry else (journal.assignId request now).1) ∧
      ∀ refusal, outcome.answer = .error refusal → outcome.journal = journal := by
  unfold append at goes
  by_cases bare : entry.fields = []
  · have blank : entry.isEmpty = true := List.isEmpty_iff.mpr bare
    rw [if_pos blank] at goes
    rw [if_pos bare]
    cases goes
    exact ⟨rfl, fun _ _ => rfl⟩
  · have content : ¬ entry.isEmpty = true := mt List.isEmpty_iff.mp bare
    rw [if_neg content] at goes
    rw [if_neg bare]
    rcases assigned : journal.assignId request now with ⟨answer, events⟩
    rw [assigned] at goes
    cases answer with
    | error refusal =>
      cases goes
      exact ⟨rfl, fun _ _ => rfl⟩
    | ok id =>
      obtain ⟨recorded, _, goes⟩ := bind_eq_ok goes
      cases goes
      exact ⟨rfl, nofun⟩

theorem Refuses.answer (refuses : journal.Refuses request entry now refusal)
    (goes : journal.append request entry now = .ok outcome) : outcome.answer = .error refusal := by
  rw [(append_answer goes).1]
  cases refuses with
  | emptyEntry bare => exact if_pos bare
  | notIncreasing filled asked low =>
    subst asked
    rw [if_neg filled]
    exact congrArg Prod.fst (if_neg (not_lt_of_ge low))
  | exhausted filled generated left =>
    rw [if_neg filled, assignId_generated generated]
    exact nextId_exhausted left

theorem exists_answer (free : ∀ refusal, ¬ journal.Refuses request entry now refusal)
    (goes : journal.append request entry now = .ok outcome) : ∃ id, outcome.answer = .ok id := by
  have filled : entry.fields ≠ [] := fun bare => free _ (.emptyEntry bare)
  rw [(append_answer goes).1, if_neg filled]
  cases generated : request.reading? journal.lastId now with
  | some reading =>
    rw [assignId_generated generated]
    exact exists_nextId fun left => free _ (.exhausted filled generated left)
  | none =>
    cases request with
    | auto => cases generated
    | explicit id =>
      have above : journal.lastId < id := by
        by_contra low
        exact free _ (.notIncreasing filled rfl (not_lt.mp low))
      exact ⟨id, assignId_asked (.inl rfl) above⟩
    | suggested id =>
      have above : journal.lastId < id := by
        by_contra low
        rw [IdRequest.reading?, if_pos (not_lt.mp low)] at generated
        cases generated
      exact ⟨id, assignId_asked (.inr rfl) above⟩

/-- **An append is refused for the reasons that there are**, whatever the journal. -/
theorem settles (goes : journal.append request entry now = .ok outcome) :
    journal.Settles request entry now outcome where
  refused := by
    intro refusal
    refine ⟨fun refused => ?_, fun refuses => refuses.answer goes⟩
    -- Some reason refuses, or else an identifier would be given; and a reason fixes the refusal.
    by_contra unreasoned
    by_cases free : ∀ other, ¬ journal.Refuses request entry now other
    · obtain ⟨id, given⟩ := exists_answer free goes
      cases refused.symm.trans given
    · obtain ⟨other, refuses⟩ := not_forall_not.mp free
      obtain rfl := Except.error.inj (refused.symm.trans (refuses.answer goes))
      exact unreasoned refuses
  given := by
    constructor
    · rintro ⟨id, given⟩ refusal refuses
      cases given.symm.trans (refuses.answer goes)
    · intro free
      exact exists_answer free goes
  asked := by
    intro id asked above filled
    rw [(append_answer goes).1, if_neg filled]
    exact assignId_asked asked above
  unchanged := (append_answer goes).2

/-- **Appends are refused exactly when they should be.** After every run of calls from an empty
journal, every append is answered: it is refused if its entry has no fields, if it asks for exactly
an identifier that is not above the last one, or if an identifier has to be generated and none is
left, and for no other reason; otherwise it is given an identifier, and the one that it asks for if
that is above the last. A refused append leaves the journal as it is: its tree, its last identifier,
its count of entries added and its options. -/
theorem refused_for_reason (options : JournalOptions) (calls : List JournalCall) :
    ∃ replies journal, (empty options).answerAll calls = .ok (replies, journal) ∧
      journal.options = options ∧
      ∀ request entry now, ∃ outcome, journal.append request entry now = .ok outcome ∧
        journal.Settles request entry now outcome := by
  obtain ⟨replies, journal, log, goes, _, records⟩ := (Records.empty options).answerAll calls
  refine ⟨replies, journal, goes, records.options, fun request entry now => ?_⟩
  obtain ⟨outcome, _, appends, _⟩ := records.append request entry now
  exact ⟨outcome, appends, settles appends⟩

end Journal

end RadixLog
