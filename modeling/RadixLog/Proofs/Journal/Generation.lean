/-
**Generated identifiers are the least there are.**

An identifier that is generated has to be above the last one and not before the time it is generated
for. The one given out is the least of these, and none is given out only if that is the policy of
the journal or there are none.

* `EntryId.laterFrom`: the identifiers that may be given out;
* `EntryId.leastFrom`, `EntryId.leastFrom_eq_some_iff`: the least of them;
* `EntryId.following_eq_some_iff`: it is the one that follows, if it does not skip ahead of time;
* `Overflow.Generates`: what each policy promises, `Journal.nextId_generates`: and keeps;
* `EntryId.generated`, `EntryId.generated_ascends`: identifiers given out one after another;
* `Journal.generates_least`: all of this for every append after every run of calls.
-/

import RadixLog.Proofs.EntryId.Neighbours
import RadixLog.Proofs.Journal.Refusals

namespace RadixLog

namespace EntryId

variable {last id : EntryId} {now : UInt64}

/-! ### What may be given out -/

/-- The identifiers that may be given out after `last` for a time: those above it that are not
before that time. -/
def laterFrom (last : EntryId) (now : UInt64) : Set EntryId := {id | last < id ∧ now ≤ id.ms}

/-- The least of them: the first of a millisecond that has begun since, else the neighbour. -/
def leastFrom (last : EntryId) (now : UInt64) : Option EntryId :=
  if last.ms < now then some ⟨now, 0⟩ else last.succ?

/-- There are some unless the last one is the greatest of all. -/
theorem laterFrom_nonempty (last : EntryId) (now : UInt64) :
    (laterFrom last now).Nonempty ↔ last ≠ greatest := by
  constructor
  · rintro ⟨id, above, _⟩ rfl
    exact not_lt_of_ge (le_greatest id) above
  · intro less
    refine ⟨greatest, lt_of_le_of_ne (le_greatest last) less, ?_⟩
    exact UInt64.le_iff_toNat_le.mpr (Nat.le_pred_of_lt now.toNat_lt)

/-- A millisecond that has begun since is above the last identifier from its first one on. -/
theorem isLeast_begun (later : last.ms < now) : IsLeast (laterFrom last now) ⟨now, 0⟩ := by
  refine ⟨⟨lt_iff.mpr (.inl later), UInt64.le_refl now⟩, ?_⟩
  rintro id ⟨_, come⟩
  rw [← not_lt, lt_iff]
  rintro (before | ⟨_, before⟩)
  · exact UInt64.not_lt.mpr come before
  · exact UInt64.not_lt_zero before

/-- While the clock is behind, all that matters is to be above the last identifier. -/
theorem laterFrom_eq_Ioi (behind : ¬ last.ms < now) : laterFrom last now = Set.Ioi last := by
  ext id
  refine ⟨And.left, fun above => ⟨above, ?_⟩⟩
  have come : now ≤ last.ms := UInt64.not_lt.mp behind
  rcases lt_iff.mp above with later | ⟨same, _⟩
  · exact UInt64.le_trans come (UInt64.le_of_lt later)
  · exact same ▸ come

theorem leastFrom_eq_some_iff : leastFrom last now = some id ↔ IsLeast (laterFrom last now) id := by
  unfold leastFrom
  by_cases later : last.ms < now
  · have first : IsLeast (laterFrom last now) ⟨now, 0⟩ := isLeast_begun later
    rw [if_pos later, Option.some.injEq]
    exact ⟨fun same => same ▸ first, first.unique⟩
  · rw [if_neg later, laterFrom_eq_Ioi later, succ?_eq_some_iff]

/-- Where there are some, there is a least one. -/
theorem exists_isLeast (last : EntryId) (now : UInt64) :
    (∃ id, IsLeast (laterFrom last now) id) ↔ (laterFrom last now).Nonempty := by
  refine ⟨fun ⟨_, least⟩ => least.nonempty, fun some => ?_⟩
  by_contra without
  -- If none were the least, the neighbour of the last would be missing.
  have nothing : leastFrom last now = none := by
    rw [Option.eq_none_iff_forall_ne_some]
    exact fun id given => without ⟨id, leastFrom_eq_some_iff.mp given⟩
  unfold leastFrom at nothing
  by_cases later : last.ms < now
  · rw [if_pos later] at nothing
    cases nothing
  · rw [if_neg later, succ?_eq_none_iff] at nothing
    exact (laterFrom_nonempty last now).mp some nothing

/-! ### What follows -/

/-- What follows is the least identifier that may be given out, in a millisecond that has begun. -/
theorem leastFrom_of_follows (follows : following last now = some id) :
    leastFrom last now = some id ∧ id.ms = max now last.ms := by
  unfold following at follows
  unfold leastFrom
  by_cases later : last.ms < now
  · have behind : ¬ now ≤ last.ms := UInt64.not_le.mpr later
    rw [if_pos later] at follows
    obtain rfl := Option.some.inj follows
    exact ⟨if_pos later, (if_neg behind).symm⟩
  · have come : now ≤ last.ms := UInt64.not_lt.mp later
    rw [if_neg later] at follows
    obtain ⟨room, next⟩ := Option.ite_none_right_eq_some.mp follows
    obtain rfl := Option.some.inj next
    rw [if_neg later, succ?, if_pos room]
    exact ⟨rfl, (if_pos come).symm⟩

/-- When nothing follows, the least one is the first of the millisecond after the last one. -/
theorem leastFrom_of_ended (ended : following last now = none) :
    leastFrom last now = if last.ms < partMax then some ⟨last.ms + 1, 0⟩ else none := by
  obtain ⟨come, used⟩ := following_eq_none.mp ended
  have full : ¬ last.seq < partMax := fun room => lt_partMax_iff.mp room used
  rw [leastFrom, if_neg (UInt64.not_lt.mpr come), succ?, if_neg full]

/-- **What follows is the least identifier that may be given out**, if it falls in a millisecond that
has begun: that of the clock or, while the clock is behind, that of the last identifier. -/
theorem following_eq_some_iff : following last now = some id ↔
    IsLeast (laterFrom last now) id ∧ id.ms = max now last.ms := by
  rw [← leastFrom_eq_some_iff]
  refine ⟨leastFrom_of_follows, fun ⟨least, begun⟩ => ?_⟩
  cases follows : following last now with
  | some other => rw [← (leastFrom_of_follows follows).1, least]
  | none =>
    have come : now ≤ last.ms := (following_eq_none.mp follows).1
    rw [leastFrom_of_ended follows] at least
    obtain ⟨more, next⟩ := Option.ite_none_right_eq_some.mp least
    obtain rfl := Option.some.inj next
    -- The millisecond after the last one has not begun.
    have ahead : last.ms < last.ms + 1 := lt_add_one more
    have same : last.ms + 1 = last.ms := begun.trans (if_pos come)
    exact absurd (same ▸ ahead) (UInt64.lt_irrefl _)

/-! ### One after another -/

/-- The identifiers given out after `last` when the clock shows these readings, the last one being
kept whenever none is given out. -/
def generated (last : EntryId) : List UInt64 → List EntryId
  | [] => []
  | now :: readings =>
    match next last now with
    | .ok id => id :: generated id readings
    | .error _ => generated last readings

/-- **Identifiers given out one after another ascend**, whatever the clock shows. -/
theorem generated_ascends (last : EntryId) (readings : List UInt64) :
    (last :: generated last readings).Pairwise (· < ·) := by
  induction readings generalizing last with
  | nil => exact List.pairwise_singleton _ _
  | cons now readings ascends =>
    unfold generated next
    cases follows : following last now with
    | none => exact ascends last
    | some id =>
      have above : last < id := lt_following follows
      refine List.pairwise_cons.mpr ⟨?_, ascends id⟩
      rintro other (_ | ⟨_, later⟩)
      · exact above
      · exact above.trans (List.rel_of_pairwise_cons (ascends id) later)

/-- A clock that stands still, goes back and moves on. -/
example : generated ⟨5, 0⟩ [5, 3, 8] = [⟨5, 1⟩, ⟨5, 2⟩, ⟨8, 0⟩] := by decide

end EntryId

/-! ### What the policies promise -/

/-- The identifier that a policy wants: the least that may be given out or, unless it goes on in the
next millisecond when the last one is used up, that one if it is no later than it has to be. -/
def Overflow.Wants (policy : Overflow) (last : EntryId) (now : UInt64) (id : EntryId) : Prop :=
  IsLeast (last.laterFrom now) id ∧ (policy = .reject → id.ms = max now last.ms)

/-- The millisecond that a policy finds used up when there is nothing that it wants. -/
def Overflow.usedUp (policy : Overflow) (last : EntryId) : UInt64 :=
  match policy with
  | .reject => last.ms
  | .advance => EntryId.partMax

/-- **What a policy promises of an identifier generated** after `last` for a time. -/
structure Overflow.Generates (policy : Overflow) (last : EntryId) (now : UInt64)
    (answer : Except Error EntryId) : Prop where
  /-- The one wanted is given out. -/
  given : ∀ id, answer = .ok id ↔ policy.Wants last now id
  /-- It is refused if there is none, and for no other reason. -/
  refused : ∀ refusal, answer = .error refusal ↔
    refusal = .sequenceExhausted (policy.usedUp last) ∧ ∀ id, ¬ policy.Wants last now id

namespace Overflow

variable {policy : Overflow} {last id : EntryId} {now : UInt64}

/-- At most one identifier is wanted, so giving it out keeps the promise. -/
theorem generates_wanted (wants : policy.Wants last now id) : policy.Generates last now (.ok id) where
  given _ := ⟨fun same => Except.ok.inj same ▸ wants,
    fun wanted => congrArg Except.ok (wants.1.unique wanted.1)⟩
  refused _ := ⟨nofun, fun without => absurd wants (without.2 id)⟩

theorem generates_refusal (without : ∀ id, ¬ policy.Wants last now id) :
    policy.Generates last now (.error (.sequenceExhausted (policy.usedUp last))) where
  given id := ⟨nofun, fun wanted => absurd wanted (without id)⟩
  refused _ := ⟨fun same => ⟨(Except.error.inj same).symm, without⟩,
    fun same => congrArg Except.error same.1.symm⟩

theorem reject_wants_iff :
    Overflow.reject.Wants last now id ↔ EntryId.following last now = some id := by
  rw [EntryId.following_eq_some_iff]
  exact and_congr_right fun _ => ⟨fun prompt => prompt rfl, fun prompt _ => prompt⟩

theorem advance_wants_iff :
    Overflow.advance.Wants last now id ↔ EntryId.leastFrom last now = some id := by
  rw [EntryId.leastFrom_eq_some_iff]
  exact and_iff_left nofun

end Overflow

/-- **Identifiers given out by themselves** keep what refusing to go on promises. -/
theorem EntryId.next_generates (last : EntryId) (now : UInt64) :
    Overflow.reject.Generates last now (EntryId.next last now) := by
  unfold EntryId.next
  cases follows : EntryId.following last now with
  | some id => exact Overflow.generates_wanted (Overflow.reject_wants_iff.mpr follows)
  | none =>
    refine Overflow.generates_refusal fun id wants => ?_
    cases follows.symm.trans (Overflow.reject_wants_iff.mp wants)

namespace Journal

variable {journal : Journal} {request : IdRequest} {now reading : UInt64}

/-- **A journal keeps what its policy promises.** -/
theorem nextId_generates (journal : Journal) (reading : UInt64) :
    journal.options.overflow.Generates journal.lastId reading (journal.nextId reading).1 := by
  unfold nextId
  cases follows : EntryId.following journal.lastId reading with
  | some id =>
    obtain ⟨least, begun⟩ := EntryId.following_eq_some_iff.mp follows
    exact Overflow.generates_wanted ⟨least, fun _ => begun⟩
  | none =>
    cases policy : journal.options.overflow with
    | reject =>
      refine Overflow.generates_refusal fun id wants => ?_
      cases follows.symm.trans (Overflow.reject_wants_iff.mp wants)
    | advance =>
      have least := EntryId.leastFrom_of_ended follows
      dsimp only
      by_cases more : journal.lastId.ms < EntryId.partMax
      · rw [if_pos more] at least ⊢
        exact Overflow.generates_wanted (Overflow.advance_wants_iff.mpr least)
      · rw [if_neg more] at least ⊢
        rw [EntryId.not_lt_partMax_iff.mp more]
        refine Overflow.generates_refusal fun id wants => ?_
        cases least.symm.trans (Overflow.advance_wants_iff.mp wants)

/-- An append that needs an identifier to be generated answers what is generated. -/
theorem append_generates {entry : Entry} {outcome : Outcome (Except Error EntryId)}
    (filled : entry.fields ≠ []) (generated : request.reading? journal.lastId now = some reading)
    (goes : journal.append request entry now = .ok outcome) :
    journal.options.overflow.Generates journal.lastId reading outcome.answer := by
  rw [(append_answer goes).1, if_neg filled, assignId_generated generated]
  exact nextId_generates journal reading

/-- **Generated identifiers are the least there are.** An identifier may be given out after the last
one for a time if it is above the last one and not before that time; there are such identifiers, and
then a least one, unless the last one is the greatest of all. A journal that goes on in the next
millisecond gives out the least one whenever there is one. A journal that does not, like giving
identifiers out by themselves, gives it out if it falls in the millisecond asked for or in the last
one, whichever is later, and otherwise refuses with the last millisecond. So it is for every journal
and every clock, for every append after every run of calls; and identifiers given out one after
another ascend. -/
theorem generates_least :
    (∀ last now, ((∃ id, IsLeast (EntryId.laterFrom last now) id) ↔
        (EntryId.laterFrom last now).Nonempty) ∧
      ((EntryId.laterFrom last now).Nonempty ↔ last ≠ .greatest)) ∧
    (∀ last now, Overflow.reject.Generates last now (EntryId.next last now)) ∧
    (∀ (journal : Journal) (reading : UInt64),
      journal.options.overflow.Generates journal.lastId reading (journal.nextId reading).1) ∧
    (∀ options calls, ∃ replies journal, (empty options).answerAll calls = .ok (replies, journal) ∧
      ∀ request entry now reading, entry.fields ≠ [] →
        request.reading? journal.lastId now = some reading →
        ∃ outcome, journal.append request entry now = .ok outcome ∧
          options.overflow.Generates journal.lastId reading outcome.answer) ∧
    ∀ last readings, (last :: EntryId.generated last readings).Pairwise (· < ·) := by
  refine ⟨fun last now => ⟨EntryId.exists_isLeast last now, EntryId.laterFrom_nonempty last now⟩,
    EntryId.next_generates, nextId_generates, fun options calls => ?_, EntryId.generated_ascends⟩
  obtain ⟨replies, journal, log, goes, _, records⟩ := (Records.empty options).answerAll calls
  refine ⟨replies, journal, goes, fun request entry now reading filled generated => ?_⟩
  obtain ⟨outcome, _, appends, _⟩ := records.append request entry now
  exact ⟨outcome, appends, records.options ▸ append_generates filled generated appends⟩

/-- With the sequence numbers of a millisecond used up, the first of the next is the least. -/
theorem least_after_used_up :
    ∃ replies journal outcome, (empty { overflow := .advance }).answerAll
        [.append (.explicit ⟨5, EntryId.partMax⟩) ⟨[([1], [])]⟩ 0] = .ok (replies, journal) ∧
      journal.append .auto ⟨[([2], [])]⟩ 5 = .ok outcome ∧
      IsLeast (EntryId.laterFrom ⟨5, EntryId.partMax⟩ 5) ⟨6, 0⟩ := by
  obtain ⟨replies, journal, goes, appends⟩ := generates_least.2.2.2.1 { overflow := .advance }
    [.append (.explicit ⟨5, EntryId.partMax⟩) ⟨[([1], [])]⟩ 0]
  refine ⟨replies, journal, ?_⟩
  cases goes
  obtain ⟨outcome, answers, generates⟩ := appends .auto ⟨[([2], [])]⟩ 5 5 nofun rfl
  refine ⟨outcome, rfl, answers, ?_⟩
  cases answers
  exact ((generates.given ⟨6, 0⟩).mp rfl).1

end Journal

end RadixLog
