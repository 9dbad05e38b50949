/-
**Handles act as one journal.**

Whatever is called through handles on one journal, and however many handles are made of others in
between, each call is answered as the journal would answer it if there were no handles at all. What
is appended through one handle is seen through all of them.

* `Hub.Request`, `Hub.serve`: calls through handles, and copies of handles;
* `Hub.Request.calls`: the calls without the handles;
* `Hub.sole`: the hub of one journal and its handles;
* `Hub.answerEach_sole`: requests are answered as the journal answers the calls among them;
* `Hub.ActsAs`: what is seen through the handles of a hub is one journal;
* `Hub.handles_act_as_one`: every run of requests on a shared journal.
-/

import RadixLog.Proofs.Journal.Between
import RadixLog.Proofs.Workspace.Matching

namespace RadixLog.Hub

/-! ### Requests -/

/-- What can be asked of a hub. -/
inductive Request where
  /-- To make a call through a handle. -/
  | call (handle : Nat) (call : JournalCall)
  /-- To make another handle on the same journal. -/
  | copy (handle : Nat)

/-- What a hub answers. -/
inductive Answer where
  | reply (reply : JournalReply)
  | handle (handle : Nat)

/-- The answer to a request, and the hub after it. -/
def serve (hub : Hub) : Request → Except Fault (Answer × Hub)
  | .call handle call => do
    let outcome ← hub.answer handle call
    return (.reply outcome.reply, outcome.hub)
  | .copy handle => do
    let (copy, hub) ← hub.copy handle
    return (.handle copy, hub)

namespace Request

/-- The number of handles after requests, when there are `count` at first. -/
def handlesAfter : (count : Nat) → List Request → Nat
  | count, [] => count
  | count, .call _ _ :: requests => handlesAfter count requests
  | count, .copy _ :: requests => handlesAfter (count + 1) requests

/-- Whether requests made one after the other name only handles that are there, when there are
`count` at first. -/
def allKnown : (count : Nat) → List Request → Bool
  | _, [] => true
  | count, .call handle _ :: requests => handle < count && allKnown count requests
  | count, .copy handle :: requests => handle < count && allKnown (count + 1) requests

/-- The calls among requests, without the handles. -/
def calls : List Request → List JournalCall
  | [] => []
  | .call _ made :: requests => made :: calls requests
  | .copy _ :: requests => calls requests

/-- The answers to requests when the calls among them are given `replies`, one each. A copy is
answered the next number. -/
def answers : (count : Nat) → List Request → (replies : List JournalReply) → List Answer
  | count, .call _ _ :: requests, reply :: replies => .reply reply :: answers count requests replies
  | count, .copy _ :: requests, replies => .handle count :: answers (count + 1) requests replies
  | _, _, _ => []

end Request

/-! ### The hub of one journal -/

/-- The hub of one journal with `count` handles on it. -/
def sole (journal : Journal) (count : Nat) : Hub := ⟨[journal], List.replicate count 0⟩

variable {journal last : Journal} {count handle : Nat} {call : JournalCall}
  {requests : List Request} {replies : List JournalReply}

theorem sole_target (known : handle < count) : (sole journal count).target handle = .ok 0 := by
  unfold target sole
  rw [List.getElem?_replicate_of_lt known]

theorem sole_read (known : handle < count) : (sole journal count).read handle = .ok journal := by
  rw [read, sole_target known]
  rfl

/-- **A call through any handle is a call on the journal.** -/
theorem serve_call (known : handle < count) {outcome : Journal.Outcome JournalReply}
    (goes : journal.answer call = .ok outcome) :
    (sole journal count).serve (.call handle call) =
      .ok (.reply outcome.answer, sole outcome.journal count) := by
  rw [serve, answer, sole_target known, sole_read known, ok_bind, ok_bind, goes]
  rfl

/-- **A copy is one more handle on the journal.** -/
theorem serve_copy (known : handle < count) :
    (sole journal count).serve (.copy handle) = .ok (.handle count, sole journal (count + 1)) := by
  have handles : (sole journal count).handles.length = count := List.length_replicate
  rw [serve, copy, sole_target known, ok_bind, handles, sole, sole, List.replicate_succ']
  rfl

/-- **Requests are answered as the journal answers the calls among them.** -/
theorem answerEach_sole (known : Request.allKnown count requests = true)
    (goes : journal.answerAll (Request.calls requests) = .ok (replies, last)) :
    answerEach serve (sole journal count) requests =
      .ok (Request.answers count requests replies,
        sole last (Request.handlesAfter count requests)) := by
  -- The hub stays that of one journal: a call changes the journal, and a copy the number of handles.
  induction requests generalizing journal count replies with
  | nil =>
    cases goes
    rfl
  | cons request requests ih =>
    cases request with
    | call handle call =>
      obtain ⟨here, known⟩ := (Bool.and_eq_true _ _).mp known
      obtain ⟨outcome, answers, goes⟩ := bind_eq_ok goes
      obtain ⟨⟨others, later⟩, goesOn, goes⟩ := bind_eq_ok goes
      cases goes
      rw [answerEach, serve_call (of_decide_eq_true here) answers, ok_bind]
      dsimp only
      rw [ih known goesOn]
      rfl
    | copy handle =>
      obtain ⟨here, known⟩ := (Bool.and_eq_true _ _).mp known
      rw [answerEach, serve_copy (of_decide_eq_true here), ok_bind]
      dsimp only
      rw [ih known goes]
      rfl

/-! ### What is seen through handles -/

/-- **What is seen through the handles of a hub is one journal.** -/
structure ActsAs (hub : Hub) (count : Nat) (journal : Journal) : Prop where
  read : ∀ handle < count, hub.read handle = .ok journal
  /-- What has been appended through one handle is the last entry through every handle. It can be
  looked up, unless the journal is to keep none. -/
  visible : ∀ writer < count, ∀ request entry now id later,
    hub.serve (.call writer (.append request entry now)) =
        .ok (.reply (.appended (.ok id)), later) →
      ∀ reader < count, later.serve (.call reader .lastId) = .ok (.reply (.id id), later) ∧
        later.serve (.call reader (.get id)) = .ok (.reply (.entry
          (if journal.options.maxSize = some 0 then none else some entry)), later)
  /-- A range through a handle hands out the first entries between its bounds. -/
  range : ∀ lower upper, ∃ items, journal.Lists lower upper items ∧ ∀ handle < count, ∀ limit,
    hub.serve (.call handle (.range lower upper limit)) =
      .ok (.reply (.items (items.take limit)), hub)

section Recorded

variable {options : JournalOptions} {log : Log}

/-- An entry that has been appended through one handle is seen through every handle. -/
theorem sole_visible (records : journal.Records options log) (ranged : log.Ranged)
    {writer reader : Nat} (writes : writer < count) (reads : reader < count)
    {request : IdRequest} {entry : Entry} {now : UInt64} {id : EntryId} {later : Hub}
    (goes : (sole journal count).serve (.call writer (.append request entry now)) =
      .ok (.reply (.appended (.ok id)), later)) :
    later.serve (.call reader .lastId) = .ok (.reply (.id id), later) ∧
      later.serve (.call reader (.get id)) = .ok (.reply (.entry
        (if journal.options.maxSize = some 0 then none else some entry)), later) := by
  obtain ⟨outcome, log', answers, step, recorded⟩ := records.answer (.append request entry now)
  rw [serve_call writes answers] at goes
  obtain ⟨answer, middle, events⟩ := outcome
  cases goes
  cases step with
  | appended above =>
    have last : middle.answer .lastId = .ok ⟨.id id, middle, []⟩ := by
      rw [Journal.answer, recorded.lastId, Log.append_lastId]
      rfl
    have found : middle.answer (.get id) = .ok ⟨.entry
        (if journal.options.maxSize = some 0 then none else some entry), middle, []⟩ := by
      rw [Journal.answer, recorded.views.get?, ok_bind, Log.getElem?_append ranged above,
        records.options]
      rfl
    exact ⟨serve_call reads last, serve_call reads found⟩

/-- **The handles on a journal that records a log act as the journal.** -/
theorem sole_actsAs (records : journal.Records options log) (ranged : log.Ranged) (count : Nat) :
    (sole journal count).ActsAs count journal where
  read := by
    intro handle known
    exact sole_read known
  visible := by
    intro writer writes request entry now id later goes reader reads
    exact sole_visible records ranged writes reads goes
  range := by
    intro lower upper
    refine ⟨_, records.lists lower upper, fun handle known limit => ?_⟩
    obtain ⟨range, starts, _, leaves⟩ := Journal.ascending_leaves records.files lower upper
    have listed : journal.answer (.range lower upper limit) =
        .ok ⟨.items ((log.map.between lower upper).take limit), journal, []⟩ := by
      rw [Journal.answer, starts, ok_bind, leaves.take]
      rfl
    exact serve_call known listed

end Recorded

/-! ### Every run of requests -/

/-- **Shared handles act as one journal.** When a journal that calls have led to is shared, and
requests then name only handles that are there, all of them are answered, as the journal answers the
same calls made without handles. The identifiers given out through all handles ascend, what is seen
through any handle is the one journal after those calls, and requests that follow change none of the
answers. -/
theorem handles_act_as_one (options : JournalOptions) (before : List JournalCall)
    {requests : List Request} (known : Request.allKnown 1 requests = true) :
    ∃ earlier start replies journal hub,
      (Journal.empty options).answerAll before = .ok (earlier, start) ∧
      start.answerAll (Request.calls requests) = .ok (replies, journal) ∧
      answerEach serve (Hub.empty.share start).2 requests =
        .ok (Request.answers 1 requests replies, hub) ∧
      (issued replies).Pairwise (· < ·) ∧
      hub.ActsAs (Request.handlesAfter 1 requests) journal ∧
      ∀ more, Request.allKnown (Request.handlesAfter 1 requests) more = true →
        ∃ further last, answerEach serve (Hub.empty.share start).2 (requests ++ more) =
          .ok (Request.answers 1 requests replies ++ further, last) := by
  obtain ⟨earlier, start, log, leads, run, records⟩ :=
    (Journal.Records.empty options).answerAll before
  obtain ⟨replies, journal, log', goes, run', records'⟩ :=
    records.answerAll (Request.calls requests)
  have serves := answerEach_sole known goes
  refine ⟨earlier, start, replies, journal, _, leads, goes, serves,
    (List.pairwise_cons.mp run'.issued_ascend).2,
    sole_actsAs records' (run'.ranged (run.ranged .empty)) _, fun more known' => ?_⟩
  obtain ⟨others, last, _, goesOn, _⟩ := records'.answerAll (Request.calls more)
  exact ⟨_, _, answerEach_append serves (answerEach_sole known' goesOn)⟩

/-- Of two entries that are appended through a handle and its copy, a copy of the copy hands out the
first. -/
theorem handles_after_copies : ∃ journal hub,
    answerEach serve (Hub.empty.share (Journal.empty {})).2
        [.call 0 (.append .auto ⟨[([1], [2])]⟩ 5), .copy 0,
          .call 1 (.append .auto ⟨[([3], [4])]⟩ 5), .copy 1,
          .call 2 (.range .unbounded .unbounded 1)] =
      .ok ([.reply (.appended (.ok ⟨5, 0⟩)), .handle 1, .reply (.appended (.ok ⟨5, 1⟩)), .handle 2,
        .reply (.items [(⟨5, 0⟩, ⟨[([1], [2])]⟩)])], hub) ∧ hub.ActsAs 3 journal := by
  obtain ⟨earlier, start, replies, journal, hub, leads, goes, serves, _, acts, _⟩ :=
    @handles_act_as_one {} [] [.call 0 (.append .auto ⟨[([1], [2])]⟩ 5), .copy 0,
          .call 1 (.append .auto ⟨[([3], [4])]⟩ 5), .copy 1,
          .call 2 (.range .unbounded .unbounded 1)] rfl
  cases leads
  cases goes
  exact ⟨_, _, serves, acts⟩

end RadixLog.Hub
