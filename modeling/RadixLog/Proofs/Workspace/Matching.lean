/-
**Runs that match.**

What is promised of a workspace is said by another machine that answers the same calls. The two
match when all their answers and faults are the same and their states stay related.

* `Paired`: two lists whose items of the same numbers are related;
* `Matches`: two outcomes that are the same fault, or the same answer with related states;
* `Paired.join`, `Matches.join`: two that are related to the same are related through it;
* `Workspace.answerAll_matches`: runs match if their steps do.
-/

import Mathlib.Tactic.Common
import RadixLog.Proofs.Fault
import RadixLog.Workspace

namespace RadixLog

/-! ### Lists item by item -/

/-- Two lists of the same length whose items of the same numbers are related. -/
structure Paired {σ τ : Type} (related : Nat → σ → τ → Prop) (left : List σ) (right : List τ) :
    Prop where
  length : left.length = right.length
  item : ∀ {index : Nat} {a : σ} {b : τ}, left[index]? = some a → right[index]? = some b →
    related index a b

namespace Paired

variable {σ τ : Type} {related later : Nat → σ → τ → Prop} {left : List σ} {right : List τ}
  {a : σ} {b : τ}

theorem nil : Paired related [] [] := ⟨rfl, nofun⟩

/-- A number is that of an item of both lists, or of neither. -/
theorem exists_or_none (paired : Paired related left right) (index : Nat) :
    (∃ a b, left[index]? = some a ∧ right[index]? = some b ∧ related index a b) ∨
      (left[index]? = none ∧ right[index]? = none) := by
  by_cases inside : index < right.length
  · have first := List.getElem?_eq_getElem (paired.length ▸ inside)
    have second := List.getElem?_eq_getElem inside
    exact .inl ⟨_, _, first, second, paired.item first second⟩
  · have beyond := Nat.not_lt.mp inside
    exact .inr ⟨List.getElem?_eq_none (paired.length ▸ beyond), List.getElem?_eq_none beyond⟩

theorem exists_right {index : Nat} (paired : Paired related left right)
    (found : left[index]? = some a) : ∃ b, right[index]? = some b ∧ related index a b := by
  have inside := (List.getElem?_eq_some_iff.mp found).1
  have second := List.getElem?_eq_getElem (paired.length ▸ inside)
  exact ⟨_, second, paired.item found second⟩

theorem mono (paired : Paired related left right)
    (weaken : ∀ index a b, related index a b → later index a b) : Paired later left right :=
  ⟨paired.length, fun first second => weaken _ _ _ (paired.item first second)⟩

/-- Items on the right may be replaced by what they are converted to. -/
theorem map_right {υ : Type} {convert : τ → υ} {converted : Nat → σ → υ → Prop}
    (paired : Paired related left right)
    (relate : ∀ index a b, related index a b → converted index a (convert b)) :
    Paired converted left (right.map convert) where
  length := by rw [paired.length, List.length_map]
  item := by
    intro index a b' first second
    rw [List.getElem?_map, Option.map_eq_some_iff] at second
    obtain ⟨b, second, rfl⟩ := second
    exact relate index a b (paired.item first second)

/-- Items that are related to the same items are related through them. -/
theorem join {υ : Type} {related : Nat → σ → υ → Prop} {related' : Nat → τ → υ → Prop}
    {middle : List υ} (first : Paired related left middle)
    (second : Paired related' right middle) :
    Paired (fun index a b => ∃ c, related index a c ∧ related' index b c) left right where
  length := first.length.trans second.length.symm
  item := by
    intro index a b found found'
    obtain ⟨c, inside, here⟩ := first.exists_right found
    exact ⟨c, here, second.item found' inside⟩

/-- **Related items may be added** at the ends. -/
theorem append (paired : Paired related left right) (last : related left.length a b) :
    Paired related (left ++ [a]) (right ++ [b]) where
  length := by simp [paired.length]
  item := by
    intro index a' b' first second
    rw [List.getElem?_append] at first second
    rw [← paired.length] at second
    split_ifs at first second with inside
    · exact paired.item first second
    · simp only [List.getElem?_singleton, Option.ite_none_right_eq_some, Option.some.injEq]
        at first second
      obtain ⟨here, rfl⟩ := first
      obtain ⟨_, rfl⟩ := second
      rwa [show index = left.length by omega]

/-- **Related items may be put** in the same places. -/
theorem set (paired : Paired related left right) {place : Nat} (here : related place a b) :
    Paired related (left.set place a) (right.set place b) where
  length := by simp [paired.length]
  item := by
    intro index a' b' first second
    rw [List.getElem?_set] at first second
    by_cases same : place = index
    · subst same
      simp only [if_true, Option.ite_none_right_eq_some, Option.some.injEq] at first second
      rwa [← first.2, ← second.2]
    · rw [if_neg same] at first second
      exact paired.item first second

end Paired

/-! ### Outcomes and runs -/

/-- Two outcomes match when both are the same fault, or both are the same answer with related
states. -/
def Matches {β σ τ : Type} (related : σ → τ → Prop) :
    Except Fault (β × σ) → Except Fault (β × τ) → Prop
  | .ok (answer, state), .ok (expected, other) => answer = expected ∧ related state other
  | .error fault, .error expected => fault = expected
  | _, _ => False

theorem Matches.mono {β σ τ : Type} {related later : σ → τ → Prop} {outcome : Except Fault (β × σ)}
    {expected : Except Fault (β × τ)} (same : Matches related outcome expected)
    (weaken : ∀ state other, related state other → later state other) :
    Matches later outcome expected := by
  cases outcome <;> cases expected
  · exact same
  · exact same.elim
  · exact same.elim
  · exact ⟨same.1, weaken _ _ same.2⟩

/-- An outcome that matches an answer is that answer. -/
theorem Matches.exists_ok {β σ τ : Type} {related : σ → τ → Prop} {outcome : Except Fault (β × σ)}
    {answer : β} {other : τ} (matched : Matches related outcome (.ok (answer, other))) :
    ∃ state, outcome = .ok (answer, state) ∧ related state other := by
  cases outcome with
  | error fault => exact matched.elim
  | ok result =>
    obtain ⟨_, state⟩ := result
    obtain ⟨rfl, same⟩ := matched
    exact ⟨state, rfl, same⟩

theorem Matches.exists_expected {β σ τ : Type} {related : σ → τ → Prop} {answer : β} {state : σ}
    {expected : Except Fault (β × τ)} (matched : Matches related (.ok (answer, state)) expected) :
    ∃ other, expected = .ok (answer, other) ∧ related state other := by
  cases expected with
  | error fault => exact matched.elim
  | ok result =>
    obtain ⟨_, other⟩ := result
    obtain ⟨rfl, same⟩ := matched
    exact ⟨other, rfl, same⟩

/-- Outcomes that match the same outcome match, with states that are related through its state. -/
theorem Matches.join {β σ τ υ : Type} {related : σ → υ → Prop} {related' : τ → υ → Prop}
    {outcome : Except Fault (β × σ)} {other : Except Fault (β × τ)}
    {expected : Except Fault (β × υ)} (first : Matches related outcome expected)
    (second : Matches related' other expected) :
    Matches (fun state state' => ∃ common, related state common ∧ related' state' common)
      outcome other := by
  cases expected with
  | error fault =>
    cases outcome with
    | ok result => exact first.elim
    | error fault' =>
      cases other with
      | ok result => exact second.elim
      | error fault'' => exact Eq.trans first second.symm
  | ok result =>
    obtain ⟨answer, common⟩ := result
    obtain ⟨state, rfl, here⟩ := first.exists_ok
    obtain ⟨state', rfl, here'⟩ := second.exists_ok
    exact ⟨rfl, common, here, here'⟩

/-- Outcomes that match go on to outcomes that match. -/
theorem Matches.bind {β γ σ τ σ' τ' : Type} {related : σ → τ → Prop} {later : σ' → τ' → Prop}
    {outcome : Except Fault (β × σ)} {expected : Except Fault (β × τ)}
    {next : β × σ → Except Fault (γ × σ')} {other : β × τ → Except Fault (γ × τ')}
    (first : Matches related outcome expected)
    (goesOn : ∀ answer state state', related state state' →
      Matches later (next (answer, state)) (other (answer, state'))) :
    Matches later (outcome >>= next) (expected >>= other) := by
  cases outcome with
  | error fault =>
    cases expected with
    | error fault' => exact first
    | ok result => exact first.elim
  | ok result =>
    cases expected with
    | error fault' => exact first.elim
    | ok result' =>
      obtain ⟨answer, state⟩ := result
      obtain ⟨answer', state'⟩ := result'
      obtain ⟨rfl, start⟩ := first
      exact goesOn answer state state' start

/-- The answers to calls made one after the other, each given by `answer`, and the state after
them. -/
def answerEach {β γ τ : Type} (answer : τ → γ → Except Fault (β × τ)) (state : τ) :
    List γ → Except Fault (List β × τ)
  | [] => return ([], state)
  | call :: calls => do
    let (first, state) ← answer state call
    let (answers, state) ← answerEach answer state calls
    return (first :: answers, state)

theorem answerEach_append {β γ τ : Type} {answer : τ → γ → Except Fault (β × τ)}
    {state middle last : τ} {calls more : List γ} {answers others : List β}
    (first : answerEach answer state calls = .ok (answers, middle))
    (rest : answerEach answer middle more = .ok (others, last)) :
    answerEach answer state (calls ++ more) = .ok (answers ++ others, last) := by
  induction calls generalizing state answers with
  | nil =>
    cases first
    exact rest
  | cons call calls ih =>
    obtain ⟨⟨given, next⟩, goes, first⟩ := bind_eq_ok first
    obtain ⟨⟨after, ends⟩, goesOn, first⟩ := bind_eq_ok first
    cases first
    rw [List.cons_append, answerEach, goes, ok_bind]
    dsimp only
    rw [ih goesOn]
    rfl

/-- **Runs match if their steps do.** -/
theorem Workspace.answerAll_matches {α γ τ : Type} {related : Workspace α → τ → Prop}
    {answer : τ → γ → Except Fault (Answer α × τ)} {convert : γ → Call α}
    (step : ∀ workspace state call, related workspace state →
      Matches related (workspace.answer (convert call)) (answer state call))
    {workspace : Workspace α} {state : τ} (start : related workspace state) (calls : List γ) :
    Matches related (workspace.answerAll (calls.map convert)) (answerEach answer state calls) := by
  induction calls generalizing workspace state with
  | nil => exact ⟨rfl, start⟩
  | cons call calls ih =>
    rw [List.map_cons, answerAll, answerEach]
    exact (step workspace state call start).bind fun first middle state' goesOn =>
      (ih goesOn).bind fun answers last state'' ends => ⟨rfl, ends⟩

end RadixLog
