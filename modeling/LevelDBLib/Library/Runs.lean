/-
This file is the theory of guarded runs: a state takes one call after another,
each call may fail, and only calls that the guard admits are looked at. A run
carries its history, the calls with their results; the guard sees the history and
the state that a call finds. What every admitted call preserves holds in every
state a run reaches.
-/

import Mathlib.Tactic.Common

namespace Runs

variable {State Call Reply Failure : Type}

/-- The calls of a run with what they returned, the last one first. -/
abbrev History (Call Reply : Type) := List (Call × Reply)

/-- The runs of `step` from `start` whose calls all met the guard when they were made. -/
inductive Run (step : State → Call → Except Failure (Reply × State))
    (guard : History Call Reply → State → Call → Prop) (start : State) :
    History Call Reply → State → Prop
  | start : Run step guard start [] start
  | step {history : History Call Reply} {state after : State} {call : Call} {reply : Reply}
      (before : Run step guard start history state) (admitted : guard history state call)
      (returned : step state call = .ok (reply, after)) :
      Run step guard start ((call, reply) :: history) after

variable {step : State → Call → Except Failure (Reply × State)}
  {guard : History Call Reply → State → Call → Prop}

/-- A property of history and state that every admitted call preserves holds along every run. -/
theorem Run.invariant {start state : State} {history : History Call Reply}
    (run : Run step guard start history state) (holds : History Call Reply → State → Prop)
    (initially : holds [] start)
    (preserved : ∀ history state call reply after, holds history state →
      guard history state call → step state call = .ok (reply, after) → holds ((call, reply) :: history) after) :
    holds history state := by
  induction run with
  | start => exact initially
  | step _ admitted returned inductionHypothesis =>
    exact preserved _ _ _ _ _ inductionHypothesis admitted returned

/-- A run under one guard is a run under any weaker one. -/
theorem Run.mono {start state : State} {history : History Call Reply}
    (run : Run step guard start history state) {other : History Call Reply → State → Call → Prop}
    (weaker : ∀ history state call, guard history state call → other history state call) :
    Run step other start history state := by
  induction run with
  | start => exact .start
  | step _ admitted returned inductionHypothesis =>
    exact inductionHypothesis.step (weaker _ _ _ admitted) returned

/-- The calls of a list, made one after the other. -/
def runAll (step : State → Call → Except Failure (Reply × State)) :
    State → List Call → Except Failure (List Reply × State)
  | state, [] => .ok ([], state)
  | state, call :: rest =>
    match step state call with
    | .error failure => .error failure
    | .ok (reply, after) =>
      match runAll step after rest with
      | .error failure => .error failure
      | .ok (replies, last) => .ok (reply :: replies, last)

/-- The calls of a list after those of another one. -/
theorem runAll_append {state middle : State} {first second : List Call} {replies : List Reply}
    (ran : runAll step state first = .ok (replies, middle)) :
    runAll step state (first ++ second) =
      (runAll step middle second).map fun result => (replies ++ result.1, result.2) := by
  induction first generalizing state replies with
  | nil =>
    cases ran
    cases equal : runAll step middle second <;> simp [Except.map, equal]
  | cons call rest inductionHypothesis =>
    rw [runAll] at ran
    cases returned : step state call with
    | error failure => simp [returned] at ran
    | ok pair =>
      obtain ⟨reply, after⟩ := pair
      simp only [returned] at ran
      cases restEq : runAll step after rest with
      | error failure => simp [restEq] at ran
      | ok others =>
        obtain ⟨more, last⟩ := others
        simp only [restEq] at ran
        cases ran
        rw [List.cons_append, runAll, returned]
        simp only [inductionHypothesis restEq]
        cases equal : runAll step middle second <;> simp [Except.map]

/-- Calls made one after the other are a run, if nothing is asked of them. -/
theorem run_of_runAll {start : State} (calls : List Call) :
    ∀ {state last : State} {replies : List Reply} {history : History Call Reply},
      Run step guard start history state →
      (∀ history state, ∀ call ∈ calls, guard history state call) →
      runAll step state calls = .ok (replies, last) →
      Run step guard start ((calls.zip replies).reverse ++ history) last := by
  induction calls with
  | nil =>
    intro state last replies history run _ equal
    cases equal
    exact run
  | cons call rest inductionHypothesis =>
    intro state last replies history run admitted equal
    rw [runAll] at equal
    split at equal
    · cases equal
    · rename_i reply after returned
      split at equal
      · cases equal
      · rename_i others final restEqual
        cases equal
        have whole := inductionHypothesis
          (run.step (admitted history state call List.mem_cons_self) returned)
          (fun history state other member =>
            admitted history state other (List.mem_cons_of_mem _ member)) restEqual
        rwa [List.zip_cons_cons, List.reverse_cons, List.append_assoc]

/-! ### Conditions along a run -/

/-- The calls of the list meet a condition, each where it is made. -/
def Along (step : State → Call → Except Failure (Reply × State)) (meets : State → Call → Prop) :
    State → List Call → Prop
  | _, [] => True
  | state, call :: rest => meets state call ∧
      ∀ reply after, step state call = .ok (reply, after) → Along step meets after rest

theorem along_of_forall {meets : State → Call → Prop} (always : ∀ state call, meets state call)
    (calls : List Call) (state : State) : Along step meets state calls := by
  induction calls generalizing state with
  | nil => exact trivial
  | cons call rest hypothesis =>
    exact ⟨always state call, fun reply after _ => hypothesis after⟩

/-- A list whose calls meet a condition under which they return is run to its end. -/
theorem Along.returns {meets : State → Call → Prop}
    (single : ∀ state call, meets state call → ∃ result, step state call = .ok result)
    {calls : List Call} {state : State} (along : Along step meets state calls) :
    ∃ result, runAll step state calls = .ok result := by
  induction calls generalizing state with
  | nil => exact ⟨([], state), rfl⟩
  | cons call rest hypothesis =>
    obtain ⟨met, others⟩ := along
    obtain ⟨⟨reply, after⟩, returned⟩ := single state call met
    obtain ⟨⟨replies, last⟩, ran⟩ := hypothesis (others reply after returned)
    exact ⟨(reply :: replies, last), by simp only [runAll, returned, ran]⟩

/-- Two conditions that agree wherever an invariant holds, and one of which keeps the invariant,
are met along the same runs. -/
theorem along_iff {allowed holds meets : State → Call → Prop} (invariant : State → Prop)
    (agree : ∀ state call, invariant state → allowed state call →
      (holds state call ↔ meets state call))
    (kept : ∀ state call reply after, invariant state → allowed state call → meets state call →
      step state call = .ok (reply, after) → invariant after)
    (calls : List Call) {state : State} (start : invariant state)
    (along : Along step allowed state calls) :
    Along step holds state calls ↔ Along step meets state calls := by
  induction calls generalizing state with
  | nil => exact Iff.rfl
  | cons call rest hypothesis =>
    obtain ⟨first, others⟩ := along
    rw [Along, Along, agree state call start first]
    refine and_congr_right fun met => forall_congr' fun reply => forall_congr' fun after =>
      forall_congr' fun returned => ?_
    exact hypothesis (kept state call reply after start first met returned)
      (others reply after returned)

end Runs
