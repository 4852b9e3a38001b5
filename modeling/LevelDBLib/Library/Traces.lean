/-
This file is the theory of traces: a machine answers one call after another, and its trace
is the list of the answers. Two machines that stay related as long as their calls are clean,
and that answer a call alike exactly when it is clean, have the same trace exactly along the
clean sequences of calls.
-/

import Mathlib.Tactic.Common

namespace Traces

variable {State Abstract Call Answer : Type}

/-- The answers to calls made one after the other. -/
def trace (step : State → Call → Answer × State) : State → List Call → List Answer
  | _, [] => []
  | state, call :: calls => (step state call).1 :: trace step (step state call).2 calls

/-- Every call of the sequence is clean where it is made. -/
def AllClean (step : State → Call → Answer × State) (spec : Abstract → Call → Answer × Abstract)
    (clean : State → Abstract → Call → Prop) : State → Abstract → List Call → Prop
  | _, _, [] => True
  | state, abstract, call :: calls => clean state abstract call ∧
      AllClean step spec clean (step state call).2 (spec abstract call).2 calls

variable {step : State → Call → Answer × State} {spec : Abstract → Call → Answer × Abstract}
  {clean : State → Abstract → Call → Prop} {related : State → Abstract → Prop}

/-- Traces agree exactly along the clean sequences of calls. -/
theorem trace_eq_iff
    (agree : ∀ state abstract call, related state abstract →
      ((step state call).1 = (spec abstract call).1 ↔ clean state abstract call))
    (kept : ∀ state abstract call, related state abstract → clean state abstract call →
      related (step state call).2 (spec abstract call).2)
    (calls : List Call) {state : State} {abstract : Abstract} (start : related state abstract) :
    trace step state calls = trace spec abstract calls ↔
      AllClean step spec clean state abstract calls := by
  induction calls generalizing state abstract with
  | nil => exact ⟨fun _ => trivial, fun _ => rfl⟩
  | cons call calls hypothesis =>
    rw [trace, trace, List.cons_eq_cons, AllClean, agree state abstract call start]
    refine and_congr_right fun first => ?_
    exact hypothesis (kept state abstract call start first)

end Traces
