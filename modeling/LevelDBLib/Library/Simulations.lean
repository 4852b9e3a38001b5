/-
This file is about two machines that take the same calls: one that may fail, and one that
says what the first is for and never fails. When every call that is allowed leaves the two
related and gets the same reply from both, so does every list of allowed calls.
-/

import LevelDBLib.Library.Runs

namespace Simulations

open Runs

variable {State Abstract Call Reply Failure : Type}

/-- The replies of a machine that never fails. -/
def answers (spec : Abstract → Call → Reply × Abstract) : Abstract → List Call → List Reply × Abstract
  | abstract, [] => ([], abstract)
  | abstract, call :: rest =>
    let (reply, after) := spec abstract call
    let (replies, last) := answers spec after rest
    (reply :: replies, last)

/-- Every call of a list is allowed when its turn comes. -/
def Allowed (spec : Abstract → Call → Reply × Abstract) (allowed : Abstract → Call → Prop) :
    Abstract → List Call → Prop
  | _, [] => True
  | abstract, call :: rest => allowed abstract call ∧ Allowed spec allowed (spec abstract call).2 rest

/-- Allowed calls are answered alike. -/
theorem runAll_answers {step : State → Call → Except Failure (Reply × State)}
    {spec : Abstract → Call → Reply × Abstract} {allowed : Abstract → Call → Prop}
    {related : State → Abstract → Prop}
    (simulates : ∀ state abstract call, related state abstract → allowed abstract call →
      ∃ after, step state call = .ok ((spec abstract call).1, after) ∧
        related after (spec abstract call).2)
    (calls : List Call) (state : State) (abstract : Abstract) (initially : related state abstract)
    (all : Allowed spec allowed abstract calls) :
    ∃ last, runAll step state calls = .ok ((answers spec abstract calls).1, last) ∧
      related last (answers spec abstract calls).2 := by
  induction calls generalizing state abstract with
  | nil => exact ⟨state, rfl, initially⟩
  | cons call rest hypothesis =>
    obtain ⟨after, stepEq, now⟩ := simulates state abstract call initially all.1
    obtain ⟨last, restEq, finally'⟩ := hypothesis after _ now all.2
    refine ⟨last, ?_, finally'⟩
    rw [runAll, stepEq]
    simp only [restEq]
    rfl

end Simulations
