/-
This file speaks of the results of computations that may stop with an error. One
computation returns into a property when its result, if there is one, has it;
two computations agree in a relation when their results are related whenever
both return. A computation is tracked by another one when that one does the same
as long as the state stays intact. All three follow the shape of the
computations: they hold of results that meet them, of errors, and of sequences
whose parts meet them.
-/

import Mathlib.Tactic.Common

namespace Agreements

variable {Error First Second Third Fourth : Type}

/-! ### One computation -/

/-- The result of the computation, if it returns, has the property. -/
def Returns (property : First → Prop) (one : Except Error First) : Prop :=
  ∀ first, one = .ok first → property first

theorem Returns.ok {property : First → Prop} {first : First} (holds : property first) :
    Returns property (.ok first : Except Error First) := by
  intro other equal
  cases equal
  exact holds

theorem Returns.error {property : First → Prop} (error : Error) :
    Returns property (.error error) := by
  intro first equal
  cases equal

theorem Returns.mono {property weaker : First → Prop} {one : Except Error First}
    (returns : Returns property one) (weaken : ∀ first, property first → weaker first) :
    Returns weaker one :=
  fun first equal => weaken first (returns first equal)

theorem Returns.any (one : Except Error First) : Returns (fun _ => True) one :=
  fun _ _ => trivial

/-- A sequence returns where its second part does on every result of the first. -/
theorem Returns.bind {property : First → Prop} {after : Second → Prop} {one : Except Error First}
    {next : First → Except Error Second} (returns : Returns property one)
    (rest : ∀ first, property first → Returns after (next first)) :
    Returns after (one >>= next) := by
  cases one with
  | error error => exact Returns.error error
  | ok first => exact rest first (returns first rfl)

theorem Returns.ite {property : First → Prop} {condition : Prop} [Decidable condition]
    {one other : Except Error First} (holds : condition → Returns property one)
    (fails : ¬ condition → Returns property other) :
    Returns property (if condition then one else other) := by
  by_cases decided : condition
  · rw [if_pos decided]
    exact holds decided
  · rw [if_neg decided]
    exact fails decided

/-! ### Two computations -/

/-- Whenever both computations return, their results are related. -/
def Agree (related : First → Second → Prop) (one : Except Error First)
    (two : Except Error Second) : Prop :=
  ∀ first second, one = .ok first → two = .ok second → related first second

theorem Agree.ok {related : First → Second → Prop} {first : First} {second : Second}
    (holds : related first second) :
    Agree related (.ok first : Except Error First) (.ok second) := by
  intro one two oneEq twoEq
  cases oneEq
  cases twoEq
  exact holds

theorem Agree.error_left {related : First → Second → Prop} (error : Error)
    (two : Except Error Second) : Agree related (.error error) two := by
  intro first second returned
  cases returned

theorem Agree.error_right {related : First → Second → Prop} (error : Error)
    (one : Except Error First) : Agree related one (.error error) := by
  intro first second _ returned
  cases returned

/-- A computation agrees with itself in equality. -/
theorem Agree.refl (one : Except Error First) : Agree Eq one one := by
  intro first second firstEq secondEq
  rw [firstEq] at secondEq
  exact Except.ok.inj secondEq

/-- Two sequences agree when their first parts do and their second parts do on related results. -/
theorem Agree.bind {related : First → Second → Prop} {after : Third → Fourth → Prop}
    {one : Except Error First} {two : Except Error Second}
    {oneNext : First → Except Error Third} {twoNext : Second → Except Error Fourth}
    (agree : Agree related one two)
    (next : ∀ first second, related first second → Agree after (oneNext first) (twoNext second)) :
    Agree after (one >>= oneNext) (two >>= twoNext) := by
  cases one with
  | error error => exact Agree.error_left error _
  | ok first =>
    cases two with
    | error error => exact Agree.error_right error _
    | ok second => exact next first second (agree first second rfl rfl)

/-- The same check in front of both. -/
theorem Agree.ite {related : First → Second → Prop} {condition : Prop} [Decidable condition]
    {one other : Except Error First} {two another : Except Error Second}
    (holds : condition → Agree related one two) (fails : ¬ condition → Agree related other another) :
    Agree related (if condition then one else other) (if condition then two else another) := by
  by_cases decided : condition
  · rw [if_pos decided, if_pos decided]
    exact holds decided
  · rw [if_neg decided, if_neg decided]
    exact fails decided

/-! ### A computation that can break its state -/

section Wear

variable {State : Type}

/-- An order of states in which a state that is intact came from intact ones, and the state from
where computations are looked at. -/
structure Wear (State : Type) where
  origin : State
  reach : State → State → Prop
  intact : State → Prop
  refl : ∀ state, reach state state
  trans : ∀ {first second third}, reach first second → reach second third → reach first third
  back : ∀ {first second}, reach first second → intact second → intact first

/-- The first computation moves the state along, and where it leaves the state intact the second
one returns the image of its result. -/
def Tracks (wear : Wear State) (start : State) (state : First → State) (image : First → Second)
    (one : Except Error First) (two : Except Error Second) : Prop :=
  wear.reach wear.origin start → ∀ first, one = .ok first →
    wear.reach start (state first) ∧ (wear.intact (state first) → two = .ok (image first))

variable {wear : Wear State} {start : State} {state : First → State} {image : First → Second}
  {after : Third → State} {imageAfter : Third → Fourth}

theorem Tracks.ok {first : First} (reached : wear.reach start (state first)) :
    Tracks wear start state image (.ok first : Except Error First) (.ok (image first)) := by
  intro _ other equal
  cases equal
  exact ⟨reached, fun _ => rfl⟩

theorem Tracks.error (error : Error) (two : Except Error Second) :
    Tracks wear start state image (.error error) two := by
  intro _ first equal
  cases equal

/-- A sequence is tracked by the sequence of what tracks its parts. -/
theorem Tracks.bind {one : Except Error First} {two : Except Error Second}
    {oneNext : First → Except Error Third} {twoNext : Second → Except Error Fourth}
    (tracks : Tracks wear start state image one two)
    (next : ∀ first, Tracks wear (state first) after imageAfter (oneNext first)
      (twoNext (image first))) :
    Tracks wear start after imageAfter (one >>= oneNext) (two >>= twoNext) := by
  intro begun last returned
  cases equal : one with
  | error error =>
    rw [equal] at returned
    cases returned
  | ok first =>
    rw [equal] at returned
    have ⟨reached, same⟩ := tracks begun first equal
    have ⟨later, sameAfter⟩ := next first (wear.trans begun reached) last returned
    refine ⟨wear.trans reached later, fun intact => ?_⟩
    rw [same (wear.back later intact)]
    exact sameAfter intact

/-- The same computation without the state in front of both. -/
theorem Tracks.same {one : Except Error Third} {oneNext : Third → Except Error First}
    {twoNext : Third → Except Error Second}
    (next : ∀ third, Tracks wear start state image (oneNext third) (twoNext third)) :
    Tracks wear start state image (one >>= oneNext) (one >>= twoNext) := by
  cases one with
  | error error => exact Tracks.error error _
  | ok third => exact next third

theorem Tracks.ite {condition : Prop} [Decidable condition] {one other : Except Error First}
    {two another : Except Error Second}
    (holds : condition → Tracks wear start state image one two)
    (fails : ¬ condition → Tracks wear start state image other another) :
    Tracks wear start state image (if condition then one else other)
      (if condition then two else another) := by
  by_cases decided : condition
  · rw [if_pos decided, if_pos decided]
    exact holds decided
  · rw [if_neg decided, if_neg decided]
    exact fails decided

end Wear

end Agreements
