/-
This file is the theory of logs: a tape on which named strings stand, no two of
them in the same cells. A log grows by a string behind the written part of its
tape, and a string of it may be overwritten by one of the same length; neither
touches the other strings.
-/

import Mathlib.Logic.Function.Basic
import LevelDBLib.Library.Tapes

namespace Logs

open Buffers Tapes

variable {Cell Name : Type}

/-- The named strings stand on the tape, each in cells of its own. -/
structure Kept (tape : Tape Cell) (records : Name → Option (Nat × List Cell)) : Prop where
  some' : ∀ name pos source, records name = some (pos, source) → source ≠ []
  stands : ∀ name pos source, records name = some (pos, source) → Reads tape pos source
  apart : ∀ one other pos source start cells, one ≠ other → records one = some (pos, source) →
    records other = some (start, cells) →
    pos + source.length ≤ start ∨ start + cells.length ≤ pos

variable {written : Tape Cell} {count : Nat} {records : Name → Option (Nat × List Cell)}

/-- A log without strings. -/
theorem kept_nothing (tape : Tape Cell) (nothing : ∀ name, records name = none) :
    Kept tape records := by
  refine ⟨fun name _ _ known => ?_, fun name _ _ known => ?_,
    fun one _ _ _ _ _ _ known => ?_⟩ <;>
  · rw [nothing] at known
    cases known

/-- Every string of a log stands in the written part of the tape. -/
theorem Kept.within (kept : Kept (written ++ free count) records) {name : Name} {pos : Nat}
    {source : List Cell} (known : records name = some (pos, source)) :
    pos + source.length ≤ written.length :=
  (kept.stands name pos source known).within (kept.some' name pos source known)

variable [DecidableEq Name]

/-- One more string, behind the written part. -/
theorem Kept.add (kept : Kept (written ++ free count) records) (rest : Tape Cell) (name : Name)
    (pos : Nat) (source : List Cell) (some' : source ≠ [])
    (reads : Reads (written ++ rest) pos source) (behind : written.length ≤ pos) :
    Kept (written ++ rest) (Function.update records name (some (pos, source))) := by
  have after : ∀ other start cells, records other = some (start, cells) →
      start + cells.length ≤ pos := fun other start cells known =>
    Nat.le_trans (kept.within known) behind
  refine ⟨fun other start cells known => ?_, fun other start cells known => ?_,
    fun one other start cells start' cells' different known known' => ?_⟩
  · by_cases same : other = name
    · rw [same, Function.update_self] at known
      cases known
      exact some'
    · rw [Function.update_of_ne same] at known
      exact kept.some' other start cells known
  · by_cases same : other = name
    · rw [same, Function.update_self] at known
      cases known
      exact reads
    · rw [Function.update_of_ne same] at known
      exact (kept.stands other start cells known).extend rest
  · by_cases same : one = name
    · rw [same, Function.update_self] at known
      rw [Function.update_of_ne fun equal => different (same.trans equal.symm)] at known'
      cases known
      exact Or.inr (after other start' cells' known')
    · rw [Function.update_of_ne same] at known
      by_cases same' : other = name
      · rw [same', Function.update_self] at known'
        cases known'
        exact Or.inl (after one start cells known)
      · rw [Function.update_of_ne same'] at known'
        exact kept.apart one other start cells start' cells' different known known'

/-- A string of the log overwritten by one of the same length. -/
theorem Kept.overwrite {tape : Tape Cell} (kept : Kept tape records) (name : Name) (pos : Nat)
    (old source : List Cell) (known : records name = some (pos, old))
    (lengths : source.length = old.length) :
    Kept (splice tape pos (source.map some))
      (Function.update records name (some (pos, source))) := by
  have oldSome := kept.some' name pos old known
  have bound := (kept.stands name pos old known).length_le oldSome
  have spliceBound : pos + (source.map some).length ≤ tape.length := by
    rw [List.length_map, lengths]
    exact bound
  refine ⟨fun other start cells found => ?_, fun other start cells found => ?_,
    fun one other start cells start' cells' different found found' => ?_⟩
  · by_cases same : other = name
    · rw [same, Function.update_self] at found
      cases found
      exact List.ne_nil_of_length_pos (by rw [lengths]; exact List.length_pos_iff.mpr oldSome)
    · rw [Function.update_of_ne same] at found
      exact kept.some' other start cells found
  · by_cases same : other = name
    · rw [same, Function.update_self] at found
      cases found
      exact reads_splice_self tape pos source (by rw [lengths]; exact bound)
    · rw [Function.update_of_ne same] at found
      refine (kept.stands other start cells found).splice_disjoint pos _ spliceBound ?_
      rw [List.length_map, lengths]
      exact kept.apart other name start cells pos old same found known
  · by_cases same : one = name
    · rw [same, Function.update_self] at found
      have apart : other ≠ name := fun equal => different (same.trans equal.symm)
      rw [Function.update_of_ne apart] at found'
      cases found
      rw [lengths]
      exact kept.apart name other pos old start' cells' apart.symm known found'
    · rw [Function.update_of_ne same] at found
      by_cases same' : other = name
      · rw [same', Function.update_self] at found'
        cases found'
        rw [lengths]
        exact kept.apart one name start cells pos old same found known
      · rw [Function.update_of_ne same'] at found'
        exact kept.apart one other start cells start' cells' different found found'

end Logs
