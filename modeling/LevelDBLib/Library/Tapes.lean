/-
This file is the theory of tapes: rows of cells of which only some were ever
written. A string stands on a tape at a position when every one of its cells was
written there (`Reads`). Tapes grow by writing at the end of their written part;
what stands on a tape keeps standing while it grows, and while it is overwritten
elsewhere.
-/

import LevelDBLib.Library.Buffers

namespace Tapes

open Buffers

variable {Cell : Type}

/-- A row of cells, `none` where nothing was written yet. -/
abbrev Tape (Cell : Type) := List (Option Cell)

/-- The string `source` stands on the tape at `pos`. -/
def Reads (tape : Tape Cell) (pos : Nat) (source : List Cell) : Prop :=
  ∀ index value, source[index]? = some value → tape[pos + index]? = some (some value)

/-- Cells that were never written. -/
def free (count : Nat) : Tape Cell := List.replicate count none

@[simp] theorem length_free (count : Nat) : (free count : Tape Cell).length = count :=
  List.length_replicate

@[simp] theorem free_zero : (free 0 : Tape Cell) = [] := rfl

/-! ### Strings on a tape -/

/-- A string stands where it was written. -/
theorem reads_self (front back : Tape Cell) (source : List Cell) :
    Reads (front ++ source.map some ++ back) front.length source := by
  intro index value equal
  have bound : index < source.length := (List.getElem?_eq_some_iff.mp equal).1
  rw [List.append_assoc, List.getElem?_append_right (Nat.le_add_right _ _),
    Nat.add_sub_cancel_left, List.getElem?_append_left (by rw [List.length_map]; exact bound),
    List.getElem?_map, equal, Option.map_some]

theorem reads_append_left (front tape : Tape Cell) (pos : Nat) (source : List Cell) :
    Reads (front ++ tape) (front.length + pos) source ↔ Reads tape pos source := by
  have shift : ∀ index, (front ++ tape)[front.length + pos + index]? = tape[pos + index]? := by
    intro index
    rw [List.getElem?_append_right (by omega)]
    congr 1
    omega
  constructor
  · intro reads index value equal
    rw [← shift]
    exact reads index value equal
  · intro reads index value equal
    rw [shift]
    exact reads index value equal

/-- A string stands at a position when its parts stand one behind the other. -/
theorem reads_append (tape : Tape Cell) (pos : Nat) (first second : List Cell) :
    Reads tape pos (first ++ second) ↔
      Reads tape pos first ∧ Reads tape (pos + first.length) second := by
  constructor
  · intro reads
    refine ⟨fun index value equal => reads index value ?_, fun index value equal => ?_⟩
    · rw [List.getElem?_append_left (List.getElem?_eq_some_iff.mp equal).1, equal]
    · rw [Nat.add_assoc]
      refine reads (first.length + index) value ?_
      rw [List.getElem?_append_right (Nat.le_add_right _ _), Nat.add_sub_cancel_left, equal]
  · rintro ⟨before, after⟩ index value equal
    by_cases inside : index < first.length
    · rw [List.getElem?_append_left inside] at equal
      exact before index value equal
    · rw [List.getElem?_append_right (by omega)] at equal
      have there := after (index - first.length) value equal
      rw [← there]
      congr 1
      omega

/-- A string that stands on a tape stands in its written part. -/
theorem Reads.within {written : Tape Cell} {count pos : Nat} {source : List Cell}
    (reads : Reads (written ++ free count) pos source) (some' : source ≠ []) :
    pos + source.length ≤ written.length := by
  have positive : 0 < source.length := List.length_pos_iff.mpr some'
  have bound : source.length - 1 < source.length := by omega
  have last := reads (source.length - 1) source[source.length - 1] (List.getElem?_eq_getElem bound)
  by_contra outside
  rw [List.getElem?_append_right (by omega), free, List.getElem?_replicate] at last
  split at last <;> cases last

/-- A string stands inside the tape. -/
theorem Reads.length_le {tape : Tape Cell} {pos : Nat} {source : List Cell}
    (reads : Reads tape pos source) (some' : source ≠ []) :
    pos + source.length ≤ tape.length := by
  have grown : Reads (tape ++ free 0) pos source := by
    rw [free_zero, List.append_nil]
    exact reads
  exact grown.within some'

/-- Growing a tape behind its written part keeps what stands on it. -/
theorem Reads.extend {written : Tape Cell} {count pos : Nat} {source : List Cell}
    (reads : Reads (written ++ free count) pos source) (rest : Tape Cell) :
    Reads (written ++ rest) pos source := by
  intro index value equal
  have bound : index < source.length := (List.getElem?_eq_some_iff.mp equal).1
  have inside := reads.within (List.ne_nil_of_length_pos (by omega))
  have there := reads index value equal
  rw [List.getElem?_append_left (by omega)] at there ⊢
  exact there

/-! ### Overwriting -/

/-- Overwriting cells puts the new string there. -/
theorem reads_splice_self (tape : Tape Cell) (pos : Nat) (source : List Cell)
    (bound : pos + source.length ≤ tape.length) :
    Reads (splice tape pos (source.map some)) pos source := by
  intro index value equal
  have inside : index < source.length := (List.getElem?_eq_some_iff.mp equal).1
  rw [getElem?_splice _ _ _ _ (by rw [List.length_map]; exact bound), List.length_map,
    if_pos (by omega), Nat.add_sub_cancel_left, List.getElem?_map, equal, Option.map_some]

/-- Overwriting cells keeps the strings that stand clear of them. -/
theorem Reads.splice_disjoint {tape : Tape Cell} {pos : Nat} {source : List Cell}
    (reads : Reads tape pos source) (start : Nat) (cells : Tape Cell)
    (bound : start + cells.length ≤ tape.length)
    (clear : pos + source.length ≤ start ∨ start + cells.length ≤ pos) :
    Reads (splice tape start cells) pos source := by
  intro index value equal
  have inside : index < source.length := (List.getElem?_eq_some_iff.mp equal).1
  rw [getElem?_splice _ _ _ _ bound, if_neg (by omega)]
  exact reads index value equal

end Tapes
