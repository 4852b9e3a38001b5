/-
This file is the theory of fixed-size buffers: reading a run of cells (`slice`)
and overwriting a run of cells in place (`splice`). Both are total on lists; the
side conditions of the lemmas are the bounds checks of the caller. A splice keeps
the length of the buffer, reads back what it wrote, and is invisible to every
read that stays clear of the cells it covers.
-/

import Mathlib.Tactic.Common

namespace Buffers

variable {Cell : Type}

/-- `count` cells of the buffer from `start` on. -/
def slice (buffer : List Cell) (start count : Nat) : List Cell :=
  (buffer.drop start).take count

/-- The buffer with the cells from `start` on replaced by `source`. -/
def splice (buffer : List Cell) (start : Nat) (source : List Cell) : List Cell :=
  buffer.take start ++ source ++ buffer.drop (start + source.length)

/-! ### Lengths -/

theorem length_slice (buffer : List Cell) (start count : Nat)
    (bound : start + count ≤ buffer.length) : (slice buffer start count).length = count := by
  simp only [slice, List.length_take, List.length_drop]
  omega

theorem length_splice (buffer : List Cell) (start : Nat) (source : List Cell)
    (bound : start + source.length ≤ buffer.length) :
    (splice buffer start source).length = buffer.length := by
  simp only [splice, List.length_append, List.length_take, List.length_drop]
  omega

/-! ### Cells -/

theorem getElem?_slice (buffer : List Cell) (start count index : Nat) :
    (slice buffer start count)[index]? =
      if index < count then buffer[start + index]? else none := by
  rw [slice, List.getElem?_take, List.getElem?_drop]

/-- The cells of a splice: inside the covered run the source, elsewhere the buffer. -/
theorem getElem?_splice (buffer : List Cell) (start : Nat) (source : List Cell) (index : Nat)
    (bound : start + source.length ≤ buffer.length) :
    (splice buffer start source)[index]? =
      if start ≤ index ∧ index < start + source.length then source[index - start]?
      else buffer[index]? := by
  have startLe : min start buffer.length = start := by omega
  rw [splice, List.append_assoc, List.getElem?_append, List.length_take, startLe]
  by_cases before : index < start
  · rw [if_pos before, if_neg (by omega), List.getElem?_take, if_pos before]
  · rw [if_neg before, List.getElem?_append]
    by_cases inside : index - start < source.length
    · rw [if_pos inside, if_pos (by omega)]
    · rw [if_neg inside, if_neg (by omega), List.getElem?_drop]
      congr 1
      omega

/-! ### Reading after writing -/

theorem slice_splice_self (buffer : List Cell) (start : Nat) (source : List Cell)
    (bound : start + source.length ≤ buffer.length) :
    slice (splice buffer start source) start source.length = source := by
  refine List.ext_getElem? fun index => ?_
  rw [getElem?_slice, getElem?_splice buffer start source _ bound]
  by_cases inside : index < source.length
  · rw [if_pos inside, if_pos (by omega)]
    congr 1
    omega
  · rw [if_neg inside, List.getElem?_eq_none (by omega)]

/-- A read that stays clear of the overwritten cells does not see the splice. -/
theorem slice_splice_disjoint (buffer : List Cell) (start : Nat) (source : List Cell)
    (readStart count : Nat) (bound : start + source.length ≤ buffer.length)
    (clear : readStart + count ≤ start ∨ start + source.length ≤ readStart) :
    slice (splice buffer start source) readStart count = slice buffer readStart count := by
  refine List.ext_getElem? fun index => ?_
  rw [getElem?_slice, getElem?_slice, getElem?_splice buffer start source _ bound]
  by_cases inside : index < count
  · rw [if_pos inside, if_pos inside, if_neg (by omega)]
  · rw [if_neg inside, if_neg inside]

theorem slice_slice (buffer : List Cell) (outer inner start count : Nat)
    (bound : start + count ≤ inner) :
    slice (slice buffer outer inner) start count = slice buffer (outer + start) count := by
  refine List.ext_getElem? fun index => ?_
  rw [getElem?_slice, getElem?_slice, getElem?_slice]
  by_cases inside : index < count
  · rw [if_pos inside, if_pos inside, if_pos (by omega), Nat.add_assoc]
  · rw [if_neg inside, if_neg inside]

theorem slice_zero (buffer : List Cell) (start : Nat) : slice buffer start 0 = [] := by
  rw [slice, List.take_zero]

theorem slice_all (buffer : List Cell) : slice buffer 0 buffer.length = buffer := by
  rw [slice, List.drop_zero, List.take_length]

/-- A run behind another one, wherever the buffer ends. -/
theorem splice_splice_behind (buffer : List Cell) (start : Nat) (first second : List Cell)
    (inside : start ≤ buffer.length) :
    splice (splice buffer start first) (start + first.length) second =
      splice buffer start (first ++ second) := by
  have front : (buffer.take start ++ first).length = start + first.length := by
    rw [List.length_append, List.length_take_of_le inside]
  have taken : (splice buffer start first).take (start + first.length) =
      buffer.take start ++ first := by
    rw [splice, List.take_left' front]
  have dropped : (splice buffer start first).drop (start + first.length + second.length) =
      buffer.drop (start + (first ++ second).length) := by
    rw [← List.drop_drop, splice, List.drop_left' front, List.drop_drop, List.length_append,
      Nat.add_assoc]
  rw [splice, taken, dropped, List.append_assoc (buffer.take start)]
  rfl

/-- Two runs written one behind the other are one run. -/
theorem splice_append (buffer : List Cell) (start : Nat) (first second : List Cell)
    (bound : start + (first.length + second.length) ≤ buffer.length) :
    splice (splice buffer start first) (start + first.length) second =
      splice buffer start (first ++ second) :=
  splice_splice_behind buffer start first second (Nat.le_trans (Nat.le_add_right _ _) bound)

theorem splice_nil (buffer : List Cell) (start : Nat) : splice buffer start [] = buffer := by
  rw [splice, List.append_nil, List.length_nil, Nat.add_zero, List.take_append_drop]

/-- A run as long as the buffer replaces it. -/
theorem splice_all (buffer source : List Cell) (lengths : source.length = buffer.length) :
    splice buffer 0 source = source := by
  rw [splice, List.take_zero, List.nil_append, Nat.zero_add, lengths, List.drop_length,
    List.append_nil]

/-- What a buffer holds in front of a border, when a run that starts there is written over it and
the border moves behind the run. -/
theorem slice_splice_extend (buffer : List Cell) (border start : Nat) (source : List Cell)
    (startLe : start ≤ border) (bound : border ≤ buffer.length) :
    slice (splice buffer start source) 0 (max border (start + source.length)) =
      splice (slice buffer 0 border) start source := by
  have front : (buffer.take start ++ source).length = start + source.length := by
    rw [List.length_append, List.length_take, Nat.min_eq_left (by omega)]
  have rest : max border (start + source.length) - (start + source.length) =
      border - (start + source.length) := by omega
  rw [slice, splice, slice, splice, List.drop_zero, List.drop_zero, List.take_append, front, rest,
    List.take_of_length_le (by rw [front]; exact Nat.le_max_right _ _), List.take_take,
    Nat.min_eq_left startLe, List.drop_take]

theorem splice_map {Other : Type} (image : Cell → Other) (buffer : List Cell) (start : Nat)
    (source : List Cell) :
    splice (buffer.map image) start (source.map image) = (splice buffer start source).map image := by
  rw [splice, splice, List.length_map, List.map_append, List.map_append, List.map_take, List.map_drop]

theorem slice_map {Other : Type} (image : Cell → Other) (buffer : List Cell) (start count : Nat) :
    slice (buffer.map image) start count = (slice buffer start count).map image := by
  rw [slice, slice, List.map_take, List.map_drop]

/-- A run at the end makes the buffer longer. -/
theorem splice_length (buffer source : List Cell) :
    splice buffer buffer.length source = buffer ++ source := by
  rw [splice, List.take_length, List.drop_of_length_le (Nat.le_add_right _ _), List.append_nil]

/-! ### Runs across the end -/

/-- A run that starts in the buffer or at its end makes it as long as the run needs. -/
theorem length_splice_max (buffer : List Cell) (start : Nat) (source : List Cell)
    (inside : start ≤ buffer.length) :
    (splice buffer start source).length = max buffer.length (start + source.length) := by
  simp only [splice, List.length_append, List.length_take, List.length_drop]
  omega

theorem take_splice (buffer : List Cell) (start : Nat) (source : List Cell)
    (inside : start ≤ buffer.length) :
    (splice buffer start source).take start = buffer.take start := by
  rw [splice, List.append_assoc, List.take_left' (List.length_take_of_le inside)]

theorem drop_splice (buffer : List Cell) (start : Nat) (source : List Cell)
    (inside : start ≤ buffer.length) :
    (splice buffer start source).drop start = source ++ buffer.drop (start + source.length) := by
  rw [splice, List.append_assoc, List.drop_left' (List.length_take_of_le inside)]

/-- Cells that were put behind a buffer make no difference to a run that covers them. -/
theorem splice_append_covered (buffer extra : List Cell) (start : Nat) (source : List Cell)
    (inside : start ≤ buffer.length)
    (covered : buffer.length + extra.length ≤ start + source.length) :
    splice (buffer ++ extra) start source = splice buffer start source := by
  rw [splice, splice, List.take_append_of_le_length inside,
    List.drop_of_length_le (by rw [List.length_append]; exact covered),
    List.drop_of_length_le (Nat.le_trans (Nat.le_add_right _ _) covered)]

/-! ### Buffers side by side -/

theorem splice_append_left (front back : List Cell) (start : Nat) (source : List Cell)
    (inside : start + source.length ≤ front.length) :
    splice (front ++ back) start source = splice front start source ++ back := by
  rw [splice, splice, List.take_append_of_le_length (by omega),
    List.drop_append_of_le_length (by omega), ← List.append_assoc]

theorem splice_append_right (front back : List Cell) (start : Nat) (source : List Cell) :
    splice (front ++ back) (front.length + start) source = front ++ splice back start source := by
  rw [splice, splice, List.take_append, List.take_of_length_le (by omega), Nat.add_sub_cancel_left,
    Nat.add_assoc, List.drop_append, List.drop_of_length_le (by omega), Nat.add_sub_cancel_left,
    List.nil_append]
  simp only [List.append_assoc]

/-- A run across the border of two buffers. -/
theorem splice_across (front back : List Cell) (start : Nat) (first second : List Cell)
    (border : start + first.length = front.length) (bound : second.length ≤ back.length) :
    splice (front ++ back) start (first ++ second) =
      splice front start first ++ splice back 0 second := by
  have frontLength := length_splice front start first (by omega)
  rw [← splice_append _ _ _ _ (by rw [List.length_append]; omega),
    splice_append_left _ _ _ _ (by omega), border, ← frontLength, ← Nat.add_zero (List.length _),
    splice_append_right]

end Buffers
