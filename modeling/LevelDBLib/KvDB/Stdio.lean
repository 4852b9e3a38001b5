/-
This file models the C streams under the table file: a `FILE` is the bytes of
the file and the position in it. Reads end at the end of the file, writes grow
it, and both succeed; a seek to a negative position is refused and moves
nothing.
-/

import LevelDBLib.KvDB.Value

namespace LevelDBLib.KvDB

open Buffers

structure FILE where
  contents : Bytes
  position : Nat
deriving DecidableEq, Repr

namespace FILE

/-- `fseek` with SEEK_SET: whether it returned 0. -/
def fseek (file : FILE) (offset : Int) : Bool × FILE :=
  if offset < 0 then (false, file) else (true, { file with position := offset.toNat })

/-- `fseek` with SEEK_END and no offset. -/
def fseekEnd (file : FILE) : FILE := { file with position := file.contents.length }

def ftell (file : FILE) : Nat := file.position

/-- `fread` of `count` bytes: those there are. -/
def fread (file : FILE) (count : Nat) : Bytes × FILE :=
  let bytes := slice file.contents file.position count
  (bytes, { file with position := file.position + bytes.length })

/-- The bytes of a file that is at least `count` bytes long. New bytes are zeros. -/
def grown (contents : Bytes) (count : Nat) : Bytes :=
  contents ++ List.replicate (count - contents.length) 0

/-- `fwrite`. -/
def fwrite (file : FILE) (bytes : Bytes) : FILE where
  contents :=
    if bytes = [] then file.contents
    else splice (grown file.contents (file.position + bytes.length)) file.position bytes
  position := file.position + bytes.length

/-! ### What the calls do to the bytes -/

@[simp] theorem contents_fseek (file : FILE) (offset : Int) :
    (file.fseek offset).2.contents = file.contents := by
  unfold fseek
  split <;> rfl

@[simp] theorem contents_fread (file : FILE) (count : Nat) :
    (file.fread count).2.contents = file.contents := rfl

theorem fseek_of_nonneg (file : FILE) (offset : Nat) :
    file.fseek offset = (true, { file with position := offset }) :=
  if_neg (by omega)

theorem length_grown (contents : Bytes) (count : Nat) :
    (grown contents count).length = max contents.length count := by
  rw [grown, List.length_append, List.length_replicate]
  omega

theorem grown_of_le (contents : Bytes) (count : Nat) (enough : count ≤ contents.length) :
    grown contents count = contents := by
  rw [grown, Nat.sub_eq_zero_of_le enough, List.replicate_zero, List.append_nil]

theorem slice_grown (contents : Bytes) (count start size : Nat)
    (inside : start + size ≤ contents.length) :
    slice (grown contents count) start size = slice contents start size := by
  rw [slice, slice, grown, List.drop_append_of_le_length (by omega),
    List.take_append_of_le_length (by rw [List.length_drop]; omega)]

theorem le_length_fwrite (file : FILE) (bytes : Bytes) :
    file.contents.length ≤ (file.fwrite bytes).contents.length := by
  unfold fwrite
  split
  · exact Nat.le_refl _
  · rw [length_splice _ _ _ (by rw [length_grown]; omega), length_grown]
    exact Nat.le_max_left _ _

theorem position_le_length_fwrite (file : FILE) (bytes : Bytes) (written : bytes ≠ []) :
    file.position + bytes.length ≤ (file.fwrite bytes).contents.length := by
  rw [fwrite, if_neg written, length_splice _ _ _ (by rw [length_grown]; omega), length_grown]
  exact Nat.le_max_right _ _

/-- What was written is read back. -/
theorem slice_fwrite_self (file : FILE) (bytes : Bytes) :
    slice (file.fwrite bytes).contents file.position bytes.length = bytes := by
  unfold fwrite
  split
  · rename_i nothing
    rw [nothing, List.length_nil, slice_zero]
  · exact slice_splice_self _ _ _ (by rw [length_grown]; omega)

/-- Bytes that were there and that a write does not touch stay. -/
theorem slice_fwrite_disjoint (file : FILE) (bytes : Bytes) (start size : Nat)
    (inside : start + size ≤ file.contents.length)
    (clear : start + size ≤ file.position ∨ file.position + bytes.length ≤ start) :
    slice (file.fwrite bytes).contents start size = slice file.contents start size := by
  unfold fwrite
  split
  · rfl
  · show slice (splice _ _ _) _ _ = _
    rw [slice_splice_disjoint _ _ _ _ _ (by rw [length_grown]; omega) clear,
      slice_grown _ _ _ _ inside]

end FILE

end LevelDBLib.KvDB
