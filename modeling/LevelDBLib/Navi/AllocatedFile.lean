/-
This file models the buffer of an in-memory file with the size that was allocated for it. The
source keeps no capacity: it guesses one from the size of a pointer and the position of the
file. Appending allocates a buffer that fits, and may shrink the one it replaces; a write at a
given place allocates only when the position and the length are together more than a pointer.
A run keeps the contents of a string under the same calls, and stays inside the buffer, exactly
when every call meets a condition on the lengths, the position and the capacity it finds.
-/

import LevelDBLib.Navi.VirtualMemFile
import Mathlib.Algebra.GroupWithZero.Nat
import LevelDBLib.Library.Runs

namespace LevelDBLib.Navi

open KvDB Buffers Runs

/-- Bytes of memory; one that was never written has no value. -/
abbrev Cells := List (Option UInt8)

namespace Cells

/-- `malloc`; a negative size is too large for a `size_t` of memory, and the null pointer that is
then returned has no cell. -/
def malloc (newSize : Int) : Cells := List.replicate newSize.toNat none

/-- `memcpy` to a place in a buffer. -/
def store (buffer : Cells) (offset : Nat) (source : Cells) : Except Fault Cells :=
  if offset + source.length ≤ buffer.length then .ok (splice buffer offset source)
  else .error .outOfBounds

/-- The cells of a place in a buffer. -/
def load (buffer : Cells) (offset count : Nat) : Except Fault Cells :=
  if offset + count ≤ buffer.length then .ok (slice buffer offset count) else .error .outOfBounds

end Cells

/-- `VirtualMemFile` with its allocated buffer. -/
structure AllocatedFile where
  _fileContent : Cells
  _fileLength : Nat
  _filePos : Nat
deriving DecidableEq, Repr

namespace AllocatedFile

/-- `sizeof(_fileContent)`, the size of a pointer. -/
def sizeof_fileContent : Nat := 8

def new : AllocatedFile := ⟨Cells.malloc 64, 0, 0⟩

/-- The loop of `allocMemory`. An `int` that is doubled too often becomes zero and stays so. -/
def doubled : Nat → Int → Nat → Except Fault Int
  | 0, _, _ => .error .nonTermination
  | fuel + 1, newSize, needed =>
    if size_t newSize < needed then doubled fuel (int (newSize * 2)) needed else .ok newSize

def allocMemory (file : AllocatedFile) (writeLen : Int) : Except Fault AllocatedFile :=
  if size_t (file._fileLength + writeLen) < sizeof_fileContent then .ok file
  else do
    let newSize ← doubled 29 (sizeof_fileContent * 2) (size_t (file._fileLength + writeLen))
    let source ← Cells.load file._fileContent 0 file._fileLength
    let temp ← Cells.store (Cells.malloc newSize) 0 source
    .ok { file with _fileContent := temp }

/-! ### Calls -/

inductive Call where
  | append (result : Bytes)
  | write (pos : BitVec 64) (result : Bytes)
  | clean
  | close
  | seek (n : BitVec 64)
  | skip (n : BitVec 64)
  | read (len : BitVec 64)
  | readAt (pos len : BitVec 64)
deriving DecidableEq, Repr

inductive Reply where
  | success (success : Bool)
  | slice (cells : Cells)
deriving DecidableEq, Repr

/-- `write` at the end. -/
def append (file : AllocatedFile) (result : Bytes) : Except Fault (Reply × AllocatedFile) := do
  let file ← file.allocMemory (int result.length)
  let buffer ← Cells.store file._fileContent file._fileLength (result.map some)
  .ok (.success true,
    ⟨buffer, size_t (file._fileLength + result.length), size_t (file._fileLength + result.length)⟩)

/-- `write` at a given place. -/
def write (file : AllocatedFile) (pos : BitVec 64) (result : Bytes) :
    Except Fault (Reply × AllocatedFile) :=
  if pos.toNat > file._fileLength then .ok (.success false, file)
  else do
    let file ← (if size_t (file._filePos + result.length) > sizeof_fileContent then
      file.allocMemory (int result.length) else .ok file)
    let buffer ← Cells.store file._fileContent pos.toNat (result.map some)
    .ok (.success true,
      ⟨buffer,
        if size_t (pos.toNat + result.length) > file._fileLength then
          size_t (pos.toNat + result.length)
        else file._fileLength,
        size_t (pos.toNat + result.length)⟩)

/-- `clean`, which also clears as many bytes as a pointer has. -/
def clean (file : AllocatedFile) : Except Fault (Reply × AllocatedFile) := do
  let buffer ← Cells.store file._fileContent 0 (List.replicate sizeof_fileContent (some 0))
  .ok (.success true, ⟨buffer, 0, 0⟩)

def close (file : AllocatedFile) : AllocatedFile := { file with _filePos := 0 }

def seek (file : AllocatedFile) (n : BitVec 64) : Bool × AllocatedFile :=
  if n.toNat ≥ file._fileLength then (false, file) else (true, { file with _filePos := n.toNat })

def skip (file : AllocatedFile) (n : BitVec 64) : Bool × AllocatedFile :=
  if size_t (file._filePos + n.toNat) ≥ file._fileLength then (false, file)
  else (true, { file with _filePos := size_t (file._filePos + n.toNat) })

/-- The length of a read, cut at the end of the file; a negative one wraps. -/
def cut (file : AllocatedFile) (pos len : Nat) : Nat :=
  if size_t (pos + len) > file._fileLength then size_t (file._fileLength - pos) else len

/-- `read` at a given place; the slice it returns is memory that the caller then reads. -/
def readAt (file : AllocatedFile) (pos len : BitVec 64) : Except Fault (Reply × AllocatedFile) := do
  let cells ← Cells.load file._fileContent pos.toNat (file.cut pos.toNat len.toNat)
  .ok (.slice cells, { file with _filePos := size_t (pos.toNat + file.cut pos.toNat len.toNat) })

/-- `read` at the position of the file. -/
def read (file : AllocatedFile) (len : BitVec 64) : Except Fault (Reply × AllocatedFile) := do
  let cells ← Cells.load file._fileContent file._filePos (file.cut file._filePos len.toNat)
  .ok (.slice cells,
    { file with _filePos := size_t (file._filePos + file.cut file._filePos len.toNat) })

def call (file : AllocatedFile) : Call → Except Fault (Reply × AllocatedFile)
  | .append result => file.append result
  | .write pos result => file.write pos result
  | .clean => file.clean
  | .close => .ok (.success true, file.close)
  | .seek n => .ok (.success (file.seek n).1, (file.seek n).2)
  | .skip n => .ok (.success (file.skip n).1, (file.skip n).2)
  | .read len => file.read len
  | .readAt pos len => file.readAt pos len

/-! ### A string under the same calls -/

/-- What a string holds after a call. -/
def reference (contents : Bytes) : Call → Bytes
  | .append result => contents ++ result
  | .write pos result =>
    if pos.toNat > contents.length then contents else splice contents pos.toNat result
  | .clean => []
  | _ => contents

/-- The file holds the string. -/
structure Holds (file : AllocatedFile) (contents : Bytes) : Prop where
  length : file._fileLength = contents.length
  cells : slice file._fileContent 0 contents.length = contents.map some

/-- A read returns the bytes of the string from its place on, up to its end. -/
def Returned (file : AllocatedFile) (contents : Bytes) (reply : Reply) : Call → Prop
  | .read len => reply = .slice ((slice contents file._filePos len.toNat).map some)
  | .readAt pos len => reply = .slice ((slice contents pos.toNat len.toNat).map some)
  | _ => True

/-- A file with the string it should hold. -/
structure Beside where
  file : AllocatedFile
  contents : Bytes
deriving DecidableEq, Repr

/-- The call on both. -/
def Beside.step (beside : Beside) (call : Call) : Except Fault (Reply × Beside) := do
  let returned ← beside.file.call call
  .ok (returned.1, ⟨returned.2, reference beside.contents call⟩)

/-- The call stays inside the buffer, the file holds the string after it as well, and what is read
is of the string. -/
def Beside.Exact (beside : Beside) (call : Call) : Prop :=
  ∃ reply file, beside.file.call call = .ok (reply, file) ∧
    file.Holds (reference beside.contents call) ∧ Returned beside.file beside.contents reply call

/-- What a call has to meet: a length for which `allocMemory` finds a size, room where nothing is
allocated, and for a read a place in the file and no sum that wraps. -/
def Beside.Meets (beside : Beside) : Call → Prop
  | .append result => beside.file._fileLength + result.length ≤ 1073741824
  | .write pos result => pos.toNat ≤ beside.file._fileLength →
    if beside.file._filePos + result.length > sizeof_fileContent then
      beside.file._fileLength + result.length ≤ 1073741824
    else pos.toNat + result.length ≤ beside.file._fileContent.length
  | .read len => beside.file._filePos + len.toNat < 18446744073709551616
  | .readAt pos len => pos.toNat ≤ beside.file._fileLength ∧
    pos.toNat + len.toNat < 18446744073709551616
  | _ => True

/-! ### Sizes -/

theorem power_le {exponent : Nat} (low : exponent ≤ 30) : 2 ^ exponent ≤ 1073741824 :=
  Nat.pow_le_pow_right (by decide) low

theorem size_t_power (exponent : Nat) (low : exponent ≤ 30) :
    size_t ((2 ^ exponent : Nat) : Int) = 2 ^ exponent :=
  size_t_of_lt (2 ^ exponent) (Nat.lt_of_le_of_lt (power_le low) (by decide))

theorem int_power (exponent : Nat) (low : exponent < 30) :
    int (((2 ^ exponent : Nat) : Int) * 2) = ((2 ^ (exponent + 1) : Nat) : Int) := by
  have value := int_of_lt (2 ^ (exponent + 1)) (Nat.lt_of_le_of_lt (power_le low) (by decide))
  rw [← value, Nat.pow_succ, Int.natCast_mul]
  rfl

/-- A size that is needed and not too large is found. -/
theorem doubled_fits (fuel exponent needed : Nat) (small : needed ≤ 1073741824)
    (low : exponent ≤ 30) (enough : 30 < fuel + exponent) :
    ∃ last, exponent ≤ last ∧ last ≤ 30 ∧ needed ≤ 2 ^ last ∧
      doubled fuel ((2 ^ exponent : Nat) : Int) needed = .ok ((2 ^ last : Nat) : Int) := by
  induction fuel generalizing exponent with
  | zero => exact absurd enough (Nat.not_lt.mpr (by omega))
  | succ fuel hypothesis =>
    rw [doubled, size_t_power exponent low]
    by_cases more : 2 ^ exponent < needed
    · have below : exponent < 30 := by
        refine Nat.lt_of_le_of_ne low fun last => ?_
        rw [last] at more
        exact absurd more (Nat.not_lt.mpr small)
      obtain ⟨last, first, bound, found, returned⟩ := hypothesis (exponent + 1) below (by omega)
      rw [if_pos more, int_power exponent below]
      exact ⟨last, Nat.le_of_succ_le first, bound, found, returned⟩
    · rw [if_neg more]
      exact ⟨exponent, Nat.le_refl _, low, Nat.le_of_not_lt more, rfl⟩

/-- What doubling an `int` gives, from a power of two on. -/
def Doubling (newSize : Int) : Prop :=
  newSize = 0 ∨ newSize = -2147483648 ∨ ∃ exponent ≤ 30, newSize = ((2 ^ exponent : Nat) : Int)

theorem Doubling.next {newSize : Int} (doubling : Doubling newSize) :
    Doubling (int (newSize * 2)) := by
  rcases doubling with rfl | rfl | ⟨exponent, low, rfl⟩
  · exact .inl rfl
  · exact .inl rfl
  · rcases Nat.lt_or_eq_of_le low with below | rfl
    · exact .inr (.inr ⟨exponent + 1, below, int_power exponent below⟩)
    · exact .inr (.inl rfl)

/-- A size that is returned is at most 1 GiB, and enough unless it is negative. -/
theorem doubled_returns (fuel : Nat) (newSize : Int) (needed : Nat) (result : Int)
    (doubling : Doubling newSize) (returned : doubled fuel newSize needed = .ok result) :
    result.toNat ≤ 1073741824 ∧ (needed ≤ result.toNat ∨ result < 0) := by
  induction fuel generalizing newSize with
  | zero => cases returned
  | succ fuel hypothesis =>
    rw [doubled] at returned
    split at returned
    · exact hypothesis _ doubling.next returned
    · rename_i enough
      cases returned
      rcases doubling with rfl | rfl | ⟨exponent, low, rfl⟩
      · exact ⟨by decide, .inl (Nat.le_of_not_lt enough)⟩
      · exact ⟨by decide, .inr (by decide)⟩
      · rw [size_t_power exponent low] at enough
        exact ⟨power_le low, .inl (Nat.le_of_not_lt enough)⟩

/-! ### The invariant -/

/-- A file in front of its buffer: the string is inside it, and the position inside the string. -/
structure Kept (file : AllocatedFile) (contents : Bytes) : Prop extends Holds file contents where
  position : file._filePos ≤ contents.length
  inside : contents.length ≤ file._fileContent.length
  atLeast : 16 ≤ file._fileContent.length
  atMost : file._fileContent.length ≤ 1073741824

theorem new_kept : Kept new [] := by
  refine ⟨⟨rfl, rfl⟩, Nat.le_refl _, Nat.zero_le _, ?_, ?_⟩
  · decide
  · decide

/-! ### Allocation -/

/-- The file with another buffer of at least 16 bytes that holds the same. -/
structure Grown (file : AllocatedFile) (room : Nat) (after : AllocatedFile) : Prop where
  length : after._fileLength = file._fileLength
  position : after._filePos = file._filePos
  cells : slice after._fileContent 0 file._fileLength = slice file._fileContent 0 file._fileLength
  room : room ≤ after._fileContent.length
  atLeast : 16 ≤ after._fileContent.length
  atMost : after._fileContent.length ≤ 1073741824

variable {file : AllocatedFile} {contents : Bytes}

theorem needed_eq (kept : Kept file contents) (count : Nat) (small : count < 2147483648) :
    size_t (file._fileLength + int count) = file._fileLength + count := by
  have inside := kept.inside
  have atMost := kept.atMost
  rw [int_of_lt count small, kept.length, ← Int.natCast_add]
  exact size_t_of_lt _ (by omega)

theorem allocMemory_grown (kept : Kept file contents) (count : Nat)
    (fits : file._fileLength + count ≤ 1073741824) :
    ∃ after, file.allocMemory (int count) = .ok after ∧
      Grown file (file._fileLength + count) after := by
  have inside := kept.inside
  have atLeast := kept.atLeast
  rw [allocMemory, needed_eq kept count (by omega)]
  by_cases less : file._fileLength + count < sizeof_fileContent
  · have enough : file._fileLength + count ≤ 16 :=
      Nat.le_trans (Nat.le_of_lt less) (by decide)
    rw [if_pos less]
    exact ⟨file, rfl, rfl, rfl, rfl, Nat.le_trans enough atLeast, atLeast, kept.atMost⟩
  · obtain ⟨last, first, low, found, returned⟩ :=
      doubled_fits 29 4 (file._fileLength + count) fits (by decide) (by decide)
    have sixteen : 2 ^ 4 ≤ 2 ^ last := Nat.pow_le_pow_right (by decide) first
    have loaded : Cells.load file._fileContent 0 file._fileLength =
        .ok (slice file._fileContent 0 file._fileLength) :=
      if_pos (by rw [kept.length, Nat.zero_add]; exact inside)
    have taken : (slice file._fileContent 0 file._fileLength).length = file._fileLength :=
      length_slice _ _ _ (by rw [kept.length, Nat.zero_add]; exact inside)
    have temp : (Cells.malloc ((2 ^ last : Nat) : Int)).length = 2 ^ last := List.length_replicate
    have room : 0 + (slice file._fileContent 0 file._fileLength).length ≤
        (Cells.malloc ((2 ^ last : Nat) : Int)).length := by
      rw [taken, temp, Nat.zero_add]
      exact Nat.le_trans (Nat.le_add_right _ _) found
    have length := (length_splice _ _ _ room).trans temp
    refine ⟨⟨splice (Cells.malloc ((2 ^ last : Nat) : Int)) 0
      (slice file._fileContent 0 file._fileLength), file._fileLength, file._filePos⟩,
      ?_, rfl, rfl, ?_, ?_, ?_, ?_⟩
    · rw [if_neg less, show ((sizeof_fileContent : Int) * 2) = ((2 ^ 4 : Nat) : Int) from rfl,
        returned, ok_bind, loaded, ok_bind, Cells.store, if_pos room, ok_bind]
    · have again := slice_splice_self _ _ _ room
      rwa [taken] at again
    · exact Nat.le_trans found (Nat.le_of_eq length.symm)
    · exact Nat.le_trans sixteen (Nat.le_of_eq length.symm)
    · exact Nat.le_trans (Nat.le_of_eq length) (power_le low)

/-- Whatever `allocMemory` returns has no room behind 1 GiB. -/
theorem fits_of_stored (kept : Kept file contents) {after : AllocatedFile} {result : Bytes}
    {pos : Nat} {buffer : Cells}
    (grown : file.allocMemory (int result.length) = .ok after)
    (stored : Cells.store after._fileContent pos (result.map some) = .ok buffer) :
    file._fileLength + result.length ≤ 1073741824 := by
  have inside := kept.inside
  have atMost := kept.atMost
  have length := kept.length
  rw [Cells.store, List.length_map] at stored
  split at stored
  · rename_i room
    rw [allocMemory] at grown
    split at grown
    · rename_i less
      cases grown
      rw [needed_eq kept result.length (by omega)] at less
      exact Nat.le_trans (Nat.le_of_lt less) (by decide)
    · obtain ⟨newSize, returned, rest⟩ := (bind_eq_ok _ _ _).mp grown
      obtain ⟨source, loaded, rest⟩ := (bind_eq_ok _ _ _).mp rest
      obtain ⟨temp, moved, rest⟩ := (bind_eq_ok _ _ _).mp rest
      cases rest
      rw [Cells.load] at loaded
      split at loaded
      · rename_i whole
        cases loaded
        rw [Cells.store, length_slice _ _ _ whole] at moved
        split at moved
        · rename_i enough
          cases moved
          rw [length_splice _ _ _ (by rw [length_slice _ _ _ whole]; exact enough)] at room
          rw [Cells.malloc, List.length_replicate] at room enough
          obtain ⟨bound, needed | negative⟩ := doubled_returns _ _ _ _
            (.inr (.inr ⟨4, by decide, rfl⟩)) returned
          · rw [needed_eq kept result.length (by omega)] at needed
            exact Nat.le_trans needed bound
          · omega
        · cases moved
      · cases loaded
  · cases stored

/-! ### The calls, one by one -/

/-- A run of bytes that is written from a place of the string on, behind which the position then
stands. -/
theorem kept_written (kept : Kept file contents) {room : Nat} {after : AllocatedFile}
    (grown : Grown file room after) (pos : Nat) (result : Bytes) (placed : pos ≤ contents.length)
    (enough : pos + result.length ≤ after._fileContent.length)
    (whole : contents.length ≤ after._fileContent.length) :
    Cells.store after._fileContent pos (result.map some) =
        .ok (splice after._fileContent pos (result.map some)) ∧
      Kept ⟨splice after._fileContent pos (result.map some),
        max contents.length (pos + result.length), pos + result.length⟩
        (splice contents pos result) := by
  have bound : pos + (result.map some).length ≤ after._fileContent.length := by
    rwa [List.length_map]
  have length := length_splice _ _ _ bound
  have newLength : (splice contents pos result).length =
      max contents.length (pos + result.length) := by
    rw [splice, List.length_append, List.length_append, List.length_take, List.length_drop]
    omega
  refine ⟨if_pos bound, ⟨newLength.symm, ?_⟩, ?_, ?_, ?_, ?_⟩
  · have cells := grown.cells
    rw [kept.length, kept.cells] at cells
    have written := slice_splice_extend after._fileContent contents.length pos (result.map some)
      placed whole
    rw [List.length_map, cells, splice_map] at written
    rw [newLength]
    exact written
  · rw [newLength]
    exact Nat.le_max_right _ _
  · rw [newLength, length]
    exact Nat.max_le.mpr ⟨whole, enough⟩
  · rw [length]
    exact grown.atLeast
  · rw [length]
    exact grown.atMost

theorem append_kept (kept : Kept file contents) (result : Bytes)
    (fits : file._fileLength + result.length ≤ 1073741824) :
    ∃ reply after, file.append result = .ok (reply, after) ∧ Kept after (contents ++ result) := by
  obtain ⟨after, returned, grown⟩ := allocMemory_grown kept result.length fits
  have room := grown.room
  rw [kept.length] at fits room
  obtain ⟨stored, keptAfter⟩ := kept_written kept grown contents.length result (Nat.le_refl _) room
    (Nat.le_trans (Nat.le_add_right _ _) room)
  rw [splice_length, Nat.max_eq_right (Nat.le_add_right _ _)] at keptAfter
  have sum : size_t (contents.length + result.length) = contents.length + result.length := by
    rw [← Int.natCast_add]
    exact size_t_of_lt _ (by omega)
  refine ⟨.success true, _, ?_, keptAfter⟩
  rw [append, returned, ok_bind, grown.length, kept.length, stored, ok_bind, sum]

theorem write_kept (kept : Kept file contents) (pos : BitVec 64) (result : Bytes)
    (placed : pos.toNat ≤ file._fileLength)
    (fits : if file._filePos + result.length > sizeof_fileContent then
        file._fileLength + result.length ≤ 1073741824
      else pos.toNat + result.length ≤ file._fileContent.length) :
    ∃ reply after, file.write pos result = .ok (reply, after) ∧
      Kept after (splice contents pos.toNat result) := by
  have atMost := kept.atMost
  have inside := kept.inside
  have position := kept.position
  have length := kept.length
  obtain ⟨after, returned, grown, enough⟩ : ∃ after,
      (if size_t (file._filePos + result.length) > sizeof_fileContent then
        file.allocMemory (int result.length) else .ok file) = .ok after ∧
      Grown file file._fileLength after ∧
      pos.toNat + result.length ≤ after._fileContent.length := by
    have sum : size_t (file._filePos + result.length) = file._filePos + result.length := by
      rw [← Int.natCast_add]
      refine size_t_of_lt _ ?_
      split at fits
      · omega
      · omega
    rw [sum]
    split at fits
    · rename_i more
      obtain ⟨after, returned, grown⟩ := allocMemory_grown kept result.length fits
      have room := grown.room
      rw [if_pos more]
      exact ⟨after, returned, { grown with room := Nat.le_trans (Nat.le_add_right _ _) room },
        Nat.le_trans (Nat.add_le_add_right placed _) room⟩
    · rename_i less
      rw [if_neg less]
      exact ⟨file, rfl, ⟨rfl, rfl, rfl, by omega, kept.atLeast, atMost⟩, fits⟩
  have room := grown.room
  rw [length] at room placed
  have bound := grown.atMost
  obtain ⟨stored, keptAfter⟩ := kept_written kept grown pos.toNat result placed enough room
  have sum : size_t (pos.toNat + result.length) = pos.toNat + result.length := by
    rw [← Int.natCast_add]
    exact size_t_of_lt _ (by omega)
  refine ⟨.success true, _, ?_, keptAfter⟩
  rw [write, if_neg (by omega), returned, ok_bind, stored, ok_bind, sum, grown.length, length]
  by_cases longer : pos.toNat + result.length > contents.length
  · rw [if_pos longer, Nat.max_eq_right (Nat.le_of_lt longer)]
  · rw [if_neg longer, Nat.max_eq_left (Nat.le_of_not_lt longer)]

theorem clean_kept (kept : Kept file contents) :
    ∃ reply after, file.clean = .ok (reply, after) ∧ Kept after [] := by
  have room : 0 + (List.replicate sizeof_fileContent (some (0 : UInt8))).length ≤
      file._fileContent.length := Nat.le_trans (by decide) kept.atLeast
  have length := length_splice _ _ _ room
  refine ⟨.success true, ⟨splice file._fileContent 0 (List.replicate sizeof_fileContent (some 0)),
    0, 0⟩, ?_, ⟨rfl, slice_zero _ _⟩, Nat.le_refl _, Nat.zero_le _, ?_, ?_⟩
  · rw [clean, Cells.store, if_pos room, ok_bind]
  · rw [length]
    exact kept.atLeast
  · rw [length]
    exact kept.atMost

/-- Only the position moves, within the string. -/
theorem Kept.move (kept : Kept file contents) (pos : Nat) (inside : pos ≤ contents.length) :
    Kept { file with _filePos := pos } contents :=
  ⟨⟨kept.length, kept.cells⟩, inside, kept.inside, kept.atLeast, kept.atMost⟩

theorem seek_kept (kept : Kept file contents) (n : BitVec 64) : Kept (file.seek n).2 contents := by
  unfold seek
  split
  · exact kept
  · rename_i before
    rw [kept.length] at before
    exact kept.move _ (Nat.le_of_not_le before)

theorem skip_kept (kept : Kept file contents) (n : BitVec 64) : Kept (file.skip n).2 contents := by
  unfold skip
  split
  · exact kept
  · rename_i before
    rw [kept.length] at before
    exact kept.move _ (Nat.le_of_not_le before)

/-- What a read in the file loads. -/
theorem load_cut (kept : Kept file contents) (pos : Nat) (len : BitVec 64)
    (placed : pos ≤ contents.length) (sum : pos + len.toNat < 18446744073709551616) :
    Cells.load file._fileContent pos (file.cut pos len.toNat) =
        .ok ((slice contents pos len.toNat).map some) ∧
      size_t (pos + file.cut pos len.toNat) ≤ contents.length := by
  have inside := kept.inside
  have atMost := kept.atMost
  have cutEq : file.cut pos len.toNat = min len.toNat (contents.length - pos) := by
    unfold cut size_t
    rw [kept.length]
    split
    · omega
    · omega
  have bound : pos + min len.toNat (contents.length - pos) ≤ contents.length := by omega
  refine ⟨?_, ?_⟩
  · have part := slice_slice file._fileContent 0 contents.length pos
      (min len.toNat (contents.length - pos)) bound
    rw [kept.cells, Nat.zero_add] at part
    rw [cutEq, Cells.load, if_pos (Nat.le_trans bound inside), ← part, slice_map]
    refine congrArg _ (congrArg _ ?_)
    rw [slice, slice, ← List.length_drop, ← List.take_take, List.take_length]
  · rw [cutEq, ← Int.natCast_add, size_t_of_lt _ (by omega)]
    exact bound

/-- A read that is not in the file, or has a sum that wraps, leaves the buffer. -/
theorem placed_of_load (kept : Kept file contents) (pos : Nat) (len : BitVec 64) {cells : Cells}
    (small : pos < 18446744073709551616)
    (loaded : Cells.load file._fileContent pos (file.cut pos len.toNat) = .ok cells) :
    pos ≤ file._fileLength ∧ pos + len.toNat < 18446744073709551616 := by
  have inside := kept.inside
  have atMost := kept.atMost
  have length := kept.length
  have lenBound := len.isLt
  rw [Cells.load] at loaded
  split at loaded
  · rename_i room
    unfold cut size_t at room
    split at room
    · omega
    · omega
  · cases loaded

/-! ### Runs -/

/-- A call that meets its condition keeps the invariant, and reads what the string holds. -/
theorem call_kept {beside : Beside} (kept : Kept beside.file beside.contents) (call : Call)
    (meets : beside.Meets call) :
    ∃ reply after, beside.file.call call = .ok (reply, after) ∧
      Kept after (reference beside.contents call) ∧
      Returned beside.file beside.contents reply call := by
  cases call with
  | append result =>
    obtain ⟨reply, after, returned, keptAfter⟩ := append_kept kept result meets
    exact ⟨reply, after, returned, keptAfter, trivial⟩
  | write pos result =>
    rw [reference, ← kept.length]
    by_cases placed : pos.toNat > beside.file._fileLength
    · rw [if_pos placed]
      exact ⟨.success false, beside.file, if_pos placed, kept, trivial⟩
    · rw [if_neg placed]
      obtain ⟨reply, after, returned, keptAfter⟩ := write_kept kept pos result
        (Nat.le_of_not_lt placed) (meets (Nat.le_of_not_lt placed))
      exact ⟨reply, after, returned, keptAfter, trivial⟩
  | clean =>
    obtain ⟨reply, after, returned, keptAfter⟩ := clean_kept kept
    exact ⟨reply, after, returned, keptAfter, trivial⟩
  | close => exact ⟨_, _, rfl, kept.move 0 (Nat.zero_le _), trivial⟩
  | seek n => exact ⟨_, _, rfl, seek_kept kept n, trivial⟩
  | skip n => exact ⟨_, _, rfl, skip_kept kept n, trivial⟩
  | read len =>
    obtain ⟨loaded, inside⟩ := load_cut kept _ len kept.position meets
    refine ⟨_, _, ?_, kept.move _ inside, rfl⟩
    rw [AllocatedFile.call, read, loaded, ok_bind]
  | readAt pos len =>
    obtain ⟨placed, sum⟩ := meets
    rw [kept.length] at placed
    obtain ⟨loaded, inside⟩ := load_cut kept _ len placed sum
    refine ⟨_, _, ?_, kept.move _ inside, rfl⟩
    rw [AllocatedFile.call, readAt, loaded, ok_bind]

/-- A call that stays inside the buffer meets its condition. -/
theorem meets_of_returned {beside : Beside} (kept : Kept beside.file beside.contents)
    (call : Call) {returned : Reply × AllocatedFile}
    (inside : beside.file.call call = .ok returned) : beside.Meets call := by
  cases call with
  | append result =>
    obtain ⟨after, grown, rest⟩ := (bind_eq_ok _ _ _).mp inside
    obtain ⟨buffer, stored, _⟩ := (bind_eq_ok _ _ _).mp rest
    exact fits_of_stored kept grown stored
  | write pos result =>
    intro placed
    rw [AllocatedFile.call, write, if_neg (Nat.not_lt.mpr placed)] at inside
    obtain ⟨after, grown, rest⟩ := (bind_eq_ok _ _ _).mp inside
    obtain ⟨buffer, stored, _⟩ := (bind_eq_ok _ _ _).mp rest
    have position := kept.position
    have bound := kept.inside
    have atMost := kept.atMost
    have length := kept.length
    by_cases more : size_t (beside.file._filePos + result.length) > sizeof_fileContent
    · rw [if_pos more] at grown
      have fits := fits_of_stored kept grown stored
      rw [← Int.natCast_add, size_t_of_lt _ (by omega)] at more
      rw [if_pos more]
      exact fits
    · rw [if_neg more] at grown
      cases grown
      rw [Cells.store, List.length_map] at stored
      split at stored
      · rename_i room
        rw [← Int.natCast_add, size_t_of_lt _ (by omega)] at more
        rw [if_neg more]
        exact room
      · cases stored
  | clean => exact trivial
  | close => exact trivial
  | seek n => exact trivial
  | skip n => exact trivial
  | read len =>
    have position := kept.position
    have bound := kept.inside
    have atMost := kept.atMost
    obtain ⟨cells, loaded, _⟩ := (bind_eq_ok _ _ _).mp inside
    exact (placed_of_load kept _ len (by omega) loaded).2
  | readAt pos len =>
    obtain ⟨cells, loaded, _⟩ := (bind_eq_ok _ _ _).mp inside
    exact placed_of_load kept pos.toNat len pos.isLt loaded

/-- Over a run of a new file, every call keeps the contents of the string, reads what it holds and
stays inside the buffer exactly when every call meets its condition. -/
theorem contents_iff (calls : List Call) :
    Along Beside.step Beside.Exact ⟨new, []⟩ calls ↔ Along Beside.step Beside.Meets ⟨new, []⟩ calls := by
  refine along_iff (fun beside => Kept beside.file beside.contents)
    (fun beside call kept _ => ⟨fun exact => ?_, fun meets => ?_⟩)
    (fun beside call reply after kept _ meets returned => ?_) calls new_kept
    (along_of_forall (fun _ _ => trivial) calls _)
  · obtain ⟨reply, after, returned, _⟩ := exact
    exact meets_of_returned kept call returned
  · obtain ⟨reply, after, returned, keptAfter, read⟩ := call_kept kept call meets
    exact ⟨reply, after, returned, keptAfter.toHolds, read⟩
  · obtain ⟨_, _, returnedEq, keptAfter, _⟩ := call_kept kept call meets
    rw [Beside.step, returnedEq] at returned
    cases returned
    exact keptAfter

theorem Beside.Exact.returns {beside : Beside} {call : Call} (exact : beside.Exact call) :
    ∃ result, beside.step call = .ok result := by
  obtain ⟨reply, after, returned, _⟩ := exact
  exact ⟨_, by rw [step, returned, ok_bind]⟩

/-- Sixteen bytes are appended, the position goes back, and eight more bytes are written behind
them: nothing is allocated for them. -/
theorem contents_differ :
    ¬ Along Beside.step Beside.Exact ⟨new, []⟩ [.append (List.replicate 16 65), .close,
      .write 16#64 (List.replicate 8 66)] := by
  intro along
  obtain ⟨result, ran⟩ := along.returns fun _ _ exact => exact.returns
  have left : runAll Beside.step ⟨new, []⟩ [.append (List.replicate 16 65), .close,
      .write 16#64 (List.replicate 8 66)] = .error .outOfBounds := by decide +kernel
  cases left.symm.trans ran

end AllocatedFile

end LevelDBLib.Navi
