/-
This file models a file of the in-memory file system: its bytes, and one position which
every handle of the file reads and moves. Sizes are `size_t` of 64 bits. The position of a
file never lies behind its end.
-/

import LevelDBLib.Navi.PathParser

namespace LevelDBLib.Navi

open KvDB PathParser

/-- Conversion to `size_t`. -/
def size_t (value : Int) : Nat := (value % 18446744073709551616).toNat

theorem size_t_of_lt (value : Nat) (bound : value < 18446744073709551616) :
    size_t value = value := by
  unfold size_t
  omega

/-- `VirtualMemFile`; the buffer is as long as the file. -/
structure VirtualMemFile where
  _filePath : Bytes
  _fileName : Bytes
  _fileContent : Bytes
  _filePos : Nat
  small : _fileContent.length < 18446744073709551616
  inside : _filePos ≤ _fileContent.length
deriving DecidableEq, Repr

/-- `Slice`, as its place in the buffer of a file. -/
structure Slice where
  start : Nat
  length : Nat
deriving DecidableEq, Repr

namespace VirtualMemFile

/-- The constructor keeps what `parseFilePath` leaves in its two strings. -/
def new (fileName : Bytes) : VirtualMemFile :=
  ⟨(parseFilePath fileName [] []).2.1, (parseFilePath fileName [] []).2.2, [], 0, by decide,
    Nat.le_refl _⟩

def rename (file : VirtualMemFile) (newName : Bytes) : VirtualMemFile :=
  { file with
    _filePath := (parseFilePath newName file._filePath file._fileName).2.1
    _fileName := (parseFilePath newName file._filePath file._fileName).2.2 }

def getFileSize (file : VirtualMemFile) : Nat := file._fileContent.length

/-- The file with its position moved. -/
def moved (file : VirtualMemFile) (pos : Nat) (inside : pos ≤ file._fileContent.length) :
    VirtualMemFile :=
  { file with _filePos := pos, inside := inside }

def skip (file : VirtualMemFile) (n : BitVec 64) : Bool × VirtualMemFile :=
  if behind : file.getFileSize ≤ size_t (file._filePos + n.toNat) then (false, file)
  else (true, file.moved (size_t (file._filePos + n.toNat)) (Nat.le_of_not_le behind))

def seek (file : VirtualMemFile) (n : BitVec 64) : Bool × VirtualMemFile :=
  if behind : file.getFileSize ≤ n.toNat then (false, file)
  else (true, file.moved n.toNat (Nat.le_of_not_le behind))

/-- The length of a read, cut at the end of the file. -/
def cut (file : VirtualMemFile) (pos len : Nat) : Nat :=
  if size_t (pos + len) > file.getFileSize then size_t (file.getFileSize - pos) else len

theorem cut_inside (file : VirtualMemFile) (pos len : Nat) :
    size_t (pos + file.cut pos len) ≤ file._fileContent.length := by
  have small := file.small
  unfold cut getFileSize size_t
  split <;> omega

/-- `read` from the position on, which moves behind what was read. -/
def read (file : VirtualMemFile) (len : BitVec 64) : Slice × VirtualMemFile :=
  (⟨file._filePos, file.cut file._filePos len.toNat⟩,
    file.moved (size_t (file._filePos + file.cut file._filePos len.toNat)) (file.cut_inside _ _))

/-- `read` from a given position on; the position of the file moves as well. -/
def readAt (file : VirtualMemFile) (pos len : BitVec 64) : Slice × VirtualMemFile :=
  (⟨pos.toNat, file.cut pos.toNat len.toNat⟩,
    file.moved (size_t (pos.toNat + file.cut pos.toNat len.toNat)) (file.cut_inside _ _))

def close (file : VirtualMemFile) : VirtualMemFile := file.moved 0 (Nat.zero_le _)

/-- `clean`, which empties the file. -/
def clean (file : VirtualMemFile) : VirtualMemFile :=
  { file with
    _fileContent := []
    _filePos := 0
    small := by decide
    inside := Nat.le_refl _ }

/-- The bytes of a slice. -/
def bytes (file : VirtualMemFile) (slice : Slice) : Except Fault Bytes :=
  fetch file._fileContent slice.start slice.length

end VirtualMemFile

end LevelDBLib.Navi
