/-
This file settles what the handles of an in-memory file see of each other. All of them
share the position of the file, so what a sequential reader returns depends on what is done
through the others in between. It does not, as long as the position is back where the
reader left it whenever the reader reads.
-/

import LevelDBLib.Navi.PosixEnv

namespace LevelDBLib.Navi

open KvDB

/-- What is done through another handle of the file: reads, moves of the position, and the end of
a handle. -/
inductive HandleCall where
  | Read (n : BitVec 64)
  | ReadAt (offset n : BitVec 64)
  | Skip (n : BitVec 64)
  | seek (n : BitVec 64)
  | close
deriving DecidableEq, Repr

def HandleCall.apply (file_ : VirtualMemFile) : HandleCall → VirtualMemFile
  | .Read n => (PosixSequentialFile.Read file_ n).2.2
  | .ReadAt offset n => (PosixRandomAccessFile.Read file_ offset n).2.2
  | .Skip n => (PosixSequentialFile.Skip file_ n).2
  | .seek n => (file_.seek n).2
  | .close => file_.close

/-- One step of a run: a read of the reader, or a call through another handle. -/
inductive Turn where
  | own (n : BitVec 64)
  | other (call : HandleCall)
deriving DecidableEq, Repr

/-- The bytes that the reader gets in a run. -/
def read (file_ : VirtualMemFile) : List Turn → List (Except Fault Bytes)
  | [] => []
  | .own n :: turns =>
    file_.bytes (PosixSequentialFile.Read file_ n).2.1 ::
      read (PosixSequentialFile.Read file_ n).2.2 turns
  | .other call :: turns => read (call.apply file_) turns

/-- The reads of the reader alone. -/
def alone : List Turn → List Turn
  | [] => []
  | .own n :: turns => .own n :: alone turns
  | .other _ :: turns => alone turns

/-- At every read of the reader the file stands where the reader left it. -/
def Undisturbed (file_ : VirtualMemFile) (left : Nat) : List Turn → Prop
  | [] => True
  | .own n :: turns => file_._filePos = left ∧
      Undisturbed (file_.read n).2 (file_.read n).2._filePos turns
  | .other call :: turns => Undisturbed (call.apply file_) left turns

/-- No call through a handle changes the bytes of the file. -/
theorem content_apply (file_ : VirtualMemFile) (call : HandleCall) :
    (call.apply file_)._fileContent = file_._fileContent := by
  have skipped : ∀ n, (file_.skip n).2._fileContent = file_._fileContent := by
    intro n
    unfold VirtualMemFile.skip
    split <;> rfl
  cases call with
  | Read n | ReadAt offset n | close => rfl
  | Skip n =>
    show (PosixSequentialFile.Skip file_ n).2._fileContent = _
    unfold PosixSequentialFile.Skip
    split <;> exact skipped n
  | seek n =>
    show (file_.seek n).2._fileContent = _
    unfold VirtualMemFile.seek
    split <;> rfl

/-- Files with the same bytes and the same position are read alike. -/
theorem read_alike {one other : VirtualMemFile} (content : one._fileContent = other._fileContent)
    (pos : one._filePos = other._filePos) (n : BitVec 64) :
    one.bytes (one.read n).1 = other.bytes (other.read n).1 ∧
      (one.read n).2._filePos = (other.read n).2._filePos := by
  have cut : one.cut one._filePos n.toNat = other.cut other._filePos n.toNat := by
    unfold VirtualMemFile.cut VirtualMemFile.getFileSize
    rw [content, pos]
  constructor
  · show fetch one._fileContent one._filePos (one.cut one._filePos n.toNat) =
      fetch other._fileContent other._filePos (other.cut other._filePos n.toNat)
    rw [cut, content, pos]
  · show size_t (one._filePos + one.cut one._filePos n.toNat) =
      size_t (other._filePos + other.cut other._filePos n.toNat)
    rw [cut, pos]

/-- Reads in company and reads alone, from files with the same bytes. -/
theorem read_eq_read_alone (turns : List Turn) {file_ own : VirtualMemFile}
    (content : file_._fileContent = own._fileContent)
    (undisturbed : Undisturbed file_ own._filePos turns) :
    read file_ turns = read own (alone turns) := by
  induction turns generalizing file_ own with
  | nil => rfl
  | cons turn turns hypothesis =>
    cases turn with
    | other call =>
      exact hypothesis ((content_apply file_ call).trans content) undisturbed
    | own n =>
      obtain ⟨pos, later⟩ := undisturbed
      obtain ⟨bytes, next⟩ := read_alike content pos n
      have others := @hypothesis (file_.read n).2 (own.read n).2 content (next ▸ later)
      show file_.bytes (file_.read n).1 :: _ = own.bytes (own.read n).1 :: _
      rw [bytes]
      exact congrArg _ others

/-- What a reader returns does not depend on the other handles of the file, if at every read the
position is where the reader left it. -/
theorem reads_independent (file_ : VirtualMemFile) (turns : List Turn)
    (undisturbed : Undisturbed file_ file_._filePos turns) :
    read file_ turns = read file_ (alone turns) :=
  read_eq_read_alone turns rfl undisturbed

theorem reads_independent_once :
    read fourBytes [.own 2, .other (.Read 0), .own 2] = read fourBytes [.own 2, .own 2] :=
  reads_independent fourBytes [.own 2, .other (.Read 0), .own 2] ⟨rfl, rfl, trivial⟩

/-- A read of one byte at the start of the file takes the reader back. -/
theorem reads_depend :
    read fourBytes [.own 2, .other (.ReadAt 0 1), .own 2] = [.ok [1, 2], .ok [2, 3]] ∧
      read fourBytes (alone [.own 2, .other (.ReadAt 0 1), .own 2]) = [.ok [1, 2], .ok [3, 4]] :=
  ⟨rfl, rfl⟩

end LevelDBLib.Navi
