/-
This file models the environment of an in-memory build and settles what it owes the store.
The contract of `Env` says that opening a missing file for reading fails, that skipping
stops at the end of a file and succeeds, and that the children of a directory are listed
by the prefix of their names. Each law holds here exactly where nothing is asked of it: on
files that exist, at the end of a file, and in directories without other names.
-/

import LevelDBLib.Navi.Status
import LevelDBLib.Navi.VirtualMemFileSystem

namespace LevelDBLib.Navi

open KvDB PathParser

/-! ### Files opened for reading -/

namespace PosixSequentialFile

def Read (file_ : VirtualMemFile) (n : BitVec 64) : Status × Slice × VirtualMemFile :=
  (.OK, file_.read n)

/-- `Skip`, which takes the success of the file for a failure. -/
def Skip (file_ : VirtualMemFile) (n : BitVec 64) : Status × VirtualMemFile :=
  if (file_.skip n).1 then
    (.IOError file_._fileName (file_._fileName ++ text "skip error"), (file_.skip n).2)
  else (.OK, (file_.skip n).2)

end PosixSequentialFile

def PosixRandomAccessFile.Read (file_ : VirtualMemFile) (offset n : BitVec 64) :
    Status × Slice × VirtualMemFile :=
  (.OK, file_.readAt offset n)

namespace PosixEnv

variable (fileSystem : VirtualMemFileSystem)

/-- `NewSequentialFile`, which creates the file if it is missing. -/
def NewSequentialFile (fname : Bytes) (address : Nat) :
    Except Fault ((Status × Nat) × VirtualMemFileSystem) := do
  let (file, fileSystem) ← fileSystem.createFile fname address
  .ok ((.OK, file), fileSystem.assign file fun file => (file.seek 0).2)

def NewRandomAccessFile (fname : Bytes) (address : Nat) :
    Except Fault ((Status × Nat) × VirtualMemFileSystem) := do
  let (file, fileSystem) ← fileSystem.createFile fname address
  .ok ((.OK, file), fileSystem)

def GetChildren (dir dbname : Bytes) : Status × List Bytes :=
  if (fileSystem.getChildrenName dir dbname).1 = false then
    (.IOError dir (dir ++ text "get child error"), (fileSystem.getChildrenName dir dbname).2)
  else (.OK, (fileSystem.getChildrenName dir dbname).2)

end PosixEnv

/-! ### The contract -/

/-- Opening a missing file fails and creates nothing. -/
def RefusesMissing (fileSystem : VirtualMemFileSystem) (fname : Bytes)
    (opened : Except Fault ((Status × Nat) × VirtualMemFileSystem)) : Prop :=
  fileSystem.isContainFile fname = false →
    ∃ status file, opened = .ok ((status, file), fileSystem) ∧ status.ok = false

/-- Skipping succeeds and stops at the end of the file. -/
def SkipsToEnd (file : VirtualMemFile) (n : BitVec 64) : Prop :=
  (PosixSequentialFile.Skip file n).1.ok = true ∧
    (PosixSequentialFile.Skip file n).2._filePos =
      file._filePos + min n.toNat (file.getFileSize - file._filePos)

/-- The files of a directory whose names start with the name of the database. -/
def children (fileSystem : VirtualMemFileSystem) (dir dbname : Bytes) : List Bytes :=
  (fileSystem._files.filter fun file => file.2._filePath = (formatDir dir []).2 ∧
    dbname.isPrefixOf file.2._fileName).map fun file => file.2._fileName

/-- A directory that exists is listed, by names that start with the name of the database. -/
def ListsChildren (fileSystem : VirtualMemFileSystem) (dir dbname : Bytes) : Prop :=
  ((PosixEnv.GetChildren fileSystem dir dbname).1.ok = true ↔ fileSystem.isContainDir dir = true) ∧
    (fileSystem.isContainDir dir = true →
      (PosixEnv.GetChildren fileSystem dir dbname).2.Perm (children fileSystem dir dbname))

variable (fileSystem : VirtualMemFileSystem)

/-- What creates a file of every path refuses none. -/
theorem refusesMissing_iff (fname : Bytes)
    (opened : Except Fault ((Status × Nat) × VirtualMemFileSystem))
    (creates : fileSystem.isContainFile fname = false →
      ∃ file after, opened = .ok ((.OK, file), after)) :
    RefusesMissing fileSystem fname opened ↔ fileSystem.isContainFile fname = true := by
  unfold RefusesMissing
  cases there : fileSystem.isContainFile fname with
  | true => exact iff_of_true (fun missing => absurd missing.symm Bool.false_ne_true) rfl
  | false =>
    refine iff_of_false (fun refuses => ?_) Bool.false_ne_true
    obtain ⟨file, after, openedEq⟩ := creates there
    obtain ⟨status, other, refusedEq, failure⟩ := refuses rfl
    cases openedEq.symm.trans refusedEq
    exact absurd failure (by decide)

theorem createFile_of_missing (fname : Bytes) (address : Nat)
    (missing : fileSystem.isContainFile fname = false) :
    ∃ after, fileSystem.createFile fname address = .ok (address, after) := by
  unfold VirtualMemFileSystem.createFile
  rw [missing, if_neg Bool.false_ne_true]
  exact ⟨_, rfl⟩

theorem newSequentialFile_of_missing (fname : Bytes) (address : Nat)
    (missing : fileSystem.isContainFile fname = false) :
    ∃ file after, PosixEnv.NewSequentialFile fileSystem fname address =
      .ok ((.OK, file), after) := by
  obtain ⟨after, created⟩ := createFile_of_missing fileSystem fname address missing
  exact ⟨address, _, by rw [PosixEnv.NewSequentialFile, created]; rfl⟩

theorem newRandomAccessFile_of_missing (fname : Bytes) (address : Nat)
    (missing : fileSystem.isContainFile fname = false) :
    ∃ file after, PosixEnv.NewRandomAccessFile fileSystem fname address =
      .ok ((.OK, file), after) := by
  obtain ⟨after, created⟩ := createFile_of_missing fileSystem fname address missing
  exact ⟨address, _, by rw [PosixEnv.NewRandomAccessFile, created]; rfl⟩

/-- A skip does what is asked of it where it has nothing to do. -/
theorem skipsToEnd_iff (file : VirtualMemFile) (n : BitVec 64) :
    SkipsToEnd file n ↔
      file._filePos = file.getFileSize ∧ file.getFileSize + n.toNat < 18446744073709551616 := by
  have small := file.small
  have inside := file.inside
  have bound := n.isLt
  unfold SkipsToEnd PosixSequentialFile.Skip VirtualMemFile.skip
  by_cases behind : file.getFileSize ≤ size_t (file._filePos + n.toNat)
  · rw [dif_pos behind]
    dsimp only
    rw [if_neg Bool.false_ne_true]
    show Status.OK.ok = true ∧ file._filePos = _ ↔ _
    unfold VirtualMemFile.getFileSize size_t at *
    constructor
    · rintro ⟨_, advanced⟩
      omega
    · rintro ⟨last, _⟩
      exact ⟨rfl, by omega⟩
  · rw [dif_neg behind]
    dsimp only
    rw [if_pos rfl]
    refine iff_of_false (fun skips => absurd skips.1 Bool.false_ne_true) fun last => behind ?_
    unfold VirtualMemFile.getFileSize size_t at *
    omega

theorem formatDir_of_contained {dir : Bytes} (known : fileSystem.isContainDir dir = true) :
    ∃ _dirName, formatDir dir [] = (true, _dirName) := by
  unfold VirtualMemFileSystem.isContainDir at known
  split at known
  · cases known
  · rename_i _dirName formatted
    exact ⟨_dirName, formatted⟩

/-- A directory is listed as it should be when all its files are of the database. -/
theorem listsChildren_iff (dir dbname : Bytes) :
    ListsChildren fileSystem dir dbname ↔ (fileSystem.isContainDir dir = true →
      ∀ file ∈ fileSystem._files, file.2._filePath = (formatDir dir []).2 →
        dbname <+: file.2._fileName) := by
  unfold ListsChildren PosixEnv.GetChildren VirtualMemFileSystem.getChildrenName
  cases known : fileSystem.isContainDir dir with
  | false =>
    rw [if_neg Bool.false_ne_true]
    exact iff_of_true ⟨iff_of_false Bool.false_ne_true Bool.false_ne_true,
      fun absent => absurd absent Bool.false_ne_true⟩ fun absent => absurd absent Bool.false_ne_true
  | true =>
    obtain ⟨_dirName, formatted⟩ := formatDir_of_contained fileSystem known
    unfold children
    rw [if_pos rfl, formatted]
    dsimp only
    rw [if_neg (by decide)]
    have split : (fileSystem._files.filter fun file => decide (file.2._filePath = _dirName ∧
        dbname.isPrefixOf file.2._fileName = true)) =
        (fileSystem._files.filter fun file => decide (file.2._filePath = _dirName)).filter
          fun file => dbname.isPrefixOf file.2._fileName := by
      rw [List.filter_filter]
      refine List.filter_congr fun file _ => ?_
      rw [Bool.decide_and, Bool.decide_coe, Bool.and_comm]
    constructor
    · rintro ⟨_, listed⟩ _ file member equal
      have lengths := (listed rfl).length_eq
      rw [List.length_map, List.length_map, split] at lengths
      exact List.isPrefixOf_iff_prefix.mp (List.length_filter_eq_length_iff.mp lengths.symm file
        (List.mem_filter.mpr ⟨member, decide_eq_true equal⟩))
    · intro prefixes
      refine ⟨iff_of_true rfl rfl, fun _ => ?_⟩
      have all : (fileSystem._files.filter fun file => decide (file.2._filePath = _dirName)).filter
          (fun file => dbname.isPrefixOf file.2._fileName) =
          fileSystem._files.filter fun file => decide (file.2._filePath = _dirName) := by
        refine List.filter_eq_self.mpr fun file member => ?_
        obtain ⟨old, equal⟩ := List.mem_filter.mp member
        exact List.isPrefixOf_iff_prefix.mpr (prefixes rfl file old (of_decide_eq_true equal))
      rw [split, all]

/-- The laws of the contract, and where the environment meets them: opening for reading, on files
that exist; skipping, at the end of the file; listing, where no name has another prefix. -/
theorem contract_iff (fname : Bytes) (address : Nat) (file : VirtualMemFile) (n : BitVec 64)
    (dir dbname : Bytes) :
    (RefusesMissing fileSystem fname (PosixEnv.NewSequentialFile fileSystem fname address) ↔
      fileSystem.isContainFile fname = true) ∧
    (RefusesMissing fileSystem fname (PosixEnv.NewRandomAccessFile fileSystem fname address) ↔
      fileSystem.isContainFile fname = true) ∧
    (SkipsToEnd file n ↔
      file._filePos = file.getFileSize ∧ file.getFileSize + n.toNat < 18446744073709551616) ∧
    (ListsChildren fileSystem dir dbname ↔ (fileSystem.isContainDir dir = true →
      ∀ file ∈ fileSystem._files, file.2._filePath = (formatDir dir []).2 →
        dbname <+: file.2._fileName)) :=
  ⟨refusesMissing_iff fileSystem fname _ (newSequentialFile_of_missing fileSystem fname address),
    refusesMissing_iff fileSystem fname _ (newRandomAccessFile_of_missing fileSystem fname address),
    skipsToEnd_iff file n, listsChildren_iff fileSystem dir dbname⟩

/-- The file `/a/x` with four bytes, at its start. -/
def fourBytes : VirtualMemFile :=
  ⟨[47, 97, 47], [120], [1, 2, 3, 4], 0, by decide, by decide⟩

/-- The directory `/a/` with that file in it. -/
def oneFile : VirtualMemFileSystem := ⟨{[47, 97, 47]}, [(0, fourBytes)]⟩

/-- A missing file is created, a skip of two bytes fails, and a file of another database is
listed. -/
theorem contract_broken :
    (∃ after, PosixEnv.NewSequentialFile oneFile [47, 97, 47, 121] 1 = .ok ((.OK, 1), after) ∧
      after.isContainFile [47, 97, 47, 121] = true ∧
      oneFile.isContainFile [47, 97, 47, 121] = false) ∧
    (PosixSequentialFile.Skip fourBytes 2).1.ok = false ∧
    (PosixSequentialFile.Skip fourBytes 4) = (.OK, fourBytes) ∧
    PosixEnv.GetChildren oneFile [47, 97] [121] = (.OK, [[120]]) ∧
    children oneFile [47, 97] [121] = [] :=
  ⟨⟨_, rfl, rfl, rfl⟩, rfl, rfl, rfl, rfl⟩

end LevelDBLib.Navi
