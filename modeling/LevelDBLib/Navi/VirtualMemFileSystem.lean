/-
This file models the in-memory file system: a set of directories, and the files in the
order they were created, each at an address of its own. Handles hold the address of a
file, and renaming a file goes through the handle, past the file system.
-/

import Mathlib.Data.Finset.Insert
import Mathlib.Data.Finset.Erase
import LevelDBLib.Navi.VirtualMemFile

namespace LevelDBLib.Navi

open KvDB PathParser

structure VirtualMemFileSystem where
  _dirs : Finset Bytes
  _files : List (Nat × VirtualMemFile)

namespace VirtualMemFileSystem

def empty : VirtualMemFileSystem := ⟨∅, []⟩

/-- The directory and the name of a file. -/
def names (file : Nat × VirtualMemFile) : Bytes × Bytes := (file.2._filePath, file.2._fileName)

/-! ### Directories -/

def isContainDir (fs : VirtualMemFileSystem) (dirName : Bytes) : Bool :=
  match formatDir dirName [] with
  | (false, _) => false
  | (true, _dirName) => _dirName ∈ fs._dirs

def createDir (fs : VirtualMemFileSystem) (dirName : Bytes) : Bool × VirtualMemFileSystem :=
  match formatDir dirName [] with
  | (false, _) => (false, fs)
  | (true, _dirName) =>
    if fs.isContainDir _dirName then (false, fs)
    else (true, { fs with _dirs := insert _dirName fs._dirs })

/-- `deleteDir`: the files are looked for under the name as it was given, the directory under the
name as it is kept. -/
def deleteDir (fs : VirtualMemFileSystem) (dirName : Bytes) : Bool × VirtualMemFileSystem :=
  match formatDir dirName [] with
  | (false, _) => (false, fs)
  | (true, _dirName) =>
    let _files := fs._files.filter fun file => file.2._filePath ≠ dirName
    if _dirName ∈ fs._dirs then (true, ⟨fs._dirs.erase _dirName, _files⟩)
    else (false, ⟨fs._dirs, _files⟩)

/-- `renameDir`, which leaves the files where they are. -/
def renameDir (fs : VirtualMemFileSystem) (originDirName newDirName : Bytes) :
    VirtualMemFileSystem :=
  match formatDir originDirName [] with
  | (false, _) => fs
  | (true, _originDirName) =>
    if _originDirName ∈ fs._dirs then
      match formatDir newDirName [] with
      | (false, _) => { fs with _dirs := fs._dirs.erase _originDirName }
      | (true, _newDirName) =>
        { fs with _dirs := insert _newDirName (fs._dirs.erase _originDirName) }
    else fs

/-- `getChildrenName`, which does not look at the second name. -/
def getChildrenName (fs : VirtualMemFileSystem) (dirName _dbname : Bytes) : Bool × List Bytes :=
  if fs.isContainDir dirName then
    match formatDir dirName [] with
    | (false, _) => (false, [])
    | (true, _dirName) =>
      (true, (fs._files.filter fun file => file.2._filePath = _dirName).map fun file =>
        file.2._fileName)
  else (false, [])

/-! ### Files -/

def isContainFile (fs : VirtualMemFileSystem) (fileName : Bytes) : Bool :=
  match parsed fileName with
  | none => false
  | some path => fs._files.any fun file => names file = path

def getFile (fs : VirtualMemFileSystem) (fileName : Bytes) : Option Nat :=
  match parsed fileName with
  | none => none
  | some path => (fs._files.find? fun file => names file = path).map Prod.fst

/-- The file system with the file at an address changed. -/
def assign (fs : VirtualMemFileSystem) (address : Nat) (change : VirtualMemFile → VirtualMemFile) :
    VirtualMemFileSystem :=
  { fs with _files := fs._files.map fun file =>
      if file.1 = address then (file.1, change file.2) else file }

/-- `createFile`; `address` is where `new` puts a file. -/
def createFile (fs : VirtualMemFileSystem) (fileName : Bytes) (address : Nat) :
    Except Fault (Nat × VirtualMemFileSystem) :=
  if fs.isContainFile fileName then
    match fs.getFile fileName with
    | none => .error .nullPointer
    | some file => .ok (file, fs.assign file fun file => (file.seek 0).2)
  else
    let file := VirtualMemFile.new fileName
    .ok (address, ⟨insert file._filePath fs._dirs, fs._files ++ [(address, file)]⟩)

def deleteFile (fs : VirtualMemFileSystem) (fileName : Bytes) : Bool × VirtualMemFileSystem :=
  match parsed fileName with
  | none => (false, fs)
  | some path =>
    (fs._files.any fun file => names file = path,
      { fs with _files := fs._files.eraseP fun file => names file = path })

/-- The file behind a handle; one that was deleted is no memory of the program. -/
def deref (fs : VirtualMemFileSystem) (address : Nat) : Except Fault VirtualMemFile :=
  match fs._files.find? fun file => file.1 = address with
  | none => .error .outOfBounds
  | some file => .ok file.2

/-- `VirtualMemFile::rename` through a handle. -/
def rename (fs : VirtualMemFileSystem) (address : Nat) (newName : Bytes) :
    Except Fault VirtualMemFileSystem := do
  let _ ← fs.deref address
  .ok (fs.assign address fun file => file.rename newName)

end VirtualMemFileSystem

end LevelDBLib.Navi
