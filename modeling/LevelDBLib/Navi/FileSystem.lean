/-
This file settles what the in-memory file system keeps. A consistent one has no two files
of one directory and one name, and knows the directory of every file. Some calls break
this: a file can be created of a path without a slash, a directory can be deleted in
another spelling than its files have, a directory can be renamed without its files, and a
file can be renamed past the file system. A call of one of these kinds keeps the file
system consistent exactly under a condition, and so does a run of calls.
-/

import LevelDBLib.Library.Runs
import LevelDBLib.Navi.VirtualMemFileSystem

namespace LevelDBLib.Navi

open KvDB PathParser Runs VirtualMemFileSystem

inductive FileCall where
  | createDir (dirName : Bytes)
  | deleteDir (dirName : Bytes)
  | renameDir (originDirName newDirName : Bytes)
  | createFile (fileName : Bytes) (address : Nat)
  | deleteFile (fileName : Bytes)
  | rename (address : Nat) (newName : Bytes)
deriving DecidableEq, Repr

namespace VirtualMemFileSystem

/-- A call, which may return a file. -/
def call (fs : VirtualMemFileSystem) :
    FileCall → Except Fault (Option Nat × VirtualMemFileSystem)
  | .createDir dirName => .ok (none, (fs.createDir dirName).2)
  | .deleteDir dirName => .ok (none, (fs.deleteDir dirName).2)
  | .renameDir originDirName newDirName => .ok (none, fs.renameDir originDirName newDirName)
  | .createFile fileName address => do
    let (file, fs) ← fs.createFile fileName address
    .ok (some file, fs)
  | .deleteFile fileName => .ok (none, (fs.deleteFile fileName).2)
  | .rename address newName => do
    let fs ← fs.rename address newName
    .ok (none, fs)

end VirtualMemFileSystem

/-- Files are made where there is none, and renamed where there is one. -/
def Placed (fs : VirtualMemFileSystem) : FileCall → Prop
  | .createFile _ address => ∀ file ∈ fs._files, file.1 ≠ address
  | .rename address _ => ∃ file ∈ fs._files, file.1 = address
  | _ => True

structure Consistent (fs : VirtualMemFileSystem) : Prop where
  apart : (fs._files.map names).Nodup
  within : ∀ file ∈ fs._files, file.2._filePath ∈ fs._dirs

/-- The call returns and leaves a consistent file system; a file that it creates is found under
the path it was created with. -/
def Sound (fs : VirtualMemFileSystem) (call : FileCall) : Prop :=
  ∃ reply after, fs.call call = .ok (reply, after) ∧ Consistent after ∧
    ∀ fileName address, call = .createFile fileName address →
      ∃ file, reply = some file ∧ after.isContainFile fileName = true ∧
        after.getFile fileName = some file

/-- No file is in the directory. -/
def Vacant (fs : VirtualMemFileSystem) (_dirName : Bytes) : Prop :=
  ∀ file ∈ fs._files, file.2._filePath ≠ _dirName

/-- The condition under which a call is sound. -/
def Harmless (fs : VirtualMemFileSystem) : FileCall → Prop
  | .createFile fileName _ => (parsed fileName).isSome
  | .deleteDir dirName => ∀ _dirName, formatDir dirName [] = (true, _dirName) →
      _dirName = dirName ∨ Vacant fs _dirName
  | .renameDir originDirName newDirName => ∀ _dirName, formatDir originDirName [] = (true, _dirName) →
      _dirName ∈ fs._dirs → Vacant fs _dirName ∨ formatDir newDirName [] = (true, _dirName)
  | .rename address newName => ∀ file ∈ fs._files, file.1 = address →
      (parseFilePath newName file.2._filePath file.2._fileName).2.1 ∈ fs._dirs ∧
      ∀ other ∈ fs._files, other.1 ≠ address →
        names other ≠ (parseFilePath newName file.2._filePath file.2._fileName).2
  | _ => True

/-! ### Directories -/

variable {fs : VirtualMemFileSystem}

theorem Consistent.dirs (consistent : Consistent fs) {_dirs : Finset Bytes}
    (within : ∀ file ∈ fs._files, file.2._filePath ∈ _dirs) : Consistent { fs with _dirs := _dirs } :=
  ⟨consistent.apart, within⟩

/-- Where no file is created, a call is sound when it leaves a consistent file system. -/
theorem sound_iff {call : FileCall} {after : VirtualMemFileSystem} {reply : Option Nat}
    (returned : fs.call call = .ok (reply, after))
    (other : ∀ fileName address, call ≠ .createFile fileName address) :
    Sound fs call ↔ Consistent after := by
  constructor
  · rintro ⟨_, _, returnedEq, consistent, _⟩
    cases returned.symm.trans returnedEq
    exact consistent
  · intro consistent
    exact ⟨reply, after, returned, consistent, fun fileName address equal =>
      absurd equal (other fileName address)⟩

theorem createDir_consistent (consistent : Consistent fs) (dirName : Bytes) :
    Consistent (fs.createDir dirName).2 := by
  unfold createDir
  split
  · exact consistent
  · split
    · exact consistent
    · exact consistent.dirs fun file member => Finset.mem_insert_of_mem (consistent.within file member)

/-- The directory can go when its files do. -/
theorem deleteDir_consistent_iff (consistent : Consistent fs) (dirName : Bytes) :
    Consistent (fs.deleteDir dirName).2 ↔ Harmless fs (.deleteDir dirName) := by
  unfold deleteDir
  simp only [Harmless]
  generalize formatDir dirName [] = formatted
  obtain ⟨valid, _dirName⟩ := formatted
  cases valid with
  | false => exact iff_of_true consistent fun _ equal => by cases equal
  | true =>
    have apart : ((fs._files.filter fun file => file.2._filePath ≠ dirName).map names).Nodup :=
      consistent.apart.sublist (List.filter_sublist.map names)
    dsimp only
    constructor
    · rintro after _ ⟨⟩
      by_contra neither
      obtain ⟨different, occupied⟩ := not_or.mp neither
      refine occupied fun file member equal => ?_
      have kept : file ∈ fs._files.filter fun file => file.2._filePath ≠ dirName :=
        List.mem_filter.mpr ⟨member, decide_eq_true (equal ▸ different)⟩
      by_cases known : _dirName ∈ fs._dirs
      · rw [if_pos known] at after
        exact Finset.notMem_erase _ _ (equal ▸ after.within file kept)
      · exact known (equal ▸ consistent.within file member)
    · intro harmless
      have within : ∀ file ∈ fs._files.filter fun file => file.2._filePath ≠ dirName,
          file.2._filePath ∈ fs._dirs.erase _dirName := by
        intro file member
        obtain ⟨old, different⟩ := List.mem_filter.mp member
        refine Finset.mem_erase.mpr ⟨fun equal => ?_, consistent.within file old⟩
        rcases harmless _dirName rfl with same | vacant
        · exact of_decide_eq_true different (equal.trans same)
        · exact vacant file old equal
      split
      · exact ⟨apart, within⟩
      · exact ⟨apart, fun file member => Finset.mem_of_mem_erase (within file member)⟩

/-- A directory can be renamed when it has no files or keeps its name. -/
theorem renameDir_consistent_iff (consistent : Consistent fs) (originDirName newDirName : Bytes) :
    Consistent (fs.renameDir originDirName newDirName) ↔
      Harmless fs (.renameDir originDirName newDirName) := by
  unfold renameDir
  simp only [Harmless]
  generalize formatDir originDirName [] = formatted
  generalize formatDir newDirName [] = renamed
  obtain ⟨valid, _originDirName⟩ := formatted
  obtain ⟨newValid, _newDirName⟩ := renamed
  cases valid with
  | false => exact iff_of_true consistent fun _ equal => by cases equal
  | true =>
    dsimp only
    by_cases known : _originDirName ∈ fs._dirs
    · rw [if_pos known]
      cases newValid with
      | false =>
        constructor
        · rintro after _ ⟨⟩ _
          exact .inl fun file member equal =>
            Finset.notMem_erase _ _ (equal ▸ after.within file member)
        · intro harmless
          refine consistent.dirs fun file member => Finset.mem_erase.mpr ⟨?_, consistent.within _ member⟩
          rcases harmless _ rfl known with vacant | equal
          · exact vacant file member
          · cases equal
      | true =>
        constructor
        · rintro after _ ⟨⟩ _
          by_cases same : _newDirName = _originDirName
          · exact .inr (by rw [same])
          · refine .inl fun file member equal => ?_
            have within := after.within file member
            rw [equal, Finset.mem_insert] at within
            exact within.elim (Ne.symm same) (Finset.notMem_erase _ _)
        · intro harmless
          refine consistent.dirs fun file member => ?_
          by_cases equal : file.2._filePath = _originDirName
          · rcases harmless _ rfl known with vacant | same
            · exact absurd equal (vacant file member)
            · cases same
              rw [equal]
              exact Finset.mem_insert_self _ _
          · exact Finset.mem_insert_of_mem (Finset.mem_erase.mpr ⟨equal, consistent.within _ member⟩)
    · rw [if_neg known]
      exact iff_of_true consistent fun _ equal member => by cases equal; exact absurd member known

/-! ### Files -/

theorem isContainFile_iff (fs : VirtualMemFileSystem) (fileName : Bytes) :
    fs.isContainFile fileName = true ↔
      ∃ path, parsed fileName = some path ∧ ∃ file ∈ fs._files, names file = path := by
  unfold isContainFile
  cases parsed fileName with
  | none => exact iff_of_false Bool.false_ne_true fun ⟨_, split, _⟩ => Option.some_ne_none _ split.symm
  | some path =>
    dsimp only
    rw [List.any_eq_true]
    constructor
    · rintro ⟨file, member, equal⟩
      exact ⟨path, rfl, file, member, of_decide_eq_true equal⟩
    · rintro ⟨_, ⟨⟩, file, member, equal⟩
      exact ⟨file, member, decide_eq_true equal⟩

theorem getFile_of_some {fileName : Bytes} {path : Bytes × Bytes}
    (split : parsed fileName = some path) :
    fs.getFile fileName = (fs._files.find? fun file => names file = path).map Prod.fst := by
  unfold getFile
  rw [split]

/-- A file that is there is found. -/
theorem getFile_isSome {fileName : Bytes} (there : fs.isContainFile fileName = true) :
    ∃ file, fs.getFile fileName = some file := by
  obtain ⟨path, split, file, member, equal⟩ := (isContainFile_iff fs fileName).mp there
  rw [getFile_of_some split]
  cases found : fs._files.find? fun file => names file = path with
  | none => exact absurd (decide_eq_true equal) (List.find?_eq_none.mp found file member)
  | some file => exact ⟨_, rfl⟩

section Assign

variable {change : VirtualMemFile → VirtualMemFile} (address : Nat)

theorem addresses_assign (fs : VirtualMemFileSystem) (change : VirtualMemFile → VirtualMemFile) :
    (fs.assign address change)._files.map Prod.fst = fs._files.map Prod.fst := by
  unfold assign
  rw [List.map_map]
  refine List.map_congr_left fun file _ => ?_
  dsimp only [Function.comp]
  split <;> rfl

/-- A change that keeps the names of a file keeps what the file system knows of it. -/
theorem names_changed (file : Nat × VirtualMemFile)
    (same : ∀ file : VirtualMemFile, (change file)._filePath = file._filePath ∧
      (change file)._fileName = file._fileName) :
    names (if file.1 = address then (file.1, change file.2) else file) = names file := by
  split
  · exact Prod.ext (same file.2).1 (same file.2).2
  · rfl

theorem names_assign (fs : VirtualMemFileSystem)
    (same : ∀ file : VirtualMemFile, (change file)._filePath = file._filePath ∧
      (change file)._fileName = file._fileName) :
    (fs.assign address change)._files.map names = fs._files.map names := by
  unfold assign
  rw [List.map_map]
  exact List.map_congr_left fun file _ => names_changed address file same

theorem getFile_assign (fs : VirtualMemFileSystem) (fileName : Bytes)
    (same : ∀ file : VirtualMemFile, (change file)._filePath = file._filePath ∧
      (change file)._fileName = file._fileName) :
    (fs.assign address change).getFile fileName = fs.getFile fileName := by
  unfold getFile
  cases parsed fileName with
  | none => rfl
  | some path =>
    dsimp only [assign]
    rw [List.find?_map, Option.map_map]
    have found : ((fun file => decide (names file = path)) ∘ fun file : Nat × VirtualMemFile =>
        if file.1 = address then (file.1, change file.2) else file) =
        fun file => decide (names file = path) := by
      funext file
      exact congrArg (fun held => decide (held = path)) (names_changed address file same)
    have addresses : (Prod.fst ∘ fun file : Nat × VirtualMemFile =>
        if file.1 = address then (file.1, change file.2) else file) = Prod.fst := by
      funext file
      dsimp only [Function.comp]
      split <;> rfl
    rw [found, addresses]

end Assign

/-- The directories of the files, and their names, decide whether a file system is consistent. -/
theorem consistent_iff (fs : VirtualMemFileSystem) :
    Consistent fs ↔ (fs._files.map names).Nodup ∧
      ∀ path ∈ fs._files.map names, path.1 ∈ fs._dirs := by
  constructor
  · intro consistent
    refine ⟨consistent.apart, fun path member => ?_⟩
    obtain ⟨file, fileMember, rfl⟩ := List.mem_map.mp member
    exact consistent.within file fileMember
  · rintro ⟨apart, within⟩
    exact ⟨apart, fun file member => within _ (List.mem_map_of_mem member)⟩

theorem seek_names (n : BitVec 64) (file : VirtualMemFile) :
    (file.seek n).2._filePath = file._filePath ∧ (file.seek n).2._fileName = file._fileName := by
  unfold VirtualMemFile.seek
  split <;> exact ⟨rfl, rfl⟩

/-- A new file has the directory and the name of its path. -/
theorem names_new {fileName : Bytes} {path : Bytes × Bytes} (address : Nat)
    (split : parsed fileName = some path) : names (address, VirtualMemFile.new fileName) = path := by
  unfold parsed at split
  unfold names VirtualMemFile.new
  generalize parseFilePath fileName [] [] = result at split
  obtain ⟨valid, filePath, fileName⟩ := result
  cases valid with
  | false => cases split
  | true => exact Option.some.inj split

/-- A file can be created of a path with a slash. -/
theorem createFile_sound_iff (consistent : Consistent fs) (fileName : Bytes) (address : Nat) :
    Sound fs (.createFile fileName address) ↔ (parsed fileName).isSome := by
  by_cases there : fs.isContainFile fileName = true
  · obtain ⟨file, found⟩ := getFile_isSome there
    have returned : fs.call (.createFile fileName address) =
        .ok (some file, fs.assign file fun file => (file.seek 0).2) := by
      rw [call, createFile, if_pos there, found]
      rfl
    have again : (fs.assign file fun file => (file.seek 0).2).getFile fileName = some file :=
      (getFile_assign file fs fileName (seek_names 0)).trans found
    obtain ⟨path, split, held, member, equal⟩ := (isContainFile_iff fs fileName).mp there
    refine iff_of_true ⟨_, _, returned, ?_, ?_⟩ (by rw [split]; rfl)
    · rw [consistent_iff, names_assign file fs (seek_names 0)]
      exact (consistent_iff fs).mp consistent
    · rintro _ _ ⟨⟩
      refine ⟨file, rfl, (isContainFile_iff _ _).mpr ⟨path, split, ?_⟩, again⟩
      have kept : path ∈ (fs.assign file fun file => (file.seek 0).2)._files.map names := by
        rw [names_assign file fs (seek_names 0), ← equal]
        exact List.mem_map_of_mem member
      obtain ⟨other, otherMember, otherEq⟩ := List.mem_map.mp kept
      exact ⟨other, otherMember, otherEq⟩
  · have returned : fs.call (.createFile fileName address) =
        .ok (some address, ⟨insert (VirtualMemFile.new fileName)._filePath fs._dirs,
          fs._files ++ [(address, VirtualMemFile.new fileName)]⟩) := by
      rw [call, createFile, if_neg there]
      rfl
    cases split : parsed fileName with
    | none =>
      refine iff_of_false ?_ Bool.false_ne_true
      rintro ⟨_, _, returnedEq, _, found⟩
      cases returned.symm.trans returnedEq
      obtain ⟨_, _, contained, _⟩ := found fileName address rfl
      obtain ⟨_, splitEq, _⟩ := (isContainFile_iff _ _).mp contained
      cases split.symm.trans splitEq
    | some path =>
      have new := names_new address split
      have absent : ∀ file ∈ fs._files, names file ≠ path := fun file member equal =>
        there ((isContainFile_iff fs fileName).mpr ⟨path, split, file, member, equal⟩)
      refine iff_of_true ⟨_, _, returned, ?_, ?_⟩ rfl
      · rw [consistent_iff]
        dsimp only
        rw [List.map_append, List.map_singleton, new]
        refine ⟨List.nodup_append.mpr ⟨consistent.apart, List.pairwise_singleton _ _, ?_⟩, ?_⟩
        · intro one oneMember other otherMember equal
          obtain ⟨file, member, fileEq⟩ := List.mem_map.mp oneMember
          exact absent file member (fileEq.trans (equal.trans (List.mem_singleton.mp otherMember)))
        · intro held member
          rcases List.mem_append.mp member with old | last
          · exact Finset.mem_insert_of_mem (((consistent_iff fs).mp consistent).2 held old)
          · rw [List.mem_singleton.mp last, ← new]
            exact Finset.mem_insert_self _ _
      · rintro _ _ ⟨⟩
        refine ⟨address, rfl, (isContainFile_iff _ _).mpr
          ⟨path, split, _, List.mem_append_right _ (List.mem_singleton.mpr rfl), new⟩, ?_⟩
        have none' : fs._files.find? (fun file => decide (names file = path)) = none :=
          List.find?_eq_none.mpr fun file member => by simpa using absent file member
        rw [getFile_of_some split]
        dsimp only
        rw [List.find?_append, none', Option.none_or, List.find?_singleton, if_pos (by simpa using new)]
        rfl

theorem deleteFile_consistent (consistent : Consistent fs) (fileName : Bytes) :
    Consistent (fs.deleteFile fileName).2 := by
  unfold deleteFile
  split
  · exact consistent
  · exact ⟨consistent.apart.sublist (List.eraseP_sublist.map names),
      fun file member => consistent.within file (List.mem_of_mem_eraseP member)⟩

/-- The one file at an address is changed. -/
theorem assign_split (placed : (fs._files.map Prod.fst).Nodup) {file : Nat × VirtualMemFile}
    (member : file ∈ fs._files) (change : VirtualMemFile → VirtualMemFile) :
    ∃ front back, fs._files = front ++ file :: back ∧
      (∀ other ∈ front ++ back, other.1 ≠ file.1) ∧
      (fs.assign file.1 change)._files = front ++ (file.1, change file.2) :: back := by
  obtain ⟨front, back, split⟩ := List.append_of_mem member
  rw [split, List.map_append, List.map_cons, List.nodup_middle, ← List.map_append] at placed
  have elsewhere : ∀ other ∈ front ++ back, other.1 ≠ file.1 := by
    intro other otherMember equal
    exact (List.nodup_cons.mp placed).1 (equal ▸ List.mem_map_of_mem otherMember)
  have kept : ∀ files : List (Nat × VirtualMemFile), (∀ other ∈ files, other ∈ front ++ back) →
      files.map (fun other => if other.1 = file.1 then (other.1, change other.2) else other) =
        files := by
    intro files within
    refine (List.map_congr_left fun other otherMember => ?_).trans (List.map_id files)
    exact if_neg (elsewhere other (within other otherMember))
  refine ⟨front, back, split, elsewhere, ?_⟩
  unfold assign
  dsimp only
  rw [split, List.map_append, List.map_cons, if_pos rfl,
    kept front fun other otherMember => List.mem_append_left _ otherMember,
    kept back fun other otherMember => List.mem_append_right _ otherMember]

/-- A file can be renamed into a directory that is known, to a name that is free there. -/
theorem rename_consistent_iff (consistent : Consistent fs)
    (placed : (fs._files.map Prod.fst).Nodup) {file : Nat × VirtualMemFile}
    (member : file ∈ fs._files) (newName : Bytes) :
    Consistent (fs.assign file.1 fun file => file.rename newName) ↔
      Harmless fs (.rename file.1 newName) := by
  obtain ⟨front, back, split, elsewhere, changed⟩ := assign_split placed member
    fun file => file.rename newName
  have apart := consistent.apart
  rw [split, List.map_append, List.map_cons, List.nodup_middle, ← List.map_append] at apart
  have renamed : names (file.1, file.2.rename newName) =
      (parseFilePath newName file.2._filePath file.2._fileName).2 := rfl
  have others : ∀ other ∈ fs._files, other.1 ≠ file.1 → other ∈ front ++ back := by
    intro other otherMember different
    rw [split, List.mem_append, List.mem_cons] at otherMember
    rcases otherMember with before | equal | after
    · exact List.mem_append_left _ before
    · exact absurd (congrArg Prod.fst equal) different
    · exact List.mem_append_right _ after
  have within : ∀ other ∈ front ++ back, other ∈ fs._files := by
    intro other otherMember
    rw [split]
    exact (List.mem_append.mp otherMember).elim (List.mem_append_left _) fun after =>
      List.mem_append_right _ (List.mem_cons_of_mem _ after)
  rw [consistent_iff, changed, List.map_append, List.map_cons, List.nodup_middle,
    ← List.map_append, renamed]
  constructor
  · rintro ⟨nodup, known⟩ held heldMember same
    have equal : held = file := by
      by_contra different
      rw [split, List.mem_append, List.mem_cons] at heldMember
      rcases heldMember with before | here | after
      · exact elsewhere held (List.mem_append_left _ before) same
      · exact different here
      · exact elsewhere held (List.mem_append_right _ after) same
    rw [equal]
    refine ⟨known _ (List.mem_append_right _ List.mem_cons_self), fun other otherMember different
      taken => ?_⟩
    exact (List.nodup_cons.mp nodup).1
      (taken ▸ List.mem_map_of_mem (others other otherMember different))
  · intro harmless
    obtain ⟨known, free⟩ := harmless file member rfl
    refine ⟨List.nodup_cons.mpr ⟨fun taken => ?_, (List.nodup_cons.mp apart).2⟩,
      fun path pathMember => ?_⟩
    · obtain ⟨other, otherMember, equal⟩ := List.mem_map.mp taken
      exact free other (within other otherMember) (elsewhere other otherMember) equal
    · rw [List.mem_append, List.mem_cons] at pathMember
      rcases pathMember with before | equal | after
      · obtain ⟨other, otherMember, rfl⟩ := List.mem_map.mp before
        exact consistent.within other (within other (List.mem_append_left _ otherMember))
      · rw [equal]
        exact known
      · obtain ⟨other, otherMember, rfl⟩ := List.mem_map.mp after
        exact consistent.within other (within other (List.mem_append_right _ otherMember))

/-! ### Runs -/

/-- A consistent file system whose files have addresses of their own. -/
structure Kept (fs : VirtualMemFileSystem) : Prop where
  consistent : Consistent fs
  placed : (fs._files.map Prod.fst).Nodup

theorem rename_returned {address : Nat} (newName : Bytes)
    (placed : ∃ file ∈ fs._files, file.1 = address) :
    fs.call (.rename address newName) =
      .ok (none, fs.assign address fun file => file.rename newName) := by
  obtain ⟨file, member, equal⟩ := placed
  have found : ∃ held, fs.deref address = .ok held := by
    unfold deref
    cases search : fs._files.find? fun file => file.1 = address with
    | none => exact absurd (decide_eq_true equal) (List.find?_eq_none.mp search file member)
    | some held => exact ⟨held.2, rfl⟩
  obtain ⟨held, heldEq⟩ := found
  rw [call, VirtualMemFileSystem.rename, heldEq]
  rfl

theorem sound_iff_harmless (kept : Kept fs) (fileCall : FileCall) (placed : Placed fs fileCall) :
    Sound fs fileCall ↔ Harmless fs fileCall := by
  have consistent := kept.consistent
  cases fileCall with
  | createDir dirName =>
    rw [sound_iff rfl fun _ _ equal => by cases equal]
    exact iff_of_true (createDir_consistent consistent dirName) trivial
  | deleteDir dirName =>
    rw [sound_iff rfl fun _ _ equal => by cases equal]
    exact deleteDir_consistent_iff consistent dirName
  | renameDir originDirName newDirName =>
    rw [sound_iff rfl fun _ _ equal => by cases equal]
    exact renameDir_consistent_iff consistent originDirName newDirName
  | createFile fileName address => exact createFile_sound_iff consistent fileName address
  | deleteFile fileName =>
    rw [sound_iff rfl fun _ _ equal => by cases equal]
    exact iff_of_true (deleteFile_consistent consistent fileName) trivial
  | rename address newName =>
    rw [sound_iff (rename_returned newName placed) fun _ _ equal => by cases equal]
    obtain ⟨file, member, rfl⟩ := placed
    exact rename_consistent_iff consistent kept.placed member newName

/-- Addresses stay apart, whatever a call does. -/
theorem placed_call {after : VirtualMemFileSystem} {reply : Option Nat}
    (nodup : (fs._files.map Prod.fst).Nodup) (fileCall : FileCall) (placed : Placed fs fileCall)
    (returned : fs.call fileCall = .ok (reply, after)) : (after._files.map Prod.fst).Nodup := by
  cases fileCall with
  | createDir dirName =>
    cases returned
    unfold createDir
    split
    · exact nodup
    · split <;> exact nodup
  | deleteDir dirName =>
    cases returned
    unfold deleteDir
    split
    · exact nodup
    · dsimp only
      split <;> exact nodup.sublist (List.filter_sublist.map Prod.fst)
  | renameDir originDirName newDirName =>
    cases returned
    unfold renameDir
    split
    · exact nodup
    · split
      · split <;> exact nodup
      · exact nodup
  | createFile fileName address =>
    obtain ⟨⟨file, next⟩, created, equal⟩ := (bind_eq_ok _ _ _).mp returned
    cases equal
    unfold createFile at created
    split at created
    · split at created
      · cases created
      · cases created
        rw [addresses_assign]
        exact nodup
    · cases created
      dsimp only
      rw [List.map_append, List.map_singleton]
      refine List.nodup_append.mpr ⟨nodup, List.pairwise_singleton _ _, ?_⟩
      intro one oneMember other otherMember same
      obtain ⟨file, member, rfl⟩ := List.mem_map.mp oneMember
      exact placed file member (same.trans (List.mem_singleton.mp otherMember))
  | deleteFile fileName =>
    cases returned
    unfold deleteFile
    split
    · exact nodup
    · exact nodup.sublist (List.eraseP_sublist.map Prod.fst)
  | rename address newName =>
    rw [rename_returned newName placed] at returned
    cases returned
    rw [addresses_assign]
    exact nodup

/-- Every call of a run is sound exactly when every call meets its condition. -/
theorem files_sound_iff (calls : List FileCall) (placed : Along call Placed .empty calls) :
    Along call Sound .empty calls ↔ Along call Harmless .empty calls := by
  have start : Kept .empty := ⟨⟨List.nodup_nil, fun _ member => absurd member List.not_mem_nil⟩,
    List.nodup_nil⟩
  refine along_iff Kept (fun fs call kept placed => sound_iff_harmless kept call placed)
    (fun fs call reply after kept placed harmless returned => ?_) calls start placed
  obtain ⟨_, _, returnedEq, consistent, _⟩ := (sound_iff_harmless kept call placed).mpr harmless
  cases returned.symm.trans returnedEq
  exact ⟨consistent, placed_call kept.placed call placed returned⟩

theorem files_sound_iff_once :
    Along call Sound .empty [.createFile [47, 97, 47, 120] 0, .deleteDir [47, 97, 47]] ↔
      Along call Harmless .empty [.createFile [47, 97, 47, 120] 0, .deleteDir [47, 97, 47]] :=
  files_sound_iff _ ⟨fun _ member => absurd member List.not_mem_nil,
    fun _ _ _ => ⟨trivial, fun _ _ _ => trivial⟩⟩

/-- The file `/a/x`. -/
def fileX : VirtualMemFile := .new [47, 97, 47, 120]

/-- With the directory deleted as `/a`, the file stays and its directory goes. -/
theorem files_not_sound :
    runAll call .empty [.createFile [47, 97, 47, 120] 0, .deleteDir [47, 97]] =
        .ok ([some 0, none], ⟨∅, [(0, fileX)]⟩) ∧
      ¬ Consistent ⟨∅, [(0, fileX)]⟩ := by
  refine ⟨rfl, fun consistent => ?_⟩
  exact Finset.notMem_empty _ (consistent.within (0, fileX) (List.mem_singleton.mpr rfl))

end LevelDBLib.Navi
