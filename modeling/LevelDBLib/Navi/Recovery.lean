/-
This file models `Recover`, the part of opening a database that takes up the files of its last
incarnation. It reads the descriptor, looks through the directory, and replays the logs that are
newer. The tables that the descriptor lists are not looked for: two fixed numbers are, and any file
that is read as one of them will do. The logs are replayed in the order of their names, which is
that of their numbers as long as these have as many digits.
-/

import LevelDBLib.Navi.Destroy
import LevelDBLib.Library.Replays

namespace LevelDBLib.Navi

open KvDB Decimals PathParser Logging Filename Paths Replays

/-! ### The environment -/

namespace Disk

variable {disk : Disk} {dir path child : Bytes} {entries : List Bytes}

theorem childOf_eq_some_iff : childOf dir path = some child ↔
    path = dir ++ child ∧ child ≠ [] ∧ slash ∉ child := by
  unfold childOf
  rw [Option.ite_none_right_eq_some, Option.some_inj, List.isPrefixOf_iff_prefix]
  constructor
  · rintro ⟨⟨⟨rest, rfl⟩, nonempty, plain⟩, rfl⟩
    rw [List.drop_left] at nonempty plain ⊢
    exact ⟨rfl, nonempty, plain⟩
  · rintro ⟨rfl, nonempty, plain⟩
    rw [List.drop_left]
    exact ⟨⟨List.prefix_append _ _, nonempty, plain⟩, rfl⟩

/-- What lies in a directory is listed. -/
theorem mem_readdir (listing : disk.readdir dir = some entries)
    (member : dirPlace dir ++ child ∈ disk.files ++ disk.dirs.map List.dropLast)
    (nonempty : child ≠ []) (plain : slash ∉ child) : child ∈ entries := by
  unfold readdir at listing
  split at listing
  · cases listing
    exact List.mem_cons_of_mem _ (List.mem_cons_of_mem _ (List.mem_filterMap.mpr
      ⟨_, member, childOf_eq_some_iff.mpr ⟨rfl, nonempty, plain⟩⟩))
  · cases listing

theorem plain_of_readdir (listing : disk.readdir dir = some entries) (member : child ∈ entries) :
    slash ∉ child := by
  unfold readdir at listing
  split at listing
  · cases listing
    rcases List.mem_cons.mp member with rfl | member
    · decide
    · rcases List.mem_cons.mp member with rfl | member
      · decide
      · obtain ⟨path, _, found⟩ := List.mem_filterMap.mp member
        exact (childOf_eq_some_iff.mp found).2.2
  · cases listing

/-- The place of a name behind a directory. -/
theorem place_append (dirBytes : 0 ∉ dir) (bytes : 0 ∉ child) (plain : slash ∉ child) :
    place (dir ++ child) = squeeze dir ++ child := by
  have whole : 0 ∉ dir ++ child := fun zero => (List.mem_append.mp zero).elim dirBytes bytes
  rw [place, cstr_of_not_mem whole, squeeze_append _ _ plain]

theorem dirPlace_eq (dirBytes : 0 ∉ dir) (ends : dir.getLast? = some slash) :
    dirPlace dir = squeeze dir := by
  rw [dirPlace, cstr_of_not_mem dirBytes, squeeze_ends dir ends]

/-- A file that was opened for writing is there, and so are the others. -/
theorem mem_creat {after : Disk} (opened : disk.creat path = some after) :
    place path ∈ after.files ∧ after.dirs = disk.dirs ∧ ∀ file ∈ disk.files, file ∈ after.files := by
  unfold creat at opened
  split at opened
  · rename_i here
    cases opened
    exact ⟨here, rfl, fun file listed => listed⟩
  · split at opened
    · cases opened
    · cases opened
      exact ⟨List.mem_cons_self, rfl, fun file listed => List.mem_cons_of_mem _ listed⟩

end Disk

namespace LockingEnv

def FileExists (env : LockingEnv) (fname : Bytes) : Bool := env.disk.access fname

def CreateDir (env : LockingEnv) (name : Bytes) : Status × LockingEnv :=
  match env.disk.mkdir name with
  | none => (.IOError name env.strerror, env)
  | some disk => (.OK, { env with disk := disk })

end LockingEnv

/-! ### Recovering -/

/-- What the descriptor says: the live tables, and the logs that belong to it. -/
structure VersionSet where
  live : List (BitVec 64)
  LogNumber : Nat
  PrevLogNumber : Nat

/-- `number >= min_log || number == prev_log`. -/
def VersionSet.newer (versions : VersionSet) (number : Nat) : Bool :=
  number ≥ versions.LogNumber || number = versions.PrevLogNumber

/-- The database that is opened. `written` is what writing a first descriptor comes to, and
`versions_` what reading the descriptor does. -/
structure DBImpl where
  create_if_missing : Bool
  error_if_exists : Bool
  dbpath_ : Bytes
  dbname_ : Bytes
  written : Status
  versions_ : LockingEnv → Except Status VersionSet

/-- The answer, the logs that were replayed, each with `last_log`, and what is left. -/
structure Recovered where
  status : Status
  replayed : List (Bytes × Bool)
  env : LockingEnv

namespace DBImpl

def descriptor (db : DBImpl) : Bytes := DescriptorFileName db.dbpath_ db.dbname_ 1#64

def NewDB (db : DBImpl) (env : LockingEnv) : Status × LockingEnv :=
  match env.disk.creat db.descriptor with
  | none => (.IOError db.descriptor env.strerror, env)
  | some disk =>
    if db.written.ok then (.OK, { env with disk := disk })
    else (db.written, (LockingEnv.DeleteFile { env with disk := disk } db.descriptor).2)

/-- `Recover` up to the descriptor; an error of `CreateDir` is ignored. -/
def prepare (db : DBImpl) (env : LockingEnv) : Except Status VersionSet × LockingEnv :=
  let locked := (env.CreateDir db.dbpath_).2.LockFile (LockFileName db.dbpath_ db.dbname_)
  if locked.1.ok = false then (.error locked.1, locked.2)
  else if locked.2.FileExists db.descriptor = false then
    if db.create_if_missing then
      let created := db.NewDB locked.2
      if created.1.ok then (db.versions_ created.2, created.2) else (.error created.1, created.2)
    else
      (.error (.InvalidArgument db.dbpath_ (text "does not exist (create_if_missing is false)")),
        locked.2)
  else if db.error_if_exists then
    (.error (.InvalidArgument db.dbpath_ (text "exists (error_if_exists is true)")), locked.2)
  else (db.versions_ locked.2, locked.2)

/-- One child: its number is no longer expected, and a newer log is kept. -/
def collectFile (db : DBImpl) (versions : VersionSet) (found : Finset Nat × List Bytes)
    (filename : Bytes) : Finset Nat × List Bytes :=
  match ParseFileName db.dbpath_ filename with
  | none => found
  | some (number, type) =>
    (found.1.erase number,
      if type = .kLogFile ∧ versions.newer number = true then found.2 ++ [filename] else found.2)

/-- The numbers that are still expected, and the logs. -/
def collect (db : DBImpl) (versions : VersionSet) (filenames : List Bytes) :
    Finset Nat × List Bytes :=
  filenames.foldl (db.collectFile versions) ({FILENUMBER_LDB, FILENUMBER_MANIFEST}, [])

/-- `%d missing files; e.g.`; there are at most two. -/
def missing (db : DBImpl) (expected : Finset Nat) : Status :=
  .Corruption (char expected.card :: text " missing files; e.g.")
    (TableFileName db.dbpath_ db.dbname_ (BitVec.ofNat 64 FILENUMBER_LDB))

/-- The loop over the logs, which stops at the first failure. -/
def replay (RecoverLogFile : LockingEnv → Bytes → Bool → Status × LockingEnv) :
    List Bytes → LockingEnv → Recovered
  | [], env => ⟨.OK, [], env⟩
  | log_name :: logs, env =>
    let recovered := RecoverLogFile env log_name logs.isEmpty
    if recovered.1.ok then
      let others := replay RecoverLogFile logs recovered.2
      { others with replayed := (log_name, logs.isEmpty) :: others.replayed }
    else ⟨recovered.1, [(log_name, logs.isEmpty)], recovered.2⟩

def Recover (db : DBImpl) (RecoverLogFile : LockingEnv → Bytes → Bool → Status × LockingEnv)
    (env : LockingEnv) : Recovered :=
  match db.prepare env with
  | (.error status, env) => ⟨status, [], env⟩
  | (.ok versions, env) =>
    let children := env.GetChildren db.dbpath_ db.dbname_
    if children.1.ok = false then ⟨children.1, [], env⟩
    else
      let found := db.collect versions children.2
      if found.1 ≠ ∅ then ⟨db.missing found.1, [], env⟩
      else replay RecoverLogFile (found.2.insertionSort fun first second => first ≤ second) env

/-! ### The directory that is looked through -/

/-- A child is read as a file with this number. -/
def reads (db : DBImpl) (number : Nat) (filename : Bytes) : Bool :=
  (ParseFileName db.dbpath_ filename).any fun parsed => parsed.1 = number

/-- A child is read as a newer log. -/
def isLog (db : DBImpl) (versions : VersionSet) (filename : Bytes) : Bool :=
  (ParseFileName db.dbpath_ filename).any fun parsed =>
    parsed.2 = .kLogFile && versions.newer parsed.1

/-- The children of the directory that begin with the name of the database. -/
def children (db : DBImpl) (env : LockingEnv) : Option (List Bytes) :=
  (env.disk.readdir db.dbpath_).map fun entries => GetChildren entries db.dbname_

variable {db : DBImpl} {versions : VersionSet}

theorem collectFile_eq (found : Finset Nat × List Bytes) (filename : Bytes) :
    db.collectFile versions found filename =
      (found.1.filter fun number => db.reads number filename = false,
        found.2 ++ if db.isLog versions filename then [filename] else []) := by
  unfold collectFile reads isLog
  cases ParseFileName db.dbpath_ filename with
  | none =>
    refine Prod.ext ?_ (List.append_nil found.2).symm
    exact (Finset.filter_true_of_mem fun number _ => rfl).symm
  | some parsed =>
    obtain ⟨number, type⟩ := parsed
    refine Prod.ext (Finset.ext fun other => ?_) ?_
    · simp only [Finset.mem_erase, Finset.mem_filter, Option.any_some, decide_eq_false_iff_not]
      exact ⟨fun kept => ⟨kept.2, fun same => kept.1 same.symm⟩,
        fun kept => ⟨fun same => kept.2 same.symm, kept.1⟩⟩
    · simp only [Option.any_some, Bool.and_eq_true, decide_eq_true_eq]
      split
      · rfl
      · exact (List.append_nil found.2).symm

theorem foldl_collectFile (filenames : List Bytes) (found : Finset Nat × List Bytes) :
    filenames.foldl (db.collectFile versions) found =
      (found.1.filter fun number => ∀ filename ∈ filenames, db.reads number filename = false,
        found.2 ++ filenames.filter (db.isLog versions)) := by
  induction filenames generalizing found with
  | nil =>
    refine Prod.ext ?_ (List.append_nil _).symm
    exact (Finset.filter_true_of_mem fun number _ filename listed =>
      absurd listed List.not_mem_nil).symm
  | cons filename filenames hypothesis =>
    rw [List.foldl_cons, hypothesis, collectFile_eq]
    refine Prod.ext ?_ ?_
    · dsimp only
      rw [Finset.filter_filter]
      simp only [List.forall_mem_cons]
    · dsimp only
      rw [List.append_assoc, List.filter_cons]
      split
      · rfl
      · rfl

/-- A number is still expected when no child is read as it. -/
theorem mem_expected_iff (filenames : List Bytes) (number : Nat) :
    number ∈ (db.collect versions filenames).1 ↔
      (number = FILENUMBER_LDB ∨ number = FILENUMBER_MANIFEST) ∧
        ∀ filename ∈ filenames, db.reads number filename = false := by
  rw [collect, foldl_collectFile, Finset.mem_filter, Finset.mem_insert, Finset.mem_singleton]

theorem logs_eq (filenames : List Bytes) :
    (db.collect versions filenames).2 = filenames.filter (db.isLog versions) := by
  rw [collect, foldl_collectFile, List.nil_append]

/-! ### The ways of a recovery -/

variable {RecoverLogFile : LockingEnv → Bytes → Bool → Status × LockingEnv}
  {env after : LockingEnv} {filenames : List Bytes}

theorem Recover_of_unlisted (prepared : db.prepare env = (.ok versions, after))
    (listing : db.children after = none) :
    (db.Recover RecoverLogFile env).status = .IOError db.dbpath_ after.strerror := by
  rw [children, Option.map_eq_none_iff] at listing
  simp only [Recover, prepared, LockingEnv.GetChildren, listing]
  rfl

theorem Recover_of_missing (prepared : db.prepare env = (.ok versions, after))
    (listing : db.children after = some filenames)
    (expected : (db.collect versions filenames).1 ≠ ∅) :
    (db.Recover RecoverLogFile env).status = db.missing (db.collect versions filenames).1 := by
  obtain ⟨entries, listed, rfl⟩ := Option.map_eq_some_iff.mp listing
  simp only [Recover, prepared, LockingEnv.GetChildren, listed]
  rw [if_neg (by decide), if_pos expected]

theorem Recover_of_found (RecoverLogFile : LockingEnv → Bytes → Bool → Status × LockingEnv)
    (prepared : db.prepare env = (.ok versions, after))
    (listing : db.children after = some filenames)
    (expected : (db.collect versions filenames).1 = ∅) :
    db.Recover RecoverLogFile env = replay RecoverLogFile
      ((filenames.filter (db.isLog versions)).insertionSort fun first second => first ≤ second)
      after := by
  obtain ⟨entries, listed, rfl⟩ := Option.map_eq_some_iff.mp listing
  simp only [Recover, prepared, LockingEnv.GetChildren, listed]
  rw [if_neg (by decide), if_neg (not_not.mpr expected), logs_eq]

/-- The logs are replayed up to the first failure, each marked. -/
theorem replay_marked (RecoverLogFile : LockingEnv → Bytes → Bool → Status × LockingEnv)
    (logs : List Bytes) (env : LockingEnv) :
    (replay RecoverLogFile logs env).replayed <+: marked logs ∧
      ((replay RecoverLogFile logs env).status.ok = true →
        (replay RecoverLogFile logs env).replayed = marked logs) := by
  induction logs generalizing env with
  | nil => exact ⟨List.prefix_refl _, fun _ => rfl⟩
  | cons log_name logs hypothesis =>
    rw [replay, marked]
    dsimp only
    split
    · obtain ⟨before, whole⟩ := hypothesis (RecoverLogFile env log_name logs.isEmpty).2
      exact ⟨List.prefix_cons_inj _ |>.mpr before, fun success => by rw [whole success]⟩
    · rename_i failed
      exact ⟨List.prefix_cons_inj _ |>.mpr (List.nil_prefix), fun success => absurd success failed⟩

/-- Every log is recovered. -/
def succeed (env : LockingEnv) (_log_name : Bytes) (_last_log : Bool) : Status × LockingEnv :=
  (.OK, env)

theorem replay_ok (recovers : ∀ env log_name last_log,
    (RecoverLogFile env log_name last_log).1.ok = true) (logs : List Bytes) (env : LockingEnv) :
    (replay RecoverLogFile logs env).status = .OK := by
  induction logs generalizing env with
  | nil => rfl
  | cons log_name logs hypothesis =>
    rw [replay, if_pos (recovers env log_name logs.isEmpty)]
    exact hypothesis _

/-! ### Tables that are missing -/

/-- The file of a table is there. -/
def Present (db : DBImpl) (env : LockingEnv) (number : BitVec 64) : Prop :=
  Disk.place (TableFileName db.dbpath_ db.dbname_ number) ∈ env.disk.files

/-- Where a live table is missing the answer is a corruption, however the logs fare; where all are
there and every log is recovered it is none. -/
def Detects (db : DBImpl) (env : LockingEnv) : Prop :=
  ∀ versions after, db.prepare env = (.ok versions, after) →
    ((∃ number ∈ versions.live, ¬ db.Present after number) → ∀ RecoverLogFile, ∃ msg msg2,
      (db.Recover RecoverLogFile env).status = .Corruption msg msg2) ∧
    ((∀ number ∈ versions.live, db.Present after number) → ∀ RecoverLogFile,
      (∀ env log_name last_log, (RecoverLogFile env log_name last_log).1.ok = true) →
        ∀ msg msg2, (db.Recover RecoverLogFile env).status ≠ .Corruption msg msg2)

/-- Where a live table is missing, no child is read as number 0, or none as number 1; where all are
there, some child is read as number 0 and some as number 1. -/
def Detectable (db : DBImpl) (env : LockingEnv) : Prop :=
  ∀ versions after, db.prepare env = (.ok versions, after) →
    ((∃ number ∈ versions.live, ¬ db.Present after number) → ∃ filenames,
      db.children after = some filenames ∧
        ((∀ filename ∈ filenames, db.reads FILENUMBER_LDB filename = false) ∨
          ∀ filename ∈ filenames, db.reads FILENUMBER_MANIFEST filename = false)) ∧
    ((∀ number ∈ versions.live, db.Present after number) → ∀ filenames,
      db.children after = some filenames →
        (∃ filename ∈ filenames, db.reads FILENUMBER_LDB filename = true) ∧
          ∃ filename ∈ filenames, db.reads FILENUMBER_MANIFEST filename = true)

theorem expected_ne_empty_iff (filenames : List Bytes) :
    (db.collect versions filenames).1 ≠ ∅ ↔
      (∀ filename ∈ filenames, db.reads FILENUMBER_LDB filename = false) ∨
        ∀ filename ∈ filenames, db.reads FILENUMBER_MANIFEST filename = false := by
  rw [← Finset.nonempty_iff_ne_empty]
  constructor
  · rintro ⟨number, expected⟩
    obtain ⟨rfl | rfl, unread⟩ := (mem_expected_iff filenames number).mp expected
    · exact .inl unread
    · exact .inr unread
  · rintro (unread | unread)
    · exact ⟨FILENUMBER_LDB, (mem_expected_iff _ _).mpr ⟨.inl rfl, unread⟩⟩
    · exact ⟨FILENUMBER_MANIFEST, (mem_expected_iff _ _).mpr ⟨.inr rfl, unread⟩⟩

theorem expected_eq_empty_iff (filenames : List Bytes) :
    (db.collect versions filenames).1 = ∅ ↔
      (∃ filename ∈ filenames, db.reads FILENUMBER_LDB filename = true) ∧
        ∃ filename ∈ filenames, db.reads FILENUMBER_MANIFEST filename = true := by
  rw [← not_iff_not]
  refine (expected_ne_empty_iff filenames).trans ?_
  rw [not_and_or, not_exists, not_exists]
  simp only [not_and, Bool.not_eq_true]

/-- Whatever the logs come to, the answer is a corruption exactly when a number is still expected. -/
theorem corruption_iff (prepared : db.prepare env = (.ok versions, after)) :
    (∀ RecoverLogFile, ∃ msg msg2, (db.Recover RecoverLogFile env).status = .Corruption msg msg2) ↔
      ∃ filenames, db.children after = some filenames ∧
        (db.collect versions filenames).1 ≠ ∅ := by
  constructor
  · intro corrupted
    obtain ⟨msg, msg2, status⟩ := corrupted succeed
    cases listing : db.children after with
    | none =>
      rw [Recover_of_unlisted prepared listing] at status
      cases status
    | some filenames =>
      refine ⟨filenames, rfl, fun found => ?_⟩
      rw [Recover_of_found succeed prepared listing found, replay_ok fun _ _ _ => rfl] at status
      cases status
  · rintro ⟨filenames, listing, expected⟩ RecoverLogFile
    exact ⟨_, _, Recover_of_missing prepared listing expected⟩

/-- Where every log is recovered, the answer is no corruption exactly when nothing is expected. -/
theorem blameless_iff (prepared : db.prepare env = (.ok versions, after)) :
    (∀ RecoverLogFile, (∀ env log_name last_log,
        (RecoverLogFile env log_name last_log).1.ok = true) →
      ∀ msg msg2, (db.Recover RecoverLogFile env).status ≠ .Corruption msg msg2) ↔
      ∀ filenames, db.children after = some filenames →
        (db.collect versions filenames).1 = ∅ := by
  constructor
  · intro blameless filenames listing
    by_contra expected
    exact blameless succeed (fun _ _ _ => rfl) _ _ (Recover_of_missing prepared listing expected)
  · intro found RecoverLogFile recovers msg msg2 status
    cases listing : db.children after with
    | none =>
      rw [Recover_of_unlisted prepared listing] at status
      cases status
    | some filenames =>
      rw [Recover_of_found RecoverLogFile prepared listing (found filenames listing),
        replay_ok recovers] at status
      cases status

/-- Missing tables are detected exactly in the detectable directories. -/
theorem detects_iff (db : DBImpl) (env : LockingEnv) : db.Detects env ↔ db.Detectable env := by
  unfold Detects Detectable
  refine forall_congr' fun versions => forall_congr' fun after => forall_congr' fun prepared => ?_
  refine and_congr (imp_congr_right fun _ => ?_) (imp_congr_right fun _ => ?_)
  · rw [corruption_iff prepared]
    simp only [expected_ne_empty_iff]
  · rw [blameless_iff prepared]
    simp only [expected_eq_empty_iff]

/-- The database `m` in `/d/`, whose descriptor lists its table. -/
def listsTable : DBImpl :=
  ⟨false, false, [47, 100, 47], [109], .OK, fun _ => .ok ⟨[0#64], 0, 0⟩⟩

/-- `/d/`, with the descriptor of `m` and nothing else. -/
def descriptorOnly : LockingEnv :=
  ⟨⟨[[47, 100, 47]], [[47, 100, 47, 109, 46] ++ manifest]⟩, ∅, fun _ => false, []⟩

/-- The database `a.b` in `/d/`, whose descriptor lists its table. -/
def dottedName : DBImpl :=
  ⟨false, false, [47, 100, 47], [97, 46, 98], .OK, fun _ => .ok ⟨[0#64], 0, 0⟩⟩

/-- `/d/`, with the lock file, the descriptor and the table of `a.b`. -/
def allFiles : LockingEnv :=
  ⟨⟨[[47, 100, 47]], [lock, manifest, ldb].map fun extension =>
    [47, 100, 47, 97, 46, 98, 46] ++ extension⟩, ∅, fun _ => false, []⟩

/-- The table is missing, and the database is recovered; and the table is there, and the descriptor,
whose name has two dots, is missed. -/
theorem not_detects :
    (¬ listsTable.Present (listsTable.prepare descriptorOnly).2 0#64 ∧
      (listsTable.Recover succeed descriptorOnly).status = .OK ∧
      ¬ listsTable.Detects descriptorOnly) ∧
    dottedName.Present (dottedName.prepare allFiles).2 0#64 ∧
      (dottedName.Recover succeed allFiles).status = dottedName.missing {FILENUMBER_MANIFEST} := by
  have absent : ¬ listsTable.Present (listsTable.prepare descriptorOnly).2 0#64 := by
    unfold Present
    decide +kernel
  have recovered : (listsTable.Recover succeed descriptorOnly).status = .OK := by decide +kernel
  have present : dottedName.Present (dottedName.prepare allFiles).2 0#64 := by
    unfold Present
    decide +kernel
  have missed : (dottedName.Recover succeed allFiles).status =
      dottedName.missing {FILENUMBER_MANIFEST} := by decide +kernel
  refine ⟨⟨absent, recovered, fun detects => ?_⟩, present, missed⟩
  have prepared : listsTable.prepare descriptorOnly =
      (.ok ⟨[0#64], 0, 0⟩, (listsTable.prepare descriptorOnly).2) := by rfl
  obtain ⟨msg, msg2, status⟩ := (detects _ _ prepared).1 ⟨0#64, List.mem_singleton.mpr rfl, absent⟩
    succeed
  rw [recovered] at status
  cases status

/-! ### Databases with plain names -/

/-- The files of the database lie in its directory, and it finds them there again. -/
structure Listable (db : DBImpl) : Prop where
  path : 0 ∉ db.dbpath_
  ends : db.dbpath_.getLast? = some slash
  name : 0 ∉ db.dbname_
  slashes : slash ∉ db.dbname_

theorem Listable.printed_eq (listable : db.Listable) {extension : Bytes}
    (fits : (db.dbpath_ ++ db.dbname_ ++ extension).length ≤ 1023) :
    printed (printedPath db.dbpath_ db.dbname_ ++ extension) =
      db.dbpath_ ++ (db.dbname_ ++ extension) := by
  rw [printed, printedPath, cstr_of_not_mem listable.path, cstr_of_not_mem listable.name,
    List.take_of_length_le fits, List.append_assoc]

theorem Listable.place_eq (listable : db.Listable) {extension : Bytes}
    (fits : (db.dbpath_ ++ db.dbname_ ++ extension).length ≤ 1023) (bytes : 0 ∉ extension)
    (plain : slash ∉ extension) :
    Disk.place (printed (printedPath db.dbpath_ db.dbname_ ++ extension)) =
      squeeze db.dbpath_ ++ (db.dbname_ ++ extension) := by
  rw [listable.printed_eq fits, Disk.place_append listable.path]
  · exact fun zero => (List.mem_append.mp zero).elim listable.name bytes
  · exact fun inner => (List.mem_append.mp inner).elim listable.slashes plain

/-- A file of the database, or a directory of that name, is among its children. -/
theorem Listable.mem_children (listable : db.Listable) (listing : db.children env = some filenames)
    {extension : Bytes} (fits : (db.dbpath_ ++ db.dbname_ ++ extension).length ≤ 1023)
    (nonempty : extension ≠ []) (bytes : 0 ∉ extension) (plain : slash ∉ extension)
    (here : Disk.place (printed (printedPath db.dbpath_ db.dbname_ ++ extension)) ∈ env.disk.files ∨
      Disk.dirPlace (printed (printedPath db.dbpath_ db.dbname_ ++ extension)) ∈ env.disk.dirs) :
    db.dbname_ ++ extension ∈ filenames := by
  obtain ⟨entries, listed, rfl⟩ := Option.map_eq_some_iff.mp listing
  have more : db.dbname_ ++ extension ≠ [] := List.append_ne_nil_of_right_ne_nil _ nonempty
  have child : slash ∉ db.dbname_ ++ extension :=
    fun inner => (List.mem_append.mp inner).elim listable.slashes plain
  refine List.mem_filter.mpr ⟨Disk.mem_readdir listed ?_ more child, listed_append _ _⟩
  rw [Disk.dirPlace_eq listable.path listable.ends, ← listable.place_eq fits bytes plain]
  rcases here with file | directory
  · exact List.mem_append_left _ file
  · refine List.mem_append_right _ (List.mem_map.mpr ⟨_, directory, ?_⟩)
    have last : (db.dbpath_ ++ (db.dbname_ ++ extension)).getLast? ≠ some slash := by
      rw [List.getLast?_append_of_ne_nil _ more]
      exact fun ends => child (List.mem_of_getLast? ends)
    have whole : 0 ∉ db.dbpath_ ++ (db.dbname_ ++ extension) := fun zero =>
      (List.mem_append.mp zero).elim listable.path fun zero =>
        (List.mem_append.mp zero).elim listable.name bytes
    rw [listable.printed_eq fits, Disk.dirPlace, Disk.place, cstr_of_not_mem whole,
      squeeze_open _ last, List.dropLast_concat]

theorem LockFile_ok {fname : Bytes} (locked : (env.LockFile fname).1.ok = true) :
    Disk.place fname ∈ (env.LockFile fname).2.disk.files := by
  revert locked
  unfold LockingEnv.LockFile
  split
  · exact fun failed => (nomatch failed)
  · rename_i disk opened
    have here := (Disk.mem_creat opened).1
    split
    · exact fun _ => here
    · split
      · exact fun _ => here
      · exact fun _ => here

/-- When the descriptor is read, the lock file and the descriptor are there. -/
theorem prepare_files (prepared : db.prepare env = (.ok versions, after)) :
    Disk.place (LockFileName db.dbpath_ db.dbname_) ∈ after.disk.files ∧
      (Disk.place db.descriptor ∈ after.disk.files ∨ Disk.dirPlace db.descriptor ∈ after.disk.dirs) := by
  unfold prepare at prepared
  dsimp only at prepared
  split at prepared
  · cases prepared
  · rename_i locked
    have here := LockFile_ok (Bool.of_not_eq_false locked)
    split at prepared
    · split at prepared
      · split at prepared
        · rename_i created
          obtain rfl := congrArg Prod.snd prepared
          revert created
          unfold NewDB
          split
          · exact fun failed => (nomatch failed)
          · rename_i disk opened
            obtain ⟨descriptor, _, others⟩ := Disk.mem_creat opened
            split
            · exact fun _ => ⟨others _ here, .inl descriptor⟩
            · rename_i failed
              exact fun written => absurd written failed
        · cases prepared
      · cases prepared
    · rename_i found
      split at prepared
      · cases prepared
      · obtain rfl := congrArg Prod.snd prepared
        exact ⟨here, (of_decide_eq_true (Bool.of_not_eq_false found)).2⟩

/-- The lock file is read as number 0, and the descriptor as number 1. -/
theorem Listable.reads (listable : db.Listable) (dots : dot ∉ db.dbname_) (nonempty : db.dbname_ ≠ [])
    (fits : (db.dbpath_ ++ db.dbname_ ++ dot :: manifest).length ≤ 1023)
    (prepared : db.prepare env = (.ok versions, after))
    (listing : db.children after = some filenames) :
    (∃ filename ∈ filenames, db.reads FILENUMBER_LDB filename = true) ∧
      ∃ filename ∈ filenames, db.reads FILENUMBER_MANIFEST filename = true := by
  obtain ⟨locked, descriptor⟩ := prepare_files prepared
  have fitsLock : (db.dbpath_ ++ db.dbname_ ++ dot :: lock).length ≤ 1023 := by
    rw [List.length_append] at fits ⊢
    exact Nat.le_trans (Nat.add_le_add_left (by decide) _) fits
  constructor
  · refine ⟨_, listable.mem_children listing fitsLock (List.cons_ne_nil _ _) (by decide) (by decide)
      (.inl locked), ?_⟩
    rw [DBImpl.reads, (ParseFileName_iff _ _ _ _).mpr (.lock db.dbname_ nonempty)]
    rfl
  · refine ⟨_, listable.mem_children listing fits (List.cons_ne_nil _ _) (by decide) (by decide)
      descriptor, ?_⟩
    rw [DBImpl.reads, (ParseFileName_iff _ _ _ _).mpr (.manifest db.dbname_ nonempty dots)]
    rfl

/-- A database with a plain name never misses a table: it is right only where all are there. -/
theorem Listable.detects_iff_all (listable : db.Listable) (dots : dot ∉ db.dbname_)
    (nonempty : db.dbname_ ≠ [])
    (fits : (db.dbpath_ ++ db.dbname_ ++ dot :: manifest).length ≤ 1023) :
    db.Detects env ↔ ∀ versions after, db.prepare env = (.ok versions, after) →
      ∀ number ∈ versions.live, db.Present after number := by
  unfold Detects
  refine forall_congr' fun versions => forall_congr' fun after => forall_congr' fun prepared => ?_
  constructor
  · intro detects number live
    by_contra absent
    obtain ⟨filenames, listing, expected⟩ :=
      (corruption_iff prepared).mp (detects.1 ⟨number, live, absent⟩)
    obtain ⟨⟨first, listedFirst, table⟩, second, listedSecond, descriptor⟩ :=
      listable.reads dots nonempty fits prepared listing
    rcases (expected_ne_empty_iff filenames).mp expected with unread | unread
    · cases (unread first listedFirst).symm.trans table
    · cases (unread second listedSecond).symm.trans descriptor
  · intro all
    refine ⟨fun ⟨number, live, absent⟩ => absurd (all number live) absent,
      fun _ => (blameless_iff prepared).mpr fun filenames listing => ?_⟩
    exact (expected_eq_empty_iff filenames).mpr
      (listable.reads dots nonempty fits prepared listing)

end DBImpl

end LevelDBLib.Navi
