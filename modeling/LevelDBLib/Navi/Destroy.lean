/-
This file models what becomes of a database that is destroyed. `destory` asks for an open
database and hands its name to `DestroyDB`, which wants the lock that the open database holds.
Over whole runs of several objects, the lock of every open database stands in the table of the
process; so a database is destroyed exactly when there is nothing to destroy.
-/

import LevelDBLib.Navi.LevelDB
import LevelDBLib.Navi.Paths
import LevelDBLib.Library.Runs
import Mathlib.Data.Finset.Insert
import Mathlib.Data.Finset.Erase

namespace LevelDBLib.Navi

open KvDB PathParser Logging Filename Paths Runs

/-! ### Files -/

/-- Directories, each with a slash at its end, and files, in the spelling without repeated slashes. -/
structure Disk where
  dirs : List Bytes
  files : List Bytes
deriving DecidableEq, Repr

namespace Disk

/-- The file that the system finds under a path. -/
def place (path : Bytes) : Bytes := squeeze (cstr path)

/-- The directory that the system finds under a path. -/
def dirPlace (path : Bytes) : Bytes := squeeze (cstr path ++ [slash])

/-- The name under which a directory lists a path. -/
def childOf (dir path : Bytes) : Option Bytes :=
  if dir.isPrefixOf path = true ∧ path.drop dir.length ≠ [] ∧ slash ∉ path.drop dir.length then
    some (path.drop dir.length)
  else none

def readdir (disk : Disk) (dir : Bytes) : Option (List Bytes) :=
  if cstr dir ≠ [] ∧ dirPlace dir ∈ disk.dirs then
    some ([46] :: [46, 46] ::
      (disk.files ++ disk.dirs.map List.dropLast).filterMap (childOf (dirPlace dir)))
  else none

def unlink (disk : Disk) (path : Bytes) : Option Disk :=
  if place path ∈ disk.files then
    some { disk with files := disk.files.filter fun file => file ≠ place path }
  else none

/-- The directory of a path exists; without a slash it is the working directory. -/
def hasParent (disk : Disk) (path : Bytes) : Bool :=
  match find_last_of slash (place path) with
  | none => true
  | some lastSep => (place path).take (lastSep + 1) ∈ disk.dirs

/-- `open` with `O_CREAT`. -/
def creat (disk : Disk) (path : Bytes) : Option Disk :=
  if place path ∈ disk.files then some disk
  else if place path = [] ∨ dirPlace path ∈ disk.dirs ∨ (place path).getLast? = some slash ∨
      disk.hasParent path = false then none
  else some { disk with files := place path :: disk.files }

/-- `access`, for a file or a directory. -/
def access (disk : Disk) (path : Bytes) : Bool :=
  cstr path ≠ [] ∧ (place path ∈ disk.files ∨ dirPlace path ∈ disk.dirs)

def mkdir (disk : Disk) (path : Bytes) : Option Disk :=
  if (dirPlace path).dropLast = [] ∨ dirPlace path ∈ disk.dirs ∨
      (dirPlace path).dropLast ∈ disk.files ∨ disk.hasParent (dirPlace path).dropLast = false then none
  else some { disk with dirs := dirPlace path :: disk.dirs }

def rmdir (disk : Disk) (path : Bytes) : Option Disk :=
  if disk.readdir path = some [[46], [46, 46]] then
    some { disk with dirs := disk.dirs.filter fun dir => dir ≠ dirPlace path }
  else none

end Disk

/-! ### The environment -/

/-- `PosixEnv` with the names that the process has locked; `foreign` are the files that another
process holds a lock on, and `strerror` is the text of the last failure of the system. -/
structure LockingEnv where
  disk : Disk
  locked_files_ : Finset Bytes
  foreign : Bytes → Bool
  strerror : Bytes

namespace LockingEnv

def GetChildren (env : LockingEnv) (dir dbname : Bytes) : Status × List Bytes :=
  match env.disk.readdir dir with
  | none => (.IOError dir env.strerror, [])
  | some entries => (.OK, Paths.GetChildren entries dbname)

def DeleteFile (env : LockingEnv) (fname : Bytes) : Status × LockingEnv :=
  match env.disk.unlink fname with
  | none => (.IOError fname env.strerror, env)
  | some disk => (.OK, { env with disk := disk })

def DeleteDir (env : LockingEnv) (name : Bytes) : Status × LockingEnv :=
  match env.disk.rmdir name with
  | none => (.IOError name env.strerror, env)
  | some disk => (.OK, { env with disk := disk })

/-- `LockFile`, which opens the file before it looks into the table. -/
def LockFile (env : LockingEnv) (fname : Bytes) : Status × LockingEnv :=
  match env.disk.creat fname with
  | none => (.IOError fname env.strerror, env)
  | some disk =>
    if fname ∈ env.locked_files_ then
      (.IOError (text "lock " ++ fname) (text "already held by process"), { env with disk := disk })
    else if env.foreign (Disk.place fname) then
      (.IOError (text "lock " ++ fname) env.strerror, { env with disk := disk })
    else (.OK, { env with disk := disk, locked_files_ := insert fname env.locked_files_ })

def UnlockFile (env : LockingEnv) (fname : Bytes) : LockingEnv :=
  { env with locked_files_ := env.locked_files_.erase fname }

/-! ### Destroying -/

/-- One file of the loop of `DestroyDB`. -/
def destroyFile (dbpath dbname : Bytes) (result : Status × LockingEnv) (filename : Bytes) :
    Status × LockingEnv :=
  match ParseFileName dbpath filename with
  | none => result
  | some (_, type) =>
    if type ≠ .kDBLockFile then
      let del := result.2.DeleteFile (dbname ++ slash :: filename)
      (if result.1.ok && !del.1.ok then del.1 else result.1, del.2)
    else result

def DestroyDB (env : LockingEnv) (dbpath dbname : Bytes) : Status × LockingEnv :=
  let filenames := (env.GetChildren dbpath dbname).2
  if filenames = [] then (.OK, env)
  else
    let locked := env.LockFile (LockFileName dbpath dbname)
    if locked.1.ok then
      let deleted := filenames.foldl (destroyFile dbpath dbname) locked
      let unlocked := deleted.2.UnlockFile (LockFileName dbpath dbname)
      let lockDeleted := (unlocked.DeleteFile (LockFileName dbpath dbname)).2
      (deleted.1, (lockDeleted.DeleteDir dbname).2)
    else locked

/-- `DB::Open`, as far as the lock goes; `rest` is what all of it behind the lock comes to. -/
def Open (env : LockingEnv) (dbpath dbname : Bytes) (read_only write_only : Bool) (rest : Status) :
    Status × LockingEnv :=
  if read_only && write_only then
    (.InvalidArgument (text "can not read_only mode both write_only mode") [], env)
  else
    let locked := env.LockFile (LockFileName dbpath dbname)
    if locked.1.ok = false then locked
    else if rest.ok then (rest, locked.2)
    else (rest, locked.2.UnlockFile (LockFileName dbpath dbname))

end LockingEnv

/-! ### Runs -/

/-- The objects of a process. -/
structure Process where
  env : LockingEnv
  objects : Nat → LevelDB

inductive Action where
  | openNamed (i : Nat) (dbPath dbName : Bytes) (readOnly writeOnly : Bool) (rest : Status)
  | close (i : Nat)
  | destory (i : Nat)
  /-- The databases, or other programs, leave the files like this. -/
  | files (disk : Disk)

namespace Process

def start (env : LockingEnv) : Process :=
  ⟨{ env with locked_files_ := ∅ }, fun _ => .new⟩

def put (process : Process) (i : Nat) (object : LevelDB) (env : LockingEnv) : Process :=
  ⟨env, Function.update process.objects i object⟩

def openNamed (process : Process) (i : Nat) (dbPath dbName : Bytes) (readOnly writeOnly : Bool)
    (rest : Status) : Status × Process :=
  if (process.objects i).isOpen then (.OK, process)
  else
    let opened := process.env.Open dbPath dbName readOnly writeOnly rest
    let object := (process.objects i).openNamed dbPath dbName readOnly writeOnly opened.1
    (object.1, process.put i object.2 opened.2)

/-- `close`; the destructor of the database unlocks its file. -/
def close (process : Process) (i : Nat) : Process :=
  match (process.objects i).db with
  | none => process
  | some db => process.put i (process.objects i).close
      (process.env.UnlockFile (LockFileName db.dbPath db.dbName))

/-- `destory` of the object. -/
def destory (process : Process) (i : Nat) : Status × Process :=
  match (process.objects i).db with
  | none => (.IOError (text "database is not open") [], process)
  | some _ =>
    let destroyed := process.env.DestroyDB (process.objects i).dbPath (process.objects i).dbName
    (destroyed.1, process.put i { process.objects i with batch := [] } destroyed.2)

def step (process : Process) : Action → Except Fault (Status × Process)
  | .openNamed i dbPath dbName readOnly writeOnly rest =>
    .ok (process.openNamed i dbPath dbName readOnly writeOnly rest)
  | .close i => .ok (.OK, process.close i)
  | .destory i => .ok (process.destory i)
  | .files disk => .ok (.OK, { process with env := { process.env with disk := disk } })

/-! ### What destroying should do -/

/-- The file is one of the database: a log, a table, the descriptor, the lock or the info log. -/
def Own (dbPath dbName file : Bytes) : Prop :=
  ∃ kind ∈ [Kind.log, .table, .descriptor, .lock, .infoLog], ∃ number created,
    kind.fileName dbPath dbName number = .ok created ∧ Disk.place created = file

/-- The call succeeds, no file of the database remains, and every other file does. -/
def Destroys (process : Process) (i : Nat) : Prop :=
  (process.destory i).1 = .OK ∧
    ∀ file, file ∈ (process.destory i).2.env.disk.files ↔
      file ∈ process.env.disk.files ∧ ¬ Own (process.objects i).dbPath (process.objects i).dbName file

/-- No entry of the directory begins with the name of the database, and it has no file elsewhere. -/
def Nothing (process : Process) (i : Nat) : Prop :=
  (process.env.GetChildren (process.objects i).dbPath (process.objects i).dbName).2 = [] ∧
    ∀ file ∈ process.env.disk.files, ¬ Own (process.objects i).dbPath (process.objects i).dbName file

/-- Every open database is the one its object names and holds its lock, and no two hold the same. -/
structure Held (process : Process) : Prop where
  named : ∀ i db, (process.objects i).db = some db →
    (process.objects i).dbPath = db.dbPath ∧ (process.objects i).dbName = db.dbName
  locked : ∀ i db, (process.objects i).db = some db →
    LockFileName db.dbPath db.dbName ∈ process.env.locked_files_
  apart : ∀ i j db other, (process.objects i).db = some db → (process.objects j).db = some other →
    i ≠ j → LockFileName db.dbPath db.dbName ≠ LockFileName other.dbPath other.dbName

end Process

/-! ### The table of locks -/

namespace LockingEnv

/-- A lock is taken when its name is not in the table; else the table stays as it is. -/
theorem LockFile_cases (env : LockingEnv) (fname : Bytes) :
    ((env.LockFile fname).1.ok = false ∧
        (env.LockFile fname).2.locked_files_ = env.locked_files_) ∨
      ((env.LockFile fname).1.ok = true ∧ fname ∉ env.locked_files_ ∧
        (env.LockFile fname).2.locked_files_ = insert fname env.locked_files_) := by
  unfold LockFile
  split
  · exact .inl ⟨rfl, rfl⟩
  · split
    · exact .inl ⟨rfl, rfl⟩
    · rename_i free
      split
      · exact .inl ⟨rfl, rfl⟩
      · exact .inr ⟨rfl, free, rfl⟩

theorem LockFile_held (env : LockingEnv) {fname : Bytes} (held : fname ∈ env.locked_files_) :
    (env.LockFile fname).1.ok = false ∧
      (env.LockFile fname).2.locked_files_ = env.locked_files_ :=
  (LockFile_cases env fname).resolve_right fun taken => taken.2.1 held

theorem Open_cases (env : LockingEnv) (dbpath dbname : Bytes) (read_only write_only : Bool)
    (rest : Status) :
    ((env.Open dbpath dbname read_only write_only rest).1.ok = false ∧
        (env.Open dbpath dbname read_only write_only rest).2.locked_files_ = env.locked_files_) ∨
      ((env.Open dbpath dbname read_only write_only rest).1.ok = true ∧
        LockFileName dbpath dbname ∉ env.locked_files_ ∧
        (env.Open dbpath dbname read_only write_only rest).2.locked_files_ =
          insert (LockFileName dbpath dbname) env.locked_files_) := by
  unfold Open
  split
  · exact .inl ⟨rfl, rfl⟩
  · dsimp only
    rcases LockFile_cases env (LockFileName dbpath dbname) with ⟨failed, same⟩ | ⟨ok, free, taken⟩
    · rw [if_pos failed]
      exact .inl ⟨failed, same⟩
    · rw [if_neg (by rw [ok]; exact Bool.noConfusion)]
      cases success : rest.ok with
      | true => exact .inr ⟨by rw [if_pos rfl]; exact success, free, by rw [if_pos rfl]; exact taken⟩
      | false =>
        rw [if_neg Bool.false_ne_true]
        refine .inl ⟨success, ?_⟩
        show (env.LockFile (LockFileName dbpath dbname)).2.locked_files_.erase _ = _
        rw [taken, Finset.erase_insert free]

/-- A database whose lock is held is destroyed only where it has no child. -/
theorem DestroyDB_held (env : LockingEnv) {dbpath dbname : Bytes}
    (held : LockFileName dbpath dbname ∈ env.locked_files_) :
    (env.DestroyDB dbpath dbname).2.locked_files_ = env.locked_files_ ∧
      (((env.GetChildren dbpath dbname).2 = [] ∧ env.DestroyDB dbpath dbname = (.OK, env)) ∨
        ((env.GetChildren dbpath dbname).2 ≠ [] ∧ (env.DestroyDB dbpath dbname).1.ok = false)) := by
  unfold DestroyDB
  dsimp only
  by_cases none : (env.GetChildren dbpath dbname).2 = []
  · rw [if_pos none]
    exact ⟨rfl, .inl ⟨none, rfl⟩⟩
  · obtain ⟨failed, same⟩ := LockFile_held env held
    rw [if_neg none, if_neg (by rw [failed]; exact Bool.false_ne_true)]
    exact ⟨same, .inr ⟨none, failed⟩⟩

end LockingEnv

/-! ### Objects and their locks -/

namespace Process

variable {process : Process}

/-- An object that is put into the process, where the others keep their locks. -/
theorem Held.put (held : Held process) (i : Nat) (object : LevelDB) (env : LockingEnv)
    (named : ∀ db, object.db = some db → object.dbPath = db.dbPath ∧ object.dbName = db.dbName)
    (locked : ∀ db, object.db = some db → LockFileName db.dbPath db.dbName ∈ env.locked_files_)
    (fresh : ∀ db j other, object.db = some db → (process.objects j).db = some other → j ≠ i →
      LockFileName db.dbPath db.dbName ≠ LockFileName other.dbPath other.dbName)
    (others : ∀ j db, (process.objects j).db = some db → j ≠ i →
      LockFileName db.dbPath db.dbName ∈ env.locked_files_) : Held (process.put i object env) := by
  have here : (process.put i object env).objects i = object := Function.update_self ..
  have there : ∀ j, j ≠ i → (process.put i object env).objects j = process.objects j :=
    fun j apart => Function.update_of_ne apart ..
  refine ⟨fun j db opened => ?_, fun j db opened => ?_, fun j k db other opened openedOther apart => ?_⟩
  · by_cases same : j = i
    · rw [same, here] at opened ⊢
      exact named db opened
    · rw [there j same] at opened ⊢
      exact held.named j db opened
  · by_cases same : j = i
    · rw [same, here] at opened
      exact locked db opened
    · rw [there j same] at opened
      exact others j db opened same
  · by_cases first : j = i
    · have second : k ≠ i := fun same => apart (first.trans same.symm)
      rw [first, here] at opened
      rw [there k second] at openedOther
      exact fresh db k other opened openedOther second
    · rw [there j first] at opened
      by_cases second : k = i
      · rw [second, here] at openedOther
        exact (fresh other j db openedOther opened first).symm
      · rw [there k second] at openedOther
        exact held.apart j k db other opened openedOther apart

theorem held_start (env : LockingEnv) : Held (start env) :=
  ⟨fun _ _ opened => (nomatch opened), fun _ _ opened => (nomatch opened),
    fun _ _ _ _ opened => (nomatch opened)⟩

theorem held_openNamed (held : Held process) (i : Nat) (dbPath dbName : Bytes)
    (readOnly writeOnly : Bool) (rest : Status) :
    Held (process.openNamed i dbPath dbName readOnly writeOnly rest).2 := by
  unfold openNamed
  split
  · exact held
  · rename_i closed
    dsimp only
    have object : (process.objects i).openNamed dbPath dbName readOnly writeOnly
        (process.env.Open dbPath dbName readOnly writeOnly rest).1 =
      if (process.env.Open dbPath dbName readOnly writeOnly rest).1.ok then
        ((process.env.Open dbPath dbName readOnly writeOnly rest).1,
          { process.objects i with db := some ⟨dbPath, dbName, readOnly, writeOnly⟩,
                                   dbPath := dbPath, dbName := dbName })
      else ((process.env.Open dbPath dbName readOnly writeOnly rest).1,
        { process.objects i with db := none }) := if_neg closed
    rw [object]
    rcases process.env.Open_cases dbPath dbName readOnly writeOnly rest with
      ⟨failed, same⟩ | ⟨ok, free, taken⟩
    · rw [if_neg (by rw [failed]; exact Bool.false_ne_true)]
      refine held.put i _ _ (fun db opened => by cases opened) (fun db opened => by cases opened)
        (fun db j other opened => by cases opened) fun j db opened _ => ?_
      rw [same]
      exact held.locked j db opened
    · rw [if_pos ok]
      refine held.put i _ _ (fun db opened => ?_) (fun db opened => ?_)
        (fun db j other opened openedOther _ => ?_) fun j db opened _ => ?_
      · cases opened
        exact ⟨rfl, rfl⟩
      · cases opened
        rw [taken]
        exact Finset.mem_insert_self _ _
      · cases opened
        exact fun same => free (same ▸ held.locked j other openedOther)
      · rw [taken]
        exact Finset.mem_insert_of_mem (held.locked j db opened)

theorem held_close (held : Held process) (i : Nat) : Held (process.close i) := by
  unfold close
  split
  · exact held
  · rename_i db opened
    have closed : (process.objects i).close.db = none := by
      rw [LevelDB.close, LevelDB.isOpen, opened]
      rfl
    refine held.put i _ _ (fun db opened => ?_) (fun db opened => ?_)
      (fun db j other opened => ?_) fun j other openedOther apart => ?_
    · cases closed.symm.trans opened
    · cases closed.symm.trans opened
    · cases closed.symm.trans opened
    · exact Finset.mem_erase.mpr ⟨held.apart j i other db openedOther opened apart,
        held.locked j other openedOther⟩

theorem held_destory (held : Held process) (i : Nat) : Held (process.destory i).2 := by
  unfold destory
  split
  · exact held
  · rename_i db opened
    have name := held.named i db opened
    have locked := held.locked i db opened
    rw [← name.1, ← name.2] at locked
    have same := (process.env.DestroyDB_held locked).1
    refine held.put i _ _ (fun other openedOther => held.named i other openedOther)
      (fun other openedOther => ?_)
      (fun other j third openedOther openedThird apart =>
        (held.apart j i third other openedThird openedOther apart).symm)
      fun j other openedOther _ => ?_
    · rw [same]
      exact held.locked i other openedOther
    · rw [same]
      exact held.locked j other openedOther

theorem held_step (held : Held process) (action : Action) {status : Status} {after : Process}
    (stepped : process.step action = .ok (status, after)) : Held after := by
  cases action with
  | openNamed i dbPath dbName readOnly writeOnly rest =>
    obtain rfl := congrArg Prod.snd (Except.ok.inj stepped)
    exact held_openNamed held i dbPath dbName readOnly writeOnly rest
  | close i =>
    obtain rfl := congrArg Prod.snd (Except.ok.inj stepped)
    exact held_close held i
  | destory i =>
    obtain rfl := congrArg Prod.snd (Except.ok.inj stepped)
    exact held_destory held i
  | files disk =>
    obtain rfl := congrArg Prod.snd (Except.ok.inj stepped)
    exact ⟨held.named, held.locked, held.apart⟩

/-- In every state a run reaches. -/
theorem held_run {env : LockingEnv} {history : History Action Status}
    (run : Run step (fun _ _ _ => True) (start env) history process) : Held process :=
  run.invariant (fun _ => Held) (held_start env)
    fun _ _ action _ _ held _ stepped => held_step held action stepped

theorem destroys_iff_of_held (held : Held process) (i : Nat) (db : DB)
    (opened : (process.objects i).db = some db) : process.Destroys i ↔ process.Nothing i := by
  have name := held.named i db opened
  have locked := held.locked i db opened
  rw [← name.1, ← name.2] at locked
  unfold Destroys Nothing destory
  rw [opened]
  dsimp only
  rcases (process.env.DestroyDB_held locked).2 with ⟨none, same⟩ | ⟨some, failed⟩
  · rw [same, none]
    refine ⟨fun destroyed => ⟨rfl, fun file listed => ((destroyed.2 file).mp listed).2⟩,
      fun nothing => ⟨rfl, fun file => ⟨fun listed => ⟨listed, nothing.2 file listed⟩, And.left⟩⟩⟩
  · refine iff_of_false (fun destroyed => ?_) fun nothing => some nothing.1
    rw [destroyed.1] at failed
    cases failed

/-- After every run, an open database is destroyed, and only its files, exactly when there is nothing
to destroy. -/
theorem destroys_iff (env : LockingEnv) (history : History Action Status) (process : Process)
    (run : Run step (fun _ _ _ => True) (start env) history process) (i : Nat) (db : DB)
    (opened : (process.objects i).db = some db) : process.Destroys i ↔ process.Nothing i :=
  destroys_iff_of_held (held_run run) i db opened

/-- The directory `/d/`, with no file. -/
def emptyDirectory : LockingEnv := ⟨⟨[[47, 100, 47]], []⟩, ∅, fun _ => false, []⟩

/-- The database `m` in `/d/`, opened; its lock file is there. -/
def opened : Process :=
  ((start emptyDirectory).openNamed 0 [47, 100, 47] [109] false false .OK).2

theorem destroys_iff_once : opened.Destroys 0 ↔ opened.Nothing 0 :=
  destroys_iff emptyDirectory [(.openNamed 0 [47, 100, 47] [109] false false .OK, .OK)] opened
    (.step .start trivial rfl) 0 ⟨[47, 100, 47], [109], false, false⟩ rfl

/-- The lock file that is there keeps it from being destroyed. -/
theorem not_destroys : (opened.destory 0).1.ok = false ∧ ¬ opened.Destroys 0 := by
  have failed : (opened.destory 0).1.ok = false := by decide +kernel
  refine ⟨failed, fun destroyed => ?_⟩
  rw [destroyed.1] at failed
  cases failed

end Process

end LevelDBLib.Navi
