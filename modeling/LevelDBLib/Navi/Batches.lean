/-
This file settles which inserts reach a database. A `Session` says what is meant: a batch
belongs to one open database, it begins with `atomReady` and ends with `atomCommit` or with
the database being closed. The code keeps the batch and the atomic mode in the object, where
they outlast the database. The two send the same to the databases exactly as long as no
insert and no commit meets an atomic mode that an earlier open has left.
-/

import LevelDBLib.Library.Traces
import LevelDBLib.Navi.LevelDB

namespace LevelDBLib.Navi

open KvDB PathParser Traces

/-- A call with what the database below answers to it. -/
inductive Call where
  | openNamed (_dbPath _dbName : Bytes) (_readOnly _writeOnly : Bool) (opened : Status)
  | openPath (_dbPath : Bytes) (opened : Status)
  | close
  | atomReady
  | insert (key value : Bytes) (stored : Status)
  | insertTyped (type : BitVec 16) (id : BitVec 32) (value : Bytes) (stored : Status)
  | atomCommit (stored : Status)
deriving DecidableEq, Repr

/-- What a call sends to the databases. -/
def LevelDB.call (leveldb : LevelDB) : Call → List Event × LevelDB
  | .openNamed _dbPath _dbName _readOnly _writeOnly opened =>
    ([], (leveldb.openNamed _dbPath _dbName _readOnly _writeOnly opened).2)
  | .openPath _dbPath opened => ([], (leveldb.openPath _dbPath opened).2)
  | .close => ([], leveldb.close)
  | .atomReady => ([], leveldb.atomReady.2)
  | .insert key value stored => (leveldb.insert key value stored).2
  | .insertTyped type id value stored => (leveldb.insertTyped type id value stored).2
  | .atomCommit stored => (leveldb.atomCommit stored).2

/-! ### Sessions -/

/-- The database that is open, and the inserts since the last `atomReady` on it, if one was not
committed yet. -/
structure Session where
  db : Option DB
  pending : Option WriteBatch
deriving DecidableEq, Repr

namespace Session

def closed : Session := ⟨none, none⟩

def opens (session : Session) (db : DB) (opened : Status) : Session :=
  if session.db.isSome then session else if opened.ok then ⟨some db, none⟩ else closed

def insert (session : Session) (key value : Bytes) : List Event × Session :=
  match session.db, session.pending with
  | none, _ => ([], session)
  | some db, none => ([.Put db key value], session)
  | some db, some pending => ([], ⟨some db, some (pending.Put key value)⟩)

def commit (session : Session) : List Event × Session :=
  match session.db, session.pending with
  | some db, some pending => ([.Write db pending], ⟨some db, none⟩)
  | _, _ => ([], session)

/-- What a call is meant to send to the databases. -/
def call (session : Session) : Call → List Event × Session
  | .openNamed _dbPath _dbName _readOnly _writeOnly opened =>
    ([], session.opens ⟨_dbPath, _dbName, _readOnly, _writeOnly⟩ opened)
  | .openPath _dbPath opened =>
    ([], (parsed _dbPath).elim session fun path =>
      session.opens ⟨path.1, path.2, true, false⟩ opened)
  | .close => ([], closed)
  | .atomReady => ([], ⟨session.db, session.db.map fun _ => []⟩)
  | .insert key value _ => session.insert key value
  | .insertTyped type id value _ => session.insert (LevelDB.makeKey type id) value
  | .atomCommit _ => session.commit

end Session

/-- The object holds the database of the session and, in atomic mode, its batch. -/
structure Represents (leveldb : LevelDB) (session : Session) : Prop where
  db : leveldb.db = session.db
  pending : ∀ pending ∈ session.pending, leveldb.isAtomic = true ∧ leveldb.batch = pending
  closed : session.db = none → session.pending = none

/-- An atomic mode that does not belong to the database which is open. -/
def Stale (leveldb : LevelDB) (session : Session) : Prop :=
  leveldb.db.isSome ∧ leveldb.isAtomic = true ∧ session.pending = none

/-- No insert and no commit in an atomic mode that an earlier open has left. -/
def Clean (leveldb : LevelDB) (session : Session) : Call → Prop
  | .insert .. | .insertTyped .. | .atomCommit _ => ¬ Stale leveldb session
  | _ => True

/-! ### One call -/

variable {leveldb : LevelDB} {session : Session}

/-- A session without a batch asks nothing of the batch of the object. -/
theorem Represents.plain (db : leveldb.db = session.db) (none : session.pending = none) :
    Represents leveldb session := by
  refine ⟨db, fun pending held => ?_, fun _ => none⟩
  rw [none] at held
  cases held

theorem Represents.openNamed (represents : Represents leveldb session) (_dbPath _dbName : Bytes)
    (_readOnly _writeOnly : Bool) (opened : Status) :
    Represents (leveldb.openNamed _dbPath _dbName _readOnly _writeOnly opened).2
      (session.opens ⟨_dbPath, _dbName, _readOnly, _writeOnly⟩ opened) := by
  unfold LevelDB.openNamed Session.opens LevelDB.isOpen
  rw [represents.db]
  by_cases isOpen : session.db.isSome
  · rw [if_pos isOpen, if_pos isOpen]
    exact represents
  · rw [if_neg isOpen, if_neg isOpen]
    by_cases success : opened.ok
    · rw [if_pos success, if_pos success]
      exact .plain rfl rfl
    · rw [if_neg success, if_neg success]
      exact .plain rfl rfl

theorem Represents.openPath (represents : Represents leveldb session) (_dbPath : Bytes)
    (opened : Status) :
    Represents (leveldb.openPath _dbPath opened).2
      ((parsed _dbPath).elim session fun path =>
        session.opens ⟨path.1, path.2, true, false⟩ opened) := by
  unfold LevelDB.openPath
  cases parsed _dbPath with
  | none => exact represents
  | some path =>
    have named := represents.openNamed path.1 path.2 true false opened
    dsimp only [Option.elim_some]
    by_cases isOpen : leveldb.isOpen
    · rw [if_pos isOpen]
      rwa [LevelDB.openNamed, if_pos isOpen] at named
    · rw [if_neg isOpen]
      exact named

theorem represents_close (leveldb : LevelDB) : Represents leveldb.close Session.closed := by
  unfold LevelDB.close
  by_cases isOpen : leveldb.isOpen
  · rw [if_pos isOpen]
    exact .plain rfl rfl
  · rw [if_neg isOpen]
    exact .plain (Option.not_isSome_iff_eq_none.mp isOpen) rfl

theorem Represents.atomReady (represents : Represents leveldb session) :
    Represents leveldb.atomReady.2 ⟨session.db, session.db.map fun _ => []⟩ := by
  unfold LevelDB.atomReady
  rw [← represents.db]
  cases held : leveldb.db with
  | none => exact .plain held rfl
  | some db =>
    refine ⟨rfl, fun pending pendingEq => ?_, fun closed => ?_⟩
    · cases pendingEq
      exact ⟨rfl, rfl⟩
    · cases closed

/-- How the object and its session stand to each other: no database is open, or the atomic mode is
a stale one, or there is none, or it belongs to the batch of the session. -/
inductive Standing (leveldb : LevelDB) (session : Session) : Prop where
  | closed (db : session.db = none) (fresh : ¬ Stale leveldb session)
  | stale (db : DB) (opened : session.db = some db) (pending : session.pending = none)
      (mode : leveldb.isAtomic = true) (stale : Stale leveldb session)
  | plain (db : DB) (opened : session.db = some db) (pending : session.pending = none)
      (mode : leveldb.isAtomic = false) (fresh : ¬ Stale leveldb session)
  | atomic (db : DB) (opened : session.db = some db) (pending : WriteBatch)
      (pendingEq : session.pending = some pending) (mode : leveldb.isAtomic = true)
      (batch : leveldb.batch = pending) (fresh : ¬ Stale leveldb session)

theorem Represents.standing (represents : Represents leveldb session) :
    Standing leveldb session := by
  cases opened : session.db with
  | none =>
    refine .closed opened fun stale => ?_
    rw [Stale, represents.db, opened] at stale
    exact Bool.false_ne_true stale.1
  | some db =>
    cases held : session.pending with
    | none =>
      cases mode : leveldb.isAtomic with
      | true =>
        refine .stale db opened held mode ⟨?_, mode, held⟩
        rw [represents.db, opened]
        rfl
      | false =>
        refine .plain db opened held mode fun stale => ?_
        rw [Stale, mode] at stale
        exact Bool.false_ne_true stale.2.1
    | some pending =>
      obtain ⟨mode, batch⟩ := represents.pending pending held
      refine .atomic db opened pending held mode batch fun stale => ?_
      rw [Stale, held] at stale
      exact Option.some_ne_none _ stale.2.2

/-- An insert goes where the session says exactly when the atomic mode is not a stale one. -/
theorem Represents.insert (represents : Represents leveldb session) (key value : Bytes)
    (stored : Status) :
    ((leveldb.insert key value stored).2.1 = (session.insert key value).1 ↔
      ¬ Stale leveldb session) ∧
    (¬ Stale leveldb session →
      Represents (leveldb.insert key value stored).2.2 (session.insert key value).2) := by
  unfold LevelDB.insert Session.insert
  rw [represents.db]
  rcases represents.standing with ⟨db, fresh⟩ | ⟨db, opened, none', mode, stale⟩ |
    ⟨db, opened, none', mode, fresh⟩ | ⟨db, opened, pending, held, mode, batch, fresh⟩
  · rw [db]
    exact ⟨iff_of_true rfl fresh, fun _ => represents⟩
  · rw [opened, none', mode]
    refine ⟨iff_of_false (fun equal => ?_) (not_not_intro stale), fun fresh => absurd stale fresh⟩
    exact absurd equal.symm (List.cons_ne_nil _ _)
  · rw [opened, none', mode]
    exact ⟨iff_of_true rfl fresh, fun _ => represents⟩
  · rw [opened, held, mode]
    refine ⟨iff_of_true rfl fresh, fun _ => ⟨rfl, ?_, ?_⟩⟩
    · intro longer longerEq
      cases longerEq
      exact ⟨rfl, congrArg (WriteBatch.Put · key value) batch⟩
    · intro none
      cases none

theorem Represents.commit (represents : Represents leveldb session) (stored : Status) :
    ((leveldb.atomCommit stored).2.1 = session.commit.1 ↔ ¬ Stale leveldb session) ∧
    (¬ Stale leveldb session →
      Represents (leveldb.atomCommit stored).2.2 session.commit.2) := by
  unfold LevelDB.atomCommit Session.commit
  rw [represents.db]
  rcases represents.standing with ⟨db, fresh⟩ | ⟨db, opened, none', mode, stale⟩ |
    ⟨db, opened, none', mode, fresh⟩ | ⟨db, opened, pending, held, mode, batch, fresh⟩
  · rw [db]
    exact ⟨iff_of_true rfl fresh, fun _ => represents⟩
  · rw [opened, none', mode]
    refine ⟨iff_of_false (fun equal => ?_) (not_not_intro stale), fun fresh => absurd stale fresh⟩
    exact absurd equal (List.cons_ne_nil _ _)
  · rw [opened, none', mode]
    exact ⟨iff_of_true rfl fresh, fun _ => represents⟩
  · rw [opened, held, mode, batch]
    exact ⟨iff_of_true rfl fresh, fun _ => .plain rfl rfl⟩

/-! ### Runs of calls -/

/-- The databases are told what the sessions say exactly when every call is clean. -/
theorem events_eq_sessions (calls : List Call) :
    trace LevelDB.call LevelDB.new calls = trace Session.call .closed calls ↔
      AllClean LevelDB.call Session.call Clean LevelDB.new .closed calls := by
  have start : Represents LevelDB.new .closed := .plain rfl rfl
  refine trace_eq_iff (fun leveldb session call represents => ?_)
    (fun leveldb session call represents clean => ?_) calls start
  · cases call with
    | insert key value stored => exact (represents.insert key value stored).1
    | insertTyped type id value stored => exact (represents.insert _ value stored).1
    | atomCommit stored => exact (represents.commit stored).1
    | openNamed | openPath | close | atomReady => exact ⟨fun _ => trivial, fun _ => rfl⟩
  · cases call with
    | insert key value stored => exact (represents.insert key value stored).2 clean
    | insertTyped type id value stored => exact (represents.insert _ value stored).2 clean
    | atomCommit stored => exact (represents.commit stored).2 clean
    | openNamed path name readOnly writeOnly opened =>
      exact represents.openNamed path name readOnly writeOnly opened
    | openPath path opened => exact represents.openPath path opened
    | close => exact represents_close leveldb
    | atomReady => exact represents.atomReady

/-- The databases `/a/x` and `/a/y`, and calls that collect an insert for the one and commit it to
the other. -/
def databaseX : DB := ⟨[47, 97, 47], [120], false, false⟩

def databaseY : DB := ⟨[47, 97, 47], [121], false, false⟩

def crossing : List Call :=
  [.openNamed databaseX.dbPath databaseX.dbName false false .OK, .atomReady, .insert [1] [2] .OK,
    .close, .openNamed databaseY.dbPath databaseY.dbName false false .OK, .atomCommit .OK]

theorem events_differ_from_sessions :
    trace LevelDB.call LevelDB.new crossing =
      [[], [], [], [], [], [.Write databaseY [([1], [2])]]] ∧
    trace LevelDB.call LevelDB.new crossing ≠ trace Session.call .closed crossing :=
  ⟨by decide, by decide⟩

end LevelDBLib.Navi
