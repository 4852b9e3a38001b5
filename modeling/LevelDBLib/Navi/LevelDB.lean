/-
This file models `LevelDB`, the object through which a program uses one database at a
time: it opens and closes the database, inserts into it directly or collects inserts in a
batch, and keeps a count of its references for the factory. The database behind it is not
modelled; what reaches it is listed, and its answers are arguments of the calls.
-/

import LevelDBLib.Navi.Status
import LevelDBLib.Navi.PathParser
import Mathlib.Algebra.Group.Int.Defs

namespace LevelDBLib.Navi

open KvDB PathParser

/-- `WriteBatch`, as the inserts that it holds. -/
abbrev WriteBatch := List (Bytes × Bytes)

def WriteBatch.Put (batch : WriteBatch) (key value : Bytes) : WriteBatch := batch ++ [(key, value)]

/-- `Reference`, whose count is an `int`. -/
structure Reference where
  _nReferenceNum : Int
deriving DecidableEq, Repr

def Reference.increase (reference : Reference) : Reference := ⟨int (reference._nReferenceNum + 1)⟩

def Reference.decrease (reference : Reference) : Reference := ⟨int (reference._nReferenceNum - 1)⟩

/-- An open database; `DB::Open` is given its directory, its name and two options. -/
structure DB where
  dbPath : Bytes
  dbName : Bytes
  read_only : Bool
  write_only : Bool
deriving DecidableEq, Repr

structure LevelDB where
  db : Option DB
  batch : WriteBatch
  dbPath : Bytes
  dbName : Bytes
  isAtomic : Bool
  reference : Reference
deriving DecidableEq, Repr

/-- What a database is told to do. -/
inductive Event where
  | Put (db : DB) (key value : Bytes)
  | Write (db : DB) (batch : WriteBatch)
deriving DecidableEq, Repr

namespace LevelDB

def new : LevelDB := ⟨none, [], [], [], false, ⟨0⟩⟩

def isOpen (leveldb : LevelDB) : Bool := leveldb.db.isSome

/-- `open` of a directory and a name; `opened` is what `DB::Open` answers. -/
def openNamed (leveldb : LevelDB) (_dbPath _dbName : Bytes) (_readOnly _writeOnly : Bool)
    (opened : Status) : Status × LevelDB :=
  if leveldb.isOpen then (.OK, leveldb)
  else if opened.ok then
    (opened, { leveldb with db := some ⟨_dbPath, _dbName, _readOnly, _writeOnly⟩,
                            dbPath := _dbPath, dbName := _dbName })
  else (opened, { leveldb with db := none })

/-- `open` of a path. -/
def openPath (leveldb : LevelDB) (_dbPath : Bytes) (opened : Status) : Status × LevelDB :=
  match parsed _dbPath with
  | none => (.InvalidArgument (text "path is invalid") [], leveldb)
  | some (dbPath, dbName) =>
    if leveldb.isOpen then (.OK, leveldb)
    else leveldb.openNamed dbPath dbName true false opened

def comparePath (leveldb : LevelDB) (_dbPath _dbName : Bytes) : Bool :=
  leveldb.dbName = _dbName && leveldb.dbPath = _dbPath

/-- `insert`; `stored` is what `DB::Put` answers. -/
def insert (leveldb : LevelDB) (key value : Bytes) (stored : Status) :
    Status × List Event × LevelDB :=
  match leveldb.db with
  | none => (.IOError (text "database is not open") [], [], leveldb)
  | some db =>
    if leveldb.isAtomic then
      (.OK, [], { leveldb with batch := leveldb.batch.Put key value })
    else (stored, [.Put db key value], leveldb)

/-- `integer2array`: the lowest `len` bytes of a number, the highest first. -/
def integer2array (value : Int) (len : Nat) : Bytes :=
  (List.range len).map fun i => UInt8.ofNat ((value / 256 ^ (len - i - 1)) % 256).toNat

/-- `makeKey`, which takes the type and the number as signed ones. -/
def makeKey (type : BitVec 16) (id : BitVec 32) : Bytes :=
  integer2array type.toInt 2 ++ integer2array id.toInt 4

/-- `insert` under a type and a number. -/
def insertTyped (leveldb : LevelDB) (type : BitVec 16) (id : BitVec 32) (value : Bytes)
    (stored : Status) : Status × List Event × LevelDB :=
  leveldb.insert (makeKey type id) value stored

def atomReady (leveldb : LevelDB) : Status × LevelDB :=
  match leveldb.db with
  | none => (.IOError (text "database is not open") [], leveldb)
  | some _ => (.OK, { leveldb with batch := [], isAtomic := true })

/-- `atomCommit`; `stored` is what `DB::Write` answers. -/
def atomCommit (leveldb : LevelDB) (stored : Status) : Status × List Event × LevelDB :=
  match leveldb.db with
  | none => (.IOError (text "database is not open") [], [], leveldb)
  | some db =>
    if leveldb.isAtomic = false then (.IOError (text "is not execute atomReady") [], [], leveldb)
    else (stored, [.Write db leveldb.batch], { leveldb with isAtomic := false })

/-- `close`, which touches neither the batch nor the atomic mode. -/
def close (leveldb : LevelDB) : LevelDB :=
  if leveldb.isOpen then { leveldb with db := none } else leveldb

end LevelDB

end LevelDBLib.Navi
