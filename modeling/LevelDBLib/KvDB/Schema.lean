/-
This file models table definitions as they are stored: the field types with every
attribute they carry, the factory that picks the class of a field by its tag, and
`write` and `read` of fields and of whole tables. A table definition of this file
determines the columns that a record sees.
-/

import LevelDBLib.KvDB.Record
import Mathlib.Algebra.GroupWithZero.Nat

namespace LevelDBLib.KvDB.Schema

open KvDB

/-! ### Attributes -/

/-- `FieldHead`: the type and the member of the union that it picks. -/
inductive FieldHead where
  | bare (headtype : BitVec 16)
  | double (head_double : BitVec 64)
  | int (head_int : BitVec 32)
  | binary (nLength : Int) (content : Option Block)
deriving DecidableEq, Repr

def FieldHead.headtype : FieldHead → BitVec 16
  | .bare headtype => headtype
  | .double _ => 1
  | .int _ => 2
  | .binary _ _ => 3

/-- The class of a field with the members of its own. -/
inductive DataType where
  | text (length : BitVec 32)
  | varText (length : BitVec 32)
  | binary (length : BitVec 32)
  | varBinary (length : BitVec 32)
  | float (scale : BitVec 16)
  | double (scale : BitVec 16)
  | flDouble (scale : BitVec 16)
  | varInt
  | short
  | int
  | long
deriving DecidableEq, Repr

/-- The value of `Enum_FieldType`. -/
def DataType.code : DataType → BitVec 16
  | .text _ => 1
  | .varText _ => 2
  | .binary _ => 3
  | .varBinary _ => 4
  | .float _ => 5
  | .double _ => 6
  | .flDouble _ => 7
  | .varInt => 8
  | .short => 9
  | .int => 10
  | .long => 11

/-- `std::map::insert`, which leaves an entry that is there alone. -/
def insertEntry (key val : Bytes) : List (Bytes × Bytes) → List (Bytes × Bytes)
  | [] => [(key, val)]
  | entry :: rest =>
    if key < entry.1 then (key, val) :: entry :: rest
    else if key = entry.1 then entry :: rest
    else entry :: insertEntry key val rest

theorem mem_insertEntry {key val : Bytes} {entry : Bytes × Bytes} {entries : List (Bytes × Bytes)}
    (member : entry ∈ insertEntry key val entries) : entry = (key, val) ∨ entry ∈ entries := by
  induction entries with
  | nil => exact .inl (List.mem_singleton.mp member)
  | cons first rest hypothesis =>
    rw [insertEntry] at member
    split at member
    · exact List.mem_cons.mp member
    · split at member
      · exact .inr member
      · rcases List.mem_cons.mp member with equal | later
        · exact .inr (equal ▸ List.mem_cons_self)
        · exact (hypothesis later).imp_right (List.mem_cons_of_mem _)

theorem pairwise_insertEntry (key val : Bytes) {entries : List (Bytes × Bytes)}
    (sorted : entries.Pairwise fun first second => first.1 < second.1) :
    (insertEntry key val entries).Pairwise fun first second => first.1 < second.1 := by
  induction entries with
  | nil => exact List.pairwise_singleton _ _
  | cons first rest hypothesis =>
    obtain ⟨below, others⟩ := List.pairwise_cons.mp sorted
    rw [insertEntry]
    split
    · rename_i less
      refine List.pairwise_cons.mpr ⟨fun entry member => ?_, sorted⟩
      rcases List.mem_cons.mp member with equal | later
      · rw [equal]
        exact less
      · exact List.lt_trans less (below entry later)
    · split
      · exact sorted
      · rename_i notLess different
        refine List.pairwise_cons.mpr ⟨fun entry member => ?_, hypothesis others⟩
        rcases mem_insertEntry member with equal | old
        · rw [equal]
          exact (List.le_iff_lt_or_eq.mp (List.not_lt.mp notLess)).resolve_right
            (Ne.symm different)
        · exact below entry old

/-- `std::map<std::string, std::string>`, in the order of its keys. -/
structure ExternFields where
  entries : List (Bytes × Bytes)
  sorted : entries.Pairwise fun first second => first.1 < second.1
deriving DecidableEq, Repr

def ExternFields.empty : ExternFields := ⟨[], .nil⟩

def ExternFields.insert (fields : ExternFields) (key val : Bytes) : ExternFields :=
  ⟨insertEntry key val fields.entries, pairwise_insertEntry key val fields.sorted⟩

/-- A field of a table definition; the head is there when `IsHaveHead` is set. -/
structure FieldType where
  DataType : Schema.DataType
  FieldName : Bytes
  Alias : Bytes
  ReadOnly : Bool
  IsAllowNULL : Bool
  fhead : Option FieldHead
  externFields : ExternFields
deriving DecidableEq, Repr

inductive SMD_INDEX_INDEXTYPE where
  | NULL
  | BTREE
  | BPTREE
  | HASH
deriving DecidableEq, Repr

def SMD_INDEX_INDEXTYPE.code : SMD_INDEX_INDEXTYPE → BitVec 16
  | .NULL => 0
  | .BTREE => 1
  | .BPTREE => 2
  | .HASH => 3

/-- A table definition. A tag the factory does not know leaves a null pointer among the fields. -/
structure TableDef where
  tableName : Bytes
  m_enumIndexType : SMD_INDEX_INDEXTYPE
  IsSaveByGroup : Bool
  FieldSet : List (Option FieldType)
deriving DecidableEq, Repr

/-! ### Writing -/

def boolShort (flag : Bool) : BitVec 16 := if flag then 1 else 0

def writeFieldHead (fhead : FieldHead) (stream : SMDMemStream) : Except Fault SMDMemStream := do
  let stream ← stream.writeShort fhead.headtype
  match fhead with
  | .bare _ => .ok stream
  | .double head_double => stream.writeLong head_double
  | .int head_int => stream.writeInt head_int
  | .binary nLength content => do
    let stream ← stream.writeInt (BitVec.ofInt 32 nLength)
    let bytes ← load content nLength
    stream.writeBytes bytes

def writeEntries : List (Bytes × Bytes) → SMDMemStream → Except Fault SMDMemStream
  | [], stream => .ok stream
  | entry :: rest, stream => do
    let stream ← stream.writeString entry.1
    let stream ← stream.writeString entry.2
    writeEntries rest stream

def writeExternFields (fields : ExternFields) (stream : SMDMemStream) :
    Except Fault SMDMemStream := do
  let stream ← stream.writeInt (BitVec.ofNat 32 fields.entries.length)
  writeEntries fields.entries stream

/-- `save`, which each class overrides for its own members. -/
def DataType.save (type : DataType) (stream : SMDMemStream) : Except Fault SMDMemStream :=
  match type with
  | .text length | .varText length | .binary length | .varBinary length => stream.writeInt length
  | .float scale | .double scale | .flDouble scale => stream.writeShort scale
  | .varInt | .short | .int | .long => .ok stream

def writeHead (fhead : Option FieldHead) (stream : SMDMemStream) : Except Fault SMDMemStream :=
  match fhead with
  | none => .ok stream
  | some fhead => writeFieldHead fhead stream

def FieldType.write (field : FieldType) (stream : SMDMemStream) : Except Fault SMDMemStream := do
  let stream ← stream.writeShort field.DataType.code
  let stream ← stream.writeString field.FieldName
  let stream ← stream.writeString field.Alias
  let stream ← stream.writeShort (boolShort field.ReadOnly)
  let stream ← stream.writeShort (boolShort field.IsAllowNULL)
  let stream ← stream.writeShort (boolShort field.fhead.isSome)
  let stream ← writeHead field.fhead stream
  let stream ← writeExternFields field.externFields stream
  field.DataType.save stream

def writeFieldSet : List (Option FieldType) → SMDMemStream → Except Fault SMDMemStream
  | [], stream => .ok stream
  | none :: _, _ => .error .nullPointer
  | some field :: fields, stream => do
    let stream ← field.write stream
    writeFieldSet fields stream

def TableDef.write (table : TableDef) (stream : SMDMemStream) : Except Fault SMDMemStream := do
  let stream ← stream.writeString table.tableName
  let stream ← stream.writeShort table.m_enumIndexType.code
  let stream ← stream.writeShort (boolShort table.IsSaveByGroup)
  let stream ← stream.writeInt (BitVec.ofNat 32 table.FieldSet.length)
  writeFieldSet table.FieldSet stream

/-! ### Reading -/

/-- `readShort` into a local without an initial value, which is used in any case. -/
def readShortLocal (stream : SMDMemStream) : Except Fault (BitVec 16 × SMDMemStream) := do
  let (sval, stream) ← stream.readShort
  match sval with
  | some sval => .ok (sval, stream)
  | none => .error .uninitialised

/-- The arms of `readFieldHead`, in a head whose union is zero. -/
def readHeadValue (type : BitVec 16) (stream : SMDMemStream) :
    Except Fault (FieldHead × SMDMemStream) :=
  if type = 1 then do
    let (head_double, stream) ← stream.readLong
    .ok (.double (head_double.getD 0), stream)
  else if type = 2 then do
    let (head_int, stream) ← stream.readInt
    .ok (.int (head_int.getD 0), stream)
  else if type = 3 then do
    let (length, stream) ← stream.readInt
    let nLength := length.elim 0 BitVec.toInt
    let (bytes, stream) ← stream.readBytes (uint nLength)
    let content ← store (malloc nLength) (bytes.getD [])
    .ok (.binary nLength content, stream)
  else .ok (.bare type, stream)

def readFieldHead (stream : SMDMemStream) : Except Fault (FieldHead × SMDMemStream) := do
  let (type, stream) ← readShortLocal stream
  readHeadValue type stream

def readEntries (fields : ExternFields) :
    Nat → SMDMemStream → Except Fault (ExternFields × SMDMemStream)
  | 0, stream => .ok (fields, stream)
  | left + 1, stream => do
    let (key, stream) ← readStr stream
    let (val, stream) ← readStr stream
    readEntries (fields.insert key val) left stream

def readExternFields (fields : ExternFields) (stream : SMDMemStream) :
    Except Fault (ExternFields × SMDMemStream) := do
  let (size, stream) ← stream.readInt
  readEntries fields (size.elim 0 BitVec.toInt).toNat stream

/-- `readArr`; a member that cannot be read keeps its value. -/
def DataType.readArr (type : DataType) (stream : SMDMemStream) :
    Except Fault (DataType × SMDMemStream) :=
  match type with
  | .text length => do
    let (read, stream) ← stream.readInt
    .ok (.text (read.getD length), stream)
  | .varText length => do
    let (read, stream) ← stream.readInt
    .ok (.varText (read.getD length), stream)
  | .binary length => do
    let (read, stream) ← stream.readInt
    .ok (.binary (read.getD length), stream)
  | .varBinary length => do
    let (read, stream) ← stream.readInt
    .ok (.varBinary (read.getD length), stream)
  | .float scale => do
    let (read, stream) ← stream.readShort
    .ok (.float (read.getD scale), stream)
  | .double scale => do
    let (read, stream) ← stream.readShort
    .ok (.double (read.getD scale), stream)
  | .flDouble scale => do
    let (read, stream) ← stream.readShort
    .ok (.flDouble (read.getD scale), stream)
  | other => .ok (other, stream)

def readHead (HaveHead : BitVec 16) (stream : SMDMemStream) :
    Except Fault (Option FieldHead × SMDMemStream) :=
  if HaveHead = 0 then .ok (none, stream)
  else do
    let (fhead, stream) ← readFieldHead stream
    .ok (some fhead, stream)

/-- `FieldType::read` into a field fresh from the factory. The alias is read into a local; what
`setAlias` is given is the member. -/
def FieldType.read (field : FieldType) (stream : SMDMemStream) :
    Except Fault (FieldType × SMDMemStream) :=
  if stream.size = 0 then .ok (field, stream)
  else do
    let (Name, stream) ← readStr stream
    let (_alias, stream) ← readStr stream
    let (IsReadOnly, stream) ← readShortLocal stream
    let (IsALLowNULL, stream) ← readShortLocal stream
    let (HaveHead, stream) ← readShortLocal stream
    let (fhead, stream) ← readHead HaveHead stream
    let (externFields, stream) ← readExternFields field.externFields stream
    let (DataType, stream) ← field.DataType.readArr stream
    .ok (⟨DataType, Name, field.Alias, decide (IsReadOnly ≠ 0), decide (IsALLowNULL ≠ 0), fhead,
      externFields⟩, stream)

namespace FieldTypeFactory

/-- The class that `createField` makes for a tag, its members as the constructors set them. -/
def dataType (type : BitVec 16) : Option DataType :=
  if type = 1 then some (.text 20)
  else if type = 2 then some (.varText 0)
  else if type = 3 then some (.binary 20)
  else if type = 4 then some (.varBinary 0)
  else if type = 5 then some (.float (-1))
  else if type = 6 then some (.double (-1))
  else if type = 7 then some (.flDouble 2)
  else if type = 8 then some .varInt
  else if type = 9 then some .short
  else if type = 10 then some .int
  else if type = 11 then some .long
  else none

/-- `createField`: `init` makes the name the alias as well. -/
def createField (type : BitVec 16) (name : Bytes) : Option FieldType :=
  (dataType type).map fun type => ⟨type, name, name, false, true, none, .empty⟩

def createFieldByStream (stream : SMDMemStream) :
    Except Fault (Option FieldType × SMDMemStream) := do
  let (type, stream) ← readShortLocal stream
  match createField type [] with
  | none => .ok (none, stream)
  | some field => do
    let (field, stream) ← field.read stream
    .ok (some field, stream)

end FieldTypeFactory

def getIndexTypeFromShort (nIndexType : BitVec 16) : SMD_INDEX_INDEXTYPE :=
  if nIndexType = 0 then .NULL
  else if nIndexType = 1 then .BTREE
  else if nIndexType = 2 then .BPTREE
  else if nIndexType = 3 then .HASH
  else .NULL

def readFieldSet : Nat → SMDMemStream → Except Fault (List (Option FieldType) × SMDMemStream)
  | 0, stream => .ok ([], stream)
  | left + 1, stream => do
    let (field, stream) ← FieldTypeFactory.createFieldByStream stream
    let (fields, stream) ← readFieldSet left stream
    .ok (field :: fields, stream)

/-- `TableDef::read` into a definition made with an empty name. -/
def TableDef.read (stream : SMDMemStream) : Except Fault ((Bool × TableDef) × SMDMemStream) :=
  if stream.size = 0 then .ok ((false, ⟨[], .BPTREE, true, []⟩), stream)
  else do
    let (tableName, stream) ← readStr stream
    let (nIndexType, stream) ← readShortLocal stream
    let (IsSByGroup, stream) ← readShortLocal stream
    let (nRSize, stream) ← stream.readInt
    match nRSize with
    | none => .error .uninitialised
    | some nRSize => do
      let (FieldSet, stream) ← readFieldSet nRSize.toInt.toNat stream
      .ok ((true, ⟨tableName, getIndexTypeFromShort nIndexType, decide (IsSByGroup ≠ 0), FieldSet⟩),
        stream)

/-! ### What records see of a table -/

/-- The column of a field. -/
def FieldType.column (field : FieldType) : KvDB.FieldType :=
  match field.DataType with
  | .text length => .text length
  | .varText _ => .varText
  | .binary length => .binary length
  | .varBinary _ => .varBinary
  | .float _ => .float
  | .double _ => .double
  | .flDouble scale => .flDouble scale
  | .varInt => .varInt (field.fhead.map fun fhead => match fhead with
    | .int head_int => head_int
    | .double head_double => head_double.setWidth 32
    | _ => 0)
  | .short => .short
  | .int => .int
  | .long => .long

/-- The table of records that a definition without null pointers stands for. -/
def TableDef.table (table : TableDef) : KvDB.TableDef :=
  ⟨table.FieldSet.filterMap fun field => field.map FieldType.column, table.IsSaveByGroup⟩

end LevelDBLib.KvDB.Schema
