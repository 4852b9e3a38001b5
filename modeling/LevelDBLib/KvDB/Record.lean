/-
This file models `Record`: the loops of `write`, `read`, `subRecord` and
`addRecord` over the fields of a table, each with its switch over the field type,
and the two group operations of `DataFeature` that send a list of records as one
whole record and a chain of differences.

The flag bits of a record are left out: the setters set them and nothing reads
them.
-/

import LevelDBLib.KvDB.Field

namespace LevelDBLib.KvDB

structure TableDef where
  FieldSet : List FieldType
  IsSaveByGroup : Bool
deriving DecidableEq, Repr

/-! ### The arms of `write` and `read` -/

/-- The loop of `readVarInt` at byte `i`, with `left` bytes to go. -/
def varIntLoop (nCount : Nat) (data : Bytes) (i : Nat) (stream : SMDMemStream) :
    Nat → Except Fault (Field × SMDMemStream)
  | 0 => .ok (.varInt nCount data, stream)
  | left + 1 => do
    let (byte, stream) ← stream.readBytes 1
    let value := (byte.getD []).headD 0
    let data := data.set i value
    if value < 128 then .ok (.varInt (i + 1) data, stream)
    else varIntLoop nCount data (i + 1) stream left

def readVarInt (m_lock : NaviLock) (nCount : Nat) (data : Bytes) (stream : SMDMemStream) :
    Except Fault (Field × SMDMemStream) :=
  NaviGuard m_lock fun _ => varIntLoop nCount data 0 stream 5

namespace Field

def write (field : Field) (stream : SMDMemStream) : Except Fault SMDMemStream :=
  match field with
  | .text stored | .binary stored | .varText stored | .varBinary stored => do
    let stream ← stream.writeInt (BitVec.ofInt 32 stored.nLength)
    let bytes ← load stored.buffer stored.nLength
    stream.writeBytes bytes
  | .float bits => stream.writeInt bits
  | .double bits => stream.writeLong bits
  | .flDouble _ FLDouble => stream.writeLong FLDouble
  | .varInt nCount data => do
    let bytes ← fetch data 0 nCount
    stream.writeBytes bytes
  | .short value => stream.writeShort value
  | .int value => stream.writeInt value
  | .long value => stream.writeLong value

/-- The arm of `read`, which holds the lock of the record. -/
def read (m_lock : NaviLock) (field : Field) (stream : SMDMemStream) :
    Except Fault (Field × SMDMemStream) :=
  match field with
  | .text stored => do
    let block ← clear stored.buffer stored.nFieldSize
    let (str, stream) ← readStr stream
    let nLength := if (str.length : Int) < stored.nFieldSize then (str.length : Int)
      else stored.nFieldSize
    let block ← store block (str.take (min stored.nFieldSize str.length).toNat)
    .ok (.text { stored with nLength := nLength, buffer := block }, stream)
  | .varText _ => do
    let (str, stream) ← readStr stream
    let block ← store (malloc str.length) str
    .ok (.varText ⟨str.length, str.length, block⟩, stream)
  | .binary stored => do
    let block ← clear stored.buffer stored.nFieldSize
    let (size, stream) ← stream.readInt
    let size := size.elim 0 BitVec.toInt
    let nLength := if size < stored.nFieldSize then size else stored.nFieldSize
    let (bytes, stream) ← stream.readBytes (uint nLength)
    let block ← store block (bytes.getD [])
    .ok (.binary { stored with nLength := nLength, buffer := block }, stream)
  | .varBinary stored => do
    let (length, stream) ← stream.readInt
    let nLength := length.elim stored.nLength BitVec.toInt
    let (bytes, stream) ← stream.readBytes (uint nLength)
    let block ← store (malloc nLength) (bytes.getD [])
    .ok (.varBinary ⟨nLength, nLength, block⟩, stream)
  | .float bits => do
    let (read, stream) ← stream.readInt
    .ok (.float (read.getD bits), stream)
  | .double bits => do
    let (read, stream) ← stream.readLong
    .ok (.double (read.getD bits), stream)
  | .flDouble nLength FLDouble => do
    let (read, stream) ← stream.readLong
    .ok (.flDouble nLength (read.getD FLDouble), stream)
  | .varInt nCount data => readVarInt m_lock nCount data stream
  | .short value => do
    let (read, stream) ← stream.readShort
    .ok (.short (read.getD value), stream)
  | .int value => do
    let (read, stream) ← stream.readInt
    .ok (.int (read.getD value), stream)
  | .long value => do
    let (read, stream) ← stream.readLong
    .ok (.long (read.getD value), stream)

end Field

/-! ### The arms of `subRecord` and `addRecord` -/

section Arithmetic

variable [FloatingPoint]

-- A local that its getter leaves unset reaches a setter that refuses the field as well, so the
-- value it stands for here is never stored.

/-- The field of the difference: texts and binaries are sent whole, numbers subtracted. -/
def subField (column : FieldType) (mine theirs : Field) : Except Fault Field :=
  let result := Field.init column
  match column with
  | .text _ | .varText => do
    let text ← mine.getFieldAsString
    let (_, result) ← result.setFieldString text
    .ok result
  | .binary _ | .varBinary => do
    let text ← mine.getFieldAsString
    let (_, result) ← result.setFieldBinary (text ++ [0]) (BitVec.ofNat 32 text.length)
    .ok result
  | .float =>
    .ok (result.setFieldFloat (FloatingPoint.subFloat (mine.getFieldAsFloat.getD 0)
      (theirs.getFieldAsFloat.getD 0))).2
  | .double | .flDouble _ =>
    .ok (result.setFieldDouble (FloatingPoint.subDouble (mine.getFieldAsDouble.getD 0)
      (theirs.getFieldAsDouble.getD 0))).2
  | .varInt _ | .int => do
    let ival ← mine.getFieldAsInteger .new
    let pival ← theirs.getFieldAsInteger .new
    .ok (result.setFieldInteger column (ival.getD 0 - pival.getD 0) false).2
  | .short =>
    .ok (result.setFieldShort (mine.getFieldAsShort.getD 0 - theirs.getFieldAsShort.getD 0)).2
  | .long => do
    let lval ← mine.getFieldAsLong .new column
    let plval ← theirs.getFieldAsLong .new column
    .ok (result.setFieldLong column (lval.getD 0 - plval.getD 0) false).2

/-- The field with the difference added; texts and binaries run into the arm of FLOAT. -/
def addField (column : FieldType) (mine theirs : Field) : Except Fault Field :=
  match column with
  | .text _ | .varText | .binary _ | .varBinary | .float =>
    .ok (mine.setFieldFloat (FloatingPoint.addFloat (mine.getFieldAsFloat.getD 0)
      (theirs.getFieldAsFloat.getD 0))).2
  | .double | .flDouble _ =>
    .ok (mine.setFieldDouble (FloatingPoint.addDouble (mine.getFieldAsDouble.getD 0)
      (theirs.getFieldAsDouble.getD 0))).2
  | .varInt _ | .int => do
    let ival ← mine.getFieldAsInteger .new
    let pival ← theirs.getFieldAsInteger .new
    .ok (mine.setFieldInteger column (ival.getD 0 + pival.getD 0) false).2
  | .short =>
    .ok (mine.setFieldShort (mine.getFieldAsShort.getD 0 + theirs.getFieldAsShort.getD 0)).2
  | .long => do
    let lval ← mine.getFieldAsLong .new column
    let plval ← theirs.getFieldAsLong .new column
    .ok (mine.setFieldLong column (lval.getD 0 + plval.getD 0) false).2

end Arithmetic

/-! ### Records -/

structure Record where
  tableStruct : TableDef
  Fields : List Field
deriving DecidableEq, Repr

/-- The switch of `write` over the fields in their order. -/
def writeFields : List Field → SMDMemStream → Except Fault SMDMemStream
  | [], stream => .ok stream
  | field :: fields, stream => do
    let stream ← field.write stream
    writeFields fields stream

def readFields (m_lock : NaviLock) :
    List Field → SMDMemStream → Except Fault (List Field × SMDMemStream)
  | [], stream => .ok ([], stream)
  | field :: fields, stream => do
    let (field, stream) ← field.read m_lock stream
    let (fields, stream) ← readFields m_lock fields stream
    .ok (field :: fields, stream)

section Arithmetic

variable [FloatingPoint]

def subFields : List FieldType → List Field → List Field → Except Fault (List Field)
  | column :: columns, mine :: fields, theirs :: others => do
    let result ← subField column mine theirs
    let results ← subFields columns fields others
    .ok (result :: results)
  | _, _, _ => .ok []

def addFields : List FieldType → List Field → List Field → Except Fault (List Field)
  | column :: columns, mine :: fields, theirs :: others => do
    let result ← addField column mine theirs
    let results ← addFields columns fields others
    .ok (result :: results)
  | _, _, _ => .ok []

end Arithmetic

namespace Record

def new (tableStruct : TableDef) : Record := ⟨tableStruct, tableStruct.FieldSet.map Field.init⟩

/-- `write`, which has no way to return false. -/
def write (record : Record) (stream : SMDMemStream) : Except Fault SMDMemStream :=
  writeFields record.Fields stream

def read (record : Record) (stream : SMDMemStream) :
    Except Fault (Bool × Record × SMDMemStream) :=
  NaviGuard .new fun m_lock =>
    if stream.size = 0 then .ok (false, record, stream)
    else do
      let (fields, stream) ← readFields m_lock record.Fields stream
      .ok (true, { record with Fields := fields }, stream)

section Arithmetic

variable [FloatingPoint]

/-- `subRecord` of two records of one table. -/
def subRecord (record p : Record) : Except Fault Record := do
  let fields ← subFields record.tableStruct.FieldSet record.Fields p.Fields
  .ok ⟨record.tableStruct, fields⟩

def addRecord (record p : Record) : Except Fault Record := do
  let fields ← addFields record.tableStruct.FieldSet record.Fields p.Fields
  .ok { record with Fields := fields }

end Arithmetic

end Record

/-! ### Groups -/

namespace DataFeature

section Arithmetic

variable [FloatingPoint]

/-- The loop of `addOneGroupRecords` behind the first record: each record as its difference to
the one before it. -/
def writeDifferences (previous : Record) :
    List Record → SMDMemStream → Except Fault SMDMemStream
  | [], stream => .ok stream
  | record :: records, stream => do
    let result ← record.subRecord previous
    let stream ← result.write stream
    writeDifferences record records stream

/-- The stream that `addOneGroupRecords` hands to `put`; nothing for an empty group. -/
def groupStream (records : List Record) : Except Fault (Option SMDMemStream) :=
  match records with
  | [] => .ok none
  | first :: others => do
    let stream ← (SMDMemStream.new 0).writeInt (BitVec.ofNat 32 records.length)
    let stream ← first.write stream
    let stream ← writeDifferences first others stream
    .ok (some stream)

/-- The loop of `getOGRecordsFromStream`, `r_f` being the record before. -/
def readGroup (tableStruct : TableDef) (r_f : Option Record) (stream : SMDMemStream) :
    Nat → Except Fault (List Record)
  | 0 => .ok []
  | left + 1 => do
    let (_, record, stream) ← (Record.new tableStruct).read stream
    let record ← r_f.elim (.ok record) record.addRecord
    let records ← readGroup tableStruct (some record) stream left
    .ok (record :: records)

def getOGRecordsFromStream (tableStruct : TableDef) (stream : SMDMemStream) :
    Except Fault (List Record) := do
  let (nSize, stream) ← stream.readInt
  readGroup tableStruct none stream (nSize.elim 0 BitVec.toInt).toNat

end Arithmetic

end DataFeature

end LevelDBLib.KvDB
