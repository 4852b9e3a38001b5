/-
This file models `DataFeature`, the records of one table, and `SMDDataSegment`, the
records of all tables of a file: appending a record or a group of records to the
segment of its table, reading what stands at an offset, and reading everything.

Reading everything walks over the segment. Nothing in the file says where the next
string starts: the walk computes it from the offset of the string it has just read,
its length, and the numbers of the pages before and after the read. The walk has no
bound in the source; here it takes a number of turns that it may make.
-/

import LevelDBLib.KvDB.PageManagement
import LevelDBLib.KvDB.Schema
import LevelDBLib.KvDB.Truncation

namespace LevelDBLib.KvDB

variable {Device : Type} [PageDevice Device]

/-! ### Walking over a segment -/

/-- `getHeadSize`, of the page object of a segment. -/
def SMDPage.getHeadSize (page : SMDPage) : Int :=
  int ((page.getContentOffset : Int) - page.getFileOffset)

namespace SMDPageFile

def setToOffset (file : SMDPageFile) (mgr : SMDPageManagement Device) (offset : Nat) :
    Except Fault (Bool × SMDPageFile × SMDPageManagement Device) := do
  let (found, page, mgr) ← mgr.getPageByOffset file.page offset
  .ok (found, { file with page := some page }, mgr)

/-- Whether less than the minimal unit is left of the page, counted in `unsigned int`. -/
def IsEndOfPageSize (file : SMDPageFile) (page : SMDPage) (offset : Int) : Bool :=
  uint (((page.getPageNo + 1) * page.getSize : Nat) - offset) < file.minUint

def getNextOffset (file : SMDPageFile) (mgr : SMDPageManagement Device) (offset : Int) :
    Except Fault (Int × SMDPageFile × SMDPageManagement Device) :=
  if offset = -1 then do
    let (_, file, mgr) ← file.setToFristPageFile mgr
    let page ← file.held
    .ok (int page.getContentOffset, file, mgr)
  else do
    let page ← file.held
    if page.isLastPage ∧ offset.tmod page.getSize = page.getSpaceOffset then .ok (-1, file, mgr)
    else if file.IsEndOfPageSize page offset then do
      let (_, file, mgr) ← file.getNextPage mgr
      let page ← file.held
      .ok (int page.getContentOffset, file, mgr)
    else .ok (offset, file, mgr)

end SMDPageFile

/-- The end of the string of `nSize` bytes at `offset`, as both walks compute it: `bpno` is the
number of the page before the string was read, `page` the page after it. -/
def offsetBehind (page : SMDPage) (bpno offset : Int) (nSize : Nat) : Except Fault Int :=
  let apno := int page.getPageNo
  if apno = bpno then .ok (int (offset + nSize + 4))
  else if apno - bpno = 1 then .ok (int (offset + nSize + 4 + page.getHeadSize))
  else if page.getSize = 0 ∨ uint (page.getSize - page.getHeadSize) = 0 then .error .divisionByZero
  else
    let currPageWr := int ((page.getSize : Int) - uint offset % page.getSize)
    let otherPageWr := int (nSize + 4 - currPageWr)
    let endPageWr := int (uint otherPageWr % uint (page.getSize - page.getHeadSize) : Nat)
    .ok (int (apno * page.getSize + page.getHeadSize + endPageWr))

/-! ### The records of a table -/

structure DataFeature where
  tableStruct : Schema.TableDef
  pPageFile : Option SMDPageFile
deriving DecidableEq

namespace DataFeature

/-- The constructor, which opens the segment of the table or makes it. -/
def new (ptableStruct : Schema.TableDef) (pPageManagement : SMDPageManagement Device) :
    Except Fault (DataFeature × SMDPageManagement Device) := do
  let (pPageFile, mgr) ← pPageManagement.createPageFile .SEG_TYPE_DATA ptableStruct.tableName 0
  .ok (⟨ptableStruct, pPageFile⟩, mgr)

/-- The segment object, which the members dereference. -/
def pageFile (feature : DataFeature) : Except Fault SMDPageFile :=
  match feature.pPageFile with
  | none => .error .nullPointer
  | some file => .ok file

/-- The feature after a call that changed its segment object. -/
def turned (feature : DataFeature) (file : SMDPageFile) : DataFeature :=
  { feature with pPageFile := some file }

/-- `addRecord`, with NULL as `none`. -/
def addRecord (feature : DataFeature) (mgr : SMDPageManagement Device) :
    Option Record → Except Fault (Int × DataFeature × SMDPageManagement Device)
  | none => .ok (-1, feature, mgr)
  | some record => do
    let file ← feature.pageFile
    let (set, file, mgr) ← file.setToLastPageFile mgr
    if set then do
      let stream ← record.write (SMDMemStream.new 0)
      let (offset, file, mgr) ← file.put mgr stream
      .ok (offset, feature.turned file, mgr)
    else .ok (-1, feature.turned file, mgr)

/-- `getRecord` at an offset: what `get` returns is not looked at. -/
def getRecordAt (feature : DataFeature) (mgr : SMDPageManagement Device) (offset : Nat) :
    Except Fault (Option Record × DataFeature × SMDPageManagement Device) := do
  let file ← feature.pageFile
  let (_, stream, file, mgr) ← file.get mgr (SMDMemStream.new 0) (int offset)
  let record ← getRecord feature.tableStruct.table stream
  .ok (record, feature.turned file, mgr)

section Arithmetic

variable [FloatingPoint]

def addOneGroupRecords (feature : DataFeature) (mgr : SMDPageManagement Device)
    (records : List Record) : Except Fault (Int × DataFeature × SMDPageManagement Device) :=
  if records = [] then .ok (-1, feature, mgr)
  else do
    let file ← feature.pageFile
    let (set, file, mgr) ← file.setToLastPageFile mgr
    if set then do
      match ← groupStream records with
      | none => .ok (-1, feature.turned file, mgr)
      | some stream => do
        let (offset, file, mgr) ← file.put mgr stream
        .ok (offset, feature.turned file, mgr)
    else .ok (-1, feature.turned file, mgr)

def getOneGroupRecords (feature : DataFeature) (mgr : SMDPageManagement Device) (offset : Nat) :
    Except Fault (List Record × DataFeature × SMDPageManagement Device) := do
  let file ← feature.pageFile
  let (set, file, mgr) ← file.setToOffset mgr offset
  if set then do
    let (found, stream, file, mgr) ← file.get mgr (SMDMemStream.new 0) (int offset)
    if found ∧ stream.size ≠ 0 then do
      let records ← getOGRecordsFromStream feature.tableStruct.table stream
      .ok (records, feature.turned file, mgr)
    else .ok ([], feature.turned file, mgr)
  else .ok ([], feature.turned file, mgr)

end Arithmetic

/-- The loop of both walks, which differ in the member that reads the records at an offset. -/
def readFrom (getEntry : DataFeature → SMDPageManagement Device → Nat →
      Except Fault (List (Option Record) × DataFeature × SMDPageManagement Device)) :
    Nat → Int → List (Option Record) → DataFeature → SMDPageManagement Device →
      Except Fault (List (Option Record) × DataFeature × SMDPageManagement Device)
  | fuel, offset, records, feature, mgr =>
    if offset = -1 then .ok (records, feature, mgr)
    else match fuel with
    | 0 => .error .nonTermination
    | fuel + 1 => do
      let file ← feature.pageFile
      let before ← file.held
      let (_, stream, file, mgr) ← file.get mgr (SMDMemStream.new 0) offset
      let (entry, feature, mgr) ← getEntry (feature.turned file) mgr (uint offset)
      let file ← feature.pageFile
      let page ← file.held
      let offset ← offsetBehind page (int before.getPageNo) offset stream.size
      let (offset, file, mgr) ← file.getNextOffset mgr offset
      readFrom getEntry fuel offset (records ++ entry) (feature.turned file) mgr

/-- A walk from the start of the segment, of at most `fuel` strings. -/
def readAllBy (getEntry : DataFeature → SMDPageManagement Device → Nat →
      Except Fault (List (Option Record) × DataFeature × SMDPageManagement Device))
    (fuel : Nat) (feature : DataFeature) (mgr : SMDPageManagement Device) :
    Except Fault (List (Option Record) × DataFeature × SMDPageManagement Device) := do
  let file ← feature.pageFile
  let (offset, file, mgr) ← file.getNextOffset mgr (-1)
  readFrom getEntry fuel offset [] (feature.turned file) mgr

/-- The record at an offset, as an entry of the list that the walk returns. -/
def recordEntry (feature : DataFeature) (mgr : SMDPageManagement Device) (offset : Nat) :
    Except Fault (List (Option Record) × DataFeature × SMDPageManagement Device) := do
  let (record, feature, mgr) ← feature.getRecordAt mgr offset
  .ok ([record], feature, mgr)

def readALLOneByOne (fuel : Nat) (feature : DataFeature) (mgr : SMDPageManagement Device) :
    Except Fault (List (Option Record) × DataFeature × SMDPageManagement Device) :=
  readAllBy recordEntry fuel feature mgr

section Arithmetic

variable [FloatingPoint]

/-- The records of the group at an offset. -/
def groupEntry (feature : DataFeature) (mgr : SMDPageManagement Device) (offset : Nat) :
    Except Fault (List (Option Record) × DataFeature × SMDPageManagement Device) := do
  let (records, feature, mgr) ← feature.getOneGroupRecords mgr offset
  .ok (records.map some, feature, mgr)

def readALLGroupByGroup (fuel : Nat) (feature : DataFeature) (mgr : SMDPageManagement Device) :
    Except Fault (List (Option Record) × DataFeature × SMDPageManagement Device) :=
  readAllBy groupEntry fuel feature mgr

def readALL (fuel : Nat) (feature : DataFeature) (mgr : SMDPageManagement Device) :
    Except Fault (List (Option Record) × DataFeature × SMDPageManagement Device) :=
  if feature.tableStruct.IsSaveByGroup then feature.readALLGroupByGroup fuel mgr
  else feature.readALLOneByOne fuel mgr

end Arithmetic

end DataFeature

/-! ### The records of a file -/

/-- The data segment: the definitions of its table segment, and a feature for each of them. -/
structure SMDDataSegment (Device : Type) where
  tableSegment : List Schema.TableDef
  Features : List DataFeature
  pPageManagement : SMDPageManagement Device

namespace SMDDataSegment

/-- `SMDTable::addTableStruct`: the definition joins the table segment, and a feature for it the
data segment. -/
def addTableStruct (segment : SMDDataSegment Device) (p : Schema.TableDef) :
    Except Fault (SMDDataSegment Device) := do
  let (pFeature, mgr) ← DataFeature.new p segment.pPageManagement
  .ok ⟨segment.tableSegment ++ [p], segment.Features ++ [pFeature], mgr⟩

/-- The loop that every member starts with: the call goes to the feature in the place of the first
definition with the name of the table. -/
def onTable {Result : Type} (segment : SMDDataSegment Device) (tableName : Bytes)
    (otherwise : Result)
    (call : DataFeature → SMDPageManagement Device →
      Except Fault (Result × DataFeature × SMDPageManagement Device)) :
    Except Fault (Result × SMDDataSegment Device) :=
  match segment.tableSegment.findIdx? fun definition => definition.tableName = tableName with
  | none => .ok (otherwise, segment)
  | some index =>
    match segment.Features[index]? with
    | none => .error .outOfBounds
    | some feature => do
      let (result, feature, mgr) ← call feature segment.pPageManagement
      .ok (result,
        { segment with Features := segment.Features.set index feature, pPageManagement := mgr })

def addRecord (segment : SMDDataSegment Device) (r : Option Record) (tableName : Bytes) :
    Except Fault (Int × SMDDataSegment Device) :=
  segment.onTable tableName (-1) fun p mgr => p.addRecord mgr r

def getRecord (segment : SMDDataSegment Device) (offset : Nat) (tableName : Bytes) :
    Except Fault (Option Record × SMDDataSegment Device) :=
  segment.onTable tableName none fun p mgr => p.getRecordAt mgr offset

section Arithmetic

variable [FloatingPoint]

def addOneGroupRecords (segment : SMDDataSegment Device) (records : List Record)
    (tableName : Bytes) : Except Fault (Int × SMDDataSegment Device) :=
  segment.onTable tableName (-1) fun p mgr => p.addOneGroupRecords mgr records

def getOneGroupRecords (segment : SMDDataSegment Device) (offset : Nat) (tableName : Bytes) :
    Except Fault (List Record × SMDDataSegment Device) :=
  segment.onTable tableName [] fun p mgr => p.getOneGroupRecords mgr offset

def getRecordALL (segment : SMDDataSegment Device) (fuel : Nat) (tableName : Bytes) :
    Except Fault (List (Option Record) × SMDDataSegment Device) :=
  segment.onTable tableName [] fun p mgr => p.readALL fuel mgr

end Arithmetic

end SMDDataSegment

end LevelDBLib.KvDB
