/-
This file models the page allocator of the single-file store,
`SMDPageManagement`, and the segments it hands out, `SMDPageFile`.

The allocator owns a page counter and the page table `m_PageInfo`, which gives
every segment its first page, its last page and its minimal write unit; the
table is itself stored in a segment, rooted at page 0. A segment is a chain of
pages; `put` appends a byte string with its length in front, `put` at an offset
overwrites one, `get` reads one back, and `clearPage` empties every page of the
chain.

The pages behind the allocator are a parameter, `PageDevice`: the table file
with its read cache is one instance, the coherent page store that the chain
results assume is another. A `C++` reference argument is an extra result, in the
order return value, segment object, allocator.
-/

import Mathlib.Data.List.Sort
import LevelDBLib.KvDB.Page
import LevelDBLib.KvDB.Stream

namespace LevelDBLib.KvDB

open Buffers

/-- What the allocator needs of the file: `CDevCache::getPageByNo`, with NULL as `none`, and
`SMDTable::save` of one page, given by its number and its file offset. -/
class PageDevice (Device : Type) where
  getPageByNo : Device → Nat → Except Fault (Option Bytes × Device)
  save : Device → (pageno offset : Nat) → Bytes → Except Fault (Bool × Device)

/-- The kinds of segments. A byte of a damaged page table may be the code of none of them. -/
inductive SegType where
  | SEG_TYPE_NONE
  | SEG_TYPE_METAINFO
  | SEG_TYPE_INDEX
  | SEG_TYPE_TABLES
  | SEG_TYPE_DATA
  | SEG_TYPE_STORAGE
  | SEG_TYPE_PAGEMGR
  | unnamed (code : UInt8) (other : 6 < code)
deriving DecidableEq, Repr

namespace SegType

def code : SegType → UInt8
  | SEG_TYPE_NONE => 0
  | SEG_TYPE_METAINFO => 1
  | SEG_TYPE_INDEX => 2
  | SEG_TYPE_TABLES => 3
  | SEG_TYPE_DATA => 4
  | SEG_TYPE_STORAGE => 5
  | SEG_TYPE_PAGEMGR => 6
  | unnamed code _ => code

/-- The cast from the stored byte. -/
def ofCode (code : UInt8) : SegType :=
  if other : 6 < code then unnamed code other
  else match code.toNat with
    | 0 => SEG_TYPE_NONE
    | 1 => SEG_TYPE_METAINFO
    | 2 => SEG_TYPE_INDEX
    | 3 => SEG_TYPE_TABLES
    | 4 => SEG_TYPE_DATA
    | 5 => SEG_TYPE_STORAGE
    | _ => SEG_TYPE_PAGEMGR

theorem ofCode_code (type : SegType) : ofCode type.code = type := by
  cases type with
  | unnamed code other => exact dif_pos other
  | _ => rfl

end SegType

structure PageKey_t where
  segType : SegType
  sTableName : Bytes
deriving DecidableEq, Repr

/-- `_PageKey_t::operator<`. -/
def PageKey_t.lt (first second : PageKey_t) : Prop :=
  first.segType.code < second.segType.code ∨
    first.segType.code = second.segType.code ∧ first.sTableName < second.sTableName

instance (first second : PageKey_t) : Decidable (first.lt second) :=
  inferInstanceAs (Decidable (_ ∨ _ ∧ _))

structure PageNo_t where
  nOffset : Nat
  nMinUnit : Nat
  nRootPageNo : Nat
  nLastPageNo : Nat
deriving DecidableEq, Repr

/-- The page table, in the order of its keys. -/
abbrev PageInfo := List (PageKey_t × PageNo_t)

namespace PageInfo

def find (info : PageInfo) (key : PageKey_t) : Option PageNo_t := List.lookup key info

/-- `std::map::insert` of a key the map does not hold. -/
def insert (info : PageInfo) (key : PageKey_t) (value : PageNo_t) : PageInfo :=
  List.orderedInsert (fun first second => first.1.lt second.1) (key, value) info

/-- Assignment to a key the map holds. -/
def assign (info : PageInfo) (key : PageKey_t) (value : PageNo_t) : PageInfo :=
  info.map fun entry => if entry.1 = key then (key, value) else entry

end PageInfo

structure SMDPageManagement (Device : Type) where
  m_PageInfo : PageInfo
  m_nPageSize : Nat
  m_nPageCnt : Nat
  externAttributes : List (Bytes × Bytes)
  device : Device
deriving DecidableEq

structure SMDPageFile where
  enumType : SegType
  sTableName : Bytes
  minUint : Nat
  page : Option SMDPage
deriving DecidableEq

/-- The key of a segment object in the page table. -/
def SMDPageFile.key (file : SMDPageFile) : PageKey_t := ⟨file.enumType, file.sTableName⟩

variable {Device : Type} [PageDevice Device]

/-! ### Pages -/

namespace SMDPageManagement

/-- The page object behind a pointer, made when the pointer is null. -/
def pageObject (mgr : SMDPageManagement Device) :
    Option SMDPage → Except Fault SMDPage
  | none => SMDPage.new mgr.m_nPageSize 0xFFFFFFFF
  | some page => .ok page

def getPageByPageNo (mgr : SMDPageManagement Device) (pSMDPage : Option SMDPage)
    (nPageNo : Nat) : Except Fault (Bool × SMDPage × SMDPageManagement Device) := do
  let page ← mgr.pageObject pSMDPage
  if page.getPageNo = nPageNo then .ok (true, page, mgr)
  else do
    let page ← page.reset mgr.m_nPageSize nPageNo
    let (pcPageData, device) ← PageDevice.getPageByNo mgr.device nPageNo
    match pcPageData with
    | none => .ok (false, page, { mgr with device := device })
    | some bytes => do
      let source ← fetch bytes 0 mgr.m_nPageSize
      let data ← memcpy page.data 0 source
      let page ← SMDPage.pop { page with data := data }
      .ok (true, page, { mgr with device := device })

def getPageByOffset (mgr : SMDPageManagement Device) (pSMDPage : Option SMDPage)
    (nOffset : Nat) : Except Fault (Bool × SMDPage × SMDPageManagement Device) :=
  mgr.getPageByPageNo pSMDPage (nOffset / mgr.m_nPageSize)

def savePageToFile (mgr : SMDPageManagement Device) (page : SMDPage) :
    Except Fault (Bool × SMDPage × SMDPageManagement Device) :=
  if page.modify then do
    let page ← page.push
    let buffer ← fetch page.data 0 mgr.m_nPageSize
    let (saved, device) ← PageDevice.save mgr.device page.pageno page.getFileOffset buffer
    .ok (saved, { page with modify := page.modify && !saved }, { mgr with device := device })
  else .ok (true, page, mgr)

/-- The first entry that ends at `lastPageNo` ends at `newPageNo` instead. -/
def incLastPageNoIn : PageInfo → Nat → Nat → PageInfo
  | [], _, _ => []
  | (key, value) :: rest, lastPageNo, newPageNo =>
    if value.nLastPageNo = lastPageNo then
      (key, { value with nLastPageNo := newPageNo }) :: rest
    else (key, value) :: incLastPageNoIn rest lastPageNo newPageNo

def incLastPageNo (mgr : SMDPageManagement Device) (lastPageNo newPageNo : Nat) :
    SMDPageManagement Device :=
  { mgr with m_PageInfo := incLastPageNoIn mgr.m_PageInfo lastPageNo newPageNo }

/-- The branch of `getNextPage` that allocates: link the page, save it, and start the new page
in the same object. -/
def appendPage (mgr : SMDPageManagement Device) (page : SMDPage) :
    Except Fault (Bool × SMDPage × SMDPageManagement Device) := do
  let nPageCnt := uint (mgr.m_nPageCnt + 1)
  let mgr := { mgr with m_nPageCnt := nPageCnt }
  let (linked, page, mgr) ← mgr.savePageToFile (page.setNextPageNo nPageCnt)
  if linked then do
    let mgr := mgr.incLastPageNo page.getPageNo nPageCnt
    let page ← page.reset mgr.m_nPageSize nPageCnt
    mgr.savePageToFile page
  else .ok (false, page, mgr)

def getNextPage (mgr : SMDPageManagement Device) (pSMDPage : Option SMDPage) (nPageNo : Nat) :
    Except Fault (Bool × SMDPage × SMDPageManagement Device) := do
  let page ← mgr.pageObject pSMDPage
  -- getPageByPageNo makes the same test for the page it already holds
  let (loaded, page, mgr) ← mgr.getPageByPageNo (some page) nPageNo
  if loaded then
    if page.getNextPageNo = noNextPage then mgr.appendPage page
    else mgr.getPageByPageNo (some page) page.getNextPageNo
  else .ok (false, page, mgr)

def getFirstPageNo (mgr : SMDPageManagement Device) (key : PageKey_t) : Int :=
  match mgr.m_PageInfo.find key with
  | some value => int value.nRootPageNo
  | none => -1

def getLastPageNo (mgr : SMDPageManagement Device) (key : PageKey_t) : Int :=
  match mgr.m_PageInfo.find key with
  | some value => int value.nLastPageNo
  | none => -1

/-- A new segment object for a registered segment, NULL for any other. -/
def getPageFile (mgr : SMDPageManagement Device) (enumType : SegType) (sTableName : Bytes) :
    Option SMDPageFile :=
  (mgr.m_PageInfo.find ⟨enumType, sTableName⟩).map fun value =>
    ⟨enumType, sTableName, value.nMinUnit, none⟩

end SMDPageManagement

/-! ### Segments -/

namespace SMDPageFile

/-- The page object of a segment object, which its members dereference. -/
def held (file : SMDPageFile) : Except Fault SMDPage :=
  match file.page with
  | none => .error .nullPointer
  | some page => .ok page

def getNextPage (file : SMDPageFile) (mgr : SMDPageManagement Device) :
    Except Fault (Bool × SMDPageFile × SMDPageManagement Device) := do
  let page ← file.held
  let (moved, page, mgr) ← mgr.getNextPage (some page) page.getPageNo
  .ok (moved, { file with page := some page }, mgr)

def setToFristPageFile (file : SMDPageFile) (mgr : SMDPageManagement Device) :
    Except Fault (Bool × SMDPageFile × SMDPageManagement Device) := do
  let (_, page, mgr) ← mgr.getPageByPageNo file.page (uint (mgr.getFirstPageNo file.key))
  .ok (true, { file with page := some page }, mgr)

def setToLastPageFile (file : SMDPageFile) (mgr : SMDPageManagement Device) :
    Except Fault (Bool × SMDPageFile × SMDPageManagement Device) := do
  let (_, page, mgr) ← mgr.getPageByPageNo file.page (uint (mgr.getLastPageNo file.key))
  .ok (true, { file with page := some page }, mgr)

def getPageFileBeginOffset (file : SMDPageFile) (mgr : SMDPageManagement Device) :
    Except Fault (Nat × SMDPageFile × SMDPageManagement Device) :=
  match file.page with
  | some page => .ok (page.getContentOffset, file, mgr)
  | none => do
    let (_, file, mgr) ← file.setToFristPageFile mgr
    let page ← file.held
    .ok (page.getContentOffset, file, mgr)

/-- The length header of a string of `sSize` bytes. -/
def lengthHeader (sSize : Int) : Bytes := SMDValue.putInt (BitVec.ofInt 32 sSize)

/-- Save the page and go to the next one, as the loops of both `put` do. -/
def turnPage (mgr : SMDPageManagement Device) (page : SMDPage) :
    Except Fault (SMDPage × SMDPageManagement Device) := do
  let (_, page, mgr) ← mgr.savePageToFile page
  let (_, page, mgr) ← mgr.getNextPage (some page) page.getPageNo
  .ok (page, mgr)

/-- The length header, written once, on the page where the string starts. -/
def putHead (sSize : Int) (flag : Bool) (offset : Int) (page : SMDPage) (start : Nat) :
    Except Fault (Int × SMDPage) :=
  if flag then do
    let page ← page.write (lengthHeader sSize)
    .ok (int start, page)
  else .ok (offset, page)

/-- The loop of `put`. `rest` is what `stream.buffer() + i` still holds of the string. -/
def putLoop (minUint : Nat) (sSize : Int) :
    Nat → Bytes → Bool → Int → SMDPage → SMDPageManagement Device →
      Except Fault (Int × SMDPage × SMDPageManagement Device)
  | _, [], _, offset, page, mgr => .ok (offset, page, mgr)
  | 0, _ :: _, _, _, _, _ => .error .nonTermination
  | fuel + 1, byte :: bytes, flag, offset, page, mgr =>
    if page.getSpace < minUint then do
      let (page, mgr) ← turnPage mgr page
      let (offset, page) ← putHead sSize flag offset page page.getContentOffset
      putLoop minUint sSize fuel (byte :: bytes) false offset page mgr
    else do
      let start := page.getSpaceOffset + page.getFileOffset
      let (offset, page) ← putHead sSize flag offset page start
      let wSize := min page.getSpace (byte :: bytes).length
      let page ← page.write ((byte :: bytes).take wSize)
      match (byte :: bytes).drop wSize with
      | [] => .ok (offset, page, mgr)
      | next :: rest => do
        let (page, mgr) ← turnPage mgr page
        putLoop minUint sSize fuel (next :: rest) false offset page mgr

/-- Enough turns for the loop of `put`: two for every byte and every page there is. -/
def putFuel (mgr : SMDPageManagement Device) (sSize : Nat) : Nat :=
  2 * (sSize + mgr.m_nPageCnt) + 4

def put (file : SMDPageFile) (mgr : SMDPageManagement Device) (stream : SMDMemStream) :
    Except Fault (Int × SMDPageFile × SMDPageManagement Device) :=
  if stream.size = 0 then .ok (-1, file, mgr)
  else do
    let sSize := int stream.size
    let (loaded, page, mgr) ← mgr.getPageByPageNo file.page (uint (mgr.getLastPageNo file.key))
    if loaded then
      if int (sSize + 4) ≤ page.getSpace then do
        let offset := int (page.getSpaceOffset + page.getFileOffset)
        let page ← page.write (lengthHeader sSize)
        let page ← page.write (stream.data.take stream.size)
        let (_, page, mgr) ← mgr.savePageToFile page
        .ok (offset, { file with page := some page }, mgr)
      else do
        let (offset, page, mgr) ← putLoop file.minUint sSize (putFuel mgr sSize.toNat)
          (stream.data.take sSize.toNat) true 0 page mgr
        let (_, page, mgr) ← mgr.savePageToFile page
        .ok (offset, { file with page := some page }, mgr)
    else .ok (-1, { file with page := some page }, mgr)

/-- The loop of `put` at an offset, after the length header. -/
def putAtLoop : Nat → Bytes → Int → SMDPage → SMDPageManagement Device →
      Except Fault (SMDPage × SMDPageManagement Device)
  | _, [], _, page, mgr => .ok (page, mgr)
  | 0, _ :: _, _, _, _ => .error .nonTermination
  | fuel + 1, byte :: bytes, offset, page, mgr => do
    let wSize := min (page.getOffsetToEndSize offset).toNat (byte :: bytes).length
    let page ← page.writeAt ((byte :: bytes).take wSize) offset
    match (byte :: bytes).drop wSize with
    | [] => .ok (page, mgr)
    | next :: rest => do
      let (page, mgr) ← turnPage mgr page
      putAtLoop fuel (next :: rest) (int page.getContentOffset) page mgr

/-- `put` at an offset. -/
def putAt (file : SMDPageFile) (mgr : SMDPageManagement Device) (stream : SMDMemStream)
    (offset : Int) : Except Fault (Int × SMDPageFile × SMDPageManagement Device) :=
  if stream.size = 0 then .ok (-1, file, mgr)
  else do
    let (loaded, page, mgr) ← mgr.getPageByOffset file.page (uint offset)
    if loaded then do
      let sSize := int stream.size
      if 0 < sSize then do
        let page ← page.writeAt (lengthHeader sSize) offset
        let (page, mgr) ← putAtLoop (sSize.toNat + 1) (stream.data.take sSize.toNat)
          (offset + 4) page mgr
        let (_, page, mgr) ← mgr.savePageToFile page
        .ok (offset, { file with page := some page }, mgr)
      else do
        let (_, page, mgr) ← mgr.savePageToFile page
        .ok (offset, { file with page := some page }, mgr)
    else .ok (-1, { file with page := some page }, mgr)

/-- The loop of `get`, with `i` bytes of `nSize` already in the stream. -/
def getLoop (nSize : Nat) : Nat → Nat → Nat → SMDMemStream → SMDPage →
    SMDPageManagement Device → Except Fault (SMDMemStream × SMDPage × SMDPageManagement Device)
  | fuel, offset, i, stream, page, mgr =>
    if nSize ≤ i then .ok (stream, page, mgr)
    else match fuel with
    | 0 => .error .nonTermination
    | fuel + 1 => do
      let wSize := min (page.getSize - offset) (nSize - i)
      let bytes ← page.read offset (ushort wSize)
      let data ← memcpy stream.data i bytes
      let stream := { stream with data := data }
      if i + wSize = nSize then .ok (stream, page, mgr)
      else do
        let (_, page, mgr) ← mgr.getNextPage (some page) page.getPageNo
        getLoop nSize fuel (page.getContentOffset % page.getSize) (i + wSize) stream page mgr

/-- The page and the offset at which `get` starts: the first page of the segment for a
negative offset, else the page of the offset. -/
def getStart (file : SMDPageFile) (mgr : SMDPageManagement Device) (offset : Int) :
    Except Fault (Option Nat × SMDPage × SMDPageManagement Device) :=
  if offset < 0 then do
    let (_, page, mgr) ← mgr.getPageByPageNo file.page (uint (mgr.getFirstPageNo file.key))
    .ok (some page.getContentOffset, page, mgr)
  else do
    let (loaded, page, mgr) ← mgr.getPageByOffset file.page (uint offset)
    .ok (if loaded then some offset.toNat else none, page, mgr)

/-- Fewer bytes than the minimal unit are never written: `get` goes on to the next page. -/
def getSkip (minUint : Nat) (offset : Nat) (page : SMDPage) (mgr : SMDPageManagement Device) :
    Except Fault (Nat × SMDPage × SMDPageManagement Device) :=
  if page.getSize < offset + minUint then do
    let (_, page, mgr) ← mgr.getNextPage (some page) page.getPageNo
    .ok (page.getContentOffset % page.getSize, page, mgr)
  else .ok (offset, page, mgr)

/-- The stored length: the four header bytes must all have been copied. -/
def readLength (page : SMDPage) (offset : Nat) : Except Fault Int := do
  let header ← page.read offset 4
  if header.length < 4 then .error .uninitialised
  else .ok (SMDValue.getInt header).toInt

def get (file : SMDPageFile) (mgr : SMDPageManagement Device) (stream : SMDMemStream)
    (offset : Int) :
    Except Fault (Bool × SMDMemStream × SMDPageFile × SMDPageManagement Device) := do
  let (start, page, mgr) ← file.getStart mgr offset
  match start with
  | none => .ok (false, stream, { file with page := some page }, mgr)
  | some start => do
    let (offset, page, mgr) ← getSkip file.minUint (start % page.getSize) page mgr
    let nSize ← readLength page offset
    let stream := stream.resize (uint nSize)
    let (stream, page, mgr) ←
      getLoop nSize.toNat (nSize.toNat + 2) (offset + 4) 0 stream page mgr
    .ok (true, stream, { file with page := some page }, mgr)

/-- The loop of `clearPage`. -/
def clearLoop : Nat → SMDPage → SMDPageManagement Device →
    Except Fault (SMDPage × SMDPageManagement Device)
  | 0, _, _ => .error .nonTermination
  | fuel + 1, page, mgr => do
    let page ← page.freeSpace
    let (_, page, mgr) ← mgr.savePageToFile page
    if page.isLastPage then .ok (page, mgr)
    else do
      let (moved, page, mgr) ← mgr.getNextPage (some page) page.getPageNo
      if moved then clearLoop fuel page mgr else .ok (page, mgr)

def clearPage (file : SMDPageFile) (mgr : SMDPageManagement Device) :
    Except Fault (Bool × SMDPageFile × SMDPageManagement Device) := do
  let (_, page, mgr) ← mgr.getPageByPageNo file.page (uint (mgr.getFirstPageNo file.key))
  let (page, mgr) ← clearLoop (mgr.m_nPageCnt + 2) page mgr
  .ok (true, { file with page := some page }, mgr)

end SMDPageFile

/-! ### The page table -/

namespace SMDPageManagement

/-- `PAGE_MANAGEMENT_NAME`, the text "smd_pagemgr". -/
def PAGE_MANAGEMENT_NAME : Bytes :=
  [0x73, 0x6D, 0x64, 0x5F, 0x70, 0x61, 0x67, 0x65, 0x6D, 0x67, 0x72]

/-- The key of the segment that stores the page table. -/
def pageTableKey : PageKey_t := ⟨.SEG_TYPE_PAGEMGR, PAGE_MANAGEMENT_NAME⟩

def writeExternAttributes (attributes : List (Bytes × Bytes)) (stream : SMDMemStream) :
    Except Fault SMDMemStream := do
  let stream ← stream.writeInt (BitVec.ofNat 32 attributes.length)
  attributes.foldlM (fun stream pair => do
    let stream ← stream.writeString pair.1
    stream.writeString pair.2) stream

/-- One line of the page table. -/
def writePageInfo (stream : SMDMemStream) (entry : PageKey_t × PageNo_t) :
    Except Fault SMDMemStream := do
  let stream ← stream.writeBytes [entry.1.segType.code]
  let stream ← stream.writeString entry.1.sTableName
  let stream ← stream.writeInt (BitVec.ofNat 32 entry.2.nRootPageNo)
  let stream ← stream.writeShort (BitVec.ofNat 16 entry.2.nOffset)
  let stream ← stream.writeShort (BitVec.ofNat 16 entry.2.nMinUnit)
  stream.writeInt (BitVec.ofNat 32 entry.2.nLastPageNo)

/-- The stream that `saveInnerInfoToFile` builds. -/
def innerInfoStream (mgr : SMDPageManagement Device) : Except Fault SMDMemStream := do
  let stream := (SMDMemStream.new 0).resize 4
  let stream ← stream.writeBytes [1]
  let stream := (stream.setPosition 4).2
  let stream ← stream.writeShort (BitVec.ofNat 16 mgr.m_nPageSize)
  let stream ← stream.writeInt (BitVec.ofNat 32 mgr.m_nPageCnt)
  let stream ← stream.writeInt (BitVec.ofNat 32 mgr.m_PageInfo.length)
  let stream ← writeExternAttributes mgr.externAttributes stream
  mgr.m_PageInfo.foldlM writePageInfo stream

def saveInnerInfoToFile (mgr : SMDPageManagement Device) :
    Except Fault (Bool × SMDPageManagement Device) :=
  match mgr.getPageFile .SEG_TYPE_PAGEMGR PAGE_MANAGEMENT_NAME with
  | none => .ok (false, mgr)
  | some file => do
    let stream ← mgr.innerInfoStream
    let (_, file, mgr) ← file.clearPage mgr
    let (_, _, mgr) ← file.put mgr stream
    .ok (true, mgr)

/-- `save`. -/
def save (mgr : SMDPageManagement Device) : Except Fault (Bool × SMDPageManagement Device) :=
  mgr.saveInnerInfoToFile

def createPageFile (mgr : SMDPageManagement Device) (enumType : SegType) (sTableName : Bytes)
    (minUnit : Nat) : Except Fault (Option SMDPageFile × SMDPageManagement Device) :=
  let minUnit := max minUnit 4
  match mgr.m_PageInfo.find ⟨enumType, sTableName⟩ with
  | some _ => .ok (mgr.getPageFile enumType sTableName, mgr)
  | none => do
    let nPageCnt := uint (mgr.m_nPageCnt + 1)
    let mgr := { mgr with
      m_nPageCnt := nPageCnt
      m_PageInfo := mgr.m_PageInfo.insert ⟨enumType, sTableName⟩
        ⟨0, minUnit, nPageCnt, nPageCnt⟩ }
    let (stored, mgr) ← mgr.saveInnerInfoToFile
    if stored then do
      -- the counter may have moved on while the page table was saved
      let page ← SMDPage.new mgr.m_nPageSize mgr.m_nPageCnt
      let (saved, _, mgr) ← mgr.savePageToFile page
      .ok (if saved then mgr.getPageFile enumType sTableName else none, mgr)
    else .ok (none, mgr)

def readExternAttributes (stream : SMDMemStream) :
    Nat → List (Bytes × Bytes) → Except Fault (List (Bytes × Bytes) × SMDMemStream)
  | 0, attributes => .ok (attributes, stream)
  | count + 1, attributes => do
    let (key, stream) ← readStr stream
    let (val, stream) ← readStr stream
    let attributes := if (List.lookup key attributes).isSome then attributes
      else List.orderedInsert (fun first second => first.1 < second.1) (key, val) attributes
    readExternAttributes stream count attributes

/-- One line of the page table, read back. -/
def readPageInfo (stream : SMDMemStream) :
    Except Fault (Option (PageKey_t × PageNo_t) × SMDMemStream) := do
  let (type, stream) ← stream.readBytes 1
  match type with
  | none => .ok (none, stream)
  | some type => do
    let (name, stream) ← stream.readString
    match name with
    | none => .ok (none, stream)
    | some name => do
      let (root, stream) ← stream.readInt
      match root with
      | none => .ok (none, stream)
      | some root => do
        let (offset, stream) ← stream.readShort
        match offset with
        | none => .ok (none, stream)
        | some offset => do
          let (minUnit, stream) ← stream.readShort
          match minUnit with
          | none => .ok (none, stream)
          | some minUnit => do
            let (last, stream) ← stream.readInt
            .ok (last.map fun last => (⟨SegType.ofCode (type.getD 0 0), name⟩,
              ⟨offset.toNat, minUnit.toNat, root.toNat, last.toNat⟩), stream)

/-- The loop that fills the page table. A missing field ends it with what was read so far. -/
def readPageInfos : Nat → SMDMemStream → PageInfo → Except Fault (Bool × PageInfo)
  | 0, _, info => .ok (true, info)
  | count + 1, stream, info => do
    let (entry, stream) ← readPageInfo stream
    match entry with
    | none => .ok (false, info)
    | some (key, value) =>
      readPageInfos count stream
        (if (info.find key).isSome then info.assign key value else info.insert key value)

/-- The part of `getInnerInfoFromFile` behind the read of the segment. -/
def loadInnerInfo (mgr : SMDPageManagement Device) (stream : SMDMemStream) :
    Except Fault (Bool × SMDPageManagement Device) := do
  let (beg, stream) ← stream.readBytes 1
  match beg with
  | none => .ok (true, mgr)
  | some beg =>
    if beg = [0] then .ok (true, mgr)
    else do
      let stream := (stream.setPosition 4).2
      let (pageSize, stream) ← stream.readShort
      match pageSize with
      | none => .ok (false, mgr)
      | some pageSize => do
        let mgr := { mgr with m_nPageSize := pageSize.toNat }
        let (pageCnt, stream) ← stream.readInt
        match pageCnt with
        | none => .ok (false, mgr)
        | some pageCnt => do
          let mgr := { mgr with m_nPageCnt := pageCnt.toNat }
          let (size, stream) ← stream.readInt
          match size with
          | none => .ok (false, mgr)
          | some size => do
            let (count, stream) ← stream.readInt
            let (attributes, stream) ← readExternAttributes stream
              (count.getD 0).toInt.toNat mgr.externAttributes
            let (complete, info) ← readPageInfos size.toInt.toNat stream mgr.m_PageInfo
            .ok (complete, { mgr with m_PageInfo := info, externAttributes := attributes })

def getInnerInfoFromFile (mgr : SMDPageManagement Device) (exists' : Bool) :
    Except Fault (Bool × SMDPageManagement Device) := do
  let mgr := { mgr with m_PageInfo := [(pageTableKey, ⟨0, 0, 0, 0⟩)] }
  if exists' then
    match mgr.getPageFile .SEG_TYPE_PAGEMGR PAGE_MANAGEMENT_NAME with
    | none => .ok (false, mgr)
    | some file => do
      let (found, stream, _, mgr) ← file.get mgr (SMDMemStream.new 0) (-1)
      if found then mgr.loadInnerInfo stream else .ok (false, mgr)
  else .ok (true, mgr)

/-- The constructor, over a device that is already open. -/
def new (device : Device) (exists' : Bool) (nPageSize : Nat) :
    Except Fault (SMDPageManagement Device) := do
  let (_, mgr) ← getInnerInfoFromFile
    { m_PageInfo := [], m_nPageSize := nPageSize, m_nPageCnt := 0, externAttributes := [],
      device := device } exists'
  .ok mgr

end SMDPageManagement

end LevelDBLib.KvDB
