/-
This file models the read cache of the table file: `CDevCache` with its page map
`CPageMap` and its queue of buffers `CPriorityQue`.

The queue is a ring of nodes, one for every buffer; the head is the buffer used
last and the node in front of the head is the next one to be given away. It is
modelled by the list of its nodes from the head on. The size of the file and the
number of its pages are taken once, when the cache is set up; a page that is not
in a buffer is read at the position `nPageNo * _nPageSize`. The file itself
belongs to the table and is passed to every call.
-/

import LevelDBLib.KvDB.Stdio

namespace LevelDBLib.KvDB

open Buffers

/-- The buffer of every page, an `unsigned short` each. -/
structure CPageMap where
  _nMaxPageNum : Nat
  _pnArrayPages : List Nat
deriving DecidableEq, Repr

namespace CPageMap

def BUFFER_NULL : Nat := 0xffff

/-- `init`, whose parameter is an `unsigned short`. -/
def init (nMaxPageNum : Int) : CPageMap :=
  ⟨ushort nMaxPageNum, List.replicate (ushort nMaxPageNum) BUFFER_NULL⟩

/-- `getBufferNo`, which does not compare the page number with the size of the array. -/
def getBufferNo (map : CPageMap) (nPageNo : Int) : Except Fault Nat :=
  if nPageNo < 0 then .error .outOfBounds
  else match map._pnArrayPages[nPageNo.toNat]? with
    | none => .error .outOfBounds
    | some nBufferNo => .ok nBufferNo

def addPageMap (map : CPageMap) (nPageNo nBufferNo : Nat) : CPageMap :=
  if map._nMaxPageNum ≤ nPageNo then map
  else { map with _pnArrayPages := map._pnArrayPages.set nPageNo nBufferNo }

def delPageMap (map : CPageMap) (nDelPageNo : Nat) : CPageMap :=
  map.addPageMap nDelPageNo BUFFER_NULL

end CPageMap

/-- The page of every buffer, and the ring from `_poHead` on. A node is named by the buffer it
was made for. -/
structure CPriorityQue where
  _poArrayBuf : List Nat
  ring : List Nat
deriving DecidableEq, Repr

namespace CPriorityQue

def NO_PAGE : Nat := 0xffff

/-- `init`: every new node becomes the head. -/
def init (nElemNum : Nat) : CPriorityQue :=
  ⟨List.replicate nElemNum NO_PAGE, (List.range nElemNum).reverse⟩

def updatePriority (que : CPriorityQue) (nBufNo : Nat) : Except Fault CPriorityQue :=
  if nBufNo < que._poArrayBuf.length then
    .ok { que with ring := nBufNo :: que.ring.erase nBufNo }
  else .error .outOfBounds

/-- The buffer to give away, with the page it held; its node becomes the head. -/
def getLazyBufNoAndSwapPage (que : CPriorityQue) (nSwapPageNo : Nat) :
    Except Fault (Nat × Nat × CPriorityQue) :=
  match que.ring.getLast? with
  | none => .error .nullPointer
  | some node =>
    let nBufNo := ushort node
    match que._poArrayBuf[nBufNo]? with
    | none => .error .outOfBounds
    | some nDelPageNo =>
      .ok (nDelPageNo, nBufNo,
        ⟨que._poArrayBuf.set nBufNo nSwapPageNo, node :: que.ring.dropLast⟩)

end CPriorityQue

/-- `CPage::PAGE_PROTECT` as it lies behind the page in memory. -/
def PAGE_PROTECT : Bytes := [0x78, 0x56, 0x34, 0x12]

/-- The cache, once `init` has been called. `newMemory` is what a new page buffer holds before
anything is read into it. -/
structure CDevCache where
  _nPageSize : Nat
  _nMaxPageNum : Int
  _nMaxBufferNum : Nat
  _Priorityque : CPriorityQue
  _PageMap : CPageMap
  _ppBuffer : List (Option Bytes)
  newMemory : Nat → Nat → UInt8

namespace CDevCache

def DEFAULT_NUM : Nat := 100

/-- The number of pages that the file has when the cache is set up. -/
def pageNum (file : FILE) (nPageSize : Nat) : Int :=
  let nFileSize := file.contents.length
  int (if nFileSize % nPageSize = 0 then nFileSize / nPageSize else nFileSize / nPageSize + 1)

/-- The constructor and `init`. -/
def init (newMemory : Nat → Nat → UInt8) (nPageSize nMaxBufferNum : Nat) (file : FILE) :
    Except Fault (FILE × CDevCache) :=
  if nPageSize = 0 then .error .divisionByZero
  else .ok ({ file with position := 0 },
    { _nPageSize := nPageSize
      _nMaxPageNum := pageNum file nPageSize
      _nMaxBufferNum := nMaxBufferNum
      _Priorityque := .init nMaxBufferNum
      _PageMap := .init (pageNum file nPageSize)
      _ppBuffer := List.replicate nMaxBufferNum none
      newMemory := newMemory })

/-- `new CPage`: the page and its guard. -/
def newPage (cache : CDevCache) (nBufferNo : Nat) : Bytes :=
  (List.range cache._nPageSize).map (cache.newMemory nBufferNo) ++ PAGE_PROTECT

/-- Where a page is looked for in the file. -/
def pagePosition (cache : CDevCache) (nPageNo : Int) : Int := int (nPageNo * cache._nPageSize)

/-- `downloadPage`. The results of the seek and of the read are not looked at. -/
def downloadPage (cache : CDevCache) (file : FILE) (nBufferNo : Nat) (nPageNo : Int) :
    Except Fault (FILE × CDevCache) :=
  match cache._ppBuffer[nBufferNo]? with
  | none => .error .outOfBounds
  | some held =>
    let _pcPage := held.getD (cache.newPage nBufferNo)
    let file := (file.fseek (cache.pagePosition nPageNo)).2
    let read := file.fread cache._nPageSize
    .ok (read.2, { cache with
      _ppBuffer := cache._ppBuffer.set nBufferNo (some (splice _pcPage 0 read.1)) })

/-- `_ppBuffer[nBufNo]->getPage()`. -/
def getPage (cache : CDevCache) (nBufNo : Nat) : Except Fault Bytes :=
  match cache._ppBuffer[nBufNo]? with
  | none => .error .outOfBounds
  | some none => .error .nullPointer
  | some (some page) => .ok page

/-- A page that no buffer holds takes the place of the page used longest ago. -/
def swapPage (cache : CDevCache) (nPageNo : Int) : Except Fault (Nat × CDevCache) := do
  let (nLazyPageNo, nBufNo, que) ←
    cache._Priorityque.getLazyBufNoAndSwapPage (ushort nPageNo)
  let map := cache._PageMap.addPageMap (ushort nPageNo) nBufNo
  let map := if nLazyPageNo = CPriorityQue.NO_PAGE then map else map.delPageMap nLazyPageNo
  .ok (nBufNo, { cache with _Priorityque := que, _PageMap := map })

def getPageByNo (cache : CDevCache) (file : FILE) (nPageNo : Int) :
    Except Fault (Option Bytes × FILE × CDevCache) :=
  if cache._nMaxPageNum ≤ nPageNo then .ok (none, file, cache)
  else do
    let nBufNo ← cache._PageMap.getBufferNo nPageNo
    if nBufNo = CPageMap.BUFFER_NULL then do
      let (nBufNo, cache) ← cache.swapPage nPageNo
      let (file, cache) ← cache.downloadPage file nBufNo nPageNo
      let page ← cache.getPage nBufNo
      .ok (some page, file, cache)
    else do
      let que ← cache._Priorityque.updatePriority nBufNo
      let page ← cache.getPage nBufNo
      .ok (some page, file, { cache with _Priorityque := que })

end CDevCache

end LevelDBLib.KvDB
