/-
This file models the table file behind the page allocator: the part of
`SMDTable` that seeks, saves and opens, together with the read cache that the
allocator makes for itself.

Saves go through `seekFileTo`, which adds the offset of the table in the file.
Loads go through `CDevCache`, which gets the file and the page size of the call
that opens the table, and not the offset. `TableFile` is the device that the
allocator of an open table works on.
-/

import LevelDBLib.KvDB.DevCache
import LevelDBLib.KvDB.PageDisk

namespace LevelDBLib.KvDB

open Buffers

/-- The file of an open table, the offset of the table in it, and the cache of its pages. -/
structure TableFile where
  file : FILE
  offset : Int32
  m_oDevCache : CDevCache

namespace SMDTable

/-- The position that `seekFileTo` passes on. -/
def filePosition (offset : Int32) (position : Int) : Int :=
  if 0 < offset.toInt then int (offset.toInt + position) else position

def seekFileTo (file : FILE) (offset : Int32) (position : Int) : Bool × FILE :=
  file.fseek (filePosition offset position)

/-- `save` of a buffer at an offset, which `seekFileTo` takes as an `int`. -/
def save (table : TableFile) (buffer : Bytes) (offset : Nat) : Bool × TableFile :=
  let sought := seekFileTo table.file table.offset (int offset)
  if sought.1 then (true, { table with file := sought.2.fwrite buffer })
  else (false, { table with file := sought.2 })

/-- A save touches neither the cache nor the offset of the table. -/
theorem save_keeps (table : TableFile) (buffer : Bytes) (offset : Nat) :
    (save table buffer offset).2.offset = table.offset ∧
      (save table buffer offset).2.m_oDevCache = table.m_oDevCache := by
  unfold save
  dsimp only
  split
  · exact ⟨rfl, rfl⟩
  · exact ⟨rfl, rfl⟩

/-- `checkFlag`: `strcmp` compares up to the terminating zero. -/
def checkFlag (file : FILE) (offset : Int32) : Bool × FILE :=
  let read := (seekFileTo file offset 0).2.fread STROAGE_FLAG_LENGTH
  (read.1.length == STROAGE_FLAG_LENGTH && read.1.take 9 == STORAGE_FLAG ++ [0], read.2)

def saveFlag (file : FILE) (offset : Int32) (pageSize : Nat) : Except Fault FILE := do
  let bytes ← flagPage pageSize
  .ok ((seekFileTo file offset 0).2.fwrite bytes)

end SMDTable

instance : PageDevice TableFile where
  getPageByNo table nPageNo := do
    let (page, file, cache) ← table.m_oDevCache.getPageByNo table.file (int nPageNo)
    .ok (page, { table with file := file, m_oDevCache := cache })
  save table _ offset bytes := .ok (SMDTable.save table bytes offset)

namespace SMDTable

/-- `new SMDPageManagement`: the cache is set up before the page table is read. -/
def newPageMgr (newMemory : Nat → Nat → UInt8) (file : FILE) (offset : Int32) (pageSize : Nat)
    (exists' : Bool) : Except Fault (SMDPageManagement TableFile) := do
  let (file, cache) ← CDevCache.init newMemory pageSize CDevCache.DEFAULT_NUM file
  SMDPageManagement.new ⟨file, offset, cache⟩ exists' pageSize

/-- `open` up to the construction of the segments: the allocator of the table, none where
`open` returns false. -/
def open' (newMemory : Nat → Nat → UInt8) (file : FILE) (offset : Int32) (pageSize : Nat)
    (exists' : Bool) : Except Fault (Option (SMDPageManagement TableFile)) :=
  if exists' then
    let checked := checkFlag file offset
    if checked.1 then do
      let pageMgr ← newPageMgr newMemory checked.2 offset pageSize exists'
      .ok (some pageMgr)
    else .ok none
  else do
    let file ← saveFlag file offset pageSize
    let pageMgr ← newPageMgr newMemory file offset pageSize exists'
    .ok (some pageMgr)

end SMDTable

end LevelDBLib.KvDB
