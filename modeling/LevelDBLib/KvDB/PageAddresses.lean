/-
This file compares the two places where the position of a page in the file is
computed: the read cache, from the file and the page size of the call that opens
the table, and the save, from the offset of the table and the page size that the
page table stores.

What the page table stores is said without the cache: `PageReader` finds page
`n` of a table at `base + n * size`. When a table stands alone in its file and is
opened with the page size it stores, the cache shows the page table as the
reader does, so the allocator ends with the stored page size.
-/

import LevelDBLib.KvDB.CachedPages
import LevelDBLib.KvDB.Devices
import LevelDBLib.KvDB.Steady
import LevelDBLib.KvDB.TableFile

namespace LevelDBLib.KvDB

open Agreements Buffers

/-! ### The ranges of a page -/

/-- Where the table starts in its file. -/
def base (offset : Int32) : Nat := offset.toInt.toNat

/-- Start and size of page `n` of a table with pages of `size` bytes. -/
def pageRange (base size n : Nat) : Int × Nat := (base + n * size, size)

/-- The range that `downloadPage` seeks and reads for page `n`. -/
def readRange (table : TableFile) (n : Nat) : Int × Nat :=
  (table.m_oDevCache.pagePosition (int n), table.m_oDevCache._nPageSize)

/-- The range that `savePageToFile` has `SMDTable::save` seek and write for page `n`. -/
def writeRange (mgr : SMDPageManagement TableFile) (n : Nat) : Int × Nat :=
  (SMDTable.filePosition mgr.device.offset (int (uint (n * mgr.m_nPageSize))), mgr.m_nPageSize)

/-- A page of the allocator is saved at the start of its range. -/
theorem save_position (mgr : SMDPageManagement TableFile) (page : SMDPage)
    (sized : page.size = mgr.m_nPageSize) :
    SMDTable.filePosition mgr.device.offset (int page.getFileOffset) =
      (writeRange mgr page.pageno).1 := by
  rw [SMDPage.getFileOffset, sized, writeRange]

/-! ### The page size in the page table -/

/-- A table as it stands in a file from `base` on, in pages of `size` bytes. -/
structure PageReader where
  contents : Bytes
  base : Nat
  size : Nat

/-- Page `n` lies in the file and its position is an `int`, as is the number of every page. -/
def PageReader.Reaches (reader : PageReader) (n : Nat) : Prop :=
  reader.contents.length / reader.size + 1 < 2147483648 ∧
    reader.base + n * reader.size < 2147483648 ∧
    reader.base + n * reader.size + reader.size ≤ reader.contents.length

instance (reader : PageReader) (n : Nat) : Decidable (reader.Reaches n) :=
  inferInstanceAs (Decidable (_ ∧ _ ∧ _))

/-- Reading a page table neither leaves the file nor writes to it. -/
instance : PageDevice PageReader where
  getPageByNo reader n :=
    if reader.Reaches n then
      .ok (some (slice reader.contents (reader.base + n * reader.size) reader.size), reader)
    else .error .outOfBounds
  save _ _ _ _ := .error .assertion

namespace SMDPageManagement

/-- The allocator at the time it reads the page table. -/
def opening {Device : Type} (device : Device) (pageSize : Nat) : SMDPageManagement Device where
  m_PageInfo := [(pageTableKey, ⟨0, 0, 0, 0⟩)]
  m_nPageSize := pageSize
  m_nPageCnt := 0
  externAttributes := []
  device := device

/-- The segment object for the page table at that time. -/
def pageTableFile : SMDPageFile := ⟨.SEG_TYPE_PAGEMGR, PAGE_MANAGEMENT_NAME, 0, none⟩

/-- The page size in the stream of a page table, none where the stream holds no page table. -/
def storedPageSize (stream : SMDMemStream) : Except Fault (Option Nat) := do
  let (beg, stream) ← stream.readBytes 1
  match beg with
  | none => .ok none
  | some beg =>
    if beg = [0] then .ok none
    else do
      let (pageSize, _) ← ((stream.setPosition 4).2).readShort
      .ok (pageSize.map BitVec.toNat)

end SMDPageManagement

open SMDPageManagement

/-- The file holds a table from `base` on whose page table, read in pages of `size` bytes, says
that its pages have `size` bytes. -/
def StoresPageSize (contents : Bytes) (base size : Nat) : Prop :=
  ∃ stream file after,
    pageTableFile.get (opening (PageReader.mk contents base size) size) (SMDMemStream.new 0) (-1) =
        .ok (true, stream, file, after) ∧
      storedPageSize stream = .ok (some size)

/-! ### What loading the page table changes -/

section Loading

variable {Device : Type}

/-- Loading the page table leaves the device alone, and takes over the stored page size. -/
theorem loadInnerInfo_keeps (mgr after : SMDPageManagement Device) (stream : SMDMemStream)
    (complete : Bool) (loaded : mgr.loadInnerInfo stream = .ok (complete, after)) :
    after.device = mgr.device ∧
      ∀ size, storedPageSize stream = .ok (some size) → after.m_nPageSize = size := by
  unfold loadInnerInfo at loaded
  unfold storedPageSize
  obtain ⟨⟨beg, rest⟩, read, loaded⟩ := (bind_eq_ok _ _ _).mp loaded
  rw [read, ok_bind]
  cases beg with
  | none =>
    cases loaded
    refine ⟨rfl, fun size stored => ?_⟩
    cases stored
  | some beg =>
    dsimp only at loaded ⊢
    by_cases blank : beg = [0]
    · rw [if_pos blank] at loaded ⊢
      cases loaded
      refine ⟨rfl, fun size stored => ?_⟩
      cases stored
    · rw [if_neg blank] at loaded ⊢
      obtain ⟨⟨pageSize, rest⟩, read, loaded⟩ := (bind_eq_ok _ _ _).mp loaded
      rw [read, ok_bind]
      cases pageSize with
      | none =>
        cases loaded
        refine ⟨rfl, fun size stored => ?_⟩
        cases stored
      | some pageSize =>
        have kept : after.device = mgr.device ∧ after.m_nPageSize = pageSize.toNat := by
          obtain ⟨⟨pageCnt, rest⟩, _, loaded⟩ := (bind_eq_ok _ _ _).mp loaded
          cases pageCnt with
          | none =>
            cases loaded
            exact ⟨rfl, rfl⟩
          | some pageCnt =>
            obtain ⟨⟨count, rest⟩, _, loaded⟩ := (bind_eq_ok _ _ _).mp loaded
            cases count with
            | none =>
              cases loaded
              exact ⟨rfl, rfl⟩
            | some count =>
              obtain ⟨⟨attributes, rest⟩, _, loaded⟩ := (bind_eq_ok _ _ _).mp loaded
              obtain ⟨⟨pairs, rest⟩, _, loaded⟩ := (bind_eq_ok _ _ _).mp loaded
              obtain ⟨⟨complete, info⟩, _, loaded⟩ := (bind_eq_ok _ _ _).mp loaded
              cases loaded
              exact ⟨rfl, rfl⟩
        refine ⟨kept.1, fun size stored => ?_⟩
        cases stored
        exact kept.2

variable [PageDevice Device]

/-- An allocator that was opened on an existing table read the page table first. -/
theorem new_cases (device : Device) (pageSize : Nat) (mgr : SMDPageManagement Device)
    (opened : SMDPageManagement.new device true pageSize = .ok mgr) :
    ∃ found stream file after complete,
      pageTableFile.get (opening device pageSize) (SMDMemStream.new 0) (-1) =
          .ok (found, stream, file, after) ∧
        (found = true ∧ after.loadInnerInfo stream = .ok (complete, mgr) ∨
          found = false ∧ mgr = after) := by
  unfold SMDPageManagement.new at opened
  obtain ⟨⟨complete, last⟩, loaded, opened⟩ := (bind_eq_ok _ _ _).mp opened
  cases opened
  unfold getInnerInfoFromFile at loaded
  obtain ⟨⟨found, stream, file, after⟩, read, loaded⟩ := (bind_eq_ok _ _ _).mp loaded
  refine ⟨found, stream, file, after, complete, read, ?_⟩
  cases found with
  | true => exact Or.inl ⟨rfl, loaded⟩
  | false =>
    cases loaded
    exact Or.inr ⟨rfl, rfl⟩

/-- Opening a table keeps what is steady. -/
theorem new_steady {size : Nat} {holds : Device → Prop} (steady : Steady size holds)
    (device : Device) (kept : holds device) (exists' : Bool) :
    Returns (fun mgr => holds mgr.device) (SMDPageManagement.new device exists' size) := by
  intro mgr opened
  cases exists' with
  | false =>
    cases opened
    exact kept
  | true =>
    obtain ⟨found, stream, file, after, complete, read, rest⟩ := new_cases _ _ _ opened
    have mounted : Over size holds (opening device size) := ⟨rfl, kept⟩
    obtain ⟨_, keptAfter⟩ := SMDPageFile.get_steady steady mounted pageTableFile
      (fun page member => nomatch member) (SMDMemStream.new 0) (-1) _ read
    rcases rest with ⟨_, loaded⟩ | ⟨_, rfl⟩
    · rw [(loadInnerInfo_keeps _ _ _ _ loaded).1]
      exact keptAfter
    · exact keptAfter

end Loading

/-! ### What the cache keeps -/

theorem CDevCache.getPageByNo_keeps (cache after : CDevCache) (file rest : FILE) (nPageNo : Int)
    (page : Option Bytes) (returned : cache.getPageByNo file nPageNo = .ok (page, rest, after)) :
    after._nPageSize = cache._nPageSize := by
  unfold getPageByNo at returned
  split at returned
  · cases returned
    rfl
  · obtain ⟨bufNo, _, returned⟩ := (bind_eq_ok _ _ _).mp returned
    split at returned
    · obtain ⟨⟨bufNo, swapped⟩, swap, returned⟩ := (bind_eq_ok _ _ _).mp returned
      obtain ⟨⟨former, lazy, que⟩, _, swap⟩ := (bind_eq_ok _ _ _).mp swap
      cases swap
      obtain ⟨⟨read, loaded⟩, download, returned⟩ := (bind_eq_ok _ _ _).mp returned
      obtain ⟨found, _, returned⟩ := (bind_eq_ok _ _ _).mp returned
      cases returned
      unfold downloadPage at download
      split at download
      · cases download
      · cases download
        rfl
    · obtain ⟨que, _, returned⟩ := (bind_eq_ok _ _ _).mp returned
      obtain ⟨found, _, returned⟩ := (bind_eq_ok _ _ _).mp returned
      cases returned
      rfl

/-- The offset of a table and the page size of its cache never change. -/
theorem steady_table (offset : Int32) (pageSize size : Nat) :
    Steady size fun table : TableFile =>
      table.offset = offset ∧ table.m_oDevCache._nPageSize = pageSize := by
  constructor
  · rintro table pageno ⟨offsetEq, sizeEq⟩ ⟨page, after⟩ returned
    obtain ⟨⟨found, rest, cache⟩, call, returned⟩ := (bind_eq_ok _ _ _).mp returned
    cases returned
    exact ⟨offsetEq, (CDevCache.getPageByNo_keeps _ _ _ _ _ _ call).trans sizeEq⟩
  · rintro table pageno bytes ⟨offsetEq, sizeEq⟩ _ _
    have kept := SMDTable.save_keeps table bytes (uint (pageno * size))
    exact Returns.ok ⟨kept.1.trans offsetEq, by rw [kept.2]; exact sizeEq⟩

/-- The cache of an open table has the page size of the call, and the table its offset. -/
theorem newPageMgr_keeps (newMemory : Nat → Nat → UInt8) (file : FILE) (offset : Int32)
    (pageSize : Nat) (mgr : SMDPageManagement TableFile)
    (opened : SMDTable.newPageMgr newMemory file offset pageSize true = .ok mgr) :
    mgr.device.offset = offset ∧ mgr.device.m_oDevCache._nPageSize = pageSize := by
  unfold SMDTable.newPageMgr at opened
  obtain ⟨⟨file, cache⟩, init, opened⟩ := (bind_eq_ok _ _ _).mp opened
  have sizeEq : cache._nPageSize = pageSize := by
    unfold CDevCache.init at init
    split at init
    · cases init
    · cases init
      rfl
  exact new_steady (steady_table offset pageSize pageSize) _ ⟨rfl, sizeEq⟩ true mgr opened

/-! ### A table that stands alone in its file -/

/-- The cache shows the file as the reader does. -/
structure Shows (size : Nat) (table : TableFile) (reader : PageReader) : Prop where
  alone : reader = ⟨table.file.contents, 0, size⟩
  positive : 0 < size
  sound : table.m_oDevCache.Sound
  pageSize : table.m_oDevCache._nPageSize = size
  pages : table.m_oDevCache._nMaxPageNum = CDevCache.pageNum table.file size
  copies : ∀ n page, table.m_oDevCache.copy n = some page → reader.Reaches n →
    slice page 0 size = slice table.file.contents (n * size) size

/-- A page that lies in the file has its number below the number of pages. -/
theorem below_pageNum (file : FILE) (size n : Nat) (positive : 0 < size)
    (small : file.contents.length / size + 1 < 2147483648)
    (inside : n * size + size ≤ file.contents.length) :
    (n : Int) < CDevCache.pageNum file size := by
  have whole : n + 1 ≤ file.contents.length / size := by
    rw [Nat.le_div_iff_mul_le positive, Nat.add_mul, Nat.one_mul]
    exact inside
  unfold CDevCache.pageNum
  dsimp only
  rw [← Int.natCast_ediv]
  split
  · rw [int_of_lt _ (by omega)]
    omega
  · have next := int_of_lt (file.contents.length / size + 1) small
    rw [Int.natCast_add, Int.natCast_one] at next
    rw [next]
    omega

theorem int_mul_of_lt (n size : Nat) (small : n * size < 2147483648) (positive : 0 < size) :
    int (int n * size) = (n * size : Nat) := by
  have number : n < 2147483648 := Nat.lt_of_le_of_lt (Nat.le_mul_of_pos_right n positive) small
  rw [int_of_lt n number, ← Int.natCast_mul, int_of_lt _ small]

/-- The bytes of a page that the cache shows, as the allocator copies them. -/
theorem fetch_page (page bytes : Bytes) (size : Nat) (length : page.length = size + 4)
    (same : slice page 0 size = bytes) (whole : bytes.length = size) :
    Agree Eq (fetch page 0 size) (fetch bytes 0 size) := by
  rw [fetch_of_le _ _ _ (by omega), fetch_of_le _ _ _ (by omega), same, ← whole, slice_all]
  exact Agree.ok rfl

/-- A page that the reader reaches is served as the reader serves it. -/
theorem Shows.load {size n : Nat} {table : TableFile} {reader : PageReader}
    (shown : Shows size table reader) (reached : reader.Reaches n)
    (inside : n < table.m_oDevCache._PageMap._nMaxPageNum) :
    ∃ page after, PageDevice.getPageByNo table n = .ok (some page, after) ∧
      page.length = size + 4 ∧ slice page 0 size = slice table.file.contents (n * size) size ∧
      Shows size after reader := by
  obtain ⟨alone, positive, sound, pageSize, pages, copies⟩ := shown
  have place := reached
  rw [alone] at place
  obtain ⟨small, position, within⟩ := place
  rw [Nat.zero_add] at position within
  have below := below_pageNum table.file size n positive small within
  rw [← pages] at below
  have few := sound.few_pages
  have number : int n = n := int_of_lt n (by omega)
  have call : ∀ page rest cache,
      table.m_oDevCache.getPageByNo table.file n = .ok (page, rest, cache) →
        PageDevice.getPageByNo table n = .ok (page, TableFile.mk rest table.offset cache) := by
    intro page rest cache returned
    show (table.m_oDevCache.getPageByNo table.file (int n) >>= _) = _
    rw [number, returned]
    rfl
  cases held : table.m_oDevCache.copy n with
  | some page =>
    obtain ⟨after, served, soundAfter, sizeAfter, pagesAfter, _, same⟩ :=
      sound.getPageByNo_held table.file n page below held
    obtain ⟨bufNo, _, buffer⟩ := (CDevCache.copy_eq_some_iff _ n page).mp held
    refine ⟨page, _, call _ _ _ served, ?_, copies n page held reached, alone, positive, soundAfter,
      sizeAfter.trans pageSize, pagesAfter.trans pages, ?_⟩
    · rw [← pageSize]
      exact sound.guarded bufNo page buffer
    · rw [same]
      exact copies
  | none =>
    obtain ⟨page, rest, after, served, soundAfter, sizeAfter, pagesAfter, _, contents, reads, mine,
      others⟩ := sound.getPageByNo_missing table.file n below inside held
    have start : table.m_oDevCache.pagePosition n = (n * size : Nat) := by
      rw [CDevCache.pagePosition, pageSize, ← int_mul_of_lt n size position positive, number]
    have read := reads.2 (n * size) start (by rw [pageSize]; exact within)
    rw [pageSize] at read
    refine ⟨page, _, call _ _ _ served, ?_, read, ?_, positive, soundAfter,
      sizeAfter.trans pageSize, ?_, ?_⟩
    · rw [← pageSize]
      exact reads.1
    · rw [alone, contents]
    · rw [pagesAfter, pages, CDevCache.pageNum, CDevCache.pageNum, contents]
    · intro other copied heldAfter otherReached
      rw [contents]
      by_cases same : other = n
      · rw [same, mine] at heldAfter
        cases heldAfter
        rw [same]
        exact read
      · exact copies other copied (others other copied same heldAfter) otherReached

/-- A page number outside the page map is a fault. -/
theorem load_outside (table : TableFile) (n : Nat) (sound : table.m_oDevCache.Sound)
    (below : int n < table.m_oDevCache._nMaxPageNum)
    (outside : table.m_oDevCache._PageMap._nMaxPageNum ≤ n) (number : int n = n) :
    PageDevice.getPageByNo table n = .error .outOfBounds := by
  have length := sound.length_map
  show (table.m_oDevCache.getPageByNo table.file (int n) >>= _) = _
  rw [CDevCache.getPageByNo, if_neg (by omega), number, CPageMap.getBufferNo, if_neg (by omega),
    Int.toNat_natCast, List.getElem?_eq_none (by omega)]
  rfl

theorem Shows.mirrors (size : Nat) : Mirrors size (Shows size) := by
  constructor
  · intro table reader n shown
    by_cases reached : reader.Reaches n
    · have found : PageDevice.getPageByNo reader n =
          .ok (some (slice reader.contents (reader.base + n * reader.size) reader.size), reader) :=
        if_pos reached
      by_cases inside : n < table.m_oDevCache._PageMap._nMaxPageNum
      · obtain ⟨page, after, served, length, bytes, shownAfter⟩ := shown.load reached inside
        rw [served, found]
        have whole := reached.2.2
        refine Agree.ok ⟨Or.inr ⟨page, _, rfl, rfl, ?_⟩, shownAfter⟩
        rw [shown.alone] at whole ⊢
        rw [Nat.zero_add] at whole ⊢
        exact fetch_page page _ size length bytes (length_slice _ _ _ whole)
      · have place := reached
        rw [shown.alone] at place
        obtain ⟨small, position, within⟩ := place
        rw [Nat.zero_add] at position within
        have number : n < 2147483648 :=
          Nat.lt_of_le_of_lt (Nat.le_mul_of_pos_right n shown.positive) position
        rw [load_outside table n shown.sound ?_ (by omega) (int_of_lt n number)]
        · exact Agree.error_left _ _
        · rw [int_of_lt n number, shown.pages]
          exact below_pageNum table.file size n shown.positive small within
    · have fault : PageDevice.getPageByNo reader n = .error .outOfBounds := if_neg reached
      rw [fault]
      exact Agree.error_right _ _
  · intro table reader n offset bytes _
    exact Agree.error_right _ _

/-- A table that stands alone in its file and is opened with the page size it stores has that
page size. -/
theorem newPageMgr_pageSize (newMemory : Nat → Nat → UInt8) (file : FILE) (offset : Int32)
    (size : Nat) (mgr : SMDPageManagement TableFile)
    (opened : SMDTable.newPageMgr newMemory file offset size true = .ok mgr)
    (stored : StoresPageSize file.contents 0 size) : mgr.m_nPageSize = size := by
  unfold SMDTable.newPageMgr at opened
  obtain ⟨⟨rest, cache⟩, init, opened⟩ := (bind_eq_ok _ _ _).mp opened
  have positive : size ≠ 0 := by
    intro zero
    rw [CDevCache.init, if_pos zero] at init
    cases init
  obtain ⟨made, equal, sound, sizeEq, pages, _, nothing⟩ :=
    CDevCache.init_spec newMemory size CDevCache.DEFAULT_NUM file positive (by decide) (by decide)
  rw [equal] at init
  cases init
  obtain ⟨stream, segment, readerMgr, readerRead, sized⟩ := stored
  obtain ⟨found, other, segmentAgain, after, complete, read, rest⟩ := new_cases _ _ _ opened
  have shown : Shows size (TableFile.mk { file with position := 0 } offset cache)
      ⟨file.contents, 0, size⟩ :=
    ⟨rfl, Nat.pos_of_ne_zero positive, sound, sizeEq, pages, fun n page held _ => by
      rw [nothing n] at held
      cases held⟩
  have agreed := get_agree (Shows.mirrors size)
    (Paired.mk (opening (TableFile.mk { file with position := 0 } offset cache) size)
      (PageReader.mk file.contents 0 size) rfl shown) pageTableFile (SMDMemStream.new 0) (-1) _ _
    read readerRead
  obtain ⟨foundEq, streamEq, _⟩ := agreed
  dsimp only at foundEq streamEq
  rcases rest with ⟨_, loaded⟩ | ⟨missed, _⟩
  · rw [streamEq] at loaded
    exact (loadInnerInfo_keeps _ _ _ _ loaded).2 size sized
  · rw [missed] at foundEq
    cases foundEq

/-! ### Both ranges -/

/-- A table that was opened was opened by `new SMDPageManagement` on the same bytes. -/
theorem newPageMgr_of_open (newMemory : Nat → Nat → UInt8) (file : FILE) (offset : Int32)
    (pageSize : Nat) (mgr : SMDPageManagement TableFile)
    (opened : SMDTable.open' newMemory file offset pageSize true = .ok (some mgr)) :
    ∃ checked : FILE, checked.contents = file.contents ∧
      SMDTable.newPageMgr newMemory checked offset pageSize true = .ok mgr := by
  refine ⟨(SMDTable.checkFlag file offset).2, ?_, ?_⟩
  · show ((SMDTable.seekFileTo file offset 0).2.fread _).2.contents = _
    rw [FILE.contents_fread, SMDTable.seekFileTo, FILE.contents_fseek]
  · rw [SMDTable.open', if_pos rfl] at opened
    dsimp only at opened
    split at opened
    · obtain ⟨made, call, opened⟩ := (bind_eq_ok _ _ _).mp opened
      cases opened
      exact call
    · cases opened

theorem int_mul_int (number factor : Int) : int (int number * factor) = int (number * factor) := by
  obtain ⟨turns, equal⟩ : ∃ turns, int number = number + 4294967296 * turns :=
    ⟨-((number + 2147483648) / 4294967296), by unfold int; omega⟩
  rw [equal, Int.add_mul, Int.mul_assoc]
  generalize number * factor = product
  generalize turns * factor = rest
  unfold int
  omega

/-- The cache reads every page where it is saved exactly when the table stands alone in its
file, is opened with the page size it stores, and the page starts at an `int` position. -/
theorem page_ranges_agree_iff (newMemory : Nat → Nat → UInt8) (file : FILE) (offset : Int32)
    (pageSize stored : Nat) (mgr : SMDPageManagement TableFile)
    (opened : SMDTable.open' newMemory file offset pageSize true = .ok (some mgr))
    (table : StoresPageSize file.contents (base offset) stored) (n : Nat) :
    readRange mgr.device n = pageRange (base offset) stored n ∧
        writeRange mgr n = pageRange (base offset) stored n ↔
      offset.toInt ≤ 0 ∧ pageSize = stored ∧ n * stored < 2147483648 := by
  obtain ⟨checked, contents, made⟩ := newPageMgr_of_open _ _ _ _ _ opened
  obtain ⟨offsetEq, cacheSize⟩ := newPageMgr_keeps _ _ _ _ _ made
  unfold readRange writeRange pageRange
  rw [offsetEq, CDevCache.pagePosition, cacheSize, int_mul_int]
  constructor
  · rintro ⟨read, _⟩
    obtain ⟨start, rfl⟩ := Prod.mk.inj read
    have place : int (n * pageSize : Nat) = base offset + (n * pageSize : Nat) := by
      rw [Int.natCast_mul]
      exact start
    have bounds : (n * pageSize : Nat) < 2147483648 ∧ base offset = 0 := by
      unfold int at place
      omega
    exact ⟨Int.toNat_eq_zero.mp bounds.2, rfl, bounds.1⟩
  · rintro ⟨alone, rfl, small⟩
    have nothing : base offset = 0 := Int.toNat_eq_zero.mpr alone
    have pageSizeEq : mgr.m_nPageSize = pageSize := by
      refine newPageMgr_pageSize _ _ _ _ _ made ?_
      rw [contents, ← nothing]
      exact table
    have position : int (n * pageSize : Nat) = (n * pageSize : Nat) := int_of_lt _ small
    rw [Int.natCast_mul] at position
    rw [pageSizeEq, SMDTable.filePosition, if_neg (by omega), int_uint, position, nothing,
      Int.natCast_zero, Int.zero_add]
    exact ⟨rfl, rfl⟩

/-! ### Sample tables -/

/-- The stream of a page table that registers nothing but itself. -/
def sampleStream : Bytes :=
  [1, 0, 0, 0] ++ SMDValue.putShort 128 ++ SMDValue.putInt 0 ++ SMDValue.putInt 1 ++
    SMDValue.putInt 0 ++ [6] ++ SMDMemStream.stringBytes PAGE_MANAGEMENT_NAME ++
    List.replicate 12 0

/-- A saved table of one page of 128 bytes. -/
def sampleTable : Bytes :=
  STORAGE_FLAG ++ List.replicate 8 0 ++ SMDValue.putInt 0xFFFFFFFF ++ SMDValue.putShort 50 ++
    List.replicate 6 0 ++ SMDValue.putInt 46 ++ sampleStream ++ List.replicate 50 0

example : ((PageDisk.create 128 >>= fun disk => SMDPageManagement.new disk false 128) >>=
    fun mgr => mgr.save).map (fun saved => saved.2.device.pages) = .ok [sampleTable] := by
  decide +kernel

/-- The page size that a reader finds, with whether it found a page table. -/
def readSize (contents : Bytes) (base size : Nat) : Except Fault (Bool × Option Nat) := do
  let read ← pageTableFile.get (opening (PageReader.mk contents base size) size)
    (SMDMemStream.new 0) (-1)
  let stored ← storedPageSize read.2.1
  .ok (read.1, stored)

theorem storesPageSize_of_read (contents : Bytes) (base size : Nat)
    (read : readSize contents base size = .ok (true, some size)) :
    StoresPageSize contents base size := by
  obtain ⟨⟨found, stream, file, after⟩, call, read⟩ := (bind_eq_ok _ _ _).mp read
  obtain ⟨stored, says', read⟩ := (bind_eq_ok _ _ _).mp read
  cases read
  exact ⟨stream, file, after, call, says'⟩

theorem opened_of_isSome (newMemory : Nat → Nat → UInt8) (file : FILE) (offset : Int32)
    (pageSize : Nat)
    (opened : (SMDTable.open' newMemory file offset pageSize true).map Option.isSome = .ok true) :
    ∃ mgr, SMDTable.open' newMemory file offset pageSize true = .ok (some mgr) := by
  cases call : SMDTable.open' newMemory file offset pageSize true with
  | error fault =>
    rw [call] at opened
    cases opened
  | ok mgr =>
    cases mgr with
    | none =>
      rw [call] at opened
      cases opened
    | some mgr => exact ⟨mgr, rfl⟩

/-- Page 3 of a table of four pages. -/
theorem page_ranges_agree_once :
    ∃ mgr, SMDTable.open' (fun _ _ => 0) ⟨sampleTable ++ List.replicate 384 0, 0⟩ (-1) 128 true =
        .ok (some mgr) ∧
      readRange mgr.device 3 = (384, 128) ∧ writeRange mgr 3 = (384, 128) := by
  obtain ⟨mgr, opened⟩ := opened_of_isSome (fun _ _ => 0) ⟨sampleTable ++ List.replicate 384 0, 0⟩
    (-1) 128 (by decide +kernel)
  have table := storesPageSize_of_read (sampleTable ++ List.replicate 384 0) (base (-1)) 128
    (by decide +kernel)
  have ranges := (page_ranges_agree_iff (fun _ _ => 0) _ (-1) 128 128 mgr opened table 3).mpr
    ⟨by decide, rfl, by decide⟩
  exact ⟨mgr, opened, ranges⟩

/-- Two tables in one file: the second one is opened at its offset and with its page size, its
page 0 is saved behind the first table and read from the first table. -/
theorem page_ranges_differ :
    ∃ mgr, SMDTable.open' (fun _ _ => 0) ⟨sampleTable ++ sampleTable, 0⟩ 128 128 true =
        .ok (some mgr) ∧
      StoresPageSize (sampleTable ++ sampleTable) 128 128 ∧
      readRange mgr.device 0 = (0, 128) ∧ pageRange 128 128 0 = (128, 128) := by
  obtain ⟨mgr, opened⟩ := opened_of_isSome (fun _ _ => 0) ⟨sampleTable ++ sampleTable, 0⟩ 128 128
    (by decide +kernel)
  have table := storesPageSize_of_read (sampleTable ++ sampleTable) 128 128 (by decide +kernel)
  refine ⟨mgr, opened, table, ?_, by decide⟩
  obtain ⟨checked, _, made⟩ := newPageMgr_of_open _ _ _ _ _ opened
  rw [readRange, CDevCache.pagePosition, (newPageMgr_keeps _ _ _ _ _ made).2]
  rfl

end LevelDBLib.KvDB
