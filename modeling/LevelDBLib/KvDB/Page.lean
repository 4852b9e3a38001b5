/-
This file models `SMDPage`: one page of the table file in memory, with the
header that `push` and `pop` move between the object and the buffer.

A page is more than its bytes: the header lives twice, in the object and in the
buffer, and only `push` copies the object's header into the buffer. What the
layers above reason about is the `PageView`, the link, the free space and the
body behind the header. The lemmas of this file say what every member does to
the view of a well-formed page, and that the view survives `push` and `pop`.
-/

import LevelDBLib.KvDB.Value

namespace LevelDBLib.KvDB

open Buffers

/-- `STORAGE_FLAG`, the text "SMDTABLE". -/
def STORAGE_FLAG : Bytes := [0x53, 0x4D, 0x44, 0x54, 0x41, 0x42, 0x4C, 0x45]

def STROAGE_FLAG_LENGTH : Nat := 16

/-- The link of a page that has no next page. -/
def noNextPage : Nat := 0xFFFFFFFF

structure SMDPageHead where
  space : Nat
  reserve1 : Nat
  reserve2 : Nat
  next : Nat
deriving DecidableEq, Repr

/-- `sizeof(SMDPageHead)`. -/
def sizeofHead : Nat := 12

structure SMDPage where
  modify : Bool
  size : Nat
  pageno : Nat
  data : Bytes
  head : SMDPageHead
deriving DecidableEq, Repr

namespace SMDPage

/-! ### The members of SMDPage -/

/-- Page 0 carries the file flag in front of its header. -/
def checkFirstPage (page : SMDPage) : Except Fault SMDPage :=
  if page.pageno = 0 then do
    let data ← memcpy page.data 0 (STORAGE_FLAG ++ [0])
    .ok { page with
      data := data
      head := { page.head with
        space := ushort (page.size - sizeofHead - STROAGE_FLAG_LENGTH) } }
  else .ok page

def freshHead (size : Nat) : SMDPageHead :=
  { space := ushort (size - sizeofHead), reserve1 := 0, reserve2 := 0, next := noNextPage }

/-- The constructor. -/
def new (size pageno : Nat) : Except Fault SMDPage :=
  checkFirstPage
    { modify := true, size := size, pageno := pageno, data := List.replicate size 0,
      head := freshHead size }

def reset (page : SMDPage) (size pageno : Nat) : Except Fault SMDPage :=
  checkFirstPage
    { modify := true, size := size, pageno := pageno,
      data := List.replicate page.data.length 0, head := freshHead size }

def freeSpace (page : SMDPage) : Except Fault SMDPage :=
  checkFirstPage
    { page with
      modify := true
      data := List.replicate page.data.length 0
      head := { page.head with space := ushort (page.size - sizeofHead) } }

/-- Where the header starts in the buffer. -/
def headOffset (pageno : Nat) : Nat := if pageno = 0 then STROAGE_FLAG_LENGTH else 0

/-- Sign extension of a 16-bit pattern to `unsigned int`. -/
def extendShort (sval : BitVec 16) : Nat := uint sval.toInt

def pop (page : SMDPage) : Except Fault SMDPage := do
  let at' := headOffset page.pageno
  let next ← fetch page.data at' 4
  let space ← fetch page.data (at' + 4) 2
  let reserve1 ← fetch page.data (at' + 6) 2
  let reserve2 ← fetch page.data (at' + 10) 2
  .ok { page with head :=
    { next := (SMDValue.getInt next).toNat
      space := (SMDValue.getShort space).toNat
      reserve1 := (SMDValue.getShort reserve1).toNat
      reserve2 := extendShort (SMDValue.getShort reserve2) } }

/-- The buffer of page 0 with the file flag written again; other buffers as they are. -/
def pushFlag (page : SMDPage) : Except Fault Bytes :=
  if page.pageno = 0 then memcpy page.data 0 STORAGE_FLAG else .ok page.data

def push (page : SMDPage) : Except Fault SMDPage := do
  let at' := headOffset page.pageno
  let data ← page.pushFlag
  let data ← memcpy data at' (SMDValue.putInt (BitVec.ofNat 32 page.head.next))
  let data ← memcpy data (at' + 4) (SMDValue.putShort (BitVec.ofNat 16 page.head.space))
  let data ← memcpy data (at' + 6) (SMDValue.putShort (BitVec.ofNat 16 page.head.reserve1))
  -- the source stores reserve1 here a second time, where pop looks for reserve2
  let data ← memcpy data (at' + 10) (SMDValue.putShort (BitVec.ofNat 16 page.head.reserve1))
  .ok { page with data := data }

def getNextPageNo (page : SMDPage) : Nat := page.head.next

def isLastPage (page : SMDPage) : Bool := page.head.next == noNextPage

def setNextPageNo (page : SMDPage) (nextPageNo : Nat) : SMDPage :=
  { page with head := { page.head with next := nextPageNo }, modify := true }

def getPageNo (page : SMDPage) : Nat := page.pageno

def getSize (page : SMDPage) : Nat := page.size

def getOffsetToEndSize (page : SMDPage) (offset : Int) : Int :=
  page.size - offset.tmod page.size

def getFileOffset (page : SMDPage) : Nat := uint (page.pageno * page.size)

def getContentOffset (page : SMDPage) : Nat :=
  uint (page.pageno * page.size + sizeofHead + headOffset page.pageno)

def getSpaceOffset (page : SMDPage) : Nat := ushort (page.size - page.head.space)

def getSpace (page : SMDPage) : Nat := page.head.space

/-- `read(offset, buffer, sz)` into a buffer that holds `sz` bytes: the bytes copied. -/
def read (page : SMDPage) (offset sz : Nat) : Except Fault Bytes :=
  let pageOffset := offset % page.size
  if page.getSpaceOffset < pageOffset + sz then
    let rest := ushort (page.getSpaceOffset - pageOffset)
    if rest ≤ sz then fetch page.data pageOffset rest else .error .outOfBounds
  else fetch page.data pageOffset sz

/-- `write(buffer, sz)`: as much of the buffer as the free space takes. -/
def write (page : SMDPage) (buffer : Bytes) : Except Fault SMDPage :=
  if page.head.space = 0 then .ok page
  else do
    let wr := min page.head.space (ushort buffer.length)
    let data ← memcpy page.data page.getSpaceOffset (buffer.take wr)
    .ok { page with
      data := data, modify := true
      head := { page.head with space := page.head.space - wr } }

/-- `write(buffer, sz, offset)`: the offset arrives as an `unsigned short`. -/
def writeAt (page : SMDPage) (buffer : Bytes) (offset : Int) : Except Fault SMDPage :=
  let at' := ushort offset % page.size
  if page.size < at' + buffer.length then .error .assertion
  else do
    let data ← memcpy page.data at' buffer
    .ok { page with data := data, modify := true }

end SMDPage

/-! ### What a page means -/

/-- The link, the free space and the body of a page. -/
structure PageView where
  next : Nat
  space : Nat
  body : Bytes
deriving DecidableEq, Repr

namespace PageView

/-- A page with nothing on it and no next page. -/
def blank (room : Nat) : PageView := ⟨noNextPage, room, List.replicate room 0⟩

/-- How much of the body is taken. -/
def used (view : PageView) : Nat := view.body.length - view.space

/-- The page with `bytes` put behind what is already on it. -/
def append (view : PageView) (bytes : Bytes) : PageView :=
  { view with
    space := view.space - bytes.length, body := splice view.body view.used bytes }

/-- The page with the body bytes from `start` on replaced. -/
def overwrite (view : PageView) (start : Nat) (bytes : Bytes) : PageView :=
  { view with body := splice view.body start bytes }

/-- The page emptied, its link kept. -/
def freed (view : PageView) : PageView :=
  { view with space := view.body.length, body := List.replicate view.body.length 0 }

def linked (view : PageView) (next : Nat) : PageView := { view with next := next }

end PageView

/-- Where the body starts in the buffer. -/
def bodyOffset (pageno : Nat) : Nat := SMDPage.headOffset pageno + sizeofHead

theorem bodyOffset_zero : bodyOffset 0 = 28 := rfl

theorem bodyOffset_pos (pageno : Nat) (positive : pageno ≠ 0) : bodyOffset pageno = 12 := by
  simp only [bodyOffset, SMDPage.headOffset, if_neg positive, sizeofHead]

theorem bodyOffset_eq (pageno : Nat) : bodyOffset pageno = SMDPage.headOffset pageno + 12 := rfl

/-! ### Addresses -/

theorem address_div {pageno position pageSize : Nat} (inside : position < pageSize) :
    (pageno * pageSize + position) / pageSize = pageno := by
  rw [Nat.mul_comm, Nat.mul_add_div (by omega), Nat.div_eq_of_lt inside, Nat.add_zero]

theorem address_mod {pageno position pageSize : Nat} (inside : position < pageSize) :
    (pageno * pageSize + position) % pageSize = position := by
  rw [Nat.mul_comm, Nat.mul_add_mod, Nat.mod_eq_of_lt inside]

/-- The page of a place in the body of a page. -/
theorem place_div {pageSize pageno body pos : Nat} (inside : body + pos < pageSize) :
    (pageno * pageSize + body + pos) / pageSize = pageno := by
  rw [Nat.add_assoc, address_div inside]

theorem place_mod {pageSize pageno body pos : Nat} (inside : body + pos < pageSize) :
    (pageno * pageSize + body + pos) % pageSize = body + pos := by
  rw [Nat.add_assoc, address_mod inside]

/-- Every page of a file ends with the file or before. -/
theorem page_end_le {pageno count pageSize limit : Nat} (allocated : pageno ≤ count)
    (fileSize : (count + 1) * pageSize ≤ limit) : pageno * pageSize + pageSize ≤ limit := by
  rw [← Nat.succ_mul]
  exact Nat.le_trans (Nat.mul_le_mul_right _ (Nat.succ_le_succ allocated)) fileSize

theorem headOffset_cases (pageno : Nat) :
    pageno = 0 ∧ SMDPage.headOffset pageno = 16 ∨
      pageno ≠ 0 ∧ SMDPage.headOffset pageno = 0 := by
  by_cases zero : pageno = 0
  · exact Or.inl ⟨zero, by rw [SMDPage.headOffset, if_pos zero]; rfl⟩
  · exact Or.inr ⟨zero, by rw [SMDPage.headOffset, if_neg zero]⟩

theorem bodyOffset_le (pageno : Nat) : bodyOffset pageno ≤ 28 := by
  rw [bodyOffset_eq]
  have cases := headOffset_cases pageno
  omega

/-- The view of the page whose bytes stand in a buffer or in the file. -/
def viewOf (pageno : Nat) (bytes : Bytes) : PageView where
  next := (SMDValue.getInt (slice bytes (SMDPage.headOffset pageno) 4)).toNat
  space := (SMDValue.getShort (slice bytes (SMDPage.headOffset pageno + 4) 2)).toNat
  body := bytes.drop (bodyOffset pageno)

namespace SMDPage

/-- The view of a page object. -/
def view (page : SMDPage) : PageView :=
  ⟨page.head.next, page.head.space, page.data.drop (bodyOffset page.pageno)⟩

/-- A page object of the given page size whose header is in range. -/
structure WellFormed (page : SMDPage) (pageSize : Nat) : Prop where
  size_eq : page.size = pageSize
  length_eq : page.data.length = pageSize
  sizeLt : pageSize < 65536
  space_le : page.head.space + bodyOffset page.pageno ≤ pageSize
  next_lt : page.head.next < 4294967296

/-! ### Views of fresh and freed pages -/

theorem drop_splice_front (buffer : Bytes) (start : Nat) (source : Bytes) (from' : Nat)
    (bound : start + source.length ≤ buffer.length) (before : start + source.length ≤ from') :
    (splice buffer start source).drop from' = buffer.drop from' := by
  refine List.ext_getElem? fun index => ?_
  rw [List.getElem?_drop, List.getElem?_drop, getElem?_splice buffer start source _ bound,
    if_neg (by omega)]

theorem drop_replicate_zero (count from' : Nat) :
    (List.replicate count (0 : UInt8)).drop from' = List.replicate (count - from') 0 :=
  List.drop_replicate

/-- `checkFirstPage` on a page with a fresh header leaves the body alone and sets the free
space to the whole body. -/
theorem checkFirstPage_spec (page : SMDPage) (pageSize : Nat)
    (sizeEq : page.size = pageSize) (lengthEq : page.data.length = pageSize)
    (sizeLt : pageSize < 65536) (room : bodyOffset page.pageno ≤ pageSize)
    (spaceEq : page.head.space = ushort (pageSize - sizeofHead))
    (nextLt : page.head.next < 4294967296) :
    ∃ checked, page.checkFirstPage = .ok checked ∧ checked.WellFormed pageSize ∧
      checked.pageno = page.pageno ∧ checked.modify = page.modify ∧
      checked.view = ⟨page.head.next, pageSize - bodyOffset page.pageno,
        page.data.drop (bodyOffset page.pageno)⟩ := by
  subst sizeEq
  rcases headOffset_cases page.pageno with ⟨zero, atEq⟩ | ⟨positive, atEq⟩
  · rw [bodyOffset_eq, atEq] at room ⊢
    have flagged := memcpy_of_le page.data 0 (STORAGE_FLAG ++ [0])
      (by rw [lengthEq]; exact Nat.le_trans (by decide : 9 ≤ 16 + 12) room)
    have bound : 0 + (STORAGE_FLAG ++ [0]).length ≤ page.data.length := by
      rw [lengthEq]
      exact Nat.le_trans (by decide : 9 ≤ 16 + 12) room
    have spaceNow : ushort (page.size - sizeofHead - STROAGE_FLAG_LENGTH) = page.size - 28 := by
      unfold ushort sizeofHead STROAGE_FLAG_LENGTH
      omega
    refine ⟨{ page with
        data := splice page.data 0 (STORAGE_FLAG ++ [0])
        head := { page.head with
          space := ushort (page.size - sizeofHead - STROAGE_FLAG_LENGTH) } },
      by simp only [checkFirstPage, if_pos zero, flagged, ok_bind],
      ⟨rfl, ?_, sizeLt, ?_, nextLt⟩, rfl, rfl, ?_⟩
    · rw [length_splice _ _ _ bound, lengthEq]
    · show ushort (page.size - sizeofHead - STROAGE_FLAG_LENGTH) + bodyOffset page.pageno ≤ _
      rw [spaceNow, bodyOffset_eq, atEq]
      omega
    · simp only [view]
      rw [spaceNow, bodyOffset_eq, atEq, drop_splice_front _ _ _ _ bound (by decide)]
  · rw [bodyOffset_eq, atEq] at room ⊢
    have spaceNow : page.head.space = page.size - 12 := by
      rw [spaceEq]
      unfold ushort sizeofHead
      omega
    refine ⟨page, by rw [checkFirstPage, if_neg positive],
      ⟨rfl, lengthEq, sizeLt, ?_, nextLt⟩, rfl, rfl, ?_⟩
    · rw [spaceNow, bodyOffset_eq, atEq]
      omega
    · simp only [view]
      rw [spaceNow, bodyOffset_eq, atEq]

/-- A new page is blank. -/
theorem new_spec (pageSize pageno : Nat) (sizeLt : pageSize < 65536)
    (room : bodyOffset pageno ≤ pageSize) :
    ∃ page, new pageSize pageno = .ok page ∧ page.WellFormed pageSize ∧
      page.pageno = pageno ∧ page.modify = true ∧
      page.view = PageView.blank (pageSize - bodyOffset pageno) := by
  obtain ⟨page, equal, formed, number, modified, seen⟩ := checkFirstPage_spec
    { modify := true, size := pageSize, pageno := pageno,
      data := List.replicate pageSize 0, head := freshHead pageSize }
    pageSize rfl List.length_replicate sizeLt room rfl (by decide : noNextPage < 4294967296)
  refine ⟨page, equal, formed, number, modified, ?_⟩
  rw [seen, PageView.blank, drop_replicate_zero]
  rfl

/-- A reset page is blank. -/
theorem reset_spec (page : SMDPage) (pageSize pageno : Nat)
    (lengthEq : page.data.length = pageSize) (sizeLt : pageSize < 65536)
    (room : bodyOffset pageno ≤ pageSize) :
    ∃ next, page.reset pageSize pageno = .ok next ∧ next.WellFormed pageSize ∧
      next.pageno = pageno ∧ next.modify = true ∧
      next.view = PageView.blank (pageSize - bodyOffset pageno) := by
  rw [reset, lengthEq]
  exact new_spec pageSize pageno sizeLt room

/-- Freeing a page empties its body and keeps its link. -/
theorem freeSpace_spec (page : SMDPage) (pageSize : Nat) (formed : page.WellFormed pageSize) :
    ∃ next, page.freeSpace = .ok next ∧ next.WellFormed pageSize ∧
      next.pageno = page.pageno ∧ next.modify = true ∧ next.view = page.view.freed := by
  have room : bodyOffset page.pageno ≤ pageSize := Nat.le_trans (Nat.le_add_left _ _) formed.space_le
  obtain ⟨next, equal, nextFormed, number, modified, seen⟩ := checkFirstPage_spec
    { page with
      modify := true
      data := List.replicate page.data.length 0
      head := { page.head with space := ushort (page.size - sizeofHead) } }
    pageSize formed.size_eq (by rw [List.length_replicate, formed.length_eq]) formed.sizeLt room
    (by rw [formed.size_eq]) formed.next_lt
  refine ⟨next, equal, nextFormed, number, modified, ?_⟩
  rw [seen, PageView.freed, view]
  simp only [List.length_drop, drop_replicate_zero, formed.length_eq]

/-! ### The header in the buffer -/

theorem length_body (page : SMDPage) (pageSize : Nat) (formed : page.WellFormed pageSize) :
    page.view.body.length = pageSize - bodyOffset page.pageno := by
  rw [view, List.length_drop, formed.length_eq]

theorem view_space_le (page : SMDPage) (pageSize : Nat) (formed : page.WellFormed pageSize) :
    page.view.space ≤ page.view.body.length := by
  rw [length_body page pageSize formed]
  exact Nat.le_sub_of_add_le formed.space_le

theorem view_used (page : SMDPage) (pageSize : Nat) (formed : page.WellFormed pageSize) :
    page.view.used = pageSize - bodyOffset page.pageno - page.head.space := by
  rw [PageView.used, length_body page pageSize formed]
  rfl

theorem getSpaceOffset_eq (page : SMDPage) (pageSize : Nat) (formed : page.WellFormed pageSize) :
    page.getSpaceOffset = bodyOffset page.pageno + page.view.used := by
  have spaceLe := formed.space_le
  have sizeLt := formed.sizeLt
  rw [view_used page pageSize formed, getSpaceOffset, formed.size_eq]
  unfold ushort
  omega

/-- Pushing the header makes the buffer say what the object says. -/
theorem push_spec (page : SMDPage) (pageSize : Nat) (formed : page.WellFormed pageSize) :
    ∃ data, page.push = .ok { page with data := data } ∧ data.length = pageSize ∧
      data.drop (bodyOffset page.pageno) = page.data.drop (bodyOffset page.pageno) ∧
      viewOf page.pageno data = page.view := by
  have lengthEq := formed.length_eq
  have spaceLe := formed.space_le
  have sizeLt := formed.sizeLt
  have start := headOffset_cases page.pageno
  rw [bodyOffset_eq] at spaceLe
  let nextBytes := SMDValue.putInt (BitVec.ofNat 32 page.head.next)
  let spaceBytes := SMDValue.putShort (BitVec.ofNat 16 page.head.space)
  let reserveBytes := SMDValue.putShort (BitVec.ofNat 16 page.head.reserve1)
  let at' := headOffset page.pageno
  obtain ⟨flagged, flagEq, flaggedLength, flaggedBody⟩ : ∃ flagged,
      page.pushFlag = .ok flagged ∧ flagged.length = pageSize ∧
      flagged.drop (bodyOffset page.pageno) = page.data.drop (bodyOffset page.pageno) := by
    rcases start with ⟨zero, atEq⟩ | ⟨positive, atEq⟩
    · have bound : 0 + STORAGE_FLAG.length ≤ page.data.length := by
        show 8 ≤ page.data.length
        omega
      refine ⟨splice page.data 0 STORAGE_FLAG,
        by rw [pushFlag, if_pos zero, memcpy_of_le _ _ _ bound],
        by rw [length_splice _ _ _ bound, lengthEq], drop_splice_front _ _ _ _ bound ?_⟩
      show 8 ≤ bodyOffset page.pageno
      rw [bodyOffset_eq]
      omega
    · exact ⟨page.data, if_neg positive, lengthEq, rfl⟩
  let one := splice flagged at' nextBytes
  let two := splice one (at' + 4) spaceBytes
  let three := splice two (at' + 6) reserveBytes
  let four := splice three (at' + 10) reserveBytes
  have oneBound : at' + nextBytes.length ≤ flagged.length := by
    show headOffset page.pageno + 4 ≤ _
    omega
  have oneLength : one.length = pageSize := by rw [length_splice _ _ _ oneBound, flaggedLength]
  have twoBound : at' + 4 + spaceBytes.length ≤ one.length := by
    show headOffset page.pageno + 4 + 2 ≤ _
    omega
  have twoLength : two.length = pageSize := by rw [length_splice _ _ _ twoBound, oneLength]
  have threeBound : at' + 6 + reserveBytes.length ≤ two.length := by
    show headOffset page.pageno + 6 + 2 ≤ _
    omega
  have threeLength : three.length = pageSize := by
    rw [length_splice _ _ _ threeBound, twoLength]
  have fourBound : at' + 10 + reserveBytes.length ≤ three.length := by
    show headOffset page.pageno + 10 + 2 ≤ _
    omega
  have fourLength : four.length = pageSize := by rw [length_splice _ _ _ fourBound, threeLength]
  have fourBody : four.drop (bodyOffset page.pageno) =
      page.data.drop (bodyOffset page.pageno) := by
    rw [drop_splice_front three _ _ _ fourBound (by show at' + 10 + 2 ≤ at' + 12; omega),
      drop_splice_front two _ _ _ threeBound (by show at' + 6 + 2 ≤ at' + 12; omega),
      drop_splice_front one _ _ _ twoBound (by show at' + 4 + 2 ≤ at' + 12; omega),
      drop_splice_front flagged _ _ _ oneBound (by show at' + 4 ≤ at' + 12; omega), flaggedBody]
  have nextRead : slice four at' 4 = nextBytes := by
    rw [slice_splice_disjoint three _ _ _ _ fourBound (Or.inl (by omega)),
      slice_splice_disjoint two _ _ _ _ threeBound (Or.inl (by omega)),
      slice_splice_disjoint one _ _ _ _ twoBound (Or.inl (by omega))]
    exact slice_splice_self flagged _ _ oneBound
  have spaceRead : slice four (at' + 4) 2 = spaceBytes := by
    rw [slice_splice_disjoint three _ _ _ _ fourBound (Or.inl (by omega)),
      slice_splice_disjoint two _ _ _ _ threeBound (Or.inl (by omega))]
    exact slice_splice_self one _ _ twoBound
  refine ⟨four, ?_, fourLength, fourBody, ?_⟩
  · simp only [push, flagEq, ok_bind]
    rw [memcpy_of_le _ _ _ oneBound, ok_bind, memcpy_of_le _ _ _ twoBound, ok_bind,
      memcpy_of_le _ _ _ threeBound, ok_bind, memcpy_of_le _ _ _ fourBound, ok_bind]
  · have nextLt := formed.next_lt
    simp only [viewOf, view, fourBody]
    rw [show slice four (headOffset page.pageno) 4 = nextBytes from nextRead,
      show slice four (headOffset page.pageno + 4) 2 = spaceBytes from spaceRead,
      SMDValue.getInt_putInt, SMDValue.getShort_putShort, BitVec.toNat_ofNat,
      BitVec.toNat_ofNat, Nat.mod_eq_of_lt nextLt, Nat.mod_eq_of_lt (by omega)]

/-- Popping the header makes the object say what the buffer says. -/
theorem pop_spec (page : SMDPage) (pageSize : Nat) (sizeEq : page.size = pageSize)
    (lengthEq : page.data.length = pageSize) (sizeLt : pageSize < 65536)
    (fits : (viewOf page.pageno page.data).space + bodyOffset page.pageno ≤ pageSize) :
    ∃ head, page.pop = .ok { page with head := head } ∧
      ({ page with head := head } : SMDPage).WellFormed pageSize ∧
      ({ page with head := head } : SMDPage).view = viewOf page.pageno page.data := by
  have room : headOffset page.pageno + 12 ≤ page.data.length := by
    rw [lengthEq]
    exact Nat.le_trans (Nat.le_add_left _ _) fits
  let at' := headOffset page.pageno
  refine ⟨{
      next := (SMDValue.getInt (slice page.data at' 4)).toNat
      space := (SMDValue.getShort (slice page.data (at' + 4) 2)).toNat
      reserve1 := (SMDValue.getShort (slice page.data (at' + 6) 2)).toNat
      reserve2 := extendShort (SMDValue.getShort (slice page.data (at' + 10) 2)) },
    ?_, ⟨sizeEq, lengthEq, sizeLt, fits, BitVec.isLt _⟩, rfl⟩
  simp only [pop]
  rw [fetch_of_le _ _ _ (by omega), fetch_of_le _ _ _ (by omega), fetch_of_le _ _ _ (by omega),
    fetch_of_le _ _ _ (by omega)]
  rfl

/-! ### Reads and writes of the body -/

/-- A read inside the used part of the body. The offset counts from any page boundary. -/
theorem read_spec (page : SMDPage) (pageSize : Nat) (formed : page.WellFormed pageSize)
    (offset pos count : Nat) (inPage : offset % pageSize = bodyOffset page.pageno + pos)
    (inside : pos + count ≤ page.view.used) :
    page.read offset count = .ok (slice page.view.body pos count) := by
  have usedEq := view_used page pageSize formed
  have spaceLe := formed.space_le
  rw [read, getSpaceOffset_eq page pageSize formed, formed.size_eq, inPage]
  simp only
  rw [if_neg (by omega), fetch_of_le _ _ _ (by rw [formed.length_eq]; omega), view]
  simp only [slice, List.drop_drop]

/-- A write puts as much of the buffer as fits behind what is on the page. -/
theorem write_spec (page : SMDPage) (pageSize : Nat) (formed : page.WellFormed pageSize)
    (buffer : Bytes) (short : buffer.length < 65536) :
    ∃ next, page.write buffer = .ok next ∧ next.WellFormed pageSize ∧
      next.pageno = page.pageno ∧ (page.modify = true → next.modify = true) ∧
      next.view = page.view.append (buffer.take (min page.head.space buffer.length)) := by
  have usedEq := view_used page pageSize formed
  have spaceLe := formed.space_le
  have lengthEq := formed.length_eq
  by_cases full : page.head.space = 0
  · refine ⟨page, if_pos full, formed, rfl, id, ?_⟩
    rw [full, Nat.zero_min, List.take_zero, PageView.append]
    simp [splice]
  · have wrEq : ushort buffer.length = buffer.length := ushort_of_lt _ short
    let wr := min page.head.space buffer.length
    let written := buffer.take wr
    have writtenLength : written.length = wr := by
      show (buffer.take (min page.head.space buffer.length)).length = _
      rw [List.length_take]
      omega
    have wrLe : wr ≤ page.head.space := Nat.min_le_left _ _
    have offsetEq := getSpaceOffset_eq page pageSize formed
    have bound : page.getSpaceOffset + written.length ≤ page.data.length := by omega
    refine ⟨{ page with
        data := splice page.data page.getSpaceOffset written, modify := true
        head := { page.head with space := page.head.space - wr } }, ?_, ?_, rfl, fun _ => rfl, ?_⟩
    · simp only [write, if_neg full, wrEq]
      rw [memcpy_of_le _ _ _ bound, ok_bind]
    · refine ⟨formed.size_eq, ?_, formed.sizeLt, ?_, formed.next_lt⟩
      · rw [length_splice _ _ _ bound, lengthEq]
      · show page.head.space - wr + bodyOffset page.pageno ≤ pageSize
        omega
    · simp only [view, PageView.append]
      have body : (splice page.data page.getSpaceOffset written).drop (bodyOffset page.pageno) =
          splice (page.data.drop (bodyOffset page.pageno)) page.view.used written := by
        refine List.ext_getElem? fun index => ?_
        rw [List.getElem?_drop, getElem?_splice _ _ _ _ bound,
          getElem?_splice _ _ _ _ (by rw [List.length_drop]; omega), List.getElem?_drop, offsetEq]
        by_cases covered : page.view.used ≤ index ∧ index < page.view.used + written.length
        · rw [if_pos (by omega), if_pos covered]
          congr 1
          omega
        · rw [if_neg (by omega), if_neg covered]
      rw [body, show (buffer.take (min page.head.space buffer.length)).length = wr
        from writtenLength]
      rfl

/-- A positioned write that stays inside the body overwrites it. -/
theorem writeAt_spec (page : SMDPage) (pageSize : Nat) (formed : page.WellFormed pageSize)
    (buffer : Bytes) (offset : Int) (pos : Nat)
    (inPage : ushort offset % pageSize = bodyOffset page.pageno + pos)
    (inside : pos + buffer.length ≤ page.view.body.length) :
    ∃ data, page.writeAt buffer offset = .ok { page with data := data, modify := true } ∧
      ({ page with data := data, modify := true } : SMDPage).WellFormed pageSize ∧
      ({ page with data := data, modify := true } : SMDPage).view =
        page.view.overwrite pos buffer := by
  have spaceLe := formed.space_le
  have lengthEq := formed.length_eq
  have bodyEq := length_body page pageSize formed
  have bound : bodyOffset page.pageno + pos + buffer.length ≤ page.data.length := by omega
  refine ⟨splice page.data (bodyOffset page.pageno + pos) buffer, ?_, ?_, ?_⟩
  · simp only [writeAt, formed.size_eq, inPage]
    rw [if_neg (by omega), memcpy_of_le _ _ _ bound, ok_bind]
  · exact ⟨formed.size_eq, by rw [length_splice _ _ _ bound, lengthEq], formed.sizeLt,
      formed.space_le, formed.next_lt⟩
  · simp only [view, PageView.overwrite]
    congr 1
    refine List.ext_getElem? fun index => ?_
    rw [List.getElem?_drop, getElem?_splice _ _ _ _ bound,
      getElem?_splice _ _ _ _ (by rw [List.length_drop]; omega), List.getElem?_drop]
    by_cases covered : pos ≤ index ∧ index < pos + buffer.length
    · rw [if_pos (by omega), if_pos covered]
      congr 1
      omega
    · rw [if_neg (by omega), if_neg covered]

end SMDPage

end LevelDBLib.KvDB
