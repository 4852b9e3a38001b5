/-
This file states when an append comes to an end, and with how many new pages.

The loop of `put` opens a new page as long as the current one has less free
space than the minimal unit of the segment. A page has `m_nPageSize - 12` bytes
for its content, so a larger unit makes the loop go on for ever, unless the
string stays on the page where the segment ends. Otherwise every page but the
first new one is filled, and one page more than the bytes take is enough.

A stream of 2 GiB, whose length is no `int`, never enters the loop.
-/

import LevelDBLib.KvDB.OwnershipRuns
import LevelDBLib.KvDB.Records

namespace LevelDBLib.KvDB

open Buffers Tapes Runs

variable {Device : Type} [CoherentDevice Device]

/-- The pages that a string of `count` bytes and its length fill. -/
def pagesNeeded (pageSize count : Nat) : Nat := (count + 4 + (pageSize - 13)) / (pageSize - 12)

/-! ### Counting the cells of a chain -/

/-- Pages behind page 0 have equally many cells. -/
theorem tapeLength_behind (pageSize : Nat) (chain : List Nat)
    (behind : ∀ pageno ∈ chain, pageno ≠ 0) :
    tapeLength pageSize chain = chain.length * (pageSize - 12) := by
  induction chain with
  | nil => rw [List.length_nil, Nat.zero_mul]; rfl
  | cons pageno rest inductionHypothesis =>
    have others := inductionHypothesis fun other member => behind other (List.mem_cons_of_mem _ member)
    rw [tapeLength] at others ⊢
    rw [List.map_cons, List.sum_cons, others, bodyOffset_pos pageno (behind pageno List.mem_cons_self),
      List.length_cons, Nat.succ_mul, Nat.add_comm]

namespace SMDPageFile

theorem skipped_le (minUint space : Nat) : skipped minUint space ≤ space := by
  unfold skipped
  split
  · exact Nat.le_refl _
  · exact Nat.zero_le _

/-- What an append adds to the tape, beyond the free cells of the page where it starts. -/
theorem length_putCells_le (minUint pageSize : Nat) (view : PageView) (bytes : Bytes)
    (room : 16 ≤ pageSize) : (putCells minUint pageSize view bytes).length ≤
      view.space + bytes.length + (pageSize - 12) := by
  have short := skipped_le minUint (pageSize - 16)
  unfold putCells
  split
  · simp only [List.length_append, List.length_map, length_free, length_lengthHeader]
    omega
  · simp only [List.length_append, List.length_map, List.length_take, length_lengthHeader]
    omega

/-- An append that ends takes one page more than its bytes need, at most. -/
theorem length_fresh_le {mgr after : SMDPageManagement Device} {pages later : PageMap}
    {page : SMDPage} {last minUint : Nat} {view : PageView} {fresh : List Nat} {bytes : Bytes}
    (room : 28 ≤ mgr.m_nPageSize) (stored : StoresPage mgr.device mgr.m_nPageSize last view)
    (extended : Extended mgr after pages later page last fresh)
    (stores : Stores after.device mgr.m_nPageSize later)
    (cells : chainCells later (last :: fresh) =
      view.written.map some ++ putCells minUint mgr.m_nPageSize view bytes ++ free page.view.space) :
    fresh.length ≤ pagesNeeded mgr.m_nPageSize bytes.length + 1 := by
  obtain ⟨bodySize, space⟩ := stored.length_body
  obtain ⟨now, known⟩ := extended.chain.known List.mem_cons_self
  obtain ⟨nowSize, nowSpace⟩ := (stores last now known).length_body
  have freshLength := length_chainCells stores fresh fun pageno member =>
    extended.chain.known (List.mem_cons_of_mem _ member)
  have behind := tapeLength_behind mgr.m_nPageSize fresh fun pageno member => by
    rw [extended.freshEq, List.mem_range'_1] at member
    omega
  have added := length_putCells_le minUint mgr.m_nPageSize view bytes (by omega)
  have formed := extended.pending.formed
  have finalSize := page.length_body _ formed
  have finalSpace := formed.space_le
  have offset := bodyOffset_eq page.pageno
  have lengths := congrArg List.length cells
  rw [chainCells_cons, List.length_append, pageCells_of_some known, now.length_cells nowSpace,
    freshLength, behind, List.length_append, List.length_append, List.length_map, view.length_written space,
    length_free] at lengths
  have spaceEq : page.view.space = page.head.space := rfl
  have enough : fresh.length * (mgr.m_nPageSize - 12) ≤
      bytes.length + 2 * (mgr.m_nPageSize - 12) := by omega
  have quotient : fresh.length ≤ (bytes.length + 2 * (mgr.m_nPageSize - 12)) / (mgr.m_nPageSize - 12) :=
    (Nat.le_div_iff_mul_le (by omega)).mpr enough
  have more : (bytes.length + (mgr.m_nPageSize - 12)) / (mgr.m_nPageSize - 12) ≤
      pagesNeeded mgr.m_nPageSize bytes.length := Nat.div_le_div_right (by omega)
  rw [Nat.two_mul, ← Nat.add_assoc, Nat.add_div_right _ (by omega)] at quotient
  exact Nat.le_trans quotient (Nat.succ_le_succ more)

end SMDPageFile

/-! ### Streams whose length is no int -/

/-- A write looks at as much of its buffer as an `unsigned short` counts. -/
theorem SMDPage.write_take (page : SMDPage) (buffer : Bytes) :
    page.write (buffer.take (ushort buffer.length)) = page.write buffer := by
  have le : ushort buffer.length ≤ buffer.length := by
    unfold ushort
    omega
  have length : (buffer.take (ushort buffer.length)).length = ushort buffer.length := by
    rw [List.length_take, Nat.min_eq_left le]
  have again : ushort (ushort buffer.length : Nat) = ushort buffer.length := by
    unfold ushort
    omega
  have taken : (buffer.take (ushort buffer.length)).take (min page.head.space (ushort buffer.length)) =
      buffer.take (min page.head.space (ushort buffer.length)) := by
    rw [List.take_take, Nat.min_eq_left (Nat.min_le_right _ _)]
  rw [SMDPage.write, SMDPage.write, length, again]
  dsimp only
  rw [taken]

/-- A write to the last page, of a buffer of any length. -/
theorem AtEnd.write_any {mgr : SMDPageManagement Device} {pages : PageMap} {page : SMDPage}
    (atEnd : AtEnd mgr pages page) (buffer : Bytes) :
    ∃ next later, page.write buffer = .ok next ∧ AtEnd mgr later next := by
  obtain ⟨next, written, _, _, nextAtEnd⟩ := atEnd.write (buffer.take (ushort buffer.length)) (by
    have le : ushort buffer.length < 65536 := by
      unfold ushort
      omega
    rw [List.length_take]
    omega)
  exact ⟨next, _, (page.write_take buffer).symm.trans written, nextAtEnd⟩

namespace SMDPageFile

variable {file : SMDPageFile} {mgr : SMDPageManagement Device} {pages : PageMap} {value : PageNo_t}
  {view : PageView}

/-- A stream whose length is no `int`, or becomes none with the four bytes of the header, stays
on the page where the segment ends. -/
theorem put_huge (serves : Serves mgr pages file value) (known : pages value.nLastPageNo = some view)
    (last : view.next = noNextPage) (stream : SMDMemStream) (huge : 2147483644 ≤ stream.size) :
    ∃ offset filed after, file.put mgr stream = .ok (offset, filed, after) ∧
      after.m_nPageCnt = mgr.m_nPageCnt := by
  obtain ⟨page, device, loaded, number, viewEq, pending, _⟩ := serves.loadLast known
  have atEnd : AtEnd { mgr with device := device } pages page :=
    ⟨pending, serves.room, by rw [viewEq, last], by rw [number]; exact serves.last_le,
      serves.registered, serves.countLt⟩
  rw [put, if_neg (by omega), loaded, ok_bind]
  simp only [if_true]
  by_cases fits : int (int stream.size + 4) ≤ page.getSpace
  · obtain ⟨headed, middle, headWritten, headAtEnd⟩ :=
      atEnd.write_any (lengthHeader (int stream.size))
    obtain ⟨filled, final, written, filledAtEnd⟩ :=
      headAtEnd.write_any (stream.data.take stream.size)
    obtain ⟨saved, kept, savedEq, _⟩ :=
      SMDPageManagement.savePageToFile_spec _ _ _ filledAtEnd.pending
    rw [if_pos fits, headWritten, ok_bind, written, ok_bind, savedEq, ok_bind]
    exact ⟨_, _, _, rfl, rfl⟩
  · have size : stream.size < 4294967296 := by
      unfold SMDMemStream.size uint
      omega
    have negative : (int stream.size).toNat = 0 := by
      unfold int at fits ⊢
      omega
    obtain ⟨saved, kept, savedEq, _⟩ :=
      SMDPageManagement.savePageToFile_spec _ _ _ atEnd.pending
    rw [if_neg fits, negative, List.take_zero, putLoop, ok_bind, savedEq, ok_bind]
    exact ⟨_, _, _, rfl, rfl⟩

/-- `put` looks at no more of its stream than the size it asks for. -/
theorem put_take (stream : SMDMemStream) (short : stream.size < 2147483648) :
    file.put mgr ⟨stream.data.take stream.size, stream.pos⟩ = file.put mgr stream := by
  have le : stream.size ≤ stream.data.length := by
    unfold SMDMemStream.size uint
    omega
  have size : (⟨stream.data.take stream.size, stream.pos⟩ : SMDMemStream).size = stream.size := by
    show uint (stream.data.take stream.size).length = _
    rw [List.length_take, Nat.min_eq_left le, uint_of_lt _ (by omega)]
  rw [put, put, size]
  simp only [List.take_take, Nat.min_self, int_of_lt _ short, Int.toNat_natCast]

/-- An append returns, having taken at most one page more than its bytes need, exactly when the
string stays on the last page, or a page has room for the minimal unit, or the length of the
string overflows an `int`. -/
theorem append_ends_iff (serves : Serves mgr pages file value)
    (known : pages value.nLastPageNo = some view) (last : view.next = noNextPage)
    (few : mgr.m_nPageCnt < 2147483648) (stream : SMDMemStream) (some' : stream.size ≠ 0) :
    (∃ offset filed after, file.put mgr stream = .ok (offset, filed, after) ∧
      after.m_nPageCnt ≤ mgr.m_nPageCnt + pagesNeeded mgr.m_nPageSize stream.size + 1) ↔
      stream.size + 4 ≤ view.space ∨ file.minUint + 12 ≤ mgr.m_nPageSize ∨
        2147483644 ≤ stream.size := by
  by_cases huge : 2147483644 ≤ stream.size
  · obtain ⟨offset, filed, after, equal, count⟩ := put_huge serves known last stream huge
    exact iff_of_true ⟨offset, filed, after, equal, by omega⟩ (Or.inr (Or.inr huge))
  · have le : stream.size ≤ stream.data.length := by
      unfold SMDMemStream.size uint
      omega
    have length : (stream.data.take stream.size).length = stream.size := by
      rw [List.length_take, Nat.min_eq_left le]
    have filled : stream.data.take stream.size ≠ [] :=
      List.ne_nil_of_length_pos (by omega)
    rw [← put_take stream (by omega)]
    constructor
    · rintro ⟨offset, filed, after, equal, _⟩
      by_contra outside
      rw [not_or, not_or] at outside
      exact put_endless file mgr pages value view _ stream.pos serves known last (by omega)
        (by omega) filled (by omega) _ equal
    · intro fits
      obtain ⟨page, after, later, fresh, equal, extended, stores, cells, _⟩ :=
        put_spec file mgr pages value view _ stream.pos serves known last
          (by rw [length]; omega) filled (by omega) (by omega)
      have count := length_fresh_le serves.room (serves.stores _ _ known) extended stores cells
      rw [length] at count
      have total := extended.countEq
      exact ⟨_, _, after, equal, by omega⟩

end SMDPageFile

/-! ### Segments of a new file -/

namespace Segments

/-- The segment named by one letter, just created on a new file with pages of 96 bytes. -/
theorem created_serves {minUnit : Nat} {file : SMDPageFile}
    (evaluated : (PageDisk.create 96 >>= fun disk => SMDPageManagement.new disk false 96 >>= fun mgr =>
      (step (opened mgr) (.createPageFile .SEG_TYPE_DATA [1] minUnit)).map fun result =>
        (result.2.files ⟨.SEG_TYPE_DATA, [1]⟩, result.2.mgr.m_nPageSize, result.2.mgr.m_nPageCnt,
          (result.2.mgr.m_PageInfo.find file.key).map PageNo_t.nLastPageNo,
          (filePages result.2.mgr 1).map PageView.space)) =
      .ok (some file, 96, 1, some 1, some 84)) :
    ∃ (device : PageDisk) (mgr : SMDPageManagement PageDisk) (reply : Reply)
        (state : Segments PageDisk) (pages : PageMap) (value : PageNo_t) (view : PageView),
      HoldsFlag device 96 ∧ SMDPageManagement.new device false 96 = .ok mgr ∧
      step (opened mgr) (.createPageFile .SEG_TYPE_DATA [1] minUnit) = .ok (reply, state) ∧
      state.files ⟨.SEG_TYPE_DATA, [1]⟩ = some file ∧ state.mgr.m_nPageSize = 96 ∧
      state.mgr.m_nPageCnt = 1 ∧ Serves state.mgr pages file value ∧
      value.nLastPageNo = 1 ∧ pages value.nLastPageNo = some view ∧ view.next = noNextPage ∧
      view.space = 84 := by
  simp only [bind_eq_ok] at evaluated
  obtain ⟨device, created, mgr, newEq, ended⟩ := evaluated
  cases returned : step (opened mgr) (.createPageFile .SEG_TYPE_DATA [1] minUnit) with
  | error fault =>
    rw [returned] at ended
    cases ended
  | ok result =>
    obtain ⟨reply, state⟩ := result
    rw [returned] at ended
    have observed := Except.ok.inj ended
    simp only [Prod.mk.injEq] at observed
    obtain ⟨files, size, count, lastPage, space⟩ := observed
    have admitted := keepsApart_first newEq minUnit
    obtain ⟨pages, chains, sound⟩ := run_sound (holdsFlag_create created) (by decide) newEq
      (Run.start.step admitted returned)
    obtain ⟨value, found, serves, chainOf⟩ := sound.opens files fun isTable => by cases isTable
    obtain ⟨view, known, last⟩ := chainOf.last_view
    rw [serves.found, Option.map_some] at lastPage
    have number := Option.some.inj lastPage
    have inFile := serves.stores.filePages _ _ known
    rw [number] at inFile
    rw [inFile, Option.map_some] at space
    exact ⟨device, mgr, reply, state, pages, value, view, holdsFlag_create created, newEq, returned,
      files, size, count, serves, number, known, last, Option.some.inj space⟩

end Segments

namespace SMDPageFile

theorem append_ends_iff_once : ∃ (mgr : SMDPageManagement PageDisk) (file : SMDPageFile),
    mgr.m_nPageCnt = 1 ∧ ∃ offset filed after, file.put mgr ⟨List.replicate 100 7, 0⟩ =
      .ok (offset, filed, after) ∧ after.m_nPageCnt ≤ 1 + 2 + 1 := by
  obtain ⟨_, _, _, state, pages, value, view, _, _, _, _, size, count, serves, _, known, last, _⟩ :=
    @Segments.created_serves 0 ⟨.SEG_TYPE_DATA, [1], 4, none⟩ (by decide +kernel)
  have ends := (append_ends_iff serves known last (by rw [count]; decide)
    ⟨List.replicate 100 7, 0⟩ (by decide)).mpr (Or.inr (Or.inl (by rw [size]; decide)))
  rw [size, count] at ends
  exact ⟨state.mgr, _, count, ends⟩

/-- A minimal unit as large as a page: the loop of `put` opens one page after the other. -/
theorem append_never_ends : ∃ (device : PageDisk) (mgr : SMDPageManagement PageDisk)
    (reply : Reply) (state : Segments PageDisk) (file : SMDPageFile), HoldsFlag device 96 ∧
      SMDPageManagement.new device false 96 = .ok mgr ∧
      (Segments.opened mgr).step (.createPageFile .SEG_TYPE_DATA [1] 96) = .ok (reply, state) ∧
      state.files ⟨.SEG_TYPE_DATA, [1]⟩ = some file ∧
      ∀ result, file.put state.mgr ⟨List.replicate 85 7, 0⟩ ≠ .ok result := by
  obtain ⟨device, mgr, reply, state, pages, value, view, flag, newEq, returned, files, size, _,
    serves, _, known, last, space⟩ :=
    @Segments.created_serves 96 ⟨.SEG_TYPE_DATA, [1], 96, none⟩ (by decide +kernel)
  have length : (List.replicate 85 (7 : UInt8)).length = 85 := List.length_replicate
  exact ⟨device, mgr, reply, state, _, flag, newEq, returned, files,
    put_endless _ _ pages value view _ 0 serves known last (by rw [size]; decide)
      (by rw [length]; omega) (by decide) (by rw [length]; decide)⟩

end SMDPageFile

end LevelDBLib.KvDB
