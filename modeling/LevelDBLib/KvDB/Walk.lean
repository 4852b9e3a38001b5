/-
This file is about the walk over a segment: where `getNextOffset` leads from the end
of a string, and what `offsetBehind` makes of the pages before and after a read.

The two agree with the line in which `put` leaves the strings, except where a string
ends with the last byte of a page. On the last page of the chain the walk does not
see that it is at the end and goes on to a page that is made for it; on a page two
or more behind the one where the string starts, the rest of the division is zero and
the walk starts the page again.
-/

import LevelDBLib.KvDB.DataFeature
import LevelDBLib.KvDB.Lines
import LevelDBLib.KvDB.Offsets

namespace LevelDBLib.KvDB

open Buffers Tapes

variable {Device : Type} [CoherentDevice Device]

/-! ### States that reads make -/

namespace Segments

/-- The segment object and the allocator as reads leave them: on a page of the segment, over the
same pages and the same page table, with nothing saved. -/
structure Reading (before : Segments Device) (pages : PageMap) (chains : PageKey_t → List Nat)
    (key : PageKey_t) (file : SMDPageFile) (mgr : SMDPageManagement Device) : Prop where
  sound : Sound (before.after key file mgr) pages chains
  notTable : key ≠ SMDPageManagement.pageTableKey
  unit : file.minUint = 4
  room : 28 < mgr.m_nPageSize
  small : (mgr.m_nPageCnt + 1) * mgr.m_nPageSize < 2147483648
  data : ∀ pageno ∈ chains key, pageno ≠ 0
  same : { mgr with device := before.mgr.device } = before.mgr
  saves : CoherentDevice.saves mgr.device = CoherentDevice.saves before.mgr.device

variable {before : Segments Device} {pages : PageMap} {chains : PageKey_t → List Nat}
  {key : PageKey_t} {file : SMDPageFile} {mgr : SMDPageManagement Device}

theorem Reading.opens (reading : Reading before pages chains key file mgr) :
    ∃ value, mgr.m_PageInfo.find key = some value ∧ Serves mgr pages file value ∧
      ChainOf pages mgr.m_nPageCnt value (chains key) :=
  reading.sound.opens (after_files_self ..) fun table => absurd table reading.notTable

/-- The page that the segment object holds. -/
theorem Reading.held (reading : Reading before pages chains key file mgr) {page : SMDPage}
    (holds : file.page = some page) : page.WellFormed mgr.m_nPageSize ∧
      page.pageno ∈ chains key ∧ pages page.pageno = some page.view := by
  obtain ⟨formed, member, seen⟩ := reading.sound.held key file page (after_files_self ..) holds
  exact ⟨formed, member, seen reading.notTable⟩

/-- The pages of the segment end below 2 GiB. -/
theorem Reading.address (reading : Reading before pages chains key file mgr) {pageno : Nat}
    (member : pageno ∈ chains key) :
    pageno * mgr.m_nPageSize + mgr.m_nPageSize < 2147483648 := by
  obtain ⟨value, _, _, chainOf⟩ := reading.opens
  exact Nat.lt_of_le_of_lt (page_end_le (chainOf.allocated pageno member) (Nat.le_refl _))
    reading.small

/-- Turning to another page of the segment. -/
theorem Reading.turn (reading : Reading before pages chains key file mgr) {page : SMDPage}
    {device : Device} (formed : page.WellFormed mgr.m_nPageSize) (member : page.pageno ∈ chains key)
    (seen : pages page.pageno = some page.view) (stores : Stores device mgr.m_nPageSize pages)
    (same : CoherentDevice.saves device = CoherentDevice.saves mgr.device) :
    Reading before pages chains key { file with page := some page }
      { mgr with device := device } := by
  have next := reading.sound.load (after_files_self ..) formed member seen stores same
  rw [after_after] at next
  exact ⟨next, reading.notTable, reading.unit, reading.room, reading.small, reading.data,
    reading.same, same.trans reading.saves⟩

/-- Reading the string that stands at an address. -/
theorem Reading.get (reading : Reading before pages chains key file mgr)
    {front after : List Nat} {pageno pos : Nat} {bytes : Bytes}
    (chainEq : chains key = front ++ pageno :: after)
    (stands : Stands pages (pageno :: after) pos bytes) (header : pos + 4 ≤ mgr.m_nPageSize - 12)
    (short : bytes.length < 2147483648) :
    ∃ page device, file.get mgr (SMDMemStream.new 0) (pageno * mgr.m_nPageSize + (12 + pos) : Nat) =
        .ok (true, ⟨bytes, 0⟩, { file with page := some page }, { mgr with device := device }) ∧
      Reading before pages chains key { file with page := some page }
        { mgr with device := device } ∧
      EndsOn pages (pageno :: after) (pos + 4 + bytes.length) page.pageno := by
  have offset := bodyOffset_pos pageno (reading.data pageno (by rw [chainEq]; simp))
  have room := reading.room
  have unit := reading.unit
  obtain ⟨page, device, getEq, next, same, ends⟩ := reading.sound.reads (after_files_self ..)
    (fun table => absurd table reading.notTable) reading.room (Nat.le_of_lt reading.small)
    chainEq stands (by rw [offset, after_mgr]; omega) (by rw [offset, unit, after_mgr]; omega) short
  rw [after_mgr, offset, Nat.add_assoc] at getEq
  rw [after_mgr, after_after] at next
  rw [after_mgr] at same
  exact ⟨page, device, getEq, ⟨next, reading.notTable, reading.unit, reading.room, reading.small,
    reading.data, reading.same, same.trans reading.saves⟩, ends⟩

/-! ### The next offset -/

section Turn

variable {page : SMDPage}

/-- An address on a page in the remainder of the page size. -/
theorem tmod_address {pageno pageSize pos : Nat} (inside : pos < pageSize) :
    ((pageno * pageSize + pos : Nat) : Int).tmod pageSize = pos := by
  rw [← Int.ofNat_tmod, address_mod inside]

/-- How much of the page is left behind an address on it. -/
theorem Reading.isEnd (reading : Reading before pages chains key file mgr)
    (holds : file.page = some page) {pos : Nat} (inside : pos ≤ mgr.m_nPageSize - 12) :
    file.IsEndOfPageSize page (page.pageno * mgr.m_nPageSize + (12 + pos) : Nat) =
      decide (mgr.m_nPageSize - 12 < pos + 4) := by
  obtain ⟨formed, member, _⟩ := reading.held holds
  have room := reading.room
  have address := reading.address member
  have left : uint (((page.getPageNo + 1) * page.getSize : Nat) -
      (page.pageno * mgr.m_nPageSize + (12 + pos) : Nat)) = mgr.m_nPageSize - (12 + pos) := by
    rw [show page.getSize = mgr.m_nPageSize from formed.size_eq, SMDPage.getPageNo, Nat.succ_mul,
      ← uint_of_lt (mgr.m_nPageSize - (12 + pos)) (by omega)]
    congr 1
    omega
  rw [SMDPageFile.IsEndOfPageSize, left, reading.unit]
  exact decide_eq_decide.mpr (by omega)

/-- At the end of the strings, on a page that is not full, the walk ends. -/
theorem Reading.nextOffset_end (reading : Reading before pages chains key file mgr)
    (holds : file.page = some page) (last : page.view.next = noNextPage)
    (space : page.view.space ≠ 0) :
    file.getNextOffset mgr (page.pageno * mgr.m_nPageSize + (12 + page.view.used) : Nat) =
      .ok (-1, file, mgr) := by
  obtain ⟨formed, member, _⟩ := reading.held holds
  have bodyEq := page.length_body _ formed
  have offset := bodyOffset_pos page.pageno (reading.data _ member)
  have usedEq : page.view.used = page.view.body.length - page.view.space := rfl
  have room := reading.room
  have size : page.getSize = mgr.m_nPageSize := formed.size_eq
  have there : page.isLastPage := beq_iff_eq.mpr last
  rw [SMDPageFile.getNextOffset, if_neg (by omega), SMDPageFile.held, holds, ok_bind, if_pos]
  rw [size, tmod_address (by omega), page.getSpaceOffset_eq _ formed, offset]
  exact ⟨there, rfl⟩

/-- With room for a length header behind the offset the walk stays. -/
theorem Reading.nextOffset_stay (reading : Reading before pages chains key file mgr)
    (holds : file.page = some page) {pos : Nat} (header : pos + 4 ≤ mgr.m_nPageSize - 12)
    (more : page.view.next = noNextPage → pos ≠ page.view.used) :
    file.getNextOffset mgr (page.pageno * mgr.m_nPageSize + (12 + pos) : Nat) =
      .ok ((page.pageno * mgr.m_nPageSize + (12 + pos) : Nat), file, mgr) := by
  obtain ⟨formed, member, _⟩ := reading.held holds
  have offset := bodyOffset_pos page.pageno (reading.data _ member)
  have room := reading.room
  have size : page.getSize = mgr.m_nPageSize := formed.size_eq
  rw [SMDPageFile.getNextOffset, if_neg (by omega), SMDPageFile.held, holds, ok_bind, if_neg,
    reading.isEnd holds (by omega), decide_eq_false (by omega)]
  · exact if_neg Bool.false_ne_true
  · rintro ⟨last, equal⟩
    rw [size, tmod_address (by omega), page.getSpaceOffset_eq _ formed, offset] at equal
    exact more (beq_iff_eq.mp last) (by omega)

/-- Without it the walk goes on to the next page, if there is one. -/
theorem Reading.nextOffset_turn (reading : Reading before pages chains key file mgr)
    (holds : file.page = some page) {pos next : Nat} {front after : List Nat}
    (chainEq : chains key = front ++ page.pageno :: next :: after)
    (inside : pos ≤ mgr.m_nPageSize - 12) (little : mgr.m_nPageSize - 12 < pos + 4) :
    ∃ turned device,
      file.getNextOffset mgr (page.pageno * mgr.m_nPageSize + (12 + pos) : Nat) =
        .ok ((next * mgr.m_nPageSize + 12 : Nat), { file with page := some turned },
          { mgr with device := device }) ∧
      turned.pageno = next ∧
      Reading before pages chains key { file with page := some turned }
        { mgr with device := device } := by
  obtain ⟨formed, member, seen⟩ := reading.held holds
  obtain ⟨value, _, serves, chainOf⟩ := reading.opens
  have linked := chainOf.linked
  rw [chainEq] at linked
  obtain ⟨view, known, link, valid⟩ := linked.middle
  rw [seen] at known
  cases known
  have nextMember : next ∈ chains key := by rw [chainEq]; simp
  obtain ⟨nextView, nextKnown⟩ := chainOf.linked.known nextMember
  have room := reading.room
  obtain ⟨turned, device, turnEq, number, _, pending, stores, same⟩ := mgr.getNextPage_middle pages
    page nextView serves.stores (serves.stores.pending formed seen) (by omega)
    (by rw [link]; exact valid) (by rw [link]; exact nextKnown)
  rw [link] at number
  have notLast : ¬ page.isLastPage = true := fun last =>
    valid (link.symm.trans (beq_iff_eq.mp last))
  have content : int turned.getContentOffset = (next * mgr.m_nPageSize + 12 : Nat) := by
    rw [SMDPageFile.int_contentAddress turned _ pending.formed, number,
      bodyOffset_pos next (reading.data next nextMember)]
    refine int_of_lt _ ?_
    have := reading.address nextMember
    omega
  refine ⟨turned, device, ?_, number, reading.turn pending.formed (by rw [number]; exact nextMember)
    pending.seen stores same⟩
  rw [SMDPageFile.getNextOffset, if_neg (by omega), SMDPageFile.held, holds, ok_bind,
    if_neg (fun end' => notLast end'.1), reading.isEnd holds inside,
    decide_eq_true little, if_pos rfl, SMDPageFile.getNextPage, SMDPageFile.held, holds, ok_bind,
    SMDPage.getPageNo, turnEq]
  simp only [ok_bind, SMDPageFile.held, content]

/-- At the start the walk goes to the first page. -/
theorem Reading.nextOffset_first (reading : Reading before pages chains key file mgr) :
    ∃ first after turned device, chains key = first :: after ∧
      file.getNextOffset mgr (-1) = .ok ((first * mgr.m_nPageSize + 12 : Nat),
        { file with page := some turned }, { mgr with device := device }) ∧
      turned.pageno = first ∧
      Reading before pages chains key { file with page := some turned }
        { mgr with device := device } := by
  obtain ⟨value, found, serves, chainOf⟩ := reading.opens
  obtain ⟨tail, chainEq⟩ := chainOf.first
  have member : value.nRootPageNo ∈ chains key := by rw [chainEq]; exact List.mem_cons_self
  obtain ⟨view, known⟩ := chainOf.linked.known member
  have bound := chainOf.allocated _ member
  have countLt := serves.countLt
  obtain ⟨turned, device, loaded, number, _, pending, stores, same⟩ :=
    mgr.getPageByPageNo_spec pages file.page value.nRootPageNo view serves.sizeLt serves.room
      serves.stores serves.held known (by omega)
  have firstEq : uint (mgr.getFirstPageNo file.key) = value.nRootPageNo := by
    rw [SMDPageManagement.getFirstPageNo, serves.found]
    simp only
    rw [uint_int, uint_of_lt _ (by omega)]
  have content : int turned.getContentOffset =
      (value.nRootPageNo * mgr.m_nPageSize + 12 : Nat) := by
    rw [SMDPageFile.int_contentAddress turned _ pending.formed, number,
      bodyOffset_pos _ (reading.data _ member)]
    refine int_of_lt _ ?_
    have := reading.address member
    have := reading.room
    omega
  refine ⟨_, tail, turned, device, chainEq, ?_, number, reading.turn pending.formed
    (by rw [number]; exact member) pending.seen stores same⟩
  rw [SMDPageFile.getNextOffset, if_pos rfl, SMDPageFile.setToFristPageFile, firstEq, loaded]
  simp only [ok_bind, SMDPageFile.held, content]

/-! ### The end of a string -/

theorem Reading.headSize (reading : Reading before pages chains key file mgr)
    (holds : file.page = some page) : page.getHeadSize = 12 := by
  obtain ⟨formed, member, _⟩ := reading.held holds
  have address := reading.address member
  have room := reading.room
  have size : page.size = mgr.m_nPageSize := formed.size_eq
  have head : SMDPage.headOffset page.pageno = 0 := if_neg (reading.data _ member)
  rw [SMDPage.getHeadSize, SMDPage.getContentOffset, SMDPage.getFileOffset, size, head, sizeofHead]
  unfold uint int
  omega

theorem Reading.number (reading : Reading before pages chains key file mgr) {pageno : Nat}
    (member : pageno ∈ chains key) : int pageno = pageno := by
  refine int_of_lt _ ?_
  have address := reading.address member
  have room := reading.room
  have product := Nat.le_mul_of_pos_right pageno (show 0 < mgr.m_nPageSize by omega)
  omega

omit [CoherentDevice Device] in
theorem int_of_eq {value : Int} {number : Nat} (equal : value = number)
    (bound : number < 2147483648) : int value = number := by
  rw [equal, int_of_lt _ bound]

/-! Two pages or more on, the last page is counted by a division. -/

section Division

variable {size first pos count between last : Nat}

omit [CoherentDevice Device] in
theorem place_onPage (room : 28 < size) (inside : pos + 4 ≤ size - 12)
    (address : first * size + size < 2147483648) :
    ((uint (first * size + (12 + pos) : Nat) : Nat) : Int) % size = (12 + pos : Nat) := by
  rw [uint_of_lt _ (by omega), ← Int.natCast_emod, address_mod (by omega)]

omit [CoherentDevice Device] in
theorem cells_behind (room : 28 < size) (inside : pos + 4 ≤ size - 12)
    (short : count + 4 < 2147483648)
    (total : pos + 4 + count = (between + 1) * (size - 12) + last) :
    int ((count : Int) + 4 - (size - (12 + pos) : Nat)) = (between * (size - 12) + last : Nat) := by
  rw [Nat.succ_mul] at total
  exact int_of_eq (by omega) (by omega)

omit [CoherentDevice Device] in
theorem place_onLast {pageno : Nat} (short : count + 4 < 2147483648)
    (inside : pos + 4 ≤ size - 12) (address : pageno * size + size < 2147483648)
    (total : pos + 4 + count = (between + 1) * (size - 12) + last) (notFull : last < size - 12) :
    int ((pageno : Int) * size + 12 +
        int (uint (between * (size - 12) + last : Nat) % (size - 12) : Nat)) =
      (pageno * size + (12 + last) : Nat) := by
  rw [Nat.succ_mul] at total
  rw [uint_of_lt _ (by omega), address_mod notFull, int_of_lt last (by omega)]
  exact int_of_eq (by push_cast; omega) (by omega)

omit [CoherentDevice Device] in
theorem offsetBehind_far (sizeEq : page.getSize = size)
    (head : page.getHeadSize = 12) (room : 28 < size) (far : first + 2 ≤ page.pageno)
    (numbers : int (page.getPageNo : Int) = page.pageno)
    (inside : pos + 4 ≤ size - 12) (short : count + 4 < 2147483648)
    (firstAddress : first * size + size < 2147483648)
    (lastAddress : page.pageno * size + size < 2147483648)
    (total : pos + 4 + count = (between + 1) * (size - 12) + last) (notFull : last < size - 12) :
    offsetBehind page first (first * size + (12 + pos) : Nat) count =
      .ok (page.pageno * size + (12 + last) : Nat) := by
  have divisor : uint ((size : Int) - 12) = size - 12 := by
    unfold uint
    omega
  have current : int ((size : Int) - (12 + pos : Nat)) = (size - (12 + pos) : Nat) :=
    int_of_eq (by omega) (by omega)
  rw [offsetBehind, numbers, if_neg (by omega), if_neg (by omega), sizeEq, head, divisor,
    if_neg (by omega)]
  simp only [place_onPage room inside firstAddress, current, cells_behind room inside short total]
  exact congrArg Except.ok (place_onLast short inside lastAddress total notFull)

end Division

/-- What the walk makes of the pages before and after a read is the end of the string, unless the
string fills a page two or more behind the one where it starts. -/
theorem Reading.behind (reading : Reading before pages chains key file mgr)
    (holds : file.page = some page) {front after : List Nat} {first pos count : Nat}
    (chainEq : chains key = front ++ first :: after) (inside : pos + 4 ≤ mgr.m_nPageSize - 12)
    (short : count + 4 < 2147483648)
    (ends : EndsOn pages (first :: after) (pos + 4 + count) page.pageno) :
    ∃ between back last, first :: after = between ++ page.pageno :: back ∧
      pos + 4 + count = between.length * (mgr.m_nPageSize - 12) + last ∧
      last ≤ mgr.m_nPageSize - 12 ∧ 0 < last ∧
      ((first + 2 ≤ page.pageno → last ≠ mgr.m_nPageSize - 12) →
        offsetBehind page (int first) (first * mgr.m_nPageSize + (12 + pos) : Nat) count =
          .ok (page.pageno * mgr.m_nPageSize + (12 + last) : Nat)) := by
  obtain ⟨between, back, view, last, split, known, total, lastLe, begun⟩ := ends
  obtain ⟨value, _, serves, chainOf⟩ := reading.opens
  have members : ∀ pageno ∈ first :: after, pageno ∈ chains key := fun pageno member => by
    rw [chainEq]
    exact List.mem_append_right _ member
  have lastMember : page.pageno ∈ chains key := members _ (by rw [split]; simp)
  obtain ⟨formed, _, seen⟩ := reading.held holds
  have room := reading.room
  have size : page.getSize = mgr.m_nPageSize := formed.size_eq
  obtain ⟨bodyEq, _⟩ := (serves.stores _ _ known).length_body
  rw [bodyOffset_pos _ (reading.data _ lastMember)] at bodyEq
  have betweenKnown : ∀ pageno ∈ between, pageno ∈ chains key := fun pageno member =>
    members _ (by rw [split]; exact List.mem_append_left _ member)
  rw [length_chainCells serves.stores between fun pageno member =>
      chainOf.linked.known (betweenKnown pageno member),
    tapeLength_behind _ between fun pageno member => reading.data _ (betweenKnown pageno member)]
    at total
  have positive : 0 < last := by
    rcases begun with empty | positive
    · rw [empty, List.length_nil, Nat.zero_mul] at total
      omega
    · exact positive
  have firstAddress := reading.address (members first List.mem_cons_self)
  have lastAddress := reading.address lastMember
  refine ⟨between, back, last, split, total, by omega, positive, fun notFar => ?_⟩
  have upward := chainOf.upward
  rw [chainEq] at upward
  have apart := (List.pairwise_append.mp upward).2.1
  have numbers : int (page.getPageNo : Int) = page.pageno := reading.number lastMember
  rw [reading.number (members first List.mem_cons_self)]
  cases between with
  | nil =>
    obtain ⟨same, _⟩ := List.cons.inj split
    rw [List.length_nil, Nat.zero_mul] at total
    rw [offsetBehind, numbers, if_pos (by rw [same]), ← same]
    exact congrArg Except.ok (int_of_eq (by push_cast; omega) (by omega))
  | cons start between =>
    obtain ⟨same, split⟩ := List.cons.inj split
    have above : first < page.pageno := (List.pairwise_cons.mp apart).1 _ (by rw [split]; simp)
    by_cases adjacent : page.pageno = first + 1
    · have empty : between = [] := by
        cases between with
        | nil => rfl
        | cons middle others =>
          rw [split] at apart
          have low := (List.pairwise_cons.mp apart).1 middle List.mem_cons_self
          have high := (List.pairwise_cons.mp (List.pairwise_cons.mp apart).2).1 page.pageno
            (by simp)
          omega
      rw [empty, List.length_singleton, Nat.one_mul] at total
      rw [adjacent, Nat.succ_mul] at lastAddress
      rw [offsetBehind, numbers, if_neg (by omega), if_pos (by omega), reading.headSize holds,
        adjacent, Nat.succ_mul]
      exact congrArg Except.ok (int_of_eq (by push_cast; omega) (by omega))
    · rw [List.length_cons] at total
      have notFull := notFar (by omega)
      exact offsetBehind_far size (reading.headSize holds) reading.room (by omega) numbers inside
        short firstAddress lastAddress total (by omega)

/-! ### From string to string -/

/-- The walk stands in front of a cell of the chain: on its page, at its address. -/
def InFront (pageSize : Nat) (chain : List Nat) (page : SMDPage) (cell : Nat) (offset : Int) :
    Prop :=
  ∃ front after pos, chain = front ++ page.pageno :: after ∧
    cell = front.length * (pageSize - 12) + pos ∧ pos + 4 ≤ pageSize - 12 ∧
    offset = (page.pageno * pageSize + (12 + pos) : Nat)

/-- The last page of the chain is not full. -/
def EndsOpen (pages : PageMap) (chain : List Nat) : Prop :=
  ∀ front last view, chain = front ++ [last] → pages last = some view → view.space ≠ 0

omit [CoherentDevice Device] in
/-- A cell behind a written one is on one page only. -/
theorem page_unique {room left right first second : Nat}
    (equal : left * room + first = right * room + second) (firstLe : first ≤ room)
    (secondLe : second ≤ room) (firstPos : 0 < first) (secondPos : 0 < second) :
    left = right ∧ first = second := by
  rcases Nat.lt_trichotomy left right with less | same | more
  · have product := Nat.mul_le_mul_right room less
    rw [Nat.succ_mul] at product
    omega
  · rw [same] at equal
    omega
  · have product := Nat.mul_le_mul_right room more
    rw [Nat.succ_mul] at product
    omega

/-- The last page of a line, as its length has it. -/
theorem Reading.last (reading : Reading before pages chains key file mgr) {strings : List Bytes}
    (lines : Lines mgr.m_nPageSize pages (chains key) strings) :
    ∃ front last view, chains key = front ++ [last] ∧ pages last = some view ∧
      view.next = noNextPage ∧ view.used ≤ mgr.m_nPageSize - 12 ∧
      lineEnd (mgr.m_nPageSize - 12) 0 strings =
        front.length * (mgr.m_nPageSize - 12) + view.used ∧ (front = [] ∨ 0 < view.used) := by
  obtain ⟨front, last, view, split, known, endEq, begun⟩ := lines.ended
  obtain ⟨value, _, serves, chainOf⟩ := reading.opens
  have linked := chainOf.linked
  rw [split] at linked
  obtain ⟨seen, knownLast, next⟩ := linked.last
  rw [known] at knownLast
  cases knownLast
  obtain ⟨bodyEq, _⟩ := (serves.stores last view known).length_body
  rw [bodyOffset_pos last (lines.data last (by rw [split]; simp))] at bodyEq
  have usedEq : view.used = view.body.length - view.space := rfl
  exact ⟨front, last, view, split, known, next, by omega, endEq, begun⟩

/-- Behind the last string the walk ends. -/
theorem Reading.next_end (reading : Reading before pages chains key file mgr)
    (holds : file.page = some page) {strings : List Bytes}
    (lines : Lines mgr.m_nPageSize pages (chains key) strings)
    (isOpen : EndsOpen pages (chains key)) {front after : List Nat} {last : Nat}
    (chainEq : chains key = front ++ page.pageno :: after)
    (cell : lineEnd (mgr.m_nPageSize - 12) 0 strings =
      front.length * (mgr.m_nPageSize - 12) + last)
    (positive : 0 < last) (lastLe : last ≤ mgr.m_nPageSize - 12) :
    file.getNextOffset mgr (page.pageno * mgr.m_nPageSize + (12 + last) : Nat) =
      .ok (-1, file, mgr) := by
  obtain ⟨front', number, view, split, known, next, usedLe, endEq, begun⟩ := reading.last lines
  have space := isOpen front' number view split known
  rw [cell] at endEq
  have used : 0 < view.used := by
    rcases begun with empty | used
    · rw [empty, List.length_nil, Nat.zero_mul] at endEq
      omega
    · exact used
  obtain ⟨lengths, lastEq⟩ := page_unique endEq lastLe usedLe positive used
  obtain ⟨_, tailEq⟩ := List.append_inj (chainEq.symm.trans split) lengths
  cases tailEq
  obtain ⟨_, _, seen⟩ := reading.held holds
  rw [known] at seen
  cases seen
  rw [lastEq]
  exact reading.nextOffset_end holds next space

/-- Behind any other string the walk goes on to the next one. -/
theorem Reading.next_start (reading : Reading before pages chains key file mgr)
    (holds : file.page = some page) {done rest : List Bytes} {bytes : Bytes}
    (lines : Lines mgr.m_nPageSize pages (chains key) (done ++ bytes :: rest))
    {front after : List Nat} {last : Nat} (chainEq : chains key = front ++ page.pageno :: after)
    (cell : lineEnd (mgr.m_nPageSize - 12) 0 done = front.length * (mgr.m_nPageSize - 12) + last)
    (lastLe : last ≤ mgr.m_nPageSize - 12) :
    ∃ offset turned device,
      file.getNextOffset mgr (page.pageno * mgr.m_nPageSize + (12 + last) : Nat) =
        .ok (offset, { file with page := some turned }, { mgr with device := device }) ∧
      Reading before pages chains key { file with page := some turned }
        { mgr with device := device } ∧
      InFront mgr.m_nPageSize (chains key) turned
        (lineStart (mgr.m_nPageSize - 12) (lineEnd (mgr.m_nPageSize - 12) 0 done)) offset := by
  obtain ⟨front', number, view, split, known, _, usedLe, endEq, _⟩ := reading.last lines
  have room := reading.room
  have lengths := congrArg List.length (chainEq.symm.trans split)
  simp only [List.length_append, List.length_cons, List.length_nil] at lengths
  have startEq : lineStart (mgr.m_nPageSize - 12) (front.length * (mgr.m_nPageSize - 12) + last) =
      front.length * (mgr.m_nPageSize - 12) + last +
        SMDPageFile.skipped 4 (mgr.m_nPageSize - 12 - last) := lineStart_page (by omega) lastLe
  have later := lineEnd_ge (mgr.m_nPageSize - 12) (lineStart (mgr.m_nPageSize - 12)
    (lineEnd (mgr.m_nPageSize - 12) 0 done) + 4 + bytes.length) rest
  rw [lineEnd_append, lineEnd] at endEq
  rw [endEq, cell, startEq] at later
  rw [cell, startEq]
  by_cases little : mgr.m_nPageSize - 12 < last + 4
  · rw [SMDPageFile.skipped, if_pos (by omega)] at later ⊢
    cases after with
    | nil =>
      have same : front.length = front'.length := by simpa using lengths
      rw [same] at later
      omega
    | cons next after =>
      obtain ⟨turned, device, nextEq, turnedEq, reading⟩ :=
        reading.nextOffset_turn holds chainEq lastLe little
      refine ⟨_, turned, device, nextEq, reading, front ++ [page.pageno], after, 0, ?_, ?_,
        by omega, by rw [turnedEq, Nat.add_zero]⟩
      · rw [chainEq, turnedEq, List.append_assoc]
        rfl
      · rw [List.length_append, List.length_singleton, Nat.succ_mul]
        omega
  · rw [SMDPageFile.skipped, if_neg (by omega)] at later ⊢
    have unchanged : file = { file with page := some page } := by rw [← holds]
    refine ⟨_, page, mgr.device, ?_, by rw [← unchanged]; exact reading, front, after, last,
      chainEq, by rw [Nat.add_zero], by omega, rfl⟩
    rw [← unchanged]
    refine reading.nextOffset_stay holds (by omega) fun noNext => ?_
    obtain ⟨value, _, _, chainOf⟩ := reading.opens
    obtain ⟨_, _, seen⟩ := reading.held holds
    cases after with
    | nil =>
      obtain ⟨frontEq, tailEq⟩ := List.append_inj' (chainEq.symm.trans split) rfl
      cases tailEq
      rw [known] at seen
      cases seen
      rw [frontEq] at later
      omega
    | cons next after =>
      have linked := chainOf.linked
      rw [chainEq] at linked
      obtain ⟨_, middle, link, valid⟩ := linked.middle
      rw [seen] at middle
      cases middle
      exact absurd (link.symm.trans noNext) valid

end Turn

/-! ### The whole walk -/

/-- A string of `count` bytes from a cell does not end with the last byte of a page two or more
behind the one where it starts. -/
def ClearEnd (room : Nat) (chain : List Nat) (cell count : Nat) : Prop :=
  ∀ first last, chain[cell / room]? = some first →
    chain[(cell + 4 + count - 1) / room]? = some last → (cell + 4 + count) % room = 0 →
    last ≤ first + 1

/-- No string of the line ends so. -/
def Walkable (room : Nat) (chain : List Nat) : Nat → List Bytes → Prop
  | _, [] => True
  | cell, bytes :: rest => ClearEnd room chain (lineStart room cell) bytes.length ∧
      Walkable room chain (lineStart room cell + 4 + bytes.length) rest

omit [CoherentDevice Device] in
theorem walkable_append (room : Nat) (chain : List Nat) (cell : Nat) (first second : List Bytes) :
    Walkable room chain cell (first ++ second) ↔
      Walkable room chain cell first ∧ Walkable room chain (lineEnd room cell first) second := by
  induction first generalizing cell with
  | nil => exact (iff_of_eq (true_and _)).symm
  | cons bytes rest inductionHypothesis =>
    rw [List.cons_append, Walkable, Walkable, inductionHypothesis, and_assoc, lineEnd]

omit [CoherentDevice Device] in
/-- The strings of a chain stay clear when it grows. -/
theorem Walkable.extend {room cell : Nat} {chain : List Nat} {strings : List Bytes}
    (walkable : Walkable room chain cell strings) (fresh : List Nat)
    (inside : lineEnd room cell strings ≤ chain.length * room) :
    Walkable room (chain ++ fresh) cell strings := by
  induction strings generalizing cell with
  | nil => exact trivial
  | cons bytes rest inductionHypothesis =>
    obtain ⟨clear, others⟩ := walkable
    rw [lineEnd] at inside
    refine ⟨fun first last firstAt lastAt full => ?_, inductionHypothesis others inside⟩
    have later := lineEnd_ge room (lineStart room cell + 4 + bytes.length) rest
    have within : ∀ place, place < chain.length * room → place / room < chain.length :=
      fun place less => Nat.div_lt_of_lt_mul (by rwa [Nat.mul_comm])
    rw [List.getElem?_append_left (within _ (by omega))] at firstAt lastAt
    exact clear first last firstAt lastAt full

omit [CoherentDevice Device] in
/-- The numbers of the new pages behind a chain. -/
theorem getElem?_fresh {front : List Nat} {last count length index pageno : Nat}
    (present : ((front ++ [last]) ++ List.range' (count + 1) length)[front.length + 1 + index]? =
      some pageno) : pageno = count + 1 + index := by
  rw [List.getElem?_append_right (by simp)] at present
  obtain ⟨_, equal⟩ := List.getElem?_eq_some_iff.mp present
  rw [List.getElem_range'] at equal
  simp at equal
  omega

omit [CoherentDevice Device] in
/-- The last cell of a row that ends with the end of a page. -/
theorem page_of_end {room front place : Nat} (wide : 0 < room) (whole : place % room = 0)
    (positive : 0 < place) : (front * room + place - 1) / room = front + (place / room - 1) := by
  obtain ⟨pages, rfl⟩ := Nat.dvd_of_mod_eq_zero whole
  obtain ⟨before, rfl⟩ := Nat.exists_eq_add_one.mpr (Nat.pos_of_mul_pos_left positive)
  rw [Nat.mul_div_cancel_left _ wide, Nat.add_sub_cancel, Nat.mul_succ, Nat.mul_comm room,
    ← Nat.add_assoc, ← Nat.add_mul, Nat.add_sub_assoc wide, address_div (by omega)]

omit [CoherentDevice Device] in
/-- An appended string is clear, too, unless it is one that fills a page two or more behind the
one where it starts: the last page of the chain or the first new one. -/
theorem clearEnd_append {room used last pageCnt count length : Nat} {front : List Nat}
    (wide : 4 ≤ room) (inside : used ≤ room)
    (notFar : ¬ if room - used < 4 then (4 + count) % room = 0 ∧ 3 ≤ (4 + count) / room
      else (used + 4 + count) % room = 0 ∧ 2 ≤ (used + 4 + count) / room ∧
        last + 3 ≤ pageCnt + (used + 4 + count) / room) :
    ClearEnd room ((front ++ [last]) ++ List.range' (pageCnt + 1) length)
      (lineStart room (front.length * room + used)) count := by
  rw [lineStart_page wide inside]
  intro first final firstAt finalAt full
  by_cases little : room - used < 4
  · rw [if_pos little] at notFar
    rw [SMDPageFile.skipped, if_pos little] at firstAt finalAt full
    have start : front.length * room + used + (room - used) = (front.length + 1) * room := by
      rw [Nat.succ_mul]
      omega
    have ending : (front.length + 1) * room + 4 + count =
        (front.length + 1) * room + (4 + count) := Nat.add_assoc ..
    rw [start, Nat.mul_div_cancel _ (by omega)] at firstAt
    rw [start, ending, Nat.mul_comm, Nat.mul_add_mod] at full
    rw [start, ending, page_of_end (by omega) full (by omega)] at finalAt
    have firstEq : first = pageCnt + 1 + 0 := getElem?_fresh firstAt
    have finalEq := getElem?_fresh finalAt
    omega
  · rw [if_neg little] at notFar
    rw [SMDPageFile.skipped, if_neg little] at firstAt finalAt full
    simp only [Nat.add_zero] at firstAt finalAt full
    have ending : front.length * room + used + 4 + count =
        front.length * room + (used + 4 + count) := by omega
    rw [address_div (by omega), List.append_assoc] at firstAt
    have firstEq : last = first := by simpa using firstAt
    rw [ending, Nat.mul_comm, Nat.mul_add_mod] at full
    rw [ending, page_of_end (by omega) full (by omega)] at finalAt
    by_cases one : (used + 4 + count) / room ≤ 1
    · rw [show front.length + ((used + 4 + count) / room - 1) = front.length by omega,
        List.append_assoc] at finalAt
      have finalEq : last = final := by simpa using finalAt
      omega
    · obtain ⟨more, moreEq⟩ : ∃ more, (used + 4 + count) / room = more + 2 :=
        ⟨(used + 4 + count) / room - 2, by omega⟩
      rw [moreEq, show more + 2 - 1 = 1 + more by omega, ← Nat.add_assoc] at finalAt
      have finalEq := getElem?_fresh finalAt
      omega

/-- A member that reads the records at an offset, and leaves the segment object where reading the
string there leaves it. -/
def Fetches (before : Segments Device) (pages : PageMap) (chains : PageKey_t → List Nat)
    (key : PageKey_t) (tableStruct : Schema.TableDef)
    (getEntry : DataFeature → SMDPageManagement Device → Nat →
      Except Fault (List (Option Record) × DataFeature × SMDPageManagement Device))
    (bytes : Bytes) (entry : List (Option Record)) : Prop :=
  ∀ file mgr, Reading before pages chains key file mgr → ∀ front pageno after pos,
    chains key = front ++ pageno :: after → Stands pages (pageno :: after) pos bytes →
    pos + 4 ≤ mgr.m_nPageSize - 12 →
    ∃ page device,
      getEntry ⟨tableStruct, some file⟩ mgr (pageno * mgr.m_nPageSize + (12 + pos)) =
        .ok (entry, ⟨tableStruct, some { file with page := some page }⟩,
          { mgr with device := device }) ∧
      Reading before pages chains key { file with page := some page }
        { mgr with device := device } ∧
      EndsOn pages (pageno :: after) (pos + 4 + bytes.length) page.pageno

/-- Where the walk is before its next turn: in front of the next string, or at the end. -/
def AtNext (pageSize : Nat) (chain : List Nat) (file : SMDPageFile) (cell : Nat) (offset : Int) :
    List Bytes → Prop
  | [] => offset = -1
  | _ :: _ => ∃ page, file.page = some page ∧
      InFront pageSize chain page (lineStart (pageSize - 12) cell) offset

theorem readFrom_end (getEntry : DataFeature → SMDPageManagement Device → Nat →
      Except Fault (List (Option Record) × DataFeature × SMDPageManagement Device))
    (fuel : Nat) (records : List (Option Record)) (feature : DataFeature)
    (mgr : SMDPageManagement Device) :
    DataFeature.readFrom getEntry fuel (-1) records feature mgr = .ok (records, feature, mgr) := by
  rw [DataFeature.readFrom.eq_def]
  exact if_pos rfl

theorem readFrom_succ {getEntry : DataFeature → SMDPageManagement Device → Nat →
      Except Fault (List (Option Record) × DataFeature × SMDPageManagement Device)}
    {tableStruct : Schema.TableDef} {file fileGot fileRead fileNext : SMDPageFile}
    {mgr mgrGot mgrRead mgrNext : SMDPageManagement Device} {page pageRead : SMDPage} {found : Bool}
    {stream : SMDMemStream} {offset behind next : Int} {entry : List (Option Record)}
    (fuel : Nat) (records : List (Option Record)) (notEnd : offset ≠ -1)
    (holds : file.page = some page)
    (getEq : file.get mgr (SMDMemStream.new 0) offset = .ok (found, stream, fileGot, mgrGot))
    (entryEq : getEntry ⟨tableStruct, some fileGot⟩ mgrGot (uint offset) =
      .ok (entry, ⟨tableStruct, some fileRead⟩, mgrRead))
    (holdsRead : fileRead.page = some pageRead)
    (behindEq : offsetBehind pageRead (int page.getPageNo) offset stream.size = .ok behind)
    (nextEq : fileRead.getNextOffset mgrRead behind = .ok (next, fileNext, mgrNext)) :
    DataFeature.readFrom getEntry (fuel + 1) offset records ⟨tableStruct, some file⟩ mgr =
      DataFeature.readFrom getEntry fuel next (records ++ entry) ⟨tableStruct, some fileNext⟩
        mgrNext := by
  rw [DataFeature.readFrom, if_neg notEnd]
  have fileEq : DataFeature.pageFile ⟨tableStruct, some file⟩ = .ok file := rfl
  have pageEq : file.held = .ok page := by rw [SMDPageFile.held, holds]
  have pageReadEq : fileRead.held = .ok pageRead := by rw [SMDPageFile.held, holdsRead]
  rw [fileEq, ok_bind, pageEq, ok_bind, getEq, ok_bind]
  simp only
  rw [DataFeature.turned, entryEq, ok_bind]
  simp only
  have fileReadEq : DataFeature.pageFile ⟨tableStruct, some fileRead⟩ = .ok fileRead := rfl
  rw [fileReadEq, ok_bind, pageReadEq, ok_bind, behindEq, ok_bind, nextEq, ok_bind]
  rfl

/-- One turn of the walk. -/
theorem Reading.readFrom_turn (reading : Reading before pages chains key file mgr)
    {strings : List Bytes} (lines : Lines mgr.m_nPageSize pages (chains key) strings)
    (isOpen : EndsOpen pages (chains key))
    (walkable : Walkable (mgr.m_nPageSize - 12) (chains key) 0 strings)
    {tableStruct : Schema.TableDef} {done rest : List Bytes} {bytes : Bytes}
    {getEntry : DataFeature → SMDPageManagement Device → Nat →
      Except Fault (List (Option Record) × DataFeature × SMDPageManagement Device)}
    {entry : List (Option Record)}
    (fetches : Fetches before pages chains key tableStruct getEntry bytes entry)
    (split : strings = done ++ bytes :: rest) {offset : Int}
    (inFront : AtNext mgr.m_nPageSize (chains key) file (lineEnd (mgr.m_nPageSize - 12) 0 done)
      offset (bytes :: rest)) (fuel : Nat) (records : List (Option Record)) :
    ∃ next page device,
      DataFeature.readFrom getEntry (fuel + 1) offset records ⟨tableStruct, some file⟩ mgr =
        DataFeature.readFrom getEntry fuel next (records ++ entry)
          ⟨tableStruct, some { file with page := some page }⟩ { mgr with device := device } ∧
      Reading before pages chains key { file with page := some page }
        { mgr with device := device } ∧
      AtNext mgr.m_nPageSize (chains key) { file with page := some page }
        (lineEnd (mgr.m_nPageSize - 12) 0 (done ++ [bytes])) next rest := by
  obtain ⟨page, holds, front, after, pos, chainEq, cellEq, inside, offsetEq⟩ := inFront
  obtain ⟨_, short⟩ := lines.short bytes (by rw [split]; simp)
  obtain ⟨value, _, serves, chainOf⟩ := reading.opens
  obtain ⟨front', pageno, after', pos', chainEq', cellEq', inside', stands⟩ :=
    lines.start reading.room serves.stores chainOf.linked split
  have room := reading.room
  obtain ⟨lengths, posEq⟩ := page_unique (show front.length * (mgr.m_nPageSize - 12) + (pos + 4) =
      front'.length * (mgr.m_nPageSize - 12) + (pos' + 4) by omega) inside inside' (by omega)
    (by omega)
  obtain ⟨_, tailEq⟩ := List.append_inj (chainEq.symm.trans chainEq') lengths
  cases tailEq
  rw [show pos' = pos by omega] at stands
  -- the string is read twice, once for its length
  obtain ⟨pageGot, deviceGot, getEq, readingGot, _⟩ := reading.get chainEq stands inside (by omega)
  obtain ⟨pageRead, deviceRead, entryEq, readingRead, ends⟩ :=
    fetches _ _ readingGot front page.pageno after pos chainEq stands inside
  obtain ⟨between, back, last, behindEq, total, lastLe, positive, behind⟩ :=
    readingRead.behind rfl chainEq inside short ends
  simp only at total lastLe behind
  have wholeEq : chains key = (front ++ between) ++ pageRead.pageno :: back := by
    rw [chainEq, behindEq, List.append_assoc]
  have startEq : lineStart (mgr.m_nPageSize - 12) (lineEnd (mgr.m_nPageSize - 12) 0 done) =
      front.length * (mgr.m_nPageSize - 12) + pos := cellEq
  have endEq : lineEnd (mgr.m_nPageSize - 12) 0 (done ++ [bytes]) =
      (front ++ between).length * (mgr.m_nPageSize - 12) + last := by
    rw [lineEnd_append, lineEnd, lineEnd, startEq, List.length_append, Nat.add_mul]
    omega
  have notFar : page.pageno + 2 ≤ pageRead.pageno → last ≠ mgr.m_nPageSize - 12 := by
    intro far full
    have clear := walkable
    rw [split, walkable_append, Walkable] at clear
    have endCell : lineStart (mgr.m_nPageSize - 12) (lineEnd (mgr.m_nPageSize - 12) 0 done) + 4 +
        bytes.length = (front ++ between).length * (mgr.m_nPageSize - 12) + last := by
      rw [← endEq, lineEnd_append, lineEnd, lineEnd]
    refine absurd (clear.2.1 page.pageno pageRead.pageno ?_ ?_ ?_) (by omega)
    · rw [startEq, address_div (by omega), chainEq]
      simp
    · rw [endCell, Nat.add_sub_assoc positive, address_div (by omega), wholeEq]
      simp
    · rw [endCell, full, ← Nat.succ_mul, Nat.mul_mod_left]
  have nextEq := behind notFar
  have address := reading.address (show page.pageno ∈ chains key by rw [chainEq]; simp)
  have uintEq : uint (page.pageno * mgr.m_nPageSize + (12 + pos) : Nat) =
      page.pageno * mgr.m_nPageSize + (12 + pos) := uint_of_lt _ (by omega)
  have sizeEq : (⟨bytes, 0⟩ : SMDMemStream).size = bytes.length :=
    uint_of_lt bytes.length (by omega)
  have notEnd : offset ≠ -1 := by omega
  rw [offsetEq] at notEnd ⊢
  have behindEq : offsetBehind pageRead (int page.getPageNo)
      (page.pageno * mgr.m_nPageSize + (12 + pos) : Nat) (⟨bytes, 0⟩ : SMDMemStream).size =
        .ok (pageRead.pageno * mgr.m_nPageSize + (12 + last) : Nat) := by
    rw [sizeEq]
    exact nextEq
  rw [← uintEq] at entryEq
  cases rest with
  | nil =>
    have ended := readingRead.next_end rfl (by rwa [split] at lines) isOpen wholeEq endEq positive
      lastLe
    exact ⟨-1, pageRead, deviceRead,
      readFrom_succ fuel records notEnd holds getEq entryEq rfl behindEq ended, readingRead, rfl⟩
  | cons next rest =>
    obtain ⟨offset', turned, device', gone, reading', inFront'⟩ := readingRead.next_start rfl
      (by rwa [split, ← List.singleton_append, ← List.append_assoc] at lines) wholeEq endEq lastLe
    exact ⟨offset', turned, device',
      readFrom_succ fuel records notEnd holds getEq entryEq rfl behindEq gone, reading', turned,
      rfl, inFront'⟩

/-- The walk in front of the strings of the list `rest`, those of the list `done` behind it: it
reads them all, and ends. -/
theorem readFrom_spec {strings : List Bytes} {tableStruct : Schema.TableDef}
    (lines : Lines before.mgr.m_nPageSize pages (chains key) strings)
    (isOpen : EndsOpen pages (chains key))
    (walkable : Walkable (before.mgr.m_nPageSize - 12) (chains key) 0 strings)
    {getEntry : DataFeature → SMDPageManagement Device → Nat →
      Except Fault (List (Option Record) × DataFeature × SMDPageManagement Device)}
    {entryOf : Bytes → List (Option Record)}
    (fetches : ∀ bytes ∈ strings, Fetches before pages chains key tableStruct getEntry bytes
      (entryOf bytes)) :
    ∀ (rest done : List Bytes), strings = done ++ rest → ∀ (fuel : Nat), rest.length ≤ fuel →
      ∀ (records : List (Option Record)) (file : SMDPageFile) (mgr : SMDPageManagement Device)
        (offset : Int), Reading before pages chains key file mgr →
      AtNext mgr.m_nPageSize (chains key) file (lineEnd (mgr.m_nPageSize - 12) 0 done) offset rest →
      ∃ last after,
        DataFeature.readFrom getEntry fuel offset records ⟨tableStruct, some file⟩ mgr =
          .ok (records ++ rest.flatMap entryOf, ⟨tableStruct, some last⟩, after) ∧
        Reading before pages chains key last after := by
  intro rest
  induction rest with
  | nil =>
    intro done split fuel enough records file mgr offset reading atEnd
    refine ⟨file, mgr, ?_, reading⟩
    rw [show offset = -1 from atEnd, readFrom_end, List.flatMap_nil, List.append_nil]
  | cons bytes rest inductionHypothesis =>
    intro done split fuel enough records file mgr offset reading inFront
    obtain ⟨fuel, rfl⟩ : ∃ less, fuel = less + 1 := Nat.exists_eq_add_one.mpr (Nat.lt_of_lt_of_le
      (Nat.zero_lt_succ _) enough)
    have size : mgr.m_nPageSize = before.mgr.m_nPageSize := by
      rw [← reading.same]
    obtain ⟨next, page, device, turnEq, reading', atNext⟩ := reading.readFrom_turn
      (by rwa [size]) isOpen (by rwa [size])
      (fetches bytes (by rw [split]; simp)) split inFront fuel records
    obtain ⟨last, after, restEq, readingLast⟩ := inductionHypothesis (done ++ [bytes])
      (by rw [split, List.append_assoc]; rfl) fuel (Nat.le_of_succ_le_succ enough) _ _ _ _ reading'
      atNext
    refine ⟨last, after, ?_, readingLast⟩
    rw [turnEq, restEq, List.flatMap_cons, List.append_assoc]

/-- A walk over a segment that holds a string reads all of its strings, in their order. -/
theorem Reading.readAllBy (reading : Reading before pages chains key file mgr)
    {strings : List Bytes} {tableStruct : Schema.TableDef}
    (lines : Lines before.mgr.m_nPageSize pages (chains key) strings) (some' : strings ≠ [])
    (isOpen : EndsOpen pages (chains key))
    (walkable : Walkable (before.mgr.m_nPageSize - 12) (chains key) 0 strings)
    {getEntry : DataFeature → SMDPageManagement Device → Nat →
      Except Fault (List (Option Record) × DataFeature × SMDPageManagement Device)}
    {entryOf : Bytes → List (Option Record)}
    (fetches : ∀ bytes ∈ strings, Fetches before pages chains key tableStruct getEntry bytes
      (entryOf bytes)) (fuel : Nat) (enough : strings.length ≤ fuel) :
    ∃ last after, DataFeature.readAllBy getEntry fuel ⟨tableStruct, some file⟩ mgr =
        .ok (strings.flatMap entryOf, ⟨tableStruct, some last⟩, after) ∧
      Reading before pages chains key last after := by
  obtain ⟨first, after, turned, device, chainEq, firstEq, number, reading'⟩ :=
    reading.nextOffset_first
  have room := reading.room
  have inFront : AtNext mgr.m_nPageSize (chains key) { file with page := some turned }
      (lineEnd (mgr.m_nPageSize - 12) 0 []) (first * mgr.m_nPageSize + 12 : Nat) strings := by
    cases strings with
    | nil => exact absurd rfl some'
    | cons bytes rest =>
      refine ⟨turned, rfl, [], after, 0, by rw [chainEq, number]; rfl, ?_, by omega, by rw [number]⟩
      rw [lineEnd, lineStart, Nat.zero_mod, Nat.sub_zero, SMDPageFile.skipped, if_neg (by omega),
        List.length_nil, Nat.zero_mul]
  obtain ⟨last, after, readEq, readingLast⟩ := readFrom_spec lines isOpen walkable fetches
    strings [] rfl fuel enough [] _ _ _ reading' inFront
  refine ⟨last, after, ?_, readingLast⟩
  have held : DataFeature.pageFile ⟨tableStruct, some file⟩ = .ok file := rfl
  rw [DataFeature.readAllBy, held, ok_bind, firstEq, ok_bind]
  exact readEq

/-! ### What the walk fetches -/

/-- An address on a page of the segment is an `int`. -/
theorem Reading.int_address (reading : Reading before pages chains key file mgr)
    {pageno pos : Nat} (member : pageno ∈ chains key) (inside : pos + 4 ≤ mgr.m_nPageSize - 12) :
    int (pageno * mgr.m_nPageSize + (12 + pos) : Nat) =
      (pageno * mgr.m_nPageSize + (12 + pos) : Nat) := by
  have address := reading.address member
  exact int_of_lt _ (by omega)

/-- Fetching a single record. -/
theorem fetches_record {tableStruct : Schema.TableDef} {bytes : Bytes} {record : Option Record}
    (short : bytes.length < 2147483648)
    (readEq : DataFeature.getRecord tableStruct.table ⟨bytes, 0⟩ = .ok record) :
    Fetches before pages chains key tableStruct DataFeature.recordEntry bytes [record] := by
  intro file mgr reading front pageno after pos chainEq stands inside
  obtain ⟨page, device, getEq, reading', ends⟩ := reading.get chainEq stands inside short
  refine ⟨page, device, ?_, reading', ends⟩
  have fileEq : DataFeature.pageFile ⟨tableStruct, some file⟩ = .ok file := rfl
  rw [DataFeature.recordEntry, DataFeature.getRecordAt, fileEq, ok_bind,
    reading.int_address (by rw [chainEq]; simp) inside, getEq, ok_bind]
  simp only
  rw [readEq, ok_bind, ok_bind]
  rfl

/-- Fetching a group. -/
theorem fetches_group [FloatingPoint] {tableStruct : Schema.TableDef} {bytes : Bytes}
    {records : List Record} (some' : bytes ≠ []) (short : bytes.length < 2147483648)
    (readEq : DataFeature.getOGRecordsFromStream tableStruct.table ⟨bytes, 0⟩ = .ok records) :
    Fetches before pages chains key tableStruct DataFeature.groupEntry bytes
      (records.map some) := by
  intro file mgr reading front pageno after pos chainEq stands inside
  have member : pageno ∈ chains key := by rw [chainEq]; simp
  have room := reading.room
  obtain ⟨value, _, serves, chainOf⟩ := reading.opens
  obtain ⟨view, known⟩ := chainOf.linked.known member
  have bound := chainOf.allocated pageno member
  have countLt := serves.countLt
  obtain ⟨turned, device, loaded, number, _, pending, stores, same⟩ :=
    mgr.getPageByPageNo_spec pages file.page pageno view serves.sizeLt serves.room serves.stores
      serves.held known (by omega)
  have there := reading.turn pending.formed (by rw [number]; exact member) pending.seen stores same
  obtain ⟨page, device', getEq, reading', ends⟩ := there.get chainEq stands inside short
  refine ⟨page, device', ?_, reading', ends⟩
  have fileEq : DataFeature.pageFile ⟨tableStruct, some file⟩ = .ok file := rfl
  have set : file.setToOffset mgr (pageno * mgr.m_nPageSize + (12 + pos)) =
      .ok (true, { file with page := some turned }, { mgr with device := device }) := by
    rw [SMDPageFile.setToOffset, SMDPageManagement.getPageByOffset, address_div (by omega), loaded]
    rfl
  have size : (⟨bytes, 0⟩ : SMDMemStream).size ≠ 0 := by
    have sizeEq : (⟨bytes, 0⟩ : SMDMemStream).size = bytes.length :=
      uint_of_lt bytes.length (by omega)
    rw [sizeEq]
    exact (List.length_pos_iff.mpr some').ne'
  rw [DataFeature.groupEntry, DataFeature.getOneGroupRecords, fileEq, ok_bind, set, ok_bind]
  simp only
  rw [if_pos trivial, reading.int_address member inside, getEq, ok_bind]
  simp only
  rw [if_pos ⟨trivial, size⟩, readEq, ok_bind, ok_bind]
  rfl

end Segments

end LevelDBLib.KvDB
