/-
This file proves what `SMDPageFile::get` reads: the string that stands, behind
its length header, on the tape of the chain. The reader goes from page to page by
the bytes of each page that it has consumed, so it needs no more than that the
string stands on the tape, wherever the pages of the chain lie in the file.
-/

import LevelDBLib.KvDB.Append

namespace LevelDBLib.KvDB

open Buffers Tapes

variable {Device : Type} [CoherentDevice Device]

/-- The page of the chain that holds the last one of its first `total` cells. -/
def EndsOn (pages : PageMap) (chain : List Nat) (total pageno : Nat) : Prop :=
  ∃ front back view pos, chain = front ++ pageno :: back ∧ pages pageno = some view ∧
    total = (chainCells pages front).length + pos ∧ pos ≤ view.body.length ∧
    (front = [] ∨ 0 < pos)

theorem EndsOn.mem {pages : PageMap} {chain : List Nat} {total pageno : Nat}
    (ends : EndsOn pages chain total pageno) : pageno ∈ chain := by
  obtain ⟨front, back, _, _, split, _⟩ := ends
  rw [split]
  exact List.mem_append_right _ List.mem_cons_self

theorem endsOn_first {pages : PageMap} {pageno pos : Nat} {view : PageView}
    (known : pages pageno = some view) (inside : pos ≤ view.body.length) (after : List Nat) :
    EndsOn pages (pageno :: after) pos pageno :=
  ⟨[], after, view, pos, rfl, known, (Nat.zero_add _).symm, inside, Or.inl rfl⟩

/-- The cells of one more page in front. -/
theorem EndsOn.behind {pages : PageMap} {chain : List Nat} {total pageno first : Nat}
    {view : PageView} (ends : EndsOn pages chain total pageno) (positive : 0 < total)
    (known : pages first = some view) (space : view.space ≤ view.body.length) :
    EndsOn pages (first :: chain) (view.body.length + total) pageno := by
  obtain ⟨front, back, held, pos, split, seen, totalEq, inside, started⟩ := ends
  refine ⟨first :: front, back, held, pos, by rw [split, List.cons_append], seen, ?_, inside,
    Or.inr (started.elim (fun empty => ?_) id)⟩
  · rw [chainCells_cons, List.length_append, pageCells_of_some known, view.length_cells space,
      totalEq, Nat.add_assoc]
  · rw [empty, chainCells_nil, List.length_nil, Nat.zero_add] at totalEq
    omega

namespace SMDPageFile

/-! ### One page -/

theorem read_nothing (page : SMDPage) (pageSize offset : Nat) (formed : page.WellFormed pageSize)
    (atEnd : offset % pageSize = 0) : page.read offset 0 = .ok [] := by
  rw [SMDPage.read, formed.size_eq, atEnd]
  simp only
  rw [if_neg (by omega), fetch_of_le _ _ _ (Nat.zero_le _), slice_zero]

/-- Reading the part of a string that stands on a page. -/
theorem read_chunk (page : SMDPage) (pageSize pos : Nat) (source : Bytes) (rest : Tape UInt8)
    (formed : page.WellFormed pageSize)
    (within : pos + source.length ≤ page.view.body.length)
    (reads : Reads (page.view.cells ++ rest) pos source) (some' : source ≠ []) :
    page.read (bodyOffset page.pageno + pos) source.length = .ok source := by
  have bodyEq := page.length_body pageSize formed
  have spaceLe := formed.space_le
  have positive : 0 < source.length := List.length_pos_iff.mpr some'
  have space := page.view_space_le pageSize formed
  obtain ⟨inside, sliceEq⟩ :=
    page.view.slice_of_reads pos source rest space within reads some'
  have inPage : (bodyOffset page.pageno + pos) % pageSize = bodyOffset page.pageno + pos :=
    Nat.mod_eq_of_lt (by omega)
  rw [page.read_spec pageSize formed _ pos source.length inPage inside, sliceEq]

/-- The content of a page starts where its body does, in a file that 32 bits can address. -/
theorem contentOffset_mod (page : SMDPage) (pageSize : Nat) (formed : page.WellFormed pageSize)
    (room : 28 < pageSize) (address : page.pageno * pageSize + pageSize ≤ 4294967296) :
    page.getContentOffset % pageSize = bodyOffset page.pageno := by
  have start := headOffset_cases page.pageno
  rw [SMDPage.getContentOffset, formed.size_eq, bodyOffset_eq, sizeofHead]
  have inFile : uint (page.pageno * pageSize + 12 + SMDPage.headOffset page.pageno) =
      page.pageno * pageSize + (12 + SMDPage.headOffset page.pageno) := by
    have := uint_of_lt (page.pageno * pageSize + (12 + SMDPage.headOffset page.pageno)) (by omega)
    push_cast at this
    rw [← Int.add_assoc] at this
    exact this
  rw [show ((12 : Nat) : Int) = 12 from rfl, inFile, Nat.mul_comm, Nat.mul_add_mod,
    Nat.mod_eq_of_lt (by omega)]
  omega

/-! ### The loop of get -/

/-- One turn of the loop of `get` copies what stands on the page from the position on. -/
theorem getLoop_turn {nSize fuel pos i : Nat} {pages : PageMap} {rest : Bytes} {after : List Nat}
    {stream : SMDMemStream} {page : SMDPage} {mgr : SMDPageManagement Device} {wSize : Nat}
    (pending : Pending mgr.device mgr.m_nPageSize pages page)
    (reads : Reads (chainCells pages (page.pageno :: after)) pos rest)
    (inPage : pos ≤ page.view.body.length) (total : i + rest.length = nSize)
    (lengthEq : stream.data.length = nSize) (wanted : i < nSize)
    (wSizeEq : wSize = min (page.view.body.length - pos) (nSize - i)) :
    getLoop nSize (fuel + 1) (bodyOffset page.pageno + pos) i stream page mgr =
      if i + wSize = nSize then
        .ok ({ stream with data := splice stream.data i (rest.take wSize) }, page, mgr)
      else (do
        let (_, page, mgr) ← mgr.getNextPage (some page) page.getPageNo
        getLoop nSize fuel (page.getContentOffset % page.getSize) (i + wSize)
          { stream with data := splice stream.data i (rest.take wSize) } page mgr) := by
  have formed := pending.formed
  have bodyEq := page.length_body _ formed
  have spaceLe := formed.space_le
  have sizeLt := formed.sizeLt
  have roomEq : page.getSize - (bodyOffset page.pageno + pos) = page.view.body.length - pos := by
    rw [SMDPage.getSize, formed.size_eq]
    omega
  have chunkLength : (rest.take wSize).length = wSize := by
    rw [List.length_take]
    omega
  obtain ⟨here, _⟩ := reads_split pending.seen (page.view_space_le _ formed) reads
    (show wSize ≤ rest.length by omega)
  have read : page.read (bodyOffset page.pageno + pos) (ushort wSize) = .ok (rest.take wSize) := by
    rw [ushort_of_lt _ (by omega)]
    by_cases none' : wSize = 0
    · have full : bodyOffset page.pageno + pos = mgr.m_nPageSize := by omega
      rw [none', List.take_zero, full]
      exact read_nothing page _ _ formed (Nat.mod_self _)
    · have chunk := read_chunk page mgr.m_nPageSize pos (rest.take wSize) (chainCells pages after)
        formed (by rw [chunkLength]; omega) here
        (List.ne_nil_of_length_pos (by rw [chunkLength]; omega))
      rw [chunkLength] at chunk
      exact chunk
  have copied : memcpy stream.data i (rest.take wSize) =
      .ok (splice stream.data i (rest.take wSize)) :=
    memcpy_of_le _ _ _ (by rw [chunkLength, lengthEq]; omega)
  rw [getLoop, if_neg (Nat.not_le_of_lt wanted)]
  simp only [roomEq, ← wSizeEq, read, ok_bind, copied]

/-- The loop of `get` turns to the body of the next page of the chain. -/
theorem getNextPage_inside {mgr : SMDPageManagement Device} {pages : PageMap} {page : SMDPage}
    {next : Nat} {others : List Nat} (pending : Pending mgr.device mgr.m_nPageSize pages page)
    (stores : Stores mgr.device mgr.m_nPageSize pages) (room : 28 < mgr.m_nPageSize)
    (address : next * mgr.m_nPageSize + mgr.m_nPageSize ≤ 4294967296)
    (chain : Chain pages (page.pageno :: next :: others)) :
    ∃ turned device,
      mgr.getNextPage (some page) page.getPageNo = .ok (true, turned, { mgr with device := device }) ∧
      turned.pageno = next ∧ Pending device mgr.m_nPageSize pages turned ∧
      Stores device mgr.m_nPageSize pages ∧
      CoherentDevice.saves device = CoherentDevice.saves mgr.device ∧
      turned.getContentOffset % turned.getSize = bodyOffset turned.pageno ∧
      0 < turned.view.body.length := by
  obtain ⟨view, known, link, valid⟩ := (chain : (_ ∧ _)).1
  rw [pending.seen] at known
  cases known
  obtain ⟨nextView, nextKnown⟩ := chain.2.known List.mem_cons_self
  obtain ⟨turned, device, turnEq, number, viewEq, turnedPending, turnedStores, same⟩ :=
    mgr.getNextPage_middle pages page nextView stores pending (by omega)
      (by rw [link]; exact valid) (by rw [link]; exact nextKnown)
  rw [link] at number
  refine ⟨turned, device, turnEq, number, turnedPending, turnedStores, same, ?_, ?_⟩
  · rw [SMDPage.getSize, turnedPending.formed.size_eq]
    exact contentOffset_mod turned _ turnedPending.formed room (by rw [number]; exact address)
  · have small := bodyOffset_le turned.pageno
    rw [turned.length_body _ turnedPending.formed]
    exact Nat.sub_pos_of_lt (Nat.lt_of_le_of_lt small room)

/-- The loop of `get` copies what still stands on the tape. -/
theorem getLoop_spec (nSize fuel : Nat) (pages : PageMap) :
    ∀ (rest : Bytes) (pos i : Nat) (after : List Nat) (stream : SMDMemStream) (page : SMDPage)
      (mgr : SMDPageManagement Device), Pending mgr.device mgr.m_nPageSize pages page →
      Stores mgr.device mgr.m_nPageSize pages → 28 < mgr.m_nPageSize →
      (∀ pageno ∈ after, pageno * mgr.m_nPageSize + mgr.m_nPageSize ≤ 4294967296) →
      Chain pages (page.pageno :: after) →
      Reads (chainCells pages (page.pageno :: after)) pos rest →
      pos ≤ page.view.body.length → i + rest.length = nSize → stream.data.length = nSize →
      rest.length + (if pos = page.view.body.length then 1 else 0) ≤ fuel →
      ∃ last device,
        getLoop nSize fuel (bodyOffset page.pageno + pos) i stream page mgr =
          .ok ({ stream with data := splice stream.data i rest }, last,
            { mgr with device := device }) ∧
        EndsOn pages (page.pageno :: after) (pos + rest.length) last.pageno ∧
        Pending device mgr.m_nPageSize pages last ∧ Stores device mgr.m_nPageSize pages ∧
        CoherentDevice.saves device = CoherentDevice.saves mgr.device := by
  induction fuel with
  | zero =>
    intro rest pos i after stream page mgr pending stores room address chain reads inPage total
      lengthEq enough
    have empty : rest = [] := List.length_eq_zero_iff.mp (by omega)
    refine ⟨page, mgr.device, ?_, endsOn_first pending.seen (by rw [empty]; exact inPage) after,
      pending, stores, rfl⟩
    rw [getLoop, if_pos (by rw [empty] at total; exact Nat.le_of_eq total.symm), empty, splice_nil]
  | succ fuel inductionHypothesis =>
    intro rest pos i after stream page mgr pending stores room address chain reads inPage total
      lengthEq enough
    by_cases done : nSize ≤ i
    · have empty : rest = [] := List.length_eq_zero_iff.mp (by omega)
      refine ⟨page, mgr.device, ?_, endsOn_first pending.seen (by rw [empty]; exact inPage) after,
        pending, stores, rfl⟩
      rw [getLoop, if_pos done, empty, splice_nil]
    obtain ⟨wSize, wSizeEq⟩ : ∃ wSize, wSize = min (page.view.body.length - pos) (nSize - i) :=
      ⟨_, rfl⟩
    have turn := @getLoop_turn _ _ nSize fuel pos i pages rest after stream page mgr wSize pending
      reads inPage total lengthEq (Nat.lt_of_not_le done) wSizeEq
    have chunkLength : (rest.take wSize).length = wSize := List.length_take_of_le (by omega)
    rw [turn]
    by_cases last : i + wSize = nSize
    · refine ⟨page, mgr.device, ?_, endsOn_first pending.seen (by omega) after, pending, stores, rfl⟩
      rw [if_pos last, List.take_of_length_le (by omega)]
    rw [if_neg last]
    have space := page.view_space_le _ pending.formed
    have more : rest.drop wSize ≠ [] :=
      List.ne_nil_of_length_pos (by rw [List.length_drop]; omega)
    have full : pos + wSize = page.view.body.length := by omega
    have restReads := (reads_split pending.seen space reads (show wSize ≤ rest.length by omega)).2 full
    cases after with
    | nil =>
      have bound := restReads.length_le more
      rw [chainCells_nil, List.length_drop] at bound
      exact absurd bound (by simp only [List.length_nil]; omega)
    | cons next others =>
      obtain ⟨turned, device, turnEq, number, turnedPending, turnedStores, same, offsetEq, some'⟩ :=
        getNextPage_inside pending stores room (address next List.mem_cons_self) chain
      obtain ⟨ended, final, loopEq, endedNo, endedPending, endedStores, endedSame⟩ :=
        inductionHypothesis (rest.drop wSize) 0 (i + wSize) others
          { stream with data := splice stream.data i (rest.take wSize) } turned
          { mgr with device := device } turnedPending turnedStores room
          (fun other member => address other (List.mem_cons_of_mem _ member))
          (by rw [number]; exact chain.2) (by rw [number]; exact restReads) (Nat.zero_le _)
          (by rw [List.length_drop]; omega)
          (by rw [length_splice _ _ _ (by rw [chunkLength, lengthEq]; omega), lengthEq])
          (by
            rw [List.length_drop, if_neg (Nat.ne_of_lt some')]
            split at enough <;> omega)
      rw [number, Nat.zero_add] at endedNo
      have behind := endedNo.behind (List.length_pos_iff.mpr more) pending.seen space
      rw [List.length_drop, ← full, show pos + wSize + (rest.length - wSize) =
        pos + rest.length by omega] at behind
      refine ⟨ended, final, ?_, behind, endedPending, endedStores, endedSame.trans same⟩
      have joined := splice_append stream.data i (rest.take wSize) (rest.drop wSize) (by
        rw [chunkLength, List.length_drop, lengthEq]
        omega)
      rw [chunkLength, List.take_append_drop] at joined
      rw [turnEq, ok_bind]
      simp only [offsetEq]
      rw [← Nat.add_zero (bodyOffset turned.pageno), loopEq, ← joined]

end SMDPageFile

/-! ### Get -/

/-- The string stands, behind its length header, on the tape of the chain. -/
def Stands (pages : PageMap) (chain : List Nat) (pos : Nat) (bytes : Bytes) : Prop :=
  Reads (chainCells pages chain) pos
    (SMDPageFile.lengthHeader bytes.length ++ bytes)

namespace SMDPageFile

theorem getInt_lengthHeader (size : Nat) (small : size < 2147483648) :
    (SMDValue.getInt (lengthHeader size)).toInt = size := by
  rw [lengthHeader, SMDValue.getInt_putInt, BitVec.toInt_ofInt]
  simp only [Int.bmod]
  omega

/-- A string that was put to an emptied page stands at the start of the tape. -/
theorem stands_of_putCells {later : PageMap} {chain : List Nat} {minUint pageSize free' : Nat}
    {view : PageView} {bytes : Bytes} (header : 4 ≤ view.space) (unit : minUint ≤ 4)
    (cells : chainCells later chain =
      putCells minUint pageSize view bytes ++ free free') :
    Stands later chain 0 bytes := by
  have notTurned : ¬ turnsFirst minUint bytes.length view = true := by
    rw [turnsFirst, decide_eq_false (Nat.not_lt.mpr (Nat.le_trans unit header)),
      Bool.and_false]
    exact Bool.false_ne_true
  rw [putCells, if_neg notTurned, Nat.min_eq_right header,
    take_lengthHeader, ← List.map_append] at cells
  rw [Stands, cells]
  exact reads_self [] (free free') (lengthHeader bytes.length ++ bytes)

/-- `get` that starts where a string stands reads it. -/
theorem get_of_start (file : SMDPageFile) (mgr opened : SMDPageManagement Device)
    (pages : PageMap) (stream : SMDMemStream) (offset : Int) (start pos : Nat) (page : SMDPage)
    (after : List Nat) (bytes : Bytes)
    (started : file.getStart mgr offset = .ok (some start, page, opened))
    (pending : Pending opened.device opened.m_nPageSize pages page)
    (stores : Stores opened.device opened.m_nPageSize pages) (room : 28 < opened.m_nPageSize)
    (address : ∀ pageno ∈ after,
      pageno * opened.m_nPageSize + opened.m_nPageSize ≤ 4294967296)
    (chain : Chain pages (page.pageno :: after))
    (stands : Stands pages (page.pageno :: after) pos bytes)
    (inPage : start % opened.m_nPageSize = bodyOffset page.pageno + pos)
    (header : pos + 4 ≤ page.view.body.length)
    (unit : bodyOffset page.pageno + pos + file.minUint ≤ opened.m_nPageSize)
    (small : bytes.length < 2147483648) :
    ∃ last device,
      file.get mgr stream offset =
        .ok (true, ⟨bytes, 0⟩, { file with page := some last },
          { opened with device := device }) ∧
      EndsOn pages (page.pageno :: after) (pos + 4 + bytes.length) last.pageno ∧ HeldIn pages opened.m_nPageSize (some last) ∧
      Stores device opened.m_nPageSize pages ∧
      CoherentDevice.saves device = CoherentDevice.saves opened.device := by
  have formed := pending.formed
  have bodyEq := page.length_body _ formed
  obtain ⟨headReads, dataReads⟩ := (reads_append _ _ _ _).mp stands
  have headRead : page.read (bodyOffset page.pageno + pos) 4 =
      .ok (lengthHeader bytes.length) := by
    refine read_chunk page opened.m_nPageSize pos (lengthHeader bytes.length)
      (chainCells pages after) formed header ?_ (List.ne_nil_of_length_pos (by decide : 0 < 4))
    rw [← pageCells_of_some pending.seen, ← chainCells_cons]
    exact headReads
  have sized : (uint (bytes.length : Int)) = bytes.length := uint_of_lt _ (by omega)
  have resizedEq : stream.resize bytes.length =
      ⟨SMDMemStream.resized stream.data bytes.length, 0⟩ := by
    rw [SMDMemStream.resize, SMDMemStream.setPosition, if_neg (Nat.not_lt_zero _)]
  have resizedLength : (SMDMemStream.resized stream.data bytes.length).length = bytes.length := by
    rw [SMDMemStream.resized, List.length_append, List.length_take, List.length_replicate]
    omega
  obtain ⟨last, device, loopEq, endNo, endPending, endStores, same⟩ := getLoop_spec bytes.length
    (bytes.length + 2) pages bytes (pos + 4) 0 after
    ⟨SMDMemStream.resized stream.data bytes.length, 0⟩ page opened pending stores room address
    chain dataReads header (Nat.zero_add _) resizedLength (by split <;> omega)
  refine ⟨last, device, ?_, endNo, ?_, endStores, same⟩
  · have noSkip : ¬ page.getSize < start % page.getSize + file.minUint := by
      rw [SMDPage.getSize, formed.size_eq, inPage]
      omega
    have sizeEq : page.getSize = opened.m_nPageSize := formed.size_eq
    rw [get, started, ok_bind]
    simp only [getSkip, if_neg noSkip, ok_bind]
    rw [sizeEq, inPage, readLength, headRead, ok_bind, if_neg (by
      rw [length_lengthHeader]
      decide), getInt_lengthHeader _ small]
    simp only [ok_bind, sized, resizedEq, Int.toNat_natCast]
    rw [Nat.add_assoc, loopEq, ok_bind]
    simp only [splice_all _ _ resizedLength.symm]
  · rintro _ equal
    cases equal
    exact ⟨endPending.formed, endPending.seen⟩

/-- `get` at the offset of a string reads it. -/
theorem get_spec (file : SMDPageFile) (mgr : SMDPageManagement Device) (pages : PageMap)
    (value : PageNo_t) (stream : SMDMemStream) (pageno pos : Nat) (after : List Nat)
    (bytes : Bytes) (serves : Serves mgr pages file value) (room : 28 < mgr.m_nPageSize)
    (allocated : ∀ number ∈ pageno :: after, number ≤ mgr.m_nPageCnt)
    (fileSize : (mgr.m_nPageCnt + 1) * mgr.m_nPageSize ≤ 2147483648)
    (chain : Chain pages (pageno :: after)) (stands : Stands pages (pageno :: after) pos bytes)
    (header : bodyOffset pageno + pos + 4 ≤ mgr.m_nPageSize)
    (unit : bodyOffset pageno + pos + file.minUint ≤ mgr.m_nPageSize)
    (small : bytes.length < 2147483648) :
    ∃ last device,
      file.get mgr stream (pageno * mgr.m_nPageSize + bodyOffset pageno + pos : Nat) =
        .ok (true, ⟨bytes, 0⟩, { file with page := some last }, { mgr with device := device }) ∧
      EndsOn pages (pageno :: after) (pos + 4 + bytes.length) last.pageno ∧
      HeldIn pages mgr.m_nPageSize (some last) ∧ Stores device mgr.m_nPageSize pages ∧
      CoherentDevice.saves device = CoherentDevice.saves mgr.device := by
  obtain ⟨view, known⟩ := chain.known List.mem_cons_self
  have countLt := serves.countLt
  have numberLe := allocated pageno List.mem_cons_self
  obtain ⟨page, device, loaded, number, viewEq, pending, stores, same⟩ :=
    mgr.getPageByPageNo_spec pages file.page pageno view serves.sizeLt serves.room
      serves.stores serves.held known (by omega)
  have pageEnd : ∀ number ≤ mgr.m_nPageCnt,
      number * mgr.m_nPageSize + mgr.m_nPageSize ≤ 2147483648 :=
    fun _ bound => page_end_le bound fileSize
  have inFile := pageEnd pageno numberLe
  let start := pageno * mgr.m_nPageSize + bodyOffset pageno + pos
  have startEq : uint (start : Int) = start := uint_of_lt _ (by
    show pageno * mgr.m_nPageSize + bodyOffset pageno + pos < _
    omega)
  have inPage : start % mgr.m_nPageSize = bodyOffset pageno + pos := place_mod (by omega)
  have quotient : start / mgr.m_nPageSize = pageno := place_div (by omega)
  have started : file.getStart mgr (start : Int) =
      .ok (some start, page, { mgr with device := device }) := by
    rw [getStart, if_neg (Int.not_lt.mpr (Int.natCast_nonneg _)),
      SMDPageManagement.getPageByOffset, startEq, quotient, loaded]
    rfl
  have bodyEq := page.length_body _ pending.formed
  subst number
  obtain ⟨last, final, getEq, ends, held, storesAfter, sameAfter⟩ := get_of_start file mgr
    { mgr with device := device } pages stream start start pos page after bytes started pending
    stores room
    (fun other member => by
      have := pageEnd other (allocated other (List.mem_cons_of_mem _ member))
      show other * mgr.m_nPageSize + mgr.m_nPageSize ≤ _
      omega)
    chain stands inPage (by rw [bodyEq]; show _ ≤ mgr.m_nPageSize - _; omega) unit small
  exact ⟨last, final, getEq, ends, held, storesAfter, sameAfter.trans same⟩

/-- `get` at a negative offset reads the string at the start of the segment. -/
theorem get_first_spec (file : SMDPageFile) (mgr : SMDPageManagement Device) (pages : PageMap)
    (value : PageNo_t) (stream : SMDMemStream) (offset : Int) (after : List Nat) (bytes : Bytes)
    (serves : Serves mgr pages file value) (room : 28 < mgr.m_nPageSize)
    (allocated : ∀ number ∈ value.nRootPageNo :: after, number ≤ mgr.m_nPageCnt)
    (fileSize : (mgr.m_nPageCnt + 1) * mgr.m_nPageSize ≤ 2147483648)
    (chain : Chain pages (value.nRootPageNo :: after))
    (stands : Stands pages (value.nRootPageNo :: after) 0 bytes)
    (header : bodyOffset value.nRootPageNo + 4 ≤ mgr.m_nPageSize)
    (unit : bodyOffset value.nRootPageNo + file.minUint ≤ mgr.m_nPageSize)
    (small : bytes.length < 2147483648) (negative : offset < 0) :
    ∃ last device,
      file.get mgr stream offset =
        .ok (true, ⟨bytes, 0⟩, { file with page := some last }, { mgr with device := device }) ∧
      last.pageno ∈ value.nRootPageNo :: after ∧ HeldIn pages mgr.m_nPageSize (some last) ∧
      Stores device mgr.m_nPageSize pages ∧
      CoherentDevice.saves device = CoherentDevice.saves mgr.device := by
  obtain ⟨view, known⟩ := chain.known List.mem_cons_self
  have countLt := serves.countLt
  have rootLe := allocated value.nRootPageNo List.mem_cons_self
  obtain ⟨page, device, loaded, number, viewEq, pending, stores, same⟩ :=
    mgr.getPageByPageNo_spec pages file.page value.nRootPageNo view serves.sizeLt serves.room
      serves.stores serves.held known (by omega)
  have firstEq : uint (mgr.getFirstPageNo file.key) = value.nRootPageNo := by
    rw [SMDPageManagement.getFirstPageNo, serves.found]
    simp only
    rw [uint_int, uint_of_lt _ (by omega)]
  have pageEnd : ∀ number ≤ mgr.m_nPageCnt,
      number * mgr.m_nPageSize + mgr.m_nPageSize ≤ 4294967296 :=
    fun _ bound => page_end_le bound (Nat.le_trans fileSize (by decide))
  have started : file.getStart mgr offset =
      .ok (some page.getContentOffset, page, { mgr with device := device }) := by
    rw [getStart, if_pos negative, firstEq, loaded]
    rfl
  have bodyEq := page.length_body _ pending.formed
  have offsetEq := contentOffset_mod page _ pending.formed room
    (pageEnd _ (by rw [number]; exact rootLe))
  rw [← number] at allocated chain stands header unit ⊢
  obtain ⟨last, final, getEq, ends, held, storesAfter, sameAfter⟩ := get_of_start file mgr
    { mgr with device := device } pages stream offset page.getContentOffset 0 page after bytes
    started pending stores room
    (fun other member => pageEnd other (allocated other (List.mem_cons_of_mem _ member)))
    chain stands offsetEq (by rw [bodyEq]; show 0 + 4 ≤ mgr.m_nPageSize - _; omega) unit small
  exact ⟨last, final, getEq, ends.mem, held, storesAfter, sameAfter.trans same⟩

end SMDPageFile

end LevelDBLib.KvDB
