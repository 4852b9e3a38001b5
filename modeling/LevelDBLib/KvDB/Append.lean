/-
This file proves what `SMDPageFile::put` does to the chain of its segment: the
chain goes on over newly allocated pages (`Extended`), and its tape grows by
exactly the length header and the string, behind the cells that a turn of the
page leaves free.

The loop of `put` is followed from the end of the chain (`AtEnd`). Each write and
each turn keeps that position, and puts one more link in front of what the rest
of the loop does.
-/

import LevelDBLib.KvDB.PageInfo
import LevelDBLib.KvDB.Chain

namespace LevelDBLib.KvDB

open Buffers Tapes

variable {Device : Type} [CoherentDevice Device]

/-! ### Going on from the end of a chain -/

/-- From the page `first` at the end of its chain, the allocator has come to `page` over the
newly allocated pages of the list `fresh`. -/
structure Extended (mgr after : SMDPageManagement Device) (pages later : PageMap)
    (page : SMDPage) (first : Nat) (fresh : List Nat) : Prop where
  sizeEq : after.m_nPageSize = mgr.m_nPageSize
  attributesEq : after.externAttributes = mgr.externAttributes
  countEq : after.m_nPageCnt = mgr.m_nPageCnt + fresh.length
  countLt : after.m_nPageCnt < 0xFFFFFFFF
  freshEq : fresh = List.range' (mgr.m_nPageCnt + 1) fresh.length
  infoEq : after.m_PageInfo =
    SMDPageManagement.incLastPageNoIn mgr.m_PageInfo first page.pageno
  pending : Pending after.device mgr.m_nPageSize later page
  lastEq : (first :: fresh).getLast? = some page.pageno
  others : ∀ pageno, pageno ∉ first :: fresh → later pageno = pages pageno
  chain : Chain later (first :: fresh)
  saves : SavedIn mgr.device after.device (first :: fresh)

/-- The page object is the last page of its chain, which the counter and the page table agree
with. -/
structure AtEnd (mgr : SMDPageManagement Device) (pages : PageMap) (page : SMDPage) : Prop where
  pending : Pending mgr.device mgr.m_nPageSize pages page
  room : 28 ≤ mgr.m_nPageSize
  last : page.view.next = noNextPage
  allocated : page.pageno ≤ mgr.m_nPageCnt
  registered : ∀ entry ∈ mgr.m_PageInfo, entry.2.nLastPageNo ≤ mgr.m_nPageCnt
  countLt : mgr.m_nPageCnt < 0xFFFFFFFF

namespace AtEnd

variable {mgr : SMDPageManagement Device} {pages : PageMap} {page : SMDPage}

theorem space_le (atEnd : AtEnd mgr pages page) : page.view.space ≤ page.view.body.length := by
  exact page.view_space_le _ atEnd.pending.formed

theorem space_lt (atEnd : AtEnd mgr pages page) : page.view.space < 65536 := by
  have spaceLe := atEnd.pending.formed.space_le
  have sizeLt := atEnd.pending.formed.sizeLt
  show page.head.space < _
  omega

/-- Nothing was allocated yet. -/
theorem stay (atEnd : AtEnd mgr pages page) :
    Extended mgr mgr pages pages page page.pageno [] :=
  ⟨rfl, rfl, rfl, atEnd.countLt, rfl, (SMDPageManagement.incLastPageNoIn_self _ _).symm, atEnd.pending, rfl,
    fun _ _ => rfl, ⟨page.view, atEnd.pending.seen, atEnd.last⟩, SavedIn.refl _ _⟩

/-- A write to the last page, of as much as its free space takes. -/
theorem write (atEnd : AtEnd mgr pages page) (buffer : Bytes) (short : buffer.length < 65536) :
    ∃ next, page.write buffer = .ok next ∧ next.pageno = page.pageno ∧
      next.view = page.view.append (buffer.take (min page.view.space buffer.length)) ∧
      AtEnd mgr (pages.put page.pageno next.view) next := by
  obtain ⟨next, written, number, viewEq, pending⟩ := SMDPageFile.write_pending mgr.device
    mgr.m_nPageSize pages page buffer atEnd.pending short
  refine ⟨next, written, number, viewEq, pending, atEnd.room, ?_, ?_, atEnd.registered,
    atEnd.countLt⟩
  · rw [viewEq]
    exact atEnd.last
  · rw [number]
    exact atEnd.allocated

/-- A turn from the last page to a new one, and what the rest of the loop adds to it. -/
theorem turn (atEnd : AtEnd mgr pages page) (count : mgr.m_nPageCnt + 1 < 0xFFFFFFFF) :
    ∃ fresh turned later,
      SMDPageFile.turnPage mgr page = .ok (fresh, turned) ∧ AtEnd turned later fresh ∧
      turned.m_nPageSize = mgr.m_nPageSize ∧ turned.m_nPageCnt = mgr.m_nPageCnt + 1 ∧
      fresh.pageno = mgr.m_nPageCnt + 1 ∧ fresh.view = PageView.blank (mgr.m_nPageSize - 12) ∧
      ∀ after last final rest, Extended turned after later final last fresh.pageno rest →
        Extended mgr after pages final last page.pageno (fresh.pageno :: rest) ∧
          pageCells final page.pageno = page.view.cells := by
  obtain ⟨fresh, device, turned, number, viewEq, pending, saves⟩ :=
    SMDPageFile.turnPage_last mgr pages page atEnd.pending atEnd.room atEnd.last count
  rw [bodyOffset_pos _ (by omega)] at viewEq
  refine ⟨fresh, _, _, turned, ⟨pending, atEnd.room, ?_, ?_, ?_, count⟩, rfl, rfl, number, viewEq,
    ?_⟩
  · rw [viewEq]
    rfl
  · rw [number]
  · exact SMDPageManagement.incLastPageNoIn_le _ _ _ _
      (fun entry member => Nat.le_succ_of_le (atEnd.registered entry member)) (Nat.le_refl _)
  · intro after last final rest extended
    rw [number] at extended ⊢
    have freshEq := extended.freshEq
    have behind : ∀ number ∈ (mgr.m_nPageCnt + 1) :: rest, mgr.m_nPageCnt + 1 ≤ number := by
      intro number member
      rcases List.mem_cons.mp member with equal | member
      · omega
      · rw [freshEq, List.mem_range'_1] at member
        exact Nat.le_trans (Nat.le_succ _) member.1
    have apart : page.pageno ∉ (mgr.m_nPageCnt + 1) :: rest := by
      intro member
      have allocated := atEnd.allocated
      have := behind _ member
      omega
    have finalHere : final page.pageno = some (page.view.linked (mgr.m_nPageCnt + 1)) := by
      rw [extended.others _ apart, SMDPageManagement.grown,
        PageMap.put_other _ _ _ _ (fun equal => apart (by rw [equal]; exact List.mem_cons_self)),
        PageMap.put_self]
    refine ⟨⟨extended.sizeEq, extended.attributesEq, ?_, extended.countLt, ?_, ?_,
      extended.pending, ?_, ?_, ?_, ?_⟩,
      by rw [pageCells_of_some finalHere, PageView.cells_linked]⟩
    · rw [extended.countEq, List.length_cons]
      show mgr.m_nPageCnt + 1 + rest.length = _
      omega
    · rw [List.length_cons, List.range'_succ, ← freshEq]
    · rw [extended.infoEq]
      refine SMDPageManagement.incLastPageNoIn_trans _ _ _ _ fun entry member => ?_
      have := atEnd.registered entry member
      omega
    · rw [List.getLast?_cons_cons]
      exact extended.lastEq
    · intro other outside
      rw [List.mem_cons, not_or] at outside
      have notFresh : other ≠ mgr.m_nPageCnt + 1 := fun equal =>
        outside.2 (by rw [equal]; exact List.mem_cons_self)
      rw [extended.others other outside.2, SMDPageManagement.grown,
        PageMap.put_other _ _ _ _ notFresh, PageMap.put_other _ _ _ _ outside.1]
    · exact ⟨⟨_, finalHere, rfl, by unfold noNextPage; omega⟩, extended.chain⟩
    · refine (saves.mono fun number member => ?_).trans (extended.saves.mono fun number member =>
        List.mem_cons_of_mem _ member)
      rcases List.mem_cons.mp member with equal | member
      · rw [equal]
        exact List.mem_cons_self
      · rw [List.mem_singleton.mp member]
        exact List.mem_cons_of_mem _ List.mem_cons_self

end AtEnd

/-- What happens behind a write to the first page happens behind the page as it was. -/
theorem Extended.of_put {mgr after : SMDPageManagement Device} {pages later : PageMap}
    {page : SMDPage} {first : Nat} {view : PageView} {fresh : List Nat}
    (extended : Extended mgr after (pages.put first view) later page first fresh) :
    Extended mgr after pages later page first fresh := by
  refine { extended with others := fun pageno outside => ?_ }
  rw [extended.others pageno outside,
    PageMap.put_other _ _ _ _ fun equal => outside (by rw [equal]; exact List.mem_cons_self)]

/-! ### The loop of put -/

namespace SMDPageFile

/-- The cells of the chain behind a turn. -/
theorem cells_turned {later : PageMap} {view : PageView} {first next : Nat} {fresh : List Nat}
    {added : Tape UInt8} (here : pageCells later first = view.cells)
    (behind : chainCells later (next :: fresh) = added) :
    chainCells later (first :: next :: fresh) =
      view.written.map some ++ free view.space ++ added := by
  rw [chainCells_cons, here, behind, PageView.cells]

theorem written_blank (room : Nat) : (PageView.blank room).written = [] := by
  simp [PageView.written, PageView.blank, PageView.used]

/-- The rest of a turn of the loop of `put`, behind the length header. -/
def putRest (minUint : Nat) (sSize : Int) (fuel : Nat) (bytes : Bytes) (offset : Int)
    (page : SMDPage) (mgr : SMDPageManagement Device) :
    Except Fault (Int × SMDPage × SMDPageManagement Device) := do
  let wSize := min page.getSpace bytes.length
  let page ← page.write (bytes.take wSize)
  match bytes.drop wSize with
  | [] => .ok (offset, page, mgr)
  | next :: rest => do
    let (page, mgr) ← turnPage mgr page
    putLoop minUint sSize fuel (next :: rest) false offset page mgr

/-- What the loop of `put` makes of a string: the chain goes on over the pages of the list
`fresh`, and its tape grows by `added` behind its written cells. -/
def Puts (result : Except Fault (Int × SMDPage × SMDPageManagement Device))
    (mgr : SMDPageManagement Device) (pages : PageMap) (page : SMDPage) (offset : Int)
    (added : Tape UInt8) (fresh : List Nat) : Prop :=
  ∃ last after later, result = .ok (offset, last, after) ∧
    Extended mgr after pages later last page.pageno fresh ∧
    chainCells later (page.pageno :: fresh) =
      page.view.written.map some ++ added ++ free last.view.space

theorem puts_nil {mgr : SMDPageManagement Device} {pages : PageMap} {page : SMDPage}
    (atEnd : AtEnd mgr pages page) (offset : Int) :
    Puts (.ok (offset, page, mgr)) mgr pages page offset [] [] := by
  refine ⟨page, mgr, pages, rfl, atEnd.stay, ?_⟩
  rw [chainCells_cons, chainCells_nil, List.append_nil, List.append_nil,
    pageCells_of_some atEnd.pending.seen, PageView.cells]

/-- What is put behind a write to the page is put behind the page as it was. -/
theorem Puts.of_write {result : Except Fault (Int × SMDPage × SMDPageManagement Device)}
    {mgr : SMDPageManagement Device} {pages : PageMap} {page next : SMDPage} {offset : Int}
    {bytes : Bytes} {added : Tape UInt8} {fresh : List Nat} (atEnd : AtEnd mgr pages page)
    (number : next.pageno = page.pageno) (viewEq : next.view = page.view.append bytes)
    (fits : bytes.length ≤ page.view.space)
    (puts : Puts result mgr (pages.put page.pageno next.view) next offset added fresh) :
    Puts result mgr pages page offset (bytes.map some ++ added) fresh := by
  obtain ⟨last, after, later, equal, extended, cells⟩ := puts
  rw [number] at extended cells
  refine ⟨last, after, later, equal, extended.of_put, ?_⟩
  rw [cells, viewEq, PageView.written_append _ _ atEnd.space_le fits, List.map_append,
    List.append_assoc _ _ added]

/-- What is put behind a turn is put behind the free cells of the page that was turned. -/
theorem puts_of_turn {mgr : SMDPageManagement Device} {pages : PageMap} {page : SMDPage}
    (atEnd : AtEnd mgr pages page) (count : mgr.m_nPageCnt + 1 < 0xFFFFFFFF) :
    ∃ fresh turned later, turnPage mgr page = .ok (fresh, turned) ∧ AtEnd turned later fresh ∧
      turned.m_nPageSize = mgr.m_nPageSize ∧ turned.m_nPageCnt = mgr.m_nPageCnt + 1 ∧
      fresh.pageno = mgr.m_nPageCnt + 1 ∧ fresh.view = PageView.blank (mgr.m_nPageSize - 12) ∧
      ∀ result offset added rest, Puts result turned later fresh offset added rest →
        Puts result mgr pages page offset (free page.view.space ++ added)
          (fresh.pageno :: rest) := by
  obtain ⟨fresh, turned, later, equal, freshAtEnd, sizeEq, countEq, number, blank, behind⟩ :=
    atEnd.turn count
  refine ⟨fresh, turned, later, equal, freshAtEnd, sizeEq, countEq, number, blank, ?_⟩
  rintro result offset added rest ⟨last, after, final, resultEq, extended, cells⟩
  obtain ⟨longer, here⟩ := behind after last final rest extended
  refine ⟨last, after, final, resultEq, longer, ?_⟩
  rw [cells_turned here cells, blank, written_blank, List.map_nil, List.nil_append,
    List.append_assoc, List.append_assoc, List.append_assoc]

/-- The rest of a turn puts the string, if the loop does so on a page that takes the next
byte. -/
theorem putRest_spec (minUint : Nat) (sSize : Int) (fuel : Nat)
    (loop : ∀ (offset : Int) (bytes : Bytes) (page : SMDPage) (mgr : SMDPageManagement Device)
      (pages : PageMap), AtEnd mgr pages page → minUint + 12 ≤ mgr.m_nPageSize →
      minUint ≤ page.view.space → 0 < page.view.space →
      mgr.m_nPageCnt + bytes.length < 0xFFFFFFFF → bytes.length ≤ fuel →
      ∃ fresh, Puts (putLoop minUint sSize fuel bytes false offset page mgr) mgr pages page offset
        (bytes.map some) fresh)
    (offset : Int) (bytes : Bytes) (page : SMDPage) (mgr : SMDPageManagement Device)
    (pages : PageMap) (atEnd : AtEnd mgr pages page) (unit : minUint + 12 ≤ mgr.m_nPageSize)
    (count : mgr.m_nPageCnt + 1 + (bytes.length - page.view.space) < 0xFFFFFFFF)
    (short : bytes.length - page.view.space ≤ fuel) :
    ∃ fresh, Puts (putRest minUint sSize fuel bytes offset page mgr) mgr pages page offset
      (bytes.map some) fresh := by
  obtain ⟨wSize, wSizeEq⟩ : ∃ wSize, wSize = min page.view.space bytes.length := ⟨_, rfl⟩
  have chunkLength : (bytes.take wSize).length = wSize := by
    rw [List.length_take]
    omega
  have spaceLt := atEnd.space_lt
  obtain ⟨next, written, number, viewEq, nextAtEnd⟩ := atEnd.write (bytes.take wSize) (by omega)
  rw [chunkLength, Nat.min_eq_right (by omega), List.take_take, Nat.min_self] at viewEq
  have split : bytes.map some = (bytes.take wSize).map some ++ (bytes.drop wSize).map some := by
    rw [← List.map_append, List.take_append_drop]
  simp only [putRest]
  rw [split, show min page.getSpace bytes.length = wSize from wSizeEq.symm, written, ok_bind]
  cases dropped : bytes.drop wSize with
  | nil => exact ⟨[], Puts.of_write atEnd number viewEq (by omega) (puts_nil nextAtEnd offset)⟩
  | cons more rest =>
    have restLength : (more :: rest).length = bytes.length - wSize := by
      rw [← dropped, List.length_drop]
    have nextSpace : next.view.space = 0 := by
      have longer : 0 < (more :: rest).length := Nat.succ_pos _
      rw [viewEq, PageView.append, chunkLength]
      show page.view.space - wSize = 0
      omega
    obtain ⟨fresh, turned, later, turnEq, freshAtEnd, sizeEq, countEq, _, blank, behind⟩ :=
      puts_of_turn nextAtEnd (by omega)
    have freshSpace : fresh.view.space = mgr.m_nPageSize - 12 := by rw [blank]; rfl
    have room := atEnd.room
    obtain ⟨others, loopPuts⟩ := loop offset (more :: rest) fresh turned later freshAtEnd (by omega)
      (by omega) (by omega) (by omega) (by omega)
    have puts := behind _ _ _ _ loopPuts
    rw [nextSpace, free_zero, List.nil_append] at puts
    simp only [turnEq, ok_bind]
    exact ⟨_, Puts.of_write atEnd number viewEq (by omega) puts⟩

/-- The loop of `put` behind the length header, on a page that takes the next byte. -/
theorem putLoop_roomy (minUint : Nat) (sSize : Int) (fuel : Nat) :
    ∀ (offset : Int) (bytes : Bytes) (page : SMDPage) (mgr : SMDPageManagement Device)
      (pages : PageMap), AtEnd mgr pages page → minUint + 12 ≤ mgr.m_nPageSize →
      minUint ≤ page.view.space → 0 < page.view.space →
      mgr.m_nPageCnt + bytes.length < 0xFFFFFFFF → bytes.length ≤ fuel →
      ∃ fresh, Puts (putLoop minUint sSize fuel bytes false offset page mgr) mgr pages page offset
        (bytes.map some) fresh := by
  induction fuel with
  | zero =>
    intro offset bytes page mgr pages atEnd _ _ _ _ short
    rw [List.length_eq_zero_iff.mp (Nat.le_zero.mp short)]
    exact ⟨[], puts_nil atEnd offset⟩
  | succ fuel inductionHypothesis =>
    intro offset bytes page mgr pages atEnd unit enough positive count short
    cases bytes with
    | nil => exact ⟨[], puts_nil atEnd offset⟩
    | cons byte tail =>
      have notFull : ¬ page.getSpace < minUint := Nat.not_lt.mpr enough
      rw [putLoop, if_neg notFull]
      simp only [putHead, Bool.false_eq_true, if_false, ok_bind]
      have longer : 0 < (byte :: tail).length := Nat.succ_pos _
      exact putRest_spec minUint sSize fuel inductionHypothesis offset (byte :: tail) page mgr pages
        atEnd unit (by omega) (by omega)

/-- The cells left free when the loop of `put` turns the page without writing to it. -/
def skipped (minUint space : Nat) : Nat := if space < minUint then space else 0

/-- The loop of `put` behind the length header. -/
theorem putLoop_data (minUint : Nat) (sSize offset : Int) (fuel : Nat) (bytes : Bytes)
    (page : SMDPage) (mgr : SMDPageManagement Device) (pages : PageMap)
    (atEnd : AtEnd mgr pages page) (unit : minUint + 12 ≤ mgr.m_nPageSize)
    (count : mgr.m_nPageCnt + 1 + bytes.length < 0xFFFFFFFF) (short : bytes.length < fuel)
    (some' : bytes ≠ []) :
    ∃ fresh, Puts (putLoop minUint sSize fuel bytes false offset page mgr) mgr pages page offset
      (free (skipped minUint page.view.space) ++ bytes.map some) fresh := by
  obtain ⟨byte, tail, equal⟩ := List.exists_cons_of_ne_nil some'
  obtain ⟨fuel, rfl⟩ : ∃ less, fuel = less + 1 := ⟨fuel - 1, by omega⟩
  have room := atEnd.room
  by_cases full : page.getSpace < minUint
  · obtain ⟨fresh, turned, later, turnEq, freshAtEnd, sizeEq, countEq, _, blank, behind⟩ :=
      puts_of_turn atEnd (by omega)
    have freshSpace : fresh.view.space = mgr.m_nPageSize - 12 := by rw [blank]; rfl
    rw [skipped, if_pos (show page.view.space < minUint from full), equal, putLoop, if_pos full]
    simp only [turnEq, ok_bind, putHead, Bool.false_eq_true, if_false]
    rw [← equal]
    obtain ⟨others, puts⟩ := putLoop_roomy minUint sSize fuel offset bytes fresh turned later
      freshAtEnd (by omega) (by omega) (by omega) (by omega) (by omega)
    exact ⟨_, behind _ _ _ _ puts⟩
  · rw [skipped, if_neg (show ¬ page.view.space < minUint from full), free_zero, List.nil_append,
      equal, putLoop, if_neg full]
    simp only [putHead, Bool.false_eq_true, if_false, ok_bind]
    rw [← equal]
    exact putRest_spec minUint sSize fuel (putLoop_roomy minUint sSize fuel) offset bytes page mgr
      pages atEnd unit (by omega) (by omega)

/-! ### Put -/

/-- Whether `put` of a string of `count` bytes turns the page before it writes anything. -/
def turnsFirst (minUint count : Nat) (view : PageView) : Bool :=
  view.space < count + 4 && view.space < minUint

/-- What `put` adds to the tape of the chain that ends in `view`. -/
def putCells (minUint pageSize : Nat) (view : PageView) (bytes : Bytes) : Tape UInt8 :=
  if turnsFirst minUint bytes.length view then
    free view.space ++ (lengthHeader bytes.length).map some ++
      free (skipped minUint (pageSize - 16)) ++ bytes.map some
  else ((lengthHeader bytes.length).take (min view.space 4)).map some ++ bytes.map some

/-- Where the length header goes: an offset in the file. -/
def putAddress (minUint count pageSize pageCnt pageno : Nat) (view : PageView) : Nat :=
  if turnsFirst minUint count view then (pageCnt + 1) * pageSize + 12
  else pageno * pageSize + bodyOffset pageno + view.used

@[simp] theorem length_lengthHeader (sSize : Int) : (lengthHeader sSize).length = 4 := rfl

theorem lengthHeader_short (sSize : Int) : (lengthHeader sSize).length < 65536 := by
  rw [length_lengthHeader]
  decide

theorem take_lengthHeader (sSize : Int) : (lengthHeader sSize).take 4 = lengthHeader sSize := rfl

theorem int_add_four (count : Nat) (short : count + 4 < 2147483648) :
    int ((count : Int) + 4) = count + 4 := by
  unfold int
  omega

theorem int_spaceAddress (page : SMDPage) (pageSize : Nat) (formed : page.WellFormed pageSize) :
    int ((page.getSpaceOffset + page.getFileOffset : Nat) : Int) =
      int (page.pageno * pageSize + bodyOffset page.pageno + page.view.used : Nat) := by
  rw [SMDPage.getSpaceOffset_eq page pageSize formed, SMDPage.getFileOffset, formed.size_eq]
  push_cast
  rw [int_add_uint]
  congr 1
  omega

theorem int_contentAddress (page : SMDPage) (pageSize : Nat) (formed : page.WellFormed pageSize) :
    int (page.getContentOffset : Int) =
      int (page.pageno * pageSize + bodyOffset page.pageno : Nat) := by
  rw [SMDPage.getContentOffset, formed.size_eq, int_uint, bodyOffset]
  push_cast
  congr 1
  omega

/-- The loop of `put` with the length header still to be written. -/
theorem putLoop_head (minUint fuel : Nat) (offset : Int) (bytes : Bytes) (page : SMDPage)
    (mgr : SMDPageManagement Device) (pages : PageMap) (atEnd : AtEnd mgr pages page)
    (unit : minUint + 12 ≤ mgr.m_nPageSize)
    (count : mgr.m_nPageCnt + 2 + bytes.length < 0xFFFFFFFF) (short : bytes.length + 1 < fuel)
    (some' : bytes ≠ []) (long : page.view.space < bytes.length + 4) :
    ∃ fresh, Puts (putLoop minUint bytes.length fuel bytes true offset page mgr) mgr pages page
      (int (putAddress minUint bytes.length mgr.m_nPageSize mgr.m_nPageCnt page.pageno page.view))
      (putCells minUint mgr.m_nPageSize page.view bytes) fresh := by
  obtain ⟨byte, tail, equal⟩ := List.exists_cons_of_ne_nil some'
  obtain ⟨fuel, rfl⟩ : ∃ less, fuel = less + 1 := ⟨fuel - 1, by omega⟩
  have room := atEnd.room
  by_cases full : page.getSpace < minUint
  · have turns : turnsFirst minUint bytes.length page.view = true := by
      rw [turnsFirst, decide_eq_true long, decide_eq_true (show page.view.space < minUint from full)]
      rfl
    obtain ⟨fresh, turned, later, turnEq, freshAtEnd, sizeEq, countEq, number, blank, behind⟩ :=
      puts_of_turn atEnd (by omega)
    have freshSpace : fresh.view.space = mgr.m_nPageSize - 12 := by rw [blank]; rfl
    obtain ⟨next, written, nextNo, viewEq, nextAtEnd⟩ :=
      freshAtEnd.write (lengthHeader bytes.length) (lengthHeader_short _)
    rw [length_lengthHeader, Nat.min_eq_right (by omega), take_lengthHeader] at viewEq
    have nextSpace : next.view.space = mgr.m_nPageSize - 16 := by
      rw [viewEq, PageView.append, length_lengthHeader]
      show fresh.view.space - 4 = _
      omega
    have address : int fresh.getContentOffset = int ((mgr.m_nPageCnt + 1) * mgr.m_nPageSize + 12 : Nat) := by
      rw [int_contentAddress fresh _ freshAtEnd.pending.formed, number, sizeEq,
        bodyOffset_pos _ (by omega)]
    have step : putLoop minUint bytes.length (fuel + 1) bytes true offset page mgr =
        putLoop minUint bytes.length fuel bytes false (int fresh.getContentOffset) next turned := by
      rw [equal] at written ⊢
      rw [putLoop, if_pos full]
      simp only [turnEq, ok_bind, putHead, if_true, written]
    rw [putAddress, if_pos turns, putCells, if_pos turns, step, ← address]
    obtain ⟨others, puts⟩ := putLoop_data minUint bytes.length (int fresh.getContentOffset) fuel
      bytes next turned _ nextAtEnd (by omega) (by omega) (by omega) some'
    rw [nextSpace] at puts
    have whole := behind _ _ _ _ (Puts.of_write freshAtEnd nextNo viewEq
      (by rw [length_lengthHeader]; omega) puts)
    rw [← List.append_assoc, ← List.append_assoc] at whole
    exact ⟨_, whole⟩
  · have stays : ¬ turnsFirst minUint bytes.length page.view = true := by
      rw [turnsFirst, decide_eq_false (show ¬ page.view.space < minUint from full), Bool.and_false]
      exact Bool.false_ne_true
    obtain ⟨next, written, nextNo, viewEq, nextAtEnd⟩ :=
      atEnd.write (lengthHeader bytes.length) (lengthHeader_short _)
    rw [length_lengthHeader] at viewEq
    have headLength : ((lengthHeader bytes.length).take (min page.view.space 4)).length =
        min page.view.space 4 := by
      rw [List.length_take, length_lengthHeader]
      omega
    have nextSpace : next.view.space = page.view.space - min page.view.space 4 := by
      rw [viewEq, PageView.append, headLength]
    have step : putLoop minUint bytes.length (fuel + 1) bytes true offset page mgr =
        putRest minUint bytes.length fuel bytes
          (int (page.getSpaceOffset + page.getFileOffset : Nat)) next mgr := by
      rw [equal] at written ⊢
      rw [putLoop, if_neg full]
      simp only [ok_bind, putHead, if_true, written]
      rfl
    rw [putAddress, if_neg stays, putCells, if_neg stays, step,
      int_spaceAddress page _ atEnd.pending.formed]
    obtain ⟨others, puts⟩ := putRest_spec minUint _ fuel (putLoop_roomy minUint _ fuel) _ bytes next
      mgr _ nextAtEnd unit (by omega) (by omega)
    exact ⟨_, Puts.of_write atEnd nextNo viewEq (by omega) puts⟩

end SMDPageFile

/-- A segment object over an allocator whose file holds the pages of the map. -/
structure Serves (mgr : SMDPageManagement Device) (pages : PageMap) (file : SMDPageFile)
    (value : PageNo_t) : Prop where
  sizeLt : mgr.m_nPageSize < 65536
  room : 28 ≤ mgr.m_nPageSize
  stores : Stores mgr.device mgr.m_nPageSize pages
  held : HeldIn pages mgr.m_nPageSize file.page
  found : mgr.m_PageInfo.find file.key = some value
  registered : ∀ entry ∈ mgr.m_PageInfo, entry.2.nLastPageNo ≤ mgr.m_nPageCnt
  countLt : mgr.m_nPageCnt < 0xFFFFFFFF

theorem Serves.last_le {mgr : SMDPageManagement Device} {pages : PageMap} {file : SMDPageFile}
    {value : PageNo_t} (serves : Serves mgr pages file value) :
    value.nLastPageNo ≤ mgr.m_nPageCnt :=
  serves.registered _ (PageInfo.mem_of_find serves.found)

/-- Behind a load the chain goes on as it would have without it. -/
theorem Extended.of_load {mgr after : SMDPageManagement Device} {device : Device}
    {pages later : PageMap} {page : SMDPage} {first : Nat} {fresh : List Nat}
    (extended : Extended { mgr with device := device } after pages later page first fresh)
    (same : CoherentDevice.saves device = CoherentDevice.saves mgr.device) :
    Extended mgr after pages later page first fresh :=
  { extended with saves := (SavedIn.of_saves_eq _ same).trans extended.saves }

/-- Saving the page the chain has come to changes nothing but the file. -/
theorem Extended.save {mgr after : SMDPageManagement Device} {pages later : PageMap}
    {page : SMDPage} {first : Nat} {fresh : List Nat}
    (extended : Extended mgr after pages later page first fresh) :
    ∃ saved device,
      after.savePageToFile page = .ok (true, saved, { after with device := device }) ∧
      Extended mgr { after with device := device } pages later saved first fresh ∧
      Stores device mgr.m_nPageSize later ∧ saved.view = page.view := by
  have pending := extended.pending
  rw [← extended.sizeEq] at pending
  obtain ⟨saved, device, savedEq, number, viewEq, savedPending, stores, saves⟩ :=
    after.savePageToFile_spec later page pending
  rw [extended.sizeEq] at savedPending stores
  refine ⟨saved, device, savedEq, { extended with
    infoEq := by rw [number]; exact extended.infoEq
    pending := savedPending
    lastEq := by rw [number]; exact extended.lastEq
    saves := extended.saves.trans (saves.mono fun other member => ?_) }, stores, viewEq⟩
  rw [List.mem_singleton.mp member]
  exact List.mem_of_getLast? extended.lastEq

/-- Loading the last page of the segment. -/
theorem Serves.loadLast {mgr : SMDPageManagement Device} {pages : PageMap} {file : SMDPageFile}
    {value : PageNo_t} (serves : Serves mgr pages file value) {view : PageView}
    (known : pages value.nLastPageNo = some view) :
    ∃ page device,
      mgr.getPageByPageNo file.page (uint (mgr.getLastPageNo file.key)) =
        .ok (true, page, { mgr with device := device }) ∧
      page.pageno = value.nLastPageNo ∧ page.view = view ∧
      Pending device mgr.m_nPageSize pages page ∧
      CoherentDevice.saves device = CoherentDevice.saves mgr.device := by
  have lastLe := serves.last_le
  have countLt := serves.countLt
  have lastEq : uint (mgr.getLastPageNo file.key) = value.nLastPageNo := by
    rw [SMDPageManagement.getLastPageNo, serves.found]
    simp only
    rw [uint_int, uint_of_lt _ (by omega)]
  obtain ⟨page, device, loaded, number, viewEq, pending, _, same⟩ :=
    mgr.getPageByPageNo_spec pages file.page value.nLastPageNo view serves.sizeLt serves.room
      serves.stores serves.held known (by omega)
  exact ⟨page, device, by rw [lastEq, loaded], number, viewEq, pending, same⟩

namespace SMDPageFile

/-- `put` goes on from the last page of the segment, and its tape grows by the string and its
length header. A string that fits on the page stays there. -/
theorem put_spec (file : SMDPageFile) (mgr : SMDPageManagement Device) (pages : PageMap)
    (value : PageNo_t) (view : PageView) (bytes : Bytes) (pos : Nat)
    (serves : Serves mgr pages file value)
    (known : pages value.nLastPageNo = some view) (last : view.next = noNextPage)
    (unit : bytes.length + 4 ≤ view.space ∨ file.minUint + 12 ≤ mgr.m_nPageSize)
    (some' : bytes ≠ []) (short : bytes.length + 4 < 2147483648)
    (count : mgr.m_nPageCnt + 2 + bytes.length < 0xFFFFFFFF) :
    ∃ page after later fresh,
      file.put mgr ⟨bytes, pos⟩ =
        .ok (int (putAddress file.minUint bytes.length mgr.m_nPageSize mgr.m_nPageCnt
          value.nLastPageNo view), { file with page := some page }, after) ∧
      Extended mgr after pages later page value.nLastPageNo fresh ∧
      Stores after.device mgr.m_nPageSize later ∧
      chainCells later (value.nLastPageNo :: fresh) =
        view.written.map some ++ putCells file.minUint mgr.m_nPageSize view bytes ++
          free page.view.space ∧
      (bytes.length + 4 ≤ view.space → fresh = []) := by
  have lastLe := serves.last_le
  have countLt := serves.countLt
  have positive : 0 < bytes.length := List.length_pos_iff.mpr some'
  obtain ⟨page, device, loaded, number, viewEq, pending, same⟩ := serves.loadLast known
  let opened : SMDPageManagement Device := { mgr with device := device }
  have atEnd : AtEnd opened pages page :=
    ⟨pending, serves.room, by rw [viewEq, last], by rw [number]; exact lastLe, serves.registered,
      countLt⟩
  have sizeEq : (⟨bytes, pos⟩ : SMDMemStream).size = bytes.length :=
    uint_of_lt bytes.length (by omega)
  have sSizeEq : int (bytes.length : Int) = bytes.length := int_of_lt _ (by omega)
  have nonzero : ¬ bytes.length = 0 := by omega
  have finish : ∀ result fresh, Puts result opened pages page (int (putAddress file.minUint bytes.length
        mgr.m_nPageSize mgr.m_nPageCnt page.pageno page.view))
        (putCells file.minUint mgr.m_nPageSize page.view bytes) fresh →
      ∃ saved after later,
        (result >>= fun put => put.2.2.savePageToFile put.2.1 >>= fun kept =>
          .ok (put.1, { file with page := some kept.2.1 }, kept.2.2)) =
        .ok (int (putAddress file.minUint bytes.length mgr.m_nPageSize mgr.m_nPageCnt
          value.nLastPageNo view), { file with page := some saved }, after) ∧
        Extended mgr after pages later saved value.nLastPageNo fresh ∧
        Stores after.device mgr.m_nPageSize later ∧
        chainCells later (value.nLastPageNo :: fresh) =
          view.written.map some ++ putCells file.minUint mgr.m_nPageSize view bytes ++
            free saved.view.space := by
    rintro result fresh ⟨ended, after, later, equal, extended, cells⟩
    rw [number] at extended cells
    obtain ⟨saved, stored, savedEq, savedExtended, stores, savedView⟩ := extended.save
    refine ⟨saved, _, later, ?_, savedExtended.of_load same, stores, ?_⟩
    · rw [equal, ok_bind, savedEq, ok_bind, number, viewEq]
    · rw [cells, savedView, viewEq]
  rw [put, if_neg (by rw [sizeEq]; exact nonzero), loaded, ok_bind]
  simp only [if_true, sizeEq, sSizeEq, int_add_four _ short, Int.toNat_natCast, List.take_length]
  by_cases fits : (bytes.length : Int) + 4 ≤ page.getSpace
  · have enough : bytes.length + 4 ≤ page.view.space := by
      have : (bytes.length : Int) + 4 ≤ (page.view.space : Nat) := fits
      omega
    have stays : ¬ turnsFirst file.minUint bytes.length page.view = true := by
      rw [turnsFirst, decide_eq_false (by omega), Bool.false_and]
      exact Bool.false_ne_true
    have spaceLt := atEnd.space_lt
    obtain ⟨headed, headWritten, headNo, headView, headAtEnd⟩ :=
      atEnd.write (lengthHeader bytes.length) (lengthHeader_short _)
    rw [length_lengthHeader, Nat.min_eq_right (by omega), take_lengthHeader] at headView
    have headSpace : headed.view.space = page.view.space - 4 := by
      rw [headView, PageView.append, length_lengthHeader]
    obtain ⟨filled, written, filledNo, filledView, filledAtEnd⟩ := headAtEnd.write bytes (by omega)
    rw [Nat.min_eq_right (by omega), List.take_length] at filledView
    have puts := Puts.of_write atEnd headNo headView (by rw [length_lengthHeader]; omega)
      (Puts.of_write headAtEnd filledNo filledView (by omega)
        (puts_nil filledAtEnd (int (page.getSpaceOffset + page.getFileOffset : Nat))))
    rw [List.append_nil, int_spaceAddress page _ atEnd.pending.formed] at puts
    rw [if_pos fits, headWritten, ok_bind, written, ok_bind, ← Int.natCast_add,
      int_spaceAddress page _ atEnd.pending.formed]
    obtain ⟨saved, after, later, putEq, extended, stores, cells⟩ :=
      finish (.ok (int (page.pageno * opened.m_nPageSize + bodyOffset page.pageno +
        page.view.used : Nat), filled, opened)) [] (by
          rw [putAddress, if_neg stays, putCells, if_neg stays, Nat.min_eq_right (by omega),
            take_lengthHeader]
          exact puts)
    exact ⟨saved, after, later, [], putEq, extended, stores, cells, fun _ => rfl⟩
  · have long : page.view.space < bytes.length + 4 := by
      have : ¬ (bytes.length : Int) + 4 ≤ (page.view.space : Nat) := fits
      omega
    obtain ⟨fresh, puts⟩ := putLoop_head file.minUint (putFuel opened bytes.length) 0 bytes page
      opened pages atEnd (unit.resolve_left (by rw [← viewEq]; omega)) count
      (by rw [putFuel]; omega) some' long
    obtain ⟨saved, after, later, putEq, extended, stores, cells⟩ := finish _ fresh puts
    rw [if_neg fits]
    exact ⟨saved, after, later, fresh, putEq, extended, stores, cells,
      fun enough => absurd enough (by rw [← viewEq]; omega)⟩

/-! ### A unit that no page holds -/

/-- Saving a well-formed page object succeeds, whatever the file holds. -/
theorem savePageToFile_formed (mgr : SMDPageManagement Device) (page : SMDPage)
    (formed : page.WellFormed mgr.m_nPageSize) :
    ∃ saved device, mgr.savePageToFile page = .ok (true, saved, { mgr with device := device }) ∧
      saved.WellFormed mgr.m_nPageSize ∧ saved.pageno = page.pageno ∧ saved.view = page.view := by
  by_cases modified : page.modify = true
  · let pages : PageMap := fun pageno => if pageno = page.pageno then some page.view else none
    obtain ⟨saved, device, equal, number, viewEq, pending, _, _⟩ := mgr.savePageToFile_spec pages
      page ⟨formed, if_pos rfl, (fun pageno view different known => by
        rw [show pages pageno = none from if_neg different] at known
        cases known), Or.inl modified⟩
    exact ⟨saved, device, equal, pending.formed, number, viewEq⟩
  · exact ⟨page, mgr.device, if_neg modified, formed, rfl, rfl⟩

/-- A turn from any page without a next page comes to a blank page. -/
theorem turnPage_formed (mgr : SMDPageManagement Device) (page : SMDPage)
    (formed : page.WellFormed mgr.m_nPageSize) (room : 28 ≤ mgr.m_nPageSize)
    (last : page.view.next = noNextPage) :
    ∃ fresh turned, turnPage mgr page = .ok (fresh, turned) ∧
      turned.m_nPageSize = mgr.m_nPageSize ∧ fresh.WellFormed mgr.m_nPageSize ∧
      fresh.view.next = noNextPage := by
  obtain ⟨saved, device, savedEq, savedFormed, savedNo, savedView⟩ :=
    savePageToFile_formed mgr page formed
  let next := uint (mgr.m_nPageCnt + 1)
  have nextLt : next < 4294967296 := by
    show uint _ < _
    unfold uint
    omega
  obtain ⟨linked, linkedDevice, linkedEq, linkedFormed, _, _⟩ := savePageToFile_formed
    { mgr with m_nPageCnt := next, device := device } (saved.setNextPageNo next)
    ⟨savedFormed.size_eq, savedFormed.length_eq, savedFormed.sizeLt, savedFormed.space_le, nextLt⟩
  obtain ⟨blank, blankEq, blankFormed, _, _, blankView⟩ := linked.reset_spec mgr.m_nPageSize next
    linkedFormed.length_eq formed.sizeLt (by
      rw [bodyOffset_eq]
      have start := headOffset_cases next
      omega)
  obtain ⟨fresh, final, freshEq, freshFormed, _, freshView⟩ := savePageToFile_formed
    { mgr with
      m_nPageCnt := next
      m_PageInfo := SMDPageManagement.incLastPageNoIn mgr.m_PageInfo linked.pageno next
      device := linkedDevice } blank blankFormed
  have noNext : saved.getNextPageNo = noNextPage := by
    show saved.view.next = _
    rw [savedView, last]
  refine ⟨fresh, { mgr with
      m_nPageCnt := next
      m_PageInfo := SMDPageManagement.incLastPageNoIn mgr.m_PageInfo linked.pageno next
      device := final }, ?_, rfl, freshFormed, by rw [freshView, blankView]; rfl⟩
  rw [turnPage, savedEq, ok_bind]
  simp only [SMDPageManagement.getNextPage, SMDPageManagement.pageObject, ok_bind, SMDPage.getPageNo,
    SMDPageManagement.getPageByPageNo_held, if_true, if_pos noNext]
  simp only [SMDPageManagement.appendPage]
  rw [linkedEq]
  simp only [ok_bind, if_true, SMDPageManagement.incLastPageNo, SMDPage.getPageNo]
  rw [blankEq, ok_bind]
  rw [freshEq]
  rfl

theorem putHead_formed (sSize : Int) (flag : Bool) (offset : Int) (page : SMDPage) (start : Nat)
    (headed : SMDPage) (result : Int) {pageSize : Nat} (formed : page.WellFormed pageSize)
    (equal : putHead sSize flag offset page start = .ok (result, headed)) :
    headed.WellFormed pageSize ∧ headed.view.next = page.view.next := by
  rw [putHead] at equal
  cases flag with
  | false =>
    cases equal
    exact ⟨formed, rfl⟩
  | true =>
    obtain ⟨next, written, nextFormed, _, _, viewEq⟩ :=
      page.write_spec pageSize formed (lengthHeader sSize) (lengthHeader_short sSize)
    simp only [if_true, written, ok_bind, Except.ok.injEq, Prod.mk.injEq] at equal
    rw [← equal.2]
    exact ⟨nextFormed, by rw [viewEq]; rfl⟩

/-- A write keeps the link of the page and takes up as much of it as fits. -/
theorem write_formed {page next : SMDPage} {pageSize : Nat} (formed : page.WellFormed pageSize)
    {buffer : Bytes} (short : buffer.length < 65536) (written : page.write buffer = .ok next) :
    next.WellFormed pageSize ∧ next.view.next = page.view.next ∧
      next.view.used = page.view.used + min page.view.space buffer.length := by
  obtain ⟨after, equal, afterFormed, _, _, viewEq⟩ := page.write_spec pageSize formed buffer short
  rw [equal] at written
  cases written
  have bodyEq := page.length_body pageSize formed
  have spaceLe := formed.space_le
  have spaceEq : page.view.space = page.head.space := rfl
  have chunk : (buffer.take (min page.head.space buffer.length)).length =
      min page.view.space buffer.length := by
    rw [List.length_take, Nat.min_assoc, Nat.min_self, spaceEq]
  have longer := congrArg List.length (page.view.written_append
    (buffer.take (min page.head.space buffer.length)) (by omega) (by omega))
  have usedLe : next.view.used ≤ next.view.body.length := Nat.sub_le _ _
  have usedBefore : page.view.used ≤ page.view.body.length := Nat.sub_le _ _
  rw [← viewEq, List.length_append, chunk, PageView.written, PageView.written, List.length_take,
    List.length_take, Nat.min_eq_left usedLe, Nat.min_eq_left usedBefore] at longer
  exact ⟨afterFormed, by rw [viewEq]; rfl, longer⟩

/-- The loop of `put` of a string ends on a page that holds some of it. -/
theorem putLoop_used (minUint : Nat) (sSize : Int) (fuel : Nat) :
    ∀ (bytes : Bytes) (flag : Bool) (offset start : Int) (page last : SMDPage)
      (mgr after : SMDPageManagement Device), page.WellFormed mgr.m_nPageSize →
      28 ≤ mgr.m_nPageSize → page.view.next = noNextPage → bytes ≠ [] →
      putLoop minUint sSize fuel bytes flag offset page mgr = .ok (start, last, after) →
      last.WellFormed after.m_nPageSize ∧ 0 < last.view.used := by
  induction fuel with
  | zero =>
    intro bytes flag offset start page last mgr after _ _ _ some' equal
    obtain ⟨byte, tail, rfl⟩ := List.exists_cons_of_ne_nil some'
    rw [putLoop] at equal
    cases equal
  | succ fuel inductionHypothesis =>
    intro bytes flag offset start page last mgr after formed room noNext some' equal
    obtain ⟨byte, tail, rfl⟩ := List.exists_cons_of_ne_nil some'
    by_cases full : page.getSpace < minUint
    · obtain ⟨fresh, turned, turnEq, sizeEq, freshFormed, freshLast⟩ :=
        turnPage_formed mgr page formed room noNext
      rw [putLoop, if_pos full, turnEq, ok_bind] at equal
      simp only [bind_eq_ok] at equal
      obtain ⟨⟨begun, headed⟩, headEq, equal⟩ := equal
      obtain ⟨headFormed, headLast⟩ :=
        putHead_formed sSize flag offset fresh _ headed begun freshFormed headEq
      exact inductionHypothesis _ _ _ start headed last turned after
        (by rw [sizeEq]; exact headFormed) (by omega) (headLast.trans freshLast) some' equal
    · rw [putLoop, if_neg full] at equal
      simp only [bind_eq_ok] at equal
      obtain ⟨⟨begun, headed⟩, headEq, next, written, equal⟩ := equal
      obtain ⟨headFormed, headLast⟩ :=
        putHead_formed sSize flag offset page _ headed begun formed headEq
      have spaceLt : headed.getSpace < 65536 :=
        Nat.lt_of_le_of_lt (Nat.le_trans (Nat.le_add_right _ _) headFormed.space_le)
          headFormed.sizeLt
      have chunk : ((byte :: tail).take (min headed.getSpace (byte :: tail).length)).length =
          min headed.getSpace (byte :: tail).length := by
        rw [List.length_take, Nat.min_assoc, Nat.min_self]
      obtain ⟨nextFormed, nextLast, used⟩ :=
        write_formed headFormed (Nat.lt_of_le_of_lt (chunk.trans_le (Nat.min_le_left _ _)) spaceLt)
          written
      dsimp only at equal used
      rw [chunk] at used
      split at equal
      · rename_i done
        cases equal
        have whole := List.drop_eq_nil_iff.mp done
        have longer : 0 < (byte :: tail).length := Nat.succ_pos _
        have spaceEq : headed.getSpace = headed.view.space := rfl
        exact ⟨nextFormed, by omega⟩
      · obtain ⟨fresh, turned, turnEq, sizeEq, freshFormed, freshLast⟩ :=
          turnPage_formed mgr next nextFormed room (nextLast.trans (headLast.trans noNext))
        rw [turnEq, ok_bind] at equal
        exact inductionHypothesis _ _ _ start fresh last turned after
          (by rw [sizeEq]; exact freshFormed) (by omega) freshLast (List.cons_ne_nil _ _) equal

/-- An append ends on a page that is not empty. -/
theorem put_used (file : SMDPageFile) (mgr : SMDPageManagement Device) (pages : PageMap)
    (value : PageNo_t) (view : PageView) (bytes : Bytes) (pos : Nat)
    (serves : Serves mgr pages file value) (known : pages value.nLastPageNo = some view)
    (last : view.next = noNextPage) (some' : bytes ≠ [])
    (short : bytes.length + 4 < 2147483648) {offset : Int} {page : SMDPage}
    {after : SMDPageManagement Device}
    (returned : file.put mgr ⟨bytes, pos⟩ = .ok (offset, { file with page := some page }, after)) :
    0 < page.view.used := by
  have positive : 0 < bytes.length := List.length_pos_iff.mpr some'
  obtain ⟨first, device, loaded, number, viewEq, pending, same⟩ := serves.loadLast known
  have sizeEq : (⟨bytes, pos⟩ : SMDMemStream).size = bytes.length :=
    uint_of_lt bytes.length (by omega)
  have sSizeEq : int (bytes.length : Int) = bytes.length := int_of_lt _ (by omega)
  have saves : ∀ (ended saved : SMDPage) (done : Bool) (before : SMDPageManagement Device)
      (later : SMDPageManagement Device), ended.WellFormed before.m_nPageSize →
      0 < ended.view.used → before.savePageToFile ended = .ok (done, saved, later) →
      0 < saved.view.used := by
    intro ended saved done before later formed used saveEq
    obtain ⟨_, _, equal, _, _, savedView⟩ := savePageToFile_formed before ended formed
    rw [equal] at saveEq
    cases saveEq
    rw [savedView]
    exact used
  rw [put, if_neg (by rw [sizeEq]; omega), loaded, ok_bind] at returned
  simp only [if_true, sizeEq, sSizeEq, int_add_four _ short, Int.toNat_natCast,
    List.take_length] at returned
  split at returned
  · rename_i fits
    have enough : bytes.length + 4 ≤ first.view.space := by
      have : (bytes.length : Int) + 4 ≤ (first.view.space : Nat) := fits
      omega
    have spaceLt : first.view.space < 65536 :=
      Nat.lt_of_le_of_lt (Nat.le_trans (Nat.le_add_right _ _) pending.formed.space_le)
        pending.formed.sizeLt
    simp only [bind_eq_ok] at returned
    obtain ⟨headed, headEq, filled, fillEq, ⟨done, saved, later⟩, saveEq, equal⟩ := returned
    obtain ⟨headFormed, _, headUsed⟩ := write_formed pending.formed (lengthHeader_short _) headEq
    obtain ⟨filledFormed, _, filledUsed⟩ := write_formed headFormed (by omega) fillEq
    rw [length_lengthHeader] at headUsed
    have pageEq : saved = page := Option.some.inj
      (congrArg (fun result => SMDPageFile.page result.2.1) (Except.ok.inj equal))
    rw [← pageEq]
    exact saves filled saved done { mgr with device := device } later filledFormed (by omega) saveEq
  · simp only [bind_eq_ok] at returned
    obtain ⟨⟨_, ended, before⟩, loopEq, ⟨done, saved, later⟩, saveEq, equal⟩ := returned
    obtain ⟨formed, used⟩ := putLoop_used file.minUint bytes.length _ bytes true 0 _ first ended
      { mgr with device := device } before pending.formed serves.room (by rw [viewEq, last]) some'
      loopEq
    have pageEq : saved = page := Option.some.inj
      (congrArg (fun result => SMDPageFile.page result.2.1) (Except.ok.inj equal))
    rw [← pageEq]
    exact saves ended saved done before later formed used saveEq

/-- The loop of `put` of a segment whose minimal unit is larger than a page never ends: every new
page has less space than that, too. -/
theorem putLoop_endless (minUint : Nat) (sSize : Int) (fuel : Nat) :
    ∀ (bytes : Bytes) (flag : Bool) (offset : Int) (page : SMDPage)
      (mgr : SMDPageManagement Device) result, page.WellFormed mgr.m_nPageSize →
      28 ≤ mgr.m_nPageSize → page.view.next = noNextPage → mgr.m_nPageSize < minUint + 12 →
      bytes ≠ [] → putLoop minUint sSize fuel bytes flag offset page mgr ≠ .ok result := by
  induction fuel with
  | zero =>
    intro bytes flag offset page mgr result _ _ _ _ some' equal
    obtain ⟨byte, tail, rfl⟩ := List.exists_cons_of_ne_nil some'
    rw [putLoop] at equal
    cases equal
  | succ fuel inductionHypothesis =>
    intro bytes flag offset page mgr result formed room last large some' equal
    obtain ⟨byte, tail, rfl⟩ := List.exists_cons_of_ne_nil some'
    have spaceLe := formed.space_le
    rw [bodyOffset_eq] at spaceLe
    have full : page.getSpace < minUint := by
      show page.head.space < minUint
      omega
    obtain ⟨fresh, turned, turnEq, sizeEq, freshFormed, freshLast⟩ :=
      turnPage_formed mgr page formed room last
    rw [putLoop, if_pos full, turnEq, ok_bind] at equal
    simp only [bind_eq_ok] at equal
    obtain ⟨⟨start, headed⟩, headEq, equal⟩ := equal
    refine inductionHypothesis _ _ _ headed turned result ?_ (by omega) ?_ (by omega) some' equal
    · rw [sizeEq]
      exact (putHead_formed sSize flag offset fresh _ headed start freshFormed headEq).1
    · rw [(putHead_formed sSize flag offset fresh _ headed start freshFormed headEq).2, freshLast]

/-- `put` of a string that does not fit on the last page never returns, if the minimal unit of the
segment is larger than a page. -/
theorem put_endless (file : SMDPageFile) (mgr : SMDPageManagement Device) (pages : PageMap)
    (value : PageNo_t) (view : PageView) (bytes : Bytes) (pos : Nat)
    (serves : Serves mgr pages file value) (known : pages value.nLastPageNo = some view)
    (last : view.next = noNextPage) (large : mgr.m_nPageSize < file.minUint + 12)
    (long : view.space < bytes.length + 4) (some' : bytes ≠ [])
    (short : bytes.length + 4 < 2147483648) result : file.put mgr ⟨bytes, pos⟩ ≠ .ok result := by
  intro equal
  have positive : 0 < bytes.length := List.length_pos_iff.mpr some'
  obtain ⟨page, device, loaded, number, viewEq, pending, same⟩ := serves.loadLast known
  have sizeEq : (⟨bytes, pos⟩ : SMDMemStream).size = bytes.length :=
    uint_of_lt bytes.length (by omega)
  have sSizeEq : int (bytes.length : Int) = bytes.length := int_of_lt _ (by omega)
  have notFits : ¬ (bytes.length : Int) + 4 ≤ page.getSpace := by
    show ¬ (bytes.length : Int) + 4 ≤ (page.view.space : Nat)
    rw [viewEq]
    omega
  rw [put, if_neg (by rw [sizeEq]; omega), loaded, ok_bind] at equal
  simp only [if_true, sizeEq, sSizeEq, int_add_four _ short, Int.toNat_natCast, List.take_length,
    if_neg notFits, bind_eq_ok] at equal
  obtain ⟨_, loopEq, _⟩ := equal
  exact putLoop_endless _ _ _ bytes true 0 page { mgr with device := device } _ pending.formed
    serves.room (by rw [viewEq, last]) large some' loopEq

end SMDPageFile

end LevelDBLib.KvDB
