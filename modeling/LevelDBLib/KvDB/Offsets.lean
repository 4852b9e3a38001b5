/-
This file is about the offsets that `SMDPageFile::put` returns: whether `get`
finds the page and the position where the record starts.

The address of the record is computed as `unsigned int` and returned as `int`.
From 2 GiB on the `int` is negative, or, from 4 GiB on, the address of another
record. And `get` goes on to the next page from a position with less room than
the minimal unit, while `put` starts a record that fits on the page in any room.
-/

import LevelDBLib.KvDB.AppendBounds

namespace LevelDBLib.KvDB

open Buffers Tapes Runs

variable {Device : Type} [CoherentDevice Device]

/-! ### Where a record starts -/

namespace SMDPageFile

/-- The page where `put` starts a string of `count` bytes. -/
def putPage (minUint count pageCnt pageno : Nat) (view : PageView) : Nat :=
  if turnsFirst minUint count view then pageCnt + 1 else pageno

/-- The position in that page. -/
def putPosition (minUint count pageno : Nat) (view : PageView) : Nat :=
  if turnsFirst minUint count view then 12 else bodyOffset pageno + view.used

theorem putAddress_eq (minUint count pageSize pageCnt pageno : Nat) (view : PageView) :
    putAddress minUint count pageSize pageCnt pageno view =
      putPage minUint count pageCnt pageno view * pageSize + putPosition minUint count pageno view := by
  unfold putAddress putPage putPosition
  split
  · rfl
  · rw [Nat.add_assoc]

/-- Where `get` looks for the length of the string at an offset: the page and the position. -/
def getPlace {Device : Type} [PageDevice Device] (file : SMDPageFile)
    (mgr : SMDPageManagement Device) (offset : Int) : Except Fault (Option (Nat × Nat)) := do
  let (start, page, mgr) ← file.getStart mgr offset
  match start with
  | none => .ok none
  | some start => do
    let (position, page, _) ← getSkip file.minUint (start % page.getSize) page mgr
    .ok (some (page.pageno, position))

/-- The page of the offset is this page, and `get` starts there at this position. -/
def Selects {Device : Type} [PageDevice Device] (file : SMDPageFile)
    (mgr : SMDPageManagement Device) (offset : Int) (pageno position : Nat) : Prop :=
  (∃ page after, mgr.getPageByOffset file.page (uint offset) = .ok (true, page, after) ∧
    page.pageno = pageno) ∧ file.getPlace mgr offset = .ok (some (pageno, position))

/-- The offset of a record, and the unsigned value that an index keeps of it. -/
structure Addresses {Device : Type} [PageDevice Device] (file : SMDPageFile)
    (mgr : SMDPageManagement Device) (offset : Int) (pageno position : Nat) : Prop where
  nonneg : 0 ≤ offset
  signed : file.Selects mgr offset pageno position
  unsigned : file.Selects mgr (int (uint offset)) pageno position

end SMDPageFile

/-! ### The page of an address -/

/-- An address whose 32 bits are those of a non-negative `int` on the right page is that `int`. -/
theorem address_small {pageno position pageSize : Nat} (positive : 0 < pageSize)
    (small : pageSize < 65536) (inside : position ≤ pageSize)
    (nonneg : 0 ≤ int (pageno * pageSize + position : Nat))
    (page : uint (int (pageno * pageSize + position : Nat)) / pageSize = pageno) :
    pageno * pageSize + position < 2147483648 ∧ position < pageSize := by
  obtain ⟨address, addressEq⟩ : ∃ address, address = pageno * pageSize + position := ⟨_, rfl⟩
  rw [← addressEq] at nonneg page ⊢
  rw [uint_int] at page
  have low : uint (address : Int) < 2147483648 := by
    unfold int at nonneg
    unfold uint
    omega
  have next : uint (address : Int) < (pageno + 1) * pageSize :=
    (Nat.div_lt_iff_lt_mul positive).mp (by omega)
  rw [Nat.add_mul, Nat.one_mul] at next
  have least : pageno * pageSize ≤ uint (address : Int) :=
    (Nat.le_div_iff_mul_le positive).mp (Nat.le_of_eq page.symm)
  unfold uint at low next least
  omega

/-! ### The number of a loaded page -/

theorem SMDPage.pageno_checkFirstPage {page next : SMDPage}
    (returned : page.checkFirstPage = .ok next) : next.pageno = page.pageno := by
  unfold SMDPage.checkFirstPage at returned
  split at returned
  · simp only [bind_eq_ok] at returned
    obtain ⟨_, _, equal⟩ := returned
    cases equal
    rfl
  · cases returned
    rfl

theorem SMDPage.pageno_pop {page next : SMDPage} (returned : page.pop = .ok next) :
    next.pageno = page.pageno := by
  simp only [SMDPage.pop, bind_eq_ok] at returned
  obtain ⟨_, _, _, _, _, _, _, _, equal⟩ := returned
  cases equal
  rfl

/-- A load that returns leaves the page object with the number that was asked for. -/
theorem SMDPageManagement.pageno_getPageByPageNo {Device : Type} [PageDevice Device]
    {mgr after : SMDPageManagement Device} {held : Option SMDPage} {pageno : Nat} {loaded : Bool}
    {page : SMDPage} (returned : mgr.getPageByPageNo held pageno = .ok (loaded, page, after)) :
    page.pageno = pageno := by
  simp only [getPageByPageNo, bind_eq_ok] at returned
  obtain ⟨object, _, ended⟩ := returned
  split at ended
  · rename_i same
    cases ended
    exact same
  · simp only [bind_eq_ok] at ended
    obtain ⟨blank, resetEq, ⟨data, device⟩, _, ended⟩ := ended
    have number : blank.pageno = pageno := SMDPage.pageno_checkFirstPage resetEq
    cases data with
    | none =>
      cases ended
      exact number
    | some bytes =>
      simp only [bind_eq_ok] at ended
      obtain ⟨_, _, _, _, popped, popEq, equal⟩ := ended
      cases equal
      exact (SMDPage.pageno_pop popEq).trans number

/-! ### Offsets of records -/

namespace SMDPageFile

theorem putPosition_le {device : Device} {pageSize pageno : Nat} {view : PageView}
    (room : 28 ≤ pageSize) (stored : StoresPage device pageSize pageno view) (minUint count : Nat) :
    putPosition minUint count pageno view ≤ pageSize := by
  obtain ⟨body, _⟩ := stored.length_body
  unfold putPosition PageView.used
  split
  · omega
  · omega

/-- The page where the record starts is one of those that the segment has then. -/
theorem putPage_mem {mgr after : SMDPageManagement Device} {pages later : PageMap}
    {page : SMDPage} {last minUint : Nat} {view : PageView} {fresh : List Nat} {bytes : Bytes}
    (stored : StoresPage mgr.device mgr.m_nPageSize last view)
    (extended : Extended mgr after pages later page last fresh)
    (stores : Stores after.device mgr.m_nPageSize later)
    (cells : chainCells later (last :: fresh) =
      view.written.map some ++ putCells minUint mgr.m_nPageSize view bytes ++ free page.view.space) :
    putPage minUint bytes.length mgr.m_nPageCnt last view ∈ last :: fresh := by
  unfold putPage
  split
  · rename_i turns
    refine List.mem_cons_of_mem _ ?_
    rw [extended.freshEq, List.mem_range'_1]
    refine ⟨Nat.le_refl _, ?_⟩
    obtain ⟨held, heldEq⟩ := extended.chain.known List.mem_cons_self
    have some' := ne_nil_of_turns stored stores heldEq turns cells
    have count := List.length_pos_iff.mpr some'
    omega
  · exact List.mem_cons_self

/-- An address below 2 GiB on a page of the file is looked for on that page. -/
theorem getStart_address (file : SMDPageFile) {mgr : SMDPageManagement Device} {pages : PageMap}
    {pageno position : Nat} {view : PageView} (sizeLt : mgr.m_nPageSize < 65536)
    (room : 28 ≤ mgr.m_nPageSize) (stores : Stores mgr.device mgr.m_nPageSize pages)
    (heldIn : HeldIn pages mgr.m_nPageSize file.page) (known : pages pageno = some view)
    (valid : pageno < 0xFFFFFFFF) (small : pageno * mgr.m_nPageSize + position < 2147483648)
    (onPage : position < mgr.m_nPageSize) :
    ∃ page device,
      mgr.getPageByOffset file.page (uint (pageno * mgr.m_nPageSize + position : Nat)) =
        .ok (true, page, { mgr with device := device }) ∧
      file.getStart mgr (pageno * mgr.m_nPageSize + position : Nat) =
        .ok (some (pageno * mgr.m_nPageSize + position), page, { mgr with device := device }) ∧
      page.pageno = pageno ∧ page.view = view ∧ Pending device mgr.m_nPageSize pages page := by
  obtain ⟨page, device, loaded, number, viewEq, pending, _, _⟩ :=
    mgr.getPageByPageNo_spec pages file.page pageno view sizeLt room stores heldIn known (by omega)
  have found : mgr.getPageByOffset file.page (uint (pageno * mgr.m_nPageSize + position : Nat)) =
      .ok (true, page, { mgr with device := device }) := by
    rw [SMDPageManagement.getPageByOffset, uint_of_lt _ (by omega), address_div onPage, loaded]
  refine ⟨page, device, found, ?_, number, viewEq, pending⟩
  rw [getStart, if_neg (Int.not_lt.mpr (Int.natCast_nonneg _)), found, ok_bind]
  simp only [if_true, Int.toNat_natCast]

/-- A page of the chain is no mark for a missing page. -/
theorem putPage_lt {mgr after : SMDPageManagement Device} {pages later : PageMap} {page : SMDPage}
    {last pageno : Nat} {fresh : List Nat} (extended : Extended mgr after pages later page last fresh)
    (lastLe : last ≤ mgr.m_nPageCnt) (member : pageno ∈ last :: fresh) : pageno < 0xFFFFFFFF := by
  have total := extended.countEq
  have few := extended.countLt
  rcases List.mem_cons.mp member with equal | member
  · omega
  · rw [extended.freshEq, List.mem_range'_1] at member
    omega

/-- Where the minimal unit has no room behind the start of a string, the whole string has: it was
put into the free room of the last page. -/
theorem putPosition_tight {device : Device} {pageSize pageno minUint count : Nat} {view : PageView}
    (stored : StoresPage device pageSize pageno view)
    (unit : count + 4 ≤ view.space ∨ minUint + 12 ≤ pageSize)
    (tight : pageSize < putPosition minUint count pageno view + minUint) :
    ¬ turnsFirst minUint count view = true ∧ count + 4 ≤ view.space := by
  obtain ⟨body, space⟩ := stored.length_body
  unfold putPosition PageView.used at tight
  unfold turnsFirst at tight ⊢
  simp only [Bool.and_eq_true, decide_eq_true_eq] at tight ⊢
  split at tight <;> omega

/-- A place with room for the minimal unit is found on its page. -/
theorem addresses_of_room (file : SMDPageFile) {mgr : SMDPageManagement Device} {pages : PageMap}
    {pageno position : Nat} {view : PageView} (sizeLt : mgr.m_nPageSize < 65536)
    (room : 28 ≤ mgr.m_nPageSize) (stores : Stores mgr.device mgr.m_nPageSize pages)
    (heldIn : HeldIn pages mgr.m_nPageSize file.page) (known : pages pageno = some view)
    (valid : pageno < 0xFFFFFFFF) (small : pageno * mgr.m_nPageSize + position < 2147483648)
    (onPage : position < mgr.m_nPageSize) (roomy : position + file.minUint ≤ mgr.m_nPageSize) :
    Addresses file mgr (int (pageno * mgr.m_nPageSize + position : Nat)) pageno position := by
  have offset : int (pageno * mgr.m_nPageSize + position : Nat) =
      (pageno * mgr.m_nPageSize + position : Nat) := int_of_lt _ small
  obtain ⟨loaded, device, found, started, number, _, pending⟩ :=
    getStart_address file sizeLt room stores heldIn known valid small onPage
  have pageSize : loaded.getSize = mgr.m_nPageSize := pending.formed.size_eq
  have selects : Selects file mgr (pageno * mgr.m_nPageSize + position : Nat) pageno position := by
    refine ⟨⟨loaded, _, found, number⟩, ?_⟩
    rw [getPlace, started, ok_bind]
    simp only [pageSize, address_mod onPage]
    rw [getSkip, if_neg (by rw [pageSize]; exact Nat.not_lt.mpr roomy), ok_bind, number]
  rw [offset]
  refine ⟨Int.natCast_nonneg _, selects, ?_⟩
  rw [int_uint, offset]
  exact selects

/-- From a place on the last page without room for the minimal unit, `get` goes on to a new page. -/
theorem getPlace_tight (file : SMDPageFile) {mgr : SMDPageManagement Device} {pages : PageMap}
    {pageno position number place : Nat} {view : PageView} (sizeLt : mgr.m_nPageSize < 65536)
    (room : 28 ≤ mgr.m_nPageSize) (stores : Stores mgr.device mgr.m_nPageSize pages)
    (heldIn : HeldIn pages mgr.m_nPageSize file.page) (known : pages pageno = some view)
    (last : view.next = noNextPage) (valid : pageno < 0xFFFFFFFF)
    (few : mgr.m_nPageCnt + 1 < 0xFFFFFFFF)
    (small : pageno * mgr.m_nPageSize + position < 2147483648) (onPage : position < mgr.m_nPageSize)
    (tight : mgr.m_nPageSize < position + file.minUint)
    (found : file.getPlace mgr (pageno * mgr.m_nPageSize + position : Nat) =
      .ok (some (number, place))) : number = mgr.m_nPageCnt + 1 := by
  obtain ⟨loaded, device, _, started, _, viewEq, pending⟩ :=
    getStart_address file sizeLt room stores heldIn known valid small onPage
  have pageSize : loaded.getSize = mgr.m_nPageSize := pending.formed.size_eq
  obtain ⟨next, _, nextEq, nextNo, _⟩ := SMDPageManagement.getNextPage_last
    { mgr with device := device } pages loaded pending room (by rw [viewEq]; exact last) few
  rw [getPlace, started, ok_bind] at found
  simp only [pageSize, address_mod onPage] at found
  rw [getSkip, if_pos (by rw [pageSize]; exact tight)] at found
  simp only [SMDPage.getPageNo, nextEq, ok_bind] at found
  exact (congrArg Prod.fst (Option.some.inj (Except.ok.inj found))).symm.trans nextNo

/-- The segment object that `put` returns, and a new one, find the record at the offset exactly
when it starts in the first 2 GiB, on the page and not behind its end, and the page has room for
the minimal unit from there on. -/
theorem offset_selects_iff {file : SMDPageFile} {mgr : SMDPageManagement Device} {pages : PageMap}
    {value : PageNo_t} {view : PageView} (serves : Serves mgr pages file value)
    (known : pages value.nLastPageNo = some view) (last : view.next = noNextPage) {bytes : Bytes}
    (some' : bytes ≠ []) (short : bytes.length + 4 < 2147483648)
    (count : mgr.m_nPageCnt + 2 + bytes.length < 0xFFFFFFFF) {pos : Nat} {offset : Int}
    {filed : SMDPageFile} {after : SMDPageManagement Device}
    (returned : file.put mgr ⟨bytes, pos⟩ = .ok (offset, filed, after)) :
    (∀ held, held = none ∨ held = filed.page →
      Addresses { filed with page := held } after offset
        (putPage file.minUint bytes.length mgr.m_nPageCnt value.nLastPageNo view)
        (putPosition file.minUint bytes.length value.nLastPageNo view)) ↔
      putAddress file.minUint bytes.length mgr.m_nPageSize mgr.m_nPageCnt value.nLastPageNo view <
          2147483648 ∧
        putPosition file.minUint bytes.length value.nLastPageNo view < mgr.m_nPageSize ∧
        putPosition file.minUint bytes.length value.nLastPageNo view + file.minUint ≤
          mgr.m_nPageSize := by
  have unit : bytes.length + 4 ≤ view.space ∨ file.minUint + 12 ≤ mgr.m_nPageSize := by
    by_contra outside
    rw [not_or] at outside
    exact put_endless file mgr pages value view bytes pos serves known last (by omega) (by omega)
      some' short _ returned
  obtain ⟨page, ended, later, fresh, equal, extended, stores, cells, stays⟩ :=
    put_spec file mgr pages value view bytes pos serves known last unit some' short count
  rw [equal] at returned
  obtain ⟨offsetEq, filedEq, afterEq⟩ := Prod.mk.inj (Except.ok.inj returned) |>.imp_right Prod.mk.inj
  rw [← filedEq, ← offsetEq, ← afterEq, putAddress_eq]
  have stored := serves.stores _ _ known
  have size := extended.sizeEq
  have sizeLt := serves.sizeLt
  have room := serves.room
  have inside := putPosition_le room stored file.minUint bytes.length
  have member := putPage_mem stored extended stores cells
  have valid := putPage_lt extended serves.last_le member
  obtain ⟨here, hereKnown⟩ := extended.chain.known member
  rw [← size] at sizeLt room stores
  constructor
  · intro addresses
    have selects := addresses none (Or.inl rfl)
    obtain ⟨loaded, _, loadEq, number⟩ := selects.signed.1
    have divides := SMDPageManagement.pageno_getPageByPageNo loadEq
    rw [number, size] at divides
    obtain ⟨small, onPage⟩ := address_small (by omega) serves.sizeLt inside selects.nonneg
      divides.symm
    refine ⟨small, onPage, ?_⟩
    by_contra tight
    have place := selects.signed.2
    rw [int_of_lt _ small, ← size] at place
    -- a position with less room than the minimal unit is the free room of the last page
    obtain ⟨same, fits⟩ := putPosition_tight stored unit (Nat.lt_of_not_le tight)
    have pageEq : putPage file.minUint bytes.length mgr.m_nPageCnt value.nLastPageNo view =
        value.nLastPageNo := if_neg same
    have chain := extended.chain
    rw [stays fits] at chain
    obtain ⟨final, finalKnown, finalLast⟩ := chain
    have total := extended.countEq
    rw [stays fits, List.length_nil, Nat.add_zero] at total
    have other := getPlace_tight { file with page := none } sizeLt room stores
      (fun _ equal => by cases equal) (by rw [pageEq]; exact finalKnown) finalLast valid
      (by omega) (by rw [size]; exact small) (by rw [size]; exact onPage)
      (by rw [size]; exact Nat.lt_of_not_le tight) place
    have least := serves.last_le
    omega
  · rintro ⟨small, onPage, roomy⟩ held which
    have heldIn : HeldIn later ended.m_nPageSize held := by
      intro object equal
      rcases which with nothing | same
      · rw [nothing] at equal
        cases equal
      · rw [same] at equal
        cases equal
        rw [size]
        exact ⟨extended.pending.formed, extended.pending.seen⟩
    rw [← size] at small onPage roomy ⊢
    exact addresses_of_room { file with page := held } sizeLt room stores heldIn hereKnown valid
      small onPage roomy

/-- The first record of a new segment. -/
theorem offset_selects_iff_once : ∃ (mgr after : SMDPageManagement PageDisk)
    (file filed : SMDPageFile) (offset : Int),
    file.put mgr ⟨[5, 6], 0⟩ = .ok (offset, filed, after) ∧
      ∀ held, held = none ∨ held = filed.page →
        Addresses { filed with page := held } after offset 1 12 := by
  obtain ⟨_, _, _, state, pages, value, view, _, _, _, _, size, count, serves, number, known, last,
    space⟩ := @Segments.created_serves 0 ⟨.SEG_TYPE_DATA, [1], 4, none⟩ (by decide +kernel)
  obtain ⟨page, after, _, _, returned, _⟩ := put_spec _ _ pages value view [5, 6] 0 serves known last
    (Or.inl (by rw [space]; decide)) (by decide) (by decide) (by rw [count]; decide)
  obtain ⟨body, _⟩ := (serves.stores _ _ known).length_body
  rw [number, size, bodyOffset_pos 1 (by decide)] at body
  have stays : turnsFirst 4 2 view = false := by
    rw [turnsFirst, space]
    rfl
  have position : putPosition 4 2 value.nLastPageNo view = 12 := by
    rw [putPosition, stays, number, PageView.used, space]
    show bodyOffset 1 + _ = 12
    rw [bodyOffset_pos 1 (by decide)]
    omega
  have place : putPage 4 2 state.mgr.m_nPageCnt value.nLastPageNo view = 1 := by
    rw [putPage, stays, number]
    rfl
  have addresses := (offset_selects_iff serves known last (by decide) (by decide)
    (by rw [count]; decide) returned).mpr (by
      rw [putAddress_eq]
      show putPage 4 2 _ _ view * _ + putPosition 4 2 _ view < _ ∧ putPosition 4 2 _ view < _ ∧
        putPosition 4 2 _ view + 4 ≤ _
      rw [position, place, size]
      decide)
  refine ⟨state.mgr, after, _, _, _, returned, fun held which => ?_⟩
  have found := addresses held which
  rw [← position, ← place]
  exact found

/-- A segment whose minimal unit is 20 bytes: a record that fits into the last 12 bytes of a page
starts there, and `get` goes on to a new page. -/
theorem offset_skipped : ∃ (device : PageDisk) (mgr : SMDPageManagement PageDisk)
    (replies : List Reply) (state : Segments PageDisk) (file : SMDPageFile), HoldsFlag device 96 ∧
    SMDPageManagement.new device false 96 = .ok mgr ∧
    Run Segments.step (fun _ _ _ => True) (Segments.opened mgr)
      (([.createPageFile .SEG_TYPE_DATA [1] 20, .put ⟨.SEG_TYPE_DATA, [1]⟩ (List.replicate 68 7),
        .put ⟨.SEG_TYPE_DATA, [1]⟩ [5, 6]] : List Request).zip replies).reverse state ∧
    replies.getLast? = some (.offset 180) ∧
    state.files ⟨.SEG_TYPE_DATA, [1]⟩ = some file ∧
    file.getPlace state.mgr 180 = .ok (some (2, 12)) ∧ ¬ Addresses file state.mgr 180 1 84 := by
  have evaluated : Segments.onNewFile 96 [.createPageFile .SEG_TYPE_DATA [1] 20,
      .put ⟨.SEG_TYPE_DATA, [1]⟩ (List.replicate 68 7), .put ⟨.SEG_TYPE_DATA, [1]⟩ [5, 6]]
      (fun replies state => (replies.getLast?, (state.files ⟨.SEG_TYPE_DATA, [1]⟩).map fun file =>
        file.getPlace state.mgr 180)) =
      .ok (some (.offset 180), some (.ok (some (2, 12)))) := by decide +kernel
  obtain ⟨device, mgr, replies, state, flag, newEq, run, observed⟩ :=
    Segments.run_of_onNewFile evaluated
  obtain ⟨reply, placed⟩ := Prod.mk.inj observed
  obtain ⟨file, opened, place⟩ := Option.map_eq_some_iff.mp placed
  refine ⟨device, mgr, replies, state, file, flag, newEq, run, reply, opened, place, ?_⟩
  intro addresses
  have wrong := place.symm.trans addresses.signed.2
  cases wrong

end SMDPageFile

end LevelDBLib.KvDB
