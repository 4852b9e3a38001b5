/-
This file is about segments that are written as a whole, the way every `save`
function writes its own: `createPageFile`, `clearPage` and then `put`.

`clearPage` keeps the pages of the chain, `put` goes on from the last of them, and
`get` starts at the first. So a string is read back as long as the chain is one
page. Once a string needed a second page, the first page stays empty for good.
-/

import LevelDBLib.KvDB.OwnershipRuns
import LevelDBLib.KvDB.RecordRuns

namespace LevelDBLib.KvDB

open Buffers Tapes Runs

variable {Device : Type} [CoherentDevice Device]

/-! ### Reading an empty page -/

/-- A read that starts on the used part of a page stops where that ends. -/
theorem SMDPage.read_short (page : SMDPage) (pageSize : Nat) (formed : page.WellFormed pageSize)
    (offset pos count : Nat) (inPage : offset % pageSize = bodyOffset page.pageno + pos)
    (started : pos ≤ page.view.used) (ends : page.view.used < pos + count) :
    ∃ bytes, page.read offset count = .ok bytes ∧ bytes.length = page.view.used - pos := by
  have usedEq := view_used page pageSize formed
  have spaceLe := formed.space_le
  have sizeLt := formed.sizeLt
  have restEq : ushort ((bodyOffset page.pageno + page.view.used : Nat) -
      (bodyOffset page.pageno + pos : Nat)) = page.view.used - pos := by
    unfold ushort
    omega
  have within : bodyOffset page.pageno + pos + (page.view.used - pos) ≤ page.data.length := by
    rw [formed.length_eq]
    omega
  refine ⟨slice page.data (bodyOffset page.pageno + pos) (page.view.used - pos), ?_, ?_⟩
  · rw [read, getSpaceOffset_eq page pageSize formed, formed.size_eq, inPage]
    simp only
    rw [if_pos (by omega), restEq, if_pos (by omega), fetch_of_le _ _ _ within]
  · rw [length_slice _ _ _ within]

namespace SMDPageFile

/-- `get` at a negative offset reads a length that nobody wrote, when less than a length header
stands on the first page. -/
theorem get_first_unwritten (file : SMDPageFile) (mgr : SMDPageManagement Device) (pages : PageMap)
    (value : PageNo_t) (stream : SMDMemStream) (offset : Int) (view : PageView)
    (serves : Serves mgr pages file value) (room : 28 < mgr.m_nPageSize)
    (allocated : value.nRootPageNo ≤ mgr.m_nPageCnt)
    (fileSize : (mgr.m_nPageCnt + 1) * mgr.m_nPageSize ≤ 2147483648)
    (known : pages value.nRootPageNo = some view) (unwritten : view.used < 4)
    (unit : bodyOffset value.nRootPageNo + file.minUint ≤ mgr.m_nPageSize) (negative : offset < 0) :
    file.get mgr stream offset = .error .uninitialised := by
  have countLt := serves.countLt
  obtain ⟨page, device, loaded, number, viewEq, pending, _, _⟩ :=
    mgr.getPageByPageNo_spec pages file.page value.nRootPageNo view serves.sizeLt serves.room
      serves.stores serves.held known (by omega)
  have firstEq : uint (mgr.getFirstPageNo file.key) = value.nRootPageNo := by
    rw [SMDPageManagement.getFirstPageNo, serves.found]
    simp only
    rw [uint_int, uint_of_lt _ (by omega)]
  have formed := pending.formed
  have inFile : page.pageno * mgr.m_nPageSize + mgr.m_nPageSize ≤ 4294967296 := by
    rw [number]
    exact page_end_le allocated (Nat.le_trans fileSize (by decide))
  have offsetEq := contentOffset_mod page _ formed room inFile
  rw [← number] at unit
  obtain ⟨header, read, short⟩ := page.read_short _ formed (bodyOffset page.pageno) 0 4
    (Nat.mod_eq_of_lt (by rw [bodyOffset_eq]; have := headOffset_cases page.pageno; omega))
    (Nat.zero_le _) (by rw [viewEq]; omega)
  have sizeEq : page.getSize = mgr.m_nPageSize := formed.size_eq
  rw [get, getStart, if_pos negative, firstEq, loaded]
  simp only [ok_bind, getSkip, sizeEq, offsetEq, if_neg (Nat.not_lt.mpr unit)]
  rw [readLength, read, ok_bind, if_pos (by rw [short, viewEq]; omega), error_bind]

end SMDPageFile

/-! ### Saving a segment -/

namespace Segments

/-- The calls of a `save` function. -/
def saving (key : PageKey_t) (bytes : Bytes) : List Request :=
  [.createPageFile key.segType key.sTableName 0, .clearPage key, .put key bytes]

variable {state : Segments Device} {pages : PageMap} {chains : PageKey_t → List Nat}

/-- The state behind a `save` function: the chain is emptied and goes on over `fresh` pages, and
the string stands, from the last page that the chain had, on the rest of it. -/
structure Saved (state : Segments Device) (pages : PageMap) (chains : PageKey_t → List Nat)
    (key : PageKey_t) (value : PageNo_t) (bytes : Bytes) (after : Segments Device) (later : PageMap)
    (fresh : List Nat) : Prop where
  sound : Sound after later (Function.update chains key (chains key ++ fresh))
  grown : Grown state.mgr after.mgr pages later (chains key) fresh
  opened : ∃ file, after.files key = some file ∧ file.key = key ∧ file.minUint = value.nMinUnit ∧
    HeldIn later state.mgr.m_nPageSize file.page
  emptied : ∀ pageno ∈ chains key, pageno ≠ value.nLastPageNo →
    ∃ view, later pageno = some view ∧ view.used = 0
  stays : bytes.length + 4 ≤ state.mgr.m_nPageSize - bodyOffset value.nLastPageNo ↔ fresh = []
  stands : 4 ≤ state.mgr.m_nPageSize - bodyOffset value.nLastPageNo →
    Stands later (value.nLastPageNo :: fresh) 0 bytes

/-- A segment without a minimal unit of its own has room for it on its first page. -/
theorem Sound.unit_room (sound : Sound state pages chains) {key : PageKey_t} {value : PageNo_t}
    (found : state.mgr.m_PageInfo.find key = some value) (unit : value.nMinUnit ≤ 4) :
    bodyOffset value.nRootPageNo + value.nMinUnit ≤ state.mgr.m_nPageSize := by
  have room := sound.allocated.room
  by_cases first : value.nRootPageNo = 0
  · -- page 0 belongs to the page table, which has no minimal unit
    obtain ⟨last, table⟩ := sound.allocated.table
    obtain ⟨_, chainEq⟩ := (sound.allocated.chainOf key value found).first
    obtain ⟨_, tableEq⟩ := (sound.allocated.chainOf _ _ table).first
    have same := sound.allocated.apart key SMDPageManagement.pageTableKey (by rw [found]; rfl)
      (by rw [table]; rfl) 0 (by rw [chainEq, first]; exact List.mem_cons_self)
      (by rw [tableEq]; exact List.mem_cons_self)
    rw [same, table] at found
    rw [← Option.some.inj found]
    exact room
  · rw [bodyOffset_pos _ first]
    omega

theorem length_putCells (minUint pageSize : Nat) (view : PageView) (bytes : Bytes)
    (some' : bytes ≠ []) : bytes.length + 4 ≤ view.space ∨
      view.space < (SMDPageFile.putCells minUint pageSize view bytes).length := by
  have positive : 0 < bytes.length := List.length_pos_iff.mpr some'
  rw [SMDPageFile.putCells]
  split
  · simp only [List.length_append, length_free, List.length_map,
      SMDPageFile.length_lengthHeader]
    omega
  · simp only [List.length_append, List.length_map, List.length_take,
      SMDPageFile.length_lengthHeader]
    omega

/-- A `save` function, as its calls. -/
theorem Sound.saving (sound : Sound state pages chains) {key : PageKey_t} {value : PageNo_t}
    (found : state.mgr.m_PageInfo.find key = some value) (unit : value.nMinUnit ≤ 4)
    (bytes : Bytes) (some' : bytes ≠ []) (short : bytes.length + 4 < 2147483648)
    (small : state.mgr.FileSmall) :
    ∃ replies after later fresh,
      runAll step state (saving key bytes) = .ok (replies, after) ∧
      Saved state pages chains key value bytes after later fresh := by
  have room := sound.allocated.room
  have chainOf := sound.allocated.chainOf key value found
  obtain ⟨reopenEq, reopened⟩ := sound.reopen found 0
  let file : SMDPageFile := ⟨key.segType, key.sTableName, value.nMinUnit, none⟩
  obtain ⟨view, page, after, later, fresh, known, spaceEq, rewriteEq, grown, stores, held, member,
    emptied, cells, stays⟩ := file.rewrite_spec state.mgr pages value (chains key) bytes
      (sound.allocated.serves file value found fun _ equal => by cases equal) chainOf
      (Or.inr (by show value.nMinUnit + 12 ≤ _; omega)) some' short (by
        have counted := Nat.le_mul_of_pos_right (state.mgr.m_nPageCnt + 1)
          (show 0 < state.mgr.m_nPageSize by omega)
        have bounded : (state.mgr.m_nPageCnt + 1) * state.mgr.m_nPageSize ≤ 2147483648 := small
        have double := Nat.mul_le_mul_left (state.mgr.m_nPageCnt + 1)
          (show 2 ≤ state.mgr.m_nPageSize by omega)
        omega)
  rw [SMDPageFile.rewrite, bind_eq_ok] at rewriteEq
  obtain ⟨⟨cleared, emptyFile, emptyMgr⟩, clearEq, putEq⟩ := rewriteEq
  let written : SMDPageFile := { file with page := some page }
  let last : Segments Device :=
    ((state.after key file state.mgr).after key emptyFile emptyMgr).after key written after
  have runs : ∃ replies, runAll step state (Segments.saving key bytes) = .ok (replies, last) := by
    simp only [Segments.saving, runAll, reopenEq]
    rw [step, after_files_self]
    simp only [after_mgr]
    rw [show (⟨key.segType, key.sTableName, value.nMinUnit, none⟩ : SMDPageFile) = file from rfl,
      clearEq]
    simp only [ok_bind]
    rw [step, after_files_self]
    simp only [after_mgr]
    simp only at putEq
    rw [putEq]
    exact ⟨_, rfl⟩
  obtain ⟨replies, runsEq⟩ := runs
  refine ⟨replies, last, later, fresh, runsEq, ?_, grown,
    ⟨written, after_files_self .., rfl, rfl, held⟩, ?_, ?_, ?_⟩
  · refine sound.grow found grown stores _ (fun other different => ?_) fun now opened => ?_
    · simp only [Segments.after, Function.update_of_ne different]
    · rw [Function.update_self] at opened
      cases opened
      refine ⟨rfl, ?_⟩
      rintro _ equal
      cases equal
      exact ⟨(held page rfl).1, member, fun _ => (held page rfl).2⟩
  · intro pageno inside different
    obtain ⟨before, beforeEq⟩ := chainOf.linked.known inside
    rw [emptied pageno inside different, beforeEq]
    exact ⟨before.freed, rfl, by simp [PageView.freed, PageView.used]⟩
  · rw [spaceEq] at stays
    refine ⟨stays, fun none' => ?_⟩
    subst none'
    rcases length_putCells value.nMinUnit state.mgr.m_nPageSize view.freed bytes some' with fits | long
    · rwa [spaceEq] at fits
    · obtain ⟨last, lastKnown⟩ := grown.linked.known
        (List.mem_append_left _ chainOf.last_mem)
      have whole := congrArg List.length cells
      rw [chainCells_cons, chainCells_nil, List.append_nil, length_pageCells stores lastKnown,
        List.length_append, length_free] at whole
      rw [spaceEq] at long
      have : file.minUint = value.nMinUnit := rfl
      rw [this] at whole
      omega
  · intro header
    exact SMDPageFile.stands_of_putCells (by rw [spaceEq]; exact header) unit cells

/-! ### Reading it back -/

/-- The string is read back behind a `save` when the chain was one page, and only then. -/
theorem Saved.read_iff {key : PageKey_t} {value : PageNo_t} {bytes : Bytes}
    {after : Segments Device} {later : PageMap} {fresh : List Nat}
    (saved : Saved state pages chains key value bytes after later fresh)
    (sound : Sound state pages chains) (found : state.mgr.m_PageInfo.find key = some value)
    (unit : value.nMinUnit ≤ 4) (room : 28 < state.mgr.m_nPageSize)
    (short : bytes.length + 4 < 2147483648) (small : after.mgr.FileSmall) :
    (∃ last, after.step (.get key (-1)) = .ok (.bytes true bytes, last)) ↔
      bodyOffset value.nRootPageNo + 4 ≤ state.mgr.m_nPageSize ∧
        value.nLastPageNo = value.nRootPageNo := by
  have chainOf := sound.allocated.chainOf key value found
  have unitRoom := sound.unit_room found unit
  obtain ⟨allocated, last, lastEq, findEq⟩ :=
    sound.allocated.grow found saved.grown (by
      have stores := saved.sound.allocated.stores
      rwa [saved.grown.sizeEq] at stores)
  obtain ⟨file, opened, keyEq, unitEq, held⟩ := saved.opened
  have foundAfter : after.mgr.m_PageInfo.find file.key = some { value with nLastPageNo := last } := by
    rw [keyEq, findEq, if_pos rfl]
  have serves := allocated.serves file _ foundAfter (by rw [saved.grown.sizeEq]; exact held)
  have sizeEq := saved.grown.sizeEq
  have below := (allocated.chainOf key _ (by rw [findEq, if_pos rfl])).allocated
  rw [Function.update_self] at below
  obtain ⟨tail, chainEq⟩ := chainOf.first
  have rootLe : value.nRootPageNo ≤ after.mgr.m_nPageCnt :=
    below _ (List.mem_append_left _ (by rw [chainEq]; exact List.mem_cons_self))
  have unreadable : ∀ view, later value.nRootPageNo = some view → view.used < 4 →
      ¬ ∃ last, after.step (.get key (-1)) = .ok (.bytes true bytes, last) := by
    rintro view known unwritten ⟨_, returned⟩
    have failed := file.get_first_unwritten after.mgr later _ (SMDMemStream.new 0) (-1) view serves
      (by rw [sizeEq]; exact room) rootLe small known unwritten
      (by rw [unitEq, sizeEq]; exact unitRoom) (by decide)
    simp only [step, opened, failed] at returned
    cases returned
  constructor
  · intro returned
    by_contra failed
    rw [not_and_or, Nat.not_le] at failed
    rcases failed with narrow | longer
    · obtain ⟨view, known⟩ := saved.grown.linked.known
        (List.mem_append_left fresh (by rw [chainEq]; exact List.mem_cons_self :
          value.nRootPageNo ∈ chains key))
      obtain ⟨bodyEq, _⟩ := (allocated.stores _ _ known).length_body
      rw [sizeEq] at bodyEq
      refine unreadable view known ?_ returned
      show view.body.length - view.space < 4
      omega
    · obtain ⟨view, known, empty⟩ := saved.emptied value.nRootPageNo
        (by rw [chainEq]; exact List.mem_cons_self) fun same => longer same.symm
      exact unreadable view known (by omega) returned
  · rintro ⟨wide, single⟩
    have alone := chainOf.single single
    have linked := saved.grown.linked
    rw [alone] at linked below
    have stands := saved.stands (by rw [single]; omega)
    rw [single] at stands
    obtain ⟨page, device, getEq, _⟩ := file.get_first_spec after.mgr later _ (SMDMemStream.new 0) (-1)
      fresh bytes serves (by rw [sizeEq]; exact room) below small linked stands
      (by rw [sizeEq]; exact wide) (by rw [unitEq, sizeEq]; exact unitRoom) (by omega) (by decide)
    exact ⟨_, by simp only [step, opened, getEq, ok_bind]; rfl⟩

/-- The string of the last `save` is what a `get` from the start reads. -/
def ReadsLast (state : Segments Device) (key : PageKey_t) (earlier : List Bytes) (bytes : Bytes) :
    Prop :=
  ∃ replies saved last,
    runAll step state ((earlier ++ [bytes]).flatMap (saving key)) = .ok (replies, saved) ∧
    saved.step (.get key (-1)) = .ok (.bytes true bytes, last)

/-- The file stays below 2^31 bytes while the strings are saved one after the other. -/
def StaysSmall (state : Segments Device) (key : PageKey_t) (strings : List Bytes) : Prop :=
  ∀ front, front <+: strings → ∀ replies saved,
    runAll step state (front.flatMap (saving key)) = .ok (replies, saved) → saved.mgr.FileSmall

/-- A segment is still one page behind a `save` when it was one page and the string fits on it. -/
theorem Saved.single_iff {key : PageKey_t} {value : PageNo_t} {bytes : Bytes}
    {after : Segments Device} {later : PageMap} {fresh : List Nat}
    (saved : Saved state pages chains key value bytes after later fresh)
    (chainOf : ChainOf pages state.mgr.m_nPageCnt value (chains key)) {last : Nat}
    (lastEq : (chains key ++ fresh).getLast? = some last) :
    last = value.nRootPageNo ↔ value.nLastPageNo = value.nRootPageNo ∧
      bytes.length + 4 ≤ state.mgr.m_nPageSize - bodyOffset value.nRootPageNo := by
  have upward := saved.grown.freshEq
  obtain ⟨tail, chainEq⟩ := chainOf.first
  have rootLe := chainOf.allocated value.nRootPageNo (by rw [chainEq]; exact List.mem_cons_self)
  by_cases none' : fresh = []
  · have fits := saved.stays.mpr none'
    rw [none', List.append_nil, chainOf.last] at lastEq
    rw [← Option.some.inj lastEq]
    exact ⟨fun same => ⟨same, by rw [← same]; exact fits⟩, fun single => single.1⟩
  · rw [List.getLast?_append_of_ne_nil _ none'] at lastEq
    have isFresh := List.mem_of_getLast? lastEq
    rw [upward, List.mem_range'_1] at isFresh
    constructor
    · intro same
      omega
    · rintro ⟨single, fits⟩
      exact absurd (saved.stays.mp (by rw [single]; exact fits)) none'

/-- Segment rewrite: the string saved last is read back exactly when the segment was one page to
begin with and every string saved before it fits on that page. -/
theorem rewritten_is_read (earlier : List Bytes) (state : Segments Device) (pages : PageMap)
    (chains : PageKey_t → List Nat) (sound : Sound state pages chains)
    (room : 28 < state.mgr.m_nPageSize) (key : PageKey_t) (value : PageNo_t)
    (found : state.mgr.m_PageInfo.find key = some value) (unit : value.nMinUnit ≤ 4)
    (bytes : Bytes)
    (lengths : ∀ string ∈ earlier ++ [bytes], string ≠ [] ∧ string.length + 4 < 2147483648)
    (small : StaysSmall state key (earlier ++ [bytes])) :
    ReadsLast state key earlier bytes ↔
      bodyOffset value.nRootPageNo + 4 ≤ state.mgr.m_nPageSize ∧
        value.nLastPageNo = value.nRootPageNo ∧
        ∀ string ∈ earlier,
          string.length + 4 ≤ state.mgr.m_nPageSize - bodyOffset value.nRootPageNo := by
  induction earlier generalizing state pages chains value with
  | nil =>
    obtain ⟨some', short⟩ := lengths bytes List.mem_cons_self
    obtain ⟨replies, after, later, fresh, ran, saved⟩ := sound.saving found unit bytes some' short
      (small [] List.nil_prefix _ _ rfl)
    have ranAll : runAll step state ([bytes].flatMap (saving key)) = .ok (replies, after) := by
      rw [List.flatMap_singleton, ran]
    have reads := saved.read_iff sound found unit room short
      (small [bytes] List.prefix_rfl _ _ ranAll)
    rw [ReadsLast, List.nil_append, ranAll]
    simp only [List.not_mem_nil, false_imp_iff, implies_true, and_true]
    rw [← reads]
    constructor
    · rintro ⟨_, _, last, equal, returned⟩
      cases equal
      exact ⟨last, returned⟩
    · rintro ⟨last, returned⟩
      exact ⟨_, _, last, rfl, returned⟩
  | cons string rest inductionHypothesis =>
    obtain ⟨some', short⟩ := lengths string List.mem_cons_self
    obtain ⟨replies, after, later, fresh, ran, saved⟩ := sound.saving found unit string some' short
      (small [] List.nil_prefix _ _ rfl)
    have whole : ∀ strings, (string :: strings).flatMap (saving key) =
        saving key string ++ strings.flatMap (saving key) := fun strings => List.flatMap_cons ..
    have sizeEq := saved.grown.sizeEq
    obtain ⟨_, last, lastEq, findEq⟩ := sound.allocated.grow found saved.grown (by
      have stores := saved.sound.allocated.stores
      rwa [sizeEq] at stores)
    have behind := inductionHypothesis after later _ saved.sound (by rw [sizeEq]; exact room)
      { value with nLastPageNo := last } (by rw [findEq, if_pos rfl]) unit
      (fun other member => lengths other (List.mem_cons_of_mem _ member))
      (fun front inside more final finalEq => small (string :: front)
        (List.cons_prefix_cons.mpr ⟨rfl, inside⟩) (replies ++ more) final (by
          rw [whole, runAll_append ran, finalEq]
          rfl))
    have single := saved.single_iff (sound.allocated.chainOf key value found) lastEq
    rw [sizeEq] at behind
    have shifted : ReadsLast state key (string :: rest) bytes ↔ ReadsLast after key rest bytes := by
      rw [ReadsLast, ReadsLast, List.cons_append, whole, runAll_append ran]
      constructor
      · rintro ⟨_, final, ended, finalEq, returned⟩
        cases restEq : runAll step after ((rest ++ [bytes]).flatMap (saving key)) with
        | error failure =>
          rw [restEq] at finalEq
          cases finalEq
        | ok result =>
          rw [restEq] at finalEq
          cases finalEq
          exact ⟨_, _, ended, rfl, returned⟩
      · rintro ⟨more, final, ended, finalEq, returned⟩
        exact ⟨replies ++ more, final, ended, by rw [finalEq]; rfl, returned⟩
    rw [shifted, behind, List.forall_mem_cons]
    constructor
    · rintro ⟨wide, one, fits⟩
      exact ⟨wide, (single.mp one).1, (single.mp one).2, fits⟩
    · rintro ⟨wide, one, here, fits⟩
      exact ⟨wide, single.mpr ⟨one, here⟩, fits⟩

/-- A new file with one segment. -/
def withSegment (pageSize : Nat) (key : PageKey_t) : Except Fault (Segments PageDisk) := do
  let disk ← PageDisk.create pageSize
  let mgr ← SMDPageManagement.new disk false pageSize
  let (_, state) ← step (opened mgr) (.createPageFile key.segType key.sTableName 0)
  .ok state

/-- The segment of the table definitions. -/
def tableSegment : PageKey_t := ⟨.SEG_TYPE_TABLES, [1]⟩

/-- In a file of 96-byte pages the new segment owns its page. -/
theorem withSegment_sound {state : Segments PageDisk}
    (created : withSegment 96 tableSegment = .ok state) :
    ∃ pages chains, Sound state pages chains := by
  simp only [withSegment, bind_eq_ok] at created
  obtain ⟨disk, diskEq, mgr, newEq, ⟨reply, after⟩, returned, equal⟩ := created
  cases equal
  have admitted : KeepsApart (opened mgr) (.createPageFile .SEG_TYPE_TABLES [1] 0) := by
    cases newEq
    refine Or.inr ⟨?_, (by decide : 64 + 1 + 4 < 2147483648),
      (by decide : 0 + 2 + (64 + 1) < 0xFFFFFFFF)⟩
    intro value found
    rw [show value = ⟨0, 0, 0, 0⟩ from (Option.some.inj found).symm]
    exact (by decide : 64 + 4 ≤ 96 - 28)
  exact run_sound (holdsFlag_create diskEq) (by decide) newEq (Run.start.step admitted returned)

theorem rewritten_is_read_once : ∃ state : Segments PageDisk,
    withSegment 96 tableSegment = .ok state ∧ ReadsLast state tableSegment [[7]] [8, 9] := by
  have evaluated : (do
      let state ← withSegment 96 tableSegment
      let first ← runAll step state ([[7]].flatMap (saving tableSegment))
      let second ← runAll step state ([[7], [8, 9]].flatMap (saving tableSegment))
      .ok (state.mgr.m_PageInfo.find tableSegment, state.mgr.m_nPageSize,
        [state, first.2, second.2].map fun saved => (saved.mgr.m_nPageCnt, saved.mgr.m_nPageSize))) =
      (.ok (some ⟨0, 4, 1, 1⟩, 96, [(1, 96), (1, 96), (1, 96)]) : Except Fault _) := by
    decide +kernel
  simp only [bind_eq_ok] at evaluated
  obtain ⟨state, created, ⟨_, first⟩, firstEq, ⟨_, second⟩, secondEq, observed⟩ := evaluated
  simp only [Except.ok.injEq, Prod.mk.injEq, List.map_cons, List.map_nil, List.cons.injEq,
    and_true] at observed
  obtain ⟨found, sizeEq, smallNone, smallFirst, smallSecond⟩ := observed
  have small : ∀ saved : Segments PageDisk,
      saved.mgr.m_nPageCnt = 1 ∧ saved.mgr.m_nPageSize = 96 → saved.mgr.FileSmall := by
    rintro saved ⟨counted, sized⟩
    rw [SMDPageManagement.FileSmall, counted, sized]
    decide
  obtain ⟨pages, chains, sound⟩ := withSegment_sound created
  refine ⟨state, created, (rewritten_is_read [[7]] state pages chains sound (by rw [sizeEq]; decide)
    tableSegment ⟨0, 4, 1, 1⟩ found (by decide) [8, 9] ?_ ?_).mpr ?_⟩
  · intro string member
    rcases List.mem_cons.mp member with equal | member
    · rw [equal]
      exact ⟨List.cons_ne_nil _ _, by decide⟩
    · rw [List.mem_singleton.mp member]
      exact ⟨List.cons_ne_nil _ _, by decide⟩
  · intro front inside replies saved ran
    rcases front with _ | ⟨string, front⟩
    · cases ran
      exact small _ smallNone
    · obtain ⟨equal, later⟩ := List.cons_prefix_cons.mp inside
      cases equal
      rcases front with _ | ⟨other, front⟩
      · rw [firstEq] at ran
        cases ran
        exact small _ smallFirst
      · obtain ⟨equal, ended⟩ := List.cons_prefix_cons.mp later
        cases equal
        cases List.prefix_nil.mp ended
        rw [secondEq] at ran
        cases ran
        exact small _ smallSecond
  · rw [sizeEq]
    refine ⟨by decide, rfl, fun string member => ?_⟩
    rw [List.mem_singleton.mp member]
    decide

/-- A string of 81 bytes needs a second page of 96 bytes; the string saved after it goes there,
and the first page stays empty. -/
theorem rewritten_not_read : ∃ state : Segments PageDisk,
    withSegment 96 tableSegment = .ok state ∧
    ¬ ReadsLast state tableSegment [List.replicate 81 7] [8, 9] := by
  have evaluated : (do
      let state ← withSegment 96 tableSegment
      let saved ← runAll step state
        (([List.replicate 81 7] ++ [[8, 9]] : List Bytes).flatMap (saving tableSegment))
      .ok (saved.2.step (.get tableSegment (-1))).isOk) = (.ok false : Except Fault _) := by
    decide +kernel
  simp only [bind_eq_ok] at evaluated
  obtain ⟨state, created, ⟨replies, saved⟩, ran, failed⟩ := evaluated
  refine ⟨state, created, ?_⟩
  rintro ⟨_, other, last, otherEq, returned⟩
  rw [ran] at otherEq
  cases otherEq
  rw [returned] at failed
  cases failed

end Segments

end LevelDBLib.KvDB
