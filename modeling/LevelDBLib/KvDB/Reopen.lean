/-
This file proves when a file that was saved can be opened again: a new allocator
over it knows the page size, the page counter and the page table of the one that
saved.

The table is built before it is put and put behind the last page of its own
segment, while opening reads it from the first one. So it has to fit on page 0,
whenever a segment is created and when the allocator saves. A table that goes on
over a second page records the counter from before that page was allocated, and
from then on it is saved where opening does not look.
-/

import LevelDBLib.KvDB.OwnershipRuns
import LevelDBLib.KvDB.Reload

namespace LevelDBLib.KvDB

open Buffers Tapes Runs

variable {Device : Type} [CoherentDevice Device]

/-! ### Entries that fit the file -/

/-- Every entry has the fields that the file stores in 16 bits in range. -/
def PageInfo.Units (info : PageInfo) : Prop :=
  ∀ entry ∈ info, entry.2.nOffset < 65536 ∧ entry.2.nMinUnit < 65536

theorem PageInfo.Units.insert {info : PageInfo} (units : info.Units) (key : PageKey_t)
    (value : PageNo_t) (fits : value.nOffset < 65536 ∧ value.nMinUnit < 65536) :
    (info.insert key value).Units := by
  intro entry member
  rcases (PageInfo.mem_insert _ _ _ _).mp member with equal | member
  · rw [equal]
    exact fits
  · exact units entry member

theorem PageInfo.Units.incLastPageNoIn {info : PageInfo} (units : info.Units) (first last : Nat) :
    PageInfo.Units (SMDPageManagement.incLastPageNoIn info first last) := by
  induction info with
  | nil => exact units
  | cons entry rest inductionHypothesis =>
    obtain ⟨key, value⟩ := entry
    have here := units (key, value) List.mem_cons_self
    have behind : PageInfo.Units rest := fun entry member => units entry (List.mem_cons_of_mem _ member)
    rw [SMDPageManagement.incLastPageNoIn]
    by_cases same : value.nLastPageNo = first
    · rw [if_pos same]
      intro entry member
      rcases List.mem_cons.mp member with equal | member
      · rw [equal]
        exact here
      · exact behind entry member
    · rw [if_neg same]
      intro entry member
      rcases List.mem_cons.mp member with equal | member
      · rw [equal]
        exact here
      · exact inductionHypothesis behind entry member

/-- A file with the same pages holds the same map. -/
theorem Stores.of_contents {device file : Device} {pageSize : Nat} {pages : PageMap}
    (stores : Stores device pageSize pages)
    (same : CoherentDevice.contents file = CoherentDevice.contents device) :
    Stores file pageSize pages := by
  intro pageno view known
  obtain ⟨bytes, held, rest⟩ := stores pageno view known
  exact ⟨bytes, by rw [same]; exact held, rest⟩

namespace Segments

/-! ### The calls that keep the table on its first page -/

/-- The calls that build a file: a segment is created, and the allocator saves, only while the
page table fits on its page, and nothing is appended to the segment of the table. -/
def Builds (state : Segments Device) : Request → Prop
  | .createPageFile enumType sTableName minUnit => minUnit < 65536 ∧
    state.KeepsApart (.createPageFile enumType sTableName minUnit)
  | .put key bytes => key ≠ SMDPageManagement.pageTableKey ∧ state.mgr.InRange bytes.length
  | .save => state.mgr.TableFits ∧ state.mgr.InRange state.mgr.tableBytes.length
  | _ => False

/-- The state of an allocator that can be opened again: its table lies on page 0. -/
structure Reloads (state : Segments Device) (pageSize : Nat) : Prop where
  size : state.mgr.m_nPageSize = pageSize
  attributes : state.mgr.externAttributes = []
  units : state.mgr.m_PageInfo.Units
  first : state.mgr.m_PageInfo.find SMDPageManagement.pageTableKey = some ⟨0, 0, 0, 0⟩

variable {state : Segments Device} {pages : PageMap} {chains : PageKey_t → List Nat}
  {pageSize : Nat}

theorem new_reloads {device : Device} {mgr : SMDPageManagement Device}
    (newEq : SMDPageManagement.new device false pageSize = .ok mgr) :
    Reloads (opened mgr) pageSize := by
  cases newEq
  refine ⟨rfl, rfl, ?_, rfl⟩
  intro entry member
  rw [List.mem_singleton.mp member]
  decide

/-- What a call on one segment leaves of the table. -/
theorem Reloads.grow (reloads : Reloads state pageSize) (sound : Sound state pages chains)
    {key : PageKey_t} {value : PageNo_t} {after : Segments Device} {later : PageMap}
    {fresh : List Nat} (found : state.mgr.m_PageInfo.find key = some value)
    (grown : Grown state.mgr after.mgr pages later (chains key) fresh)
    (next : Sound after later (Function.update chains key (chains key ++ fresh)))
    (different : SMDPageManagement.pageTableKey ≠ key) : Reloads after pageSize := by
  have stores := next.allocated.stores
  rw [grown.sizeEq] at stores
  obtain ⟨_, last, lastEq, findEq⟩ := sound.allocated.grow found grown stores
  refine ⟨grown.sizeEq.trans reloads.size, grown.attributesEq.trans reloads.attributes, ?_, ?_⟩
  · rw [grown.infoEq _ last (sound.allocated.chainOf key value found).last lastEq]
    exact reloads.units.incLastPageNoIn _ _
  · rw [findEq, if_neg different, reloads.first]

/-- Saving a table that fits on page 0 puts it at the start of page 0. -/
theorem Sound.save_first (sound : Sound state pages chains)
    (first : state.mgr.m_PageInfo.find SMDPageManagement.pageTableKey = some ⟨0, 0, 0, 0⟩)
    (fits : state.mgr.TableFits) (range : state.mgr.InRange state.mgr.tableBytes.length) :
    ∃ device later,
      state.mgr.save = .ok (true, { state.mgr with device := device }) ∧
      Sound { state with mgr := { state.mgr with device := device } } later chains ∧
      Chain later [0] ∧ Stands later [0] 0 state.mgr.tableBytes := by
  have room : state.mgr.tableBytes.length + 4 ≤ state.mgr.m_nPageSize - bodyOffset 0 :=
    fits ⟨0, 0, 0, 0⟩ first
  have chainOf := sound.allocated.chainOf _ _ first
  have chainEq := chainOf.single rfl
  obtain ⟨view, page, mgr, later, fresh, _, spaceEq, saved, grown, stores, cells, stays⟩ :=
    state.mgr.saveInnerInfoToFile_spec pages ⟨0, 0, 0, 0⟩ _
      (sound.allocated.serves (SMDPageManagement.tableFile ⟨0, 0, 0, 0⟩) _ first
        fun _ equal => by cases equal)
      chainOf rfl range.1 range.2
  have empty : fresh = [] := stays (by rw [spaceEq]; exact room)
  subst empty
  rw [grown.eq_of_nil chainOf.last] at saved
  have next := sound.grow first grown stores state.files (fun _ _ => rfl) fun file opened => by
    refine ⟨(sound.named _ file opened).1, fun page holds => ?_⟩
    obtain ⟨formed, member, _⟩ := sound.held _ file page opened holds
    exact ⟨formed, List.mem_append_left _ member, fun different => absurd rfl different⟩
  rw [List.append_nil, Function.update_eq_self, grown.eq_of_nil chainOf.last] at next
  have linked := grown.linked
  rw [List.append_nil, chainEq] at linked
  refine ⟨mgr.device, later, saved, next, linked, ?_⟩
  have enough : 4 ≤ view.freed.space := by
    rw [spaceEq]
    show 4 ≤ state.mgr.m_nPageSize - bodyOffset 0
    omega
  exact SMDPageFile.stands_of_putCells enough (Nat.zero_le 4) cells

/-- One call that builds the file. -/
theorem Reloads.step (reloads : Reloads state pageSize) (sound : Sound state pages chains)
    (call : Request) (admitted : state.Builds call) {reply : Reply} {after : Segments Device}
    (returned : state.step call = .ok (reply, after)) :
    Reloads after pageSize ∧ ∃ later laterChains, Sound after later laterChains := by
  cases call with
  | createPageFile enumType sTableName minUnit =>
    obtain ⟨unitLt, apart⟩ := admitted
    obtain ⟨later, laterChains, next, _⟩ :=
      sound.keeps (.createPageFile enumType sTableName minUnit) apart returned
    refine ⟨?_, later, laterChains, next⟩
    cases found : state.mgr.m_PageInfo.find ⟨enumType, sTableName⟩ with
    | some value =>
      obtain ⟨reopenEq, _⟩ := sound.reopen found minUnit
      rw [reopenEq] at returned
      cases returned
      exact ⟨reloads.size, reloads.attributes, reloads.units, reloads.first⟩
    | none =>
      rcases apart with known | ⟨fits, range⟩
      · rw [found] at known
        cases known
      · have tableNe : SMDPageManagement.pageTableKey ≠ ⟨enumType, sTableName⟩ := fun same => by
          rw [← same, reloads.first] at found
          cases found
        have first : (state.mgr.enrolled ⟨enumType, sTableName⟩ (max minUnit 4)).m_PageInfo.find
            SMDPageManagement.pageTableKey = some ⟨0, 0, 0, 0⟩ := by
          show (state.mgr.m_PageInfo.insert _ _).find SMDPageManagement.pageTableKey = _
          rw [PageInfo.find_insert _ _ found, if_neg tableNe, reloads.first]
        have count := range.2
        obtain ⟨device, _, createEq, _⟩ :=
          sound.create found minUnit reloads.first (fits ⟨0, 0, 0, 0⟩ first) (by omega)
        rw [createEq] at returned
        cases returned
        have unitsLt : 0 < 65536 ∧ max minUnit 4 < 65536 := ⟨by decide, by omega⟩
        exact ⟨reloads.size, reloads.attributes, reloads.units.insert _ _ unitsLt, first⟩
  | put key bytes =>
    obtain ⟨different, range⟩ := admitted
    rcases sound.put_cases key bytes (fun same => absurd same different) range returned with
      same | ⟨value, later, fresh, found, grown, next⟩
    · rw [same]
      exact ⟨reloads, pages, chains, sound⟩
    · exact ⟨reloads.grow sound found grown next different.symm, later, _, next⟩
  | save =>
    obtain ⟨device, later, saveEq, next, _⟩ :=
      sound.save_first reloads.first admitted.1 admitted.2
    simp only [Segments.step, saveEq, ok_bind] at returned
    cases returned
    exact ⟨⟨reloads.size, reloads.attributes, reloads.units, reloads.first⟩, later, chains, next⟩
  | putAt key bytes offset => exact absurd admitted id
  | get key offset => exact absurd admitted id
  | clearPage key => exact absurd admitted id

theorem run_reloads {device : Device} {mgr : SMDPageManagement Device}
    (flag : HoldsFlag device pageSize) (sizeLt : pageSize < 65536)
    (newEq : SMDPageManagement.new device false pageSize = .ok mgr)
    {history : History Request Reply}
    (run : Run Segments.step (fun _ => Builds) (opened mgr) history state) :
    Reloads state pageSize ∧ ∃ pages chains, Sound state pages chains := by
  refine run.invariant (fun _ state => Reloads state pageSize ∧
    ∃ pages chains, Sound state pages chains)
    ⟨new_reloads newEq, _, _, new_sound flag sizeLt newEq⟩ ?_
  rintro _ state call reply after ⟨reloads, pages, chains, sound⟩ admitted returned
  exact reloads.step sound call admitted returned

/-! ### Opening the file again -/

/-- The entries of the table are in the ranges of the file. -/
theorem Sound.entryInRange (sound : Sound state pages chains) (units : state.mgr.m_PageInfo.Units)
    (range : state.mgr.InRange state.mgr.tableBytes.length) :
    ∀ entry ∈ state.mgr.m_PageInfo, SMDPageManagement.EntryInRange entry := by
  rintro ⟨key, value⟩ member
  have chainOf := sound.allocated.chainOf key value
    (PageInfo.find_of_mem sound.allocated.distinct member)
  have countLt := sound.allocated.countLt
  have lastLe := chainOf.allocated _ chainOf.last_mem
  have rootLe : value.nRootPageNo ≤ state.mgr.m_nPageCnt :=
    chainOf.allocated _ (List.mem_of_head? chainOf.root)
  have inTable : key.sTableName.length < 2147483648 := by
    obtain ⟨front, back, equal⟩ := List.append_of_mem member
    have part : (SMDPageManagement.entryBytes (key, value)).length ≤
        (state.mgr.m_PageInfo.flatMap SMDPageManagement.entryBytes).length := by
      rw [equal, List.flatMap_append, List.flatMap_cons, List.length_append, List.length_append]
      omega
    have whole : (state.mgr.m_PageInfo.flatMap SMDPageManagement.entryBytes).length ≤
        state.mgr.tableBytes.length := by
      rw [SMDPageManagement.tableBytes, List.length_append]
      exact Nat.le_add_left _ _
    have short := range.1
    rw [SMDPageManagement.length_entryBytes] at part
    simp only at part
    omega
  exact ⟨inTable, (units _ member).1, (units _ member).2,
    (by omega : value.nRootPageNo < 4294967296), (by omega : value.nLastPageNo < 4294967296)⟩

/-- Reopening: a new file is built by any calls while the page table fits on page 0, and then
saved; a new allocator over the saved pages has the page size, the page counter and the page table
of the one that saved. -/
theorem allocator_reopened (device : Device) (pageSize : Nat) (mgr : SMDPageManagement Device)
    (flag : HoldsFlag device pageSize) (sizeLt : pageSize < 65536)
    (newEq : SMDPageManagement.new device false pageSize = .ok mgr)
    (history : History Request Reply) (state : Segments Device)
    (run : Run Segments.step (fun _ => Builds) (opened mgr) history state)
    (admitted : state.Builds .save) :
    ∃ saved, state.mgr.save = .ok (true, saved) ∧
      ∀ file : Device, CoherentDevice.contents file = CoherentDevice.contents saved.device →
        ∃ fresh, SMDPageManagement.new file true pageSize = .ok fresh ∧
          fresh.m_nPageSize = saved.m_nPageSize ∧ fresh.m_nPageCnt = saved.m_nPageCnt ∧
          ∀ key, fresh.m_PageInfo.find key = saved.m_PageInfo.find key := by
  obtain ⟨reloads, pages, chains, sound⟩ := run_reloads flag sizeLt newEq run
  obtain ⟨fits, range⟩ := admitted
  obtain ⟨saved, later, saveEq, next, linked, stands⟩ := sound.save_first reloads.first fits range
  refine ⟨_, saveEq, fun file same => ?_⟩
  have room : state.mgr.tableBytes.length + 4 ≤ state.mgr.m_nPageSize - 28 :=
    fits ⟨0, 0, 0, 0⟩ reloads.first
  rw [reloads.size] at room
  have stores : Stores file state.mgr.m_nPageSize later := next.allocated.stores.of_contents same
  rw [reloads.size] at stores
  let fresh : SMDPageManagement Device :=
    { m_PageInfo := [(SMDPageManagement.pageTableKey, ⟨0, 0, 0, 0⟩)]
      m_nPageSize := pageSize
      m_nPageCnt := 0
      externAttributes := []
      device := file }
  have serves : Serves fresh later (SMDPageManagement.tableFile ⟨0, 0, 0, 0⟩) ⟨0, 0, 0, 0⟩ := by
    refine ⟨sizeLt, (by omega : 28 ≤ pageSize), stores, (fun _ equal => by cases equal), rfl, ?_,
      (by decide : 0 < 0xFFFFFFFF)⟩
    intro entry member
    rw [List.mem_singleton.mp member]
  obtain ⟨last, loaded, getEq, _⟩ := SMDPageFile.get_first_spec _ fresh later ⟨0, 0, 0, 0⟩
    (SMDMemStream.new 0) (-1) [] state.mgr.tableBytes serves (by omega : 28 < pageSize)
    (fun number member => by rw [List.mem_singleton.mp member])
    (by omega : (0 + 1) * pageSize ≤ 2147483648) linked stands
    (by omega : 28 + 4 ≤ pageSize) (by omega : 28 + 0 ≤ pageSize) (by have := range.1; omega)
    (by decide)
  have loadEq := SMDPageManagement.loadInnerInfo_spec { fresh with device := loaded } state.mgr
    (by have := range.1; omega) (by rw [reloads.size]; exact sizeLt)
    (by have := sound.allocated.countLt; omega) reloads.attributes
    (sound.entryInRange reloads.units range)
  refine ⟨{ fresh with
      m_nPageSize := state.mgr.m_nPageSize
      m_nPageCnt := state.mgr.m_nPageCnt
      m_PageInfo := state.mgr.m_PageInfo.foldl PageInfo.store fresh.m_PageInfo
      device := loaded }, ?_, rfl, rfl, fun key => ?_⟩
  · have fileEq : fresh.getPageFile .SEG_TYPE_PAGEMGR SMDPageManagement.PAGE_MANAGEMENT_NAME =
        some (SMDPageManagement.tableFile ⟨0, 0, 0, 0⟩) := rfl
    rw [SMDPageManagement.new, SMDPageManagement.getInnerInfoFromFile]
    simp only [if_true]
    rw [show (SMDPageManagement.getPageFile _ _ _ : Option SMDPageFile) = _ from fileEq]
    simp only
    rw [getEq, ok_bind]
    simp only [if_true]
    rw [loadEq]
    rfl
  · show PageInfo.find (state.mgr.m_PageInfo.foldl PageInfo.store fresh.m_PageInfo) key =
      state.mgr.m_PageInfo.find key
    rw [PageInfo.find_foldl_store _ fresh.m_PageInfo (List.nodup_singleton _)
      sound.allocated.distinct]
    by_cases table : key = SMDPageManagement.pageTableKey
    · rw [table, reloads.first, Option.some_or]
    · rw [show PageInfo.find fresh.m_PageInfo key = none from by
        rw [PageInfo.find_cons, if_neg table]
        rfl, Option.or_none]

theorem allocator_reopened_created : ∃ (device : PageDisk) (mgr : SMDPageManagement PageDisk)
    (reply : Reply) (state : Segments PageDisk) (saved : SMDPageManagement PageDisk),
    HoldsFlag device 96 ∧
    SMDPageManagement.new device false 96 = .ok mgr ∧
    Run Segments.step (fun _ => Builds) (opened mgr)
      [(.createPageFile .SEG_TYPE_DATA [1] 0, reply)] state ∧
    state.mgr.save = .ok (true, saved) ∧
    ∃ fresh, SMDPageManagement.new saved.device true 96 = .ok fresh ∧
      ∀ key, fresh.m_PageInfo.find key = saved.m_PageInfo.find key := by
  have evaluated : (do
      let disk ← PageDisk.create 96
      let mgr ← SMDPageManagement.new disk false 96
      let (_, state) ← Segments.step (opened mgr) (.createPageFile .SEG_TYPE_DATA [1] 0)
      .ok (state.mgr.m_PageInfo.find SMDPageManagement.pageTableKey, state.mgr.m_nPageSize,
        state.mgr.m_nPageCnt, state.mgr.tableBytes.length)) =
      (Except.ok (some ⟨0, 0, 0, 0⟩, 96, 1, 64) :
        Except Fault (Option PageNo_t × Nat × Nat × Nat)) := by decide +kernel
  simp only [bind_eq_ok, Except.ok.injEq, Prod.mk.injEq] at evaluated
  obtain ⟨device, created, mgr, newEq, ⟨reply, state⟩, returned, first, size, count, length⟩ :=
    evaluated
  have builds : Builds (opened mgr) (.createPageFile .SEG_TYPE_DATA [1] 0) := by
    cases newEq
    refine ⟨by decide, Or.inr ⟨?_, (by decide : 64 + 1 + 4 < 2147483648),
      (by decide : 0 + 2 + (64 + 1) < 0xFFFFFFFF)⟩⟩
    intro value found
    rw [show value = ⟨0, 0, 0, 0⟩ from (Option.some.inj found).symm]
    exact (by decide : 64 + 4 ≤ 96 - 28)
  have run : Run Segments.step (fun _ => Builds) (opened mgr)
      [(.createPageFile .SEG_TYPE_DATA [1] 0, reply)] state := Run.start.step builds returned
  have admitted : state.Builds .save := by
    refine ⟨fun value found => ?_, ?_⟩
    · rw [first] at found
      rw [← Option.some.inj found, length, size]
      exact (by decide : 64 + 4 ≤ 96 - 28)
    · rw [length]
      exact ⟨by decide, by rw [count]; decide⟩
  obtain ⟨saved, saveEq, reopens⟩ := allocator_reopened device 96 mgr (holdsFlag_create created)
    (by decide) newEq _ state run admitted
  obtain ⟨fresh, freshEq, _, _, same⟩ := reopens saved.device rfl
  exact ⟨device, mgr, reply, state, saved, holdsFlag_create created, newEq, run, saveEq, fresh,
    freshEq, same⟩

/-- A page of 60 bytes has no room for the table, which goes on over page 1: the new allocator
reads the counter from before that page was there. -/
theorem counter_lost : ∃ (device : PageDisk) (mgr : SMDPageManagement PageDisk)
    (replies : List Reply) (state : Segments PageDisk), HoldsFlag device 60 ∧
    SMDPageManagement.new device false 60 = .ok mgr ∧
    Run Segments.step (fun _ _ _ => True) (opened mgr) (([] : List Request).zip replies).reverse
      state ∧
    ∃ saved fresh, state.mgr.save = .ok (true, saved) ∧
      SMDPageManagement.new saved.device true 60 = .ok fresh ∧ saved.m_nPageCnt = 1 ∧
      fresh.m_nPageCnt = 0 := by
  have evaluated : onNewFile 60 [] (fun _ state => (do
      let (done, saved) ← state.mgr.save
      let fresh ← SMDPageManagement.new saved.device true 60
      .ok (done, saved.m_nPageCnt, fresh.m_nPageCnt) : Except Fault (Bool × Nat × Nat))) =
      .ok (.ok (true, 1, 0)) := by decide +kernel
  obtain ⟨device, mgr, replies, state, flag, newEq, run, observed⟩ := run_of_onNewFile evaluated
  refine ⟨device, mgr, replies, state, flag, newEq, run, ?_⟩
  simp only [bind_eq_ok, Except.ok.injEq, Prod.mk.injEq] at observed
  obtain ⟨⟨done, saved⟩, saveEq, fresh, freshEq, doneEq, savedEq, countEq⟩ := observed
  exact ⟨saved, fresh, by rw [saveEq]; exact congrArg _ (congrArg₂ _ doneEq rfl), freshEq, savedEq,
    countEq⟩

end Segments

end LevelDBLib.KvDB
