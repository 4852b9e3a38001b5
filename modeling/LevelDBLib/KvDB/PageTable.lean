/-
This file proves what saving the page table does. The table is one string,
`tableBytes`, which replaces whatever the segment of the table holds; that the
segment is stored by the allocator it describes shows in two places only. The
string is built before it is put, so it cannot count pages that the put
allocates, and `createPageFile` allocates its root page before the table and
writes the page that the counter names after it.
-/

import LevelDBLib.KvDB.Allocation

namespace LevelDBLib.KvDB

open Buffers Tapes

variable {Device : Type} [CoherentDevice Device]

namespace SMDPageManagement

/-! ### The string -/

def attributeBytes (attributes : List (Bytes × Bytes)) : Bytes :=
  SMDValue.putInt (BitVec.ofNat 32 attributes.length) ++
    attributes.flatMap fun pair => SMDMemStream.stringBytes pair.1 ++
      SMDMemStream.stringBytes pair.2

def entryBytes (entry : PageKey_t × PageNo_t) : Bytes :=
  [entry.1.segType.code] ++ SMDMemStream.stringBytes entry.1.sTableName ++
    SMDValue.putInt (BitVec.ofNat 32 entry.2.nRootPageNo) ++
    SMDValue.putShort (BitVec.ofNat 16 entry.2.nOffset) ++
    SMDValue.putShort (BitVec.ofNat 16 entry.2.nMinUnit) ++
    SMDValue.putInt (BitVec.ofNat 32 entry.2.nLastPageNo)

/-- The bytes that stand for an allocator in its file. -/
def tableBytes (mgr : SMDPageManagement Device) : Bytes :=
  [1, 0, 0, 0] ++ SMDValue.putShort (BitVec.ofNat 16 mgr.m_nPageSize) ++
    SMDValue.putInt (BitVec.ofNat 32 mgr.m_nPageCnt) ++
    SMDValue.putInt (BitVec.ofNat 32 mgr.m_PageInfo.length) ++
    attributeBytes mgr.externAttributes ++ mgr.m_PageInfo.flatMap entryBytes

theorem length_stringBytes (strVal : Bytes) :
    (SMDMemStream.stringBytes strVal).length = 4 + strVal.length := by
  rw [SMDMemStream.stringBytes, List.length_append, SMDValue.length_putInt]

theorem length_entryBytes (entry : PageKey_t × PageNo_t) :
    (entryBytes entry).length = 17 + entry.1.sTableName.length := by
  simp only [entryBytes, List.length_append, length_stringBytes, SMDValue.length_putInt,
    SMDValue.length_putShort, List.length_cons, List.length_nil]
  omega

theorem writePageInfo_at_end (stream : SMDMemStream) (data : Bytes)
    (entry : PageKey_t × PageNo_t) (ends : stream.Ends data)
    (small : data.length + (entryBytes entry).length < 4294967296) :
    ∃ next, writePageInfo stream entry = .ok next ∧ next.Ends (data ++ entryBytes entry) := by
  rw [length_entryBytes] at small
  obtain ⟨one, oneEq, oneEnds⟩ :=
    SMDMemStream.writeBytes_at_end stream data [entry.1.segType.code] ends
      (by simp only [List.length_cons, List.length_nil]; omega)
  obtain ⟨two, twoEq, twoEnds⟩ := SMDMemStream.writeString_at_end one _ entry.1.sTableName oneEnds
    (by simp only [List.length_append, List.length_cons, List.length_nil]; omega)
  obtain ⟨three, threeEq, threeEnds⟩ := SMDMemStream.writeInt_at_end two _
    (BitVec.ofNat 32 entry.2.nRootPageNo) twoEnds
    (by simp only [List.length_append, length_stringBytes, List.length_cons, List.length_nil]; omega)
  obtain ⟨four, fourEq, fourEnds⟩ := SMDMemStream.writeShort_at_end three _
    (BitVec.ofNat 16 entry.2.nOffset) threeEnds
    (by simp only [List.length_append, length_stringBytes, SMDValue.length_putInt,
      List.length_cons, List.length_nil]; omega)
  obtain ⟨five, fiveEq, fiveEnds⟩ := SMDMemStream.writeShort_at_end four _
    (BitVec.ofNat 16 entry.2.nMinUnit) fourEnds
    (by simp only [List.length_append, length_stringBytes, SMDValue.length_putInt,
      SMDValue.length_putShort, List.length_cons, List.length_nil]; omega)
  obtain ⟨last, lastEq, lastEnds⟩ := SMDMemStream.writeInt_at_end five _
    (BitVec.ofNat 32 entry.2.nLastPageNo) fiveEnds
    (by simp only [List.length_append, length_stringBytes, SMDValue.length_putInt,
      SMDValue.length_putShort, List.length_cons, List.length_nil]; omega)
  refine ⟨last, ?_, ?_⟩
  · rw [writePageInfo, oneEq, ok_bind, twoEq, ok_bind, threeEq, ok_bind, fourEq, ok_bind, fiveEq,
      ok_bind, lastEq]
  · simpa only [entryBytes, List.append_assoc] using lastEnds

/-- Writing strings one behind the other appends them. -/
theorem foldlM_at_end {Item : Type} (write : SMDMemStream → Item → Except Fault SMDMemStream)
    (encode : Item → Bytes)
    (writes : ∀ stream data item, stream.Ends data →
      data.length + (encode item).length < 4294967296 →
      ∃ next, write stream item = .ok next ∧ next.Ends (data ++ encode item))
    (items : List Item) :
    ∀ (stream : SMDMemStream) (data : Bytes), stream.Ends data →
      data.length + (items.flatMap encode).length < 4294967296 →
      ∃ next, items.foldlM write stream = .ok next ∧
        next.Ends (data ++ items.flatMap encode) := by
  induction items with
  | nil =>
    intro stream data ends _
    exact ⟨stream, rfl, by rw [List.flatMap_nil, List.append_nil]; exact ends⟩
  | cons item rest inductionHypothesis =>
    intro stream data ends small
    rw [List.flatMap_cons, List.length_append] at small
    obtain ⟨next, written, nextEnds⟩ := writes stream data item ends (by omega)
    obtain ⟨last, rest', lastEnds⟩ := inductionHypothesis next _ nextEnds
      (by rw [List.length_append]; omega)
    refine ⟨last, ?_, ?_⟩
    · rw [List.foldlM_cons, written, ok_bind, rest']
    · rw [List.flatMap_cons, ← List.append_assoc]
      exact lastEnds

omit [CoherentDevice Device] in
theorem innerInfoStream_spec (mgr : SMDPageManagement Device)
    (small : mgr.tableBytes.length < 4294967296) :
    ∃ stream, mgr.innerInfoStream = .ok stream ∧ stream.data = mgr.tableBytes := by
  have lengths : mgr.tableBytes.length =
      4 + 2 + 4 + 4 + (4 + (mgr.externAttributes.flatMap fun pair =>
        SMDMemStream.stringBytes pair.1 ++ SMDMemStream.stringBytes pair.2).length) +
        (mgr.m_PageInfo.flatMap entryBytes).length := by
    simp only [tableBytes, attributeBytes, List.length_append, SMDValue.length_putInt,
      SMDValue.length_putShort, List.length_cons, List.length_nil]
  rw [lengths] at small
  have start : ((SMDMemStream.new 0).resize 4).writeBytes [1] = .ok ⟨[1, 0, 0, 0], 1⟩ := by decide
  have marked : (SMDMemStream.setPosition ⟨[1, 0, 0, 0], 1⟩ 4).2.Ends [1, 0, 0, 0] := ⟨rfl, rfl⟩
  obtain ⟨one, oneEq, oneEnds⟩ := SMDMemStream.writeShort_at_end _ _
    (BitVec.ofNat 16 mgr.m_nPageSize) marked (by decide)
  obtain ⟨two, twoEq, twoEnds⟩ := SMDMemStream.writeInt_at_end one _
    (BitVec.ofNat 32 mgr.m_nPageCnt) oneEnds
    (by simp only [List.length_append, SMDValue.length_putShort, List.length_cons,
      List.length_nil]; decide)
  obtain ⟨three, threeEq, threeEnds⟩ := SMDMemStream.writeInt_at_end two _
    (BitVec.ofNat 32 mgr.m_PageInfo.length) twoEnds
    (by simp only [List.length_append, SMDValue.length_putShort, SMDValue.length_putInt,
      List.length_cons, List.length_nil]; decide)
  obtain ⟨four, fourEq, fourEnds⟩ := SMDMemStream.writeInt_at_end three _
    (BitVec.ofNat 32 mgr.externAttributes.length) threeEnds
    (by simp only [List.length_append, SMDValue.length_putShort, SMDValue.length_putInt,
      List.length_cons, List.length_nil]; decide)
  obtain ⟨five, fiveEq, fiveEnds⟩ := foldlM_at_end
    (fun stream pair => do
      let stream ← stream.writeString pair.1
      stream.writeString pair.2)
    (fun pair : Bytes × Bytes => SMDMemStream.stringBytes pair.1 ++ SMDMemStream.stringBytes pair.2)
    (fun stream data pair ends bound => by
      rw [List.length_append, length_stringBytes, length_stringBytes] at bound
      obtain ⟨mid, midEq, midEnds⟩ :=
        SMDMemStream.writeString_at_end stream data pair.1 ends (by omega)
      obtain ⟨last, lastEq, lastEnds⟩ := SMDMemStream.writeString_at_end mid _ pair.2 midEnds
        (by rw [List.length_append, length_stringBytes]; omega)
      refine ⟨last, by rw [midEq, ok_bind, lastEq], ?_⟩
      rw [← List.append_assoc]
      exact lastEnds)
    mgr.externAttributes four _ fourEnds
    (by simp only [List.length_append, SMDValue.length_putShort, SMDValue.length_putInt,
      List.length_cons, List.length_nil] at small ⊢; omega)
  obtain ⟨last, lastEq, lastEnds⟩ := foldlM_at_end writePageInfo entryBytes writePageInfo_at_end
    mgr.m_PageInfo five _ fiveEnds
    (by simp only [List.length_append, SMDValue.length_putShort, SMDValue.length_putInt,
      List.length_cons, List.length_nil] at small ⊢; omega)
  refine ⟨last, ?_, ?_⟩
  · rw [innerInfoStream, start]
    simp only [ok_bind, oneEq, twoEq, threeEq, writeExternAttributes, fourEq]
    rw [fiveEq, ok_bind, lastEq]
  · rw [lastEnds.1]
    simp only [tableBytes, attributeBytes, List.append_assoc]

/-! ### Saving the table -/

/-- The segment object that `saveInnerInfoToFile` makes. -/
def tableFile (value : PageNo_t) : SMDPageFile :=
  ⟨.SEG_TYPE_PAGEMGR, PAGE_MANAGEMENT_NAME, value.nMinUnit, none⟩

omit [CoherentDevice Device] in
theorem tableBytes_ne_nil (mgr : SMDPageManagement Device) : mgr.tableBytes ≠ [] := by
  simp [tableBytes]

/-- Saving the table is rewriting its segment. -/
theorem saveInnerInfoToFile_spec (mgr : SMDPageManagement Device) (pages : PageMap)
    (value : PageNo_t) (chain : List Nat) (serves : Serves mgr pages (tableFile value) value)
    (chainOf : ChainOf pages mgr.m_nPageCnt value chain) (unit : value.nMinUnit = 0)
    (short : mgr.tableBytes.length + 4 < 2147483648)
    (count : mgr.m_nPageCnt + 2 + mgr.tableBytes.length < 0xFFFFFFFF) :
    ∃ (view : PageView) (page : SMDPage) (after : SMDPageManagement Device) (later : PageMap)
        (fresh : List Nat),
      pages value.nLastPageNo = some view ∧
      view.freed.space = mgr.m_nPageSize - bodyOffset value.nLastPageNo ∧
      mgr.saveInnerInfoToFile = .ok (true, after) ∧ Grown mgr after pages later chain fresh ∧
      Stores after.device mgr.m_nPageSize later ∧
      chainCells later (value.nLastPageNo :: fresh) =
        SMDPageFile.putCells 0 mgr.m_nPageSize view.freed mgr.tableBytes ++ free page.view.space ∧
      (mgr.tableBytes.length + 4 ≤ view.freed.space → fresh = []) := by
  have room := serves.room
  have unitEq : (tableFile value).minUint = 0 := unit
  obtain ⟨view, page, after, later, fresh, known, spaceEq, rewriteEq, grown, stores, _, _, _, cells,
    fits⟩ := (tableFile value).rewrite_spec mgr pages value chain mgr.tableBytes serves chainOf
      (Or.inr (by omega)) (tableBytes_ne_nil mgr) short count
  obtain ⟨stream, streamEq, dataEq⟩ := mgr.innerInfoStream_spec (by omega)
  rw [unitEq] at cells
  refine ⟨view, page, after, later, fresh, known, spaceEq, ?_, grown, stores, cells, fits⟩
  have fileEq : mgr.getPageFile .SEG_TYPE_PAGEMGR PAGE_MANAGEMENT_NAME = some (tableFile value) := by
    have found : mgr.m_PageInfo.find ⟨.SEG_TYPE_PAGEMGR, PAGE_MANAGEMENT_NAME⟩ = some value :=
      serves.found
    rw [getPageFile, found]
    rfl
  have samePut : ∀ (file : SMDPageFile) (mgr' : SMDPageManagement Device),
      file.put mgr' stream = file.put mgr' ⟨mgr.tableBytes, 0⟩ := by
    intro file mgr'
    rw [← dataEq]
    rfl
  rw [SMDPageFile.rewrite, bind_eq_ok] at rewriteEq
  obtain ⟨⟨flag, cleared, clearedMgr⟩, clearEq, putEq⟩ := rewriteEq
  rw [saveInnerInfoToFile, fileEq]
  simp only [streamEq, ok_bind, clearEq, samePut]
  simp only at putEq
  rw [putEq, ok_bind]

end SMDPageManagement

namespace Allocated

variable {mgr : SMDPageManagement Device} {pages : PageMap} {chains : PageKey_t → List Nat}

/-- `save` of the allocator keeps the pages of the segments apart. -/
theorem save (allocated : Allocated mgr pages chains)
    (short : mgr.tableBytes.length + 4 < 2147483648)
    (count : mgr.m_nPageCnt + 2 + mgr.tableBytes.length < 0xFFFFFFFF) :
    ∃ after later fresh, mgr.save = .ok (true, after) ∧
      Grown mgr after pages later (chains SMDPageManagement.pageTableKey) fresh ∧
      Stores after.device mgr.m_nPageSize later ∧
      Allocated after later (Function.update chains SMDPageManagement.pageTableKey
        (chains SMDPageManagement.pageTableKey ++ fresh)) := by
  obtain ⟨last, found⟩ := allocated.table
  obtain ⟨_, _, after, later, fresh, _, _, saved, grown, stores, _, _⟩ :=
    mgr.saveInnerInfoToFile_spec pages ⟨0, 0, 0, last⟩ (chains SMDPageManagement.pageTableKey)
      (allocated.serves _ _ found fun _ equal => by cases equal)
      (allocated.chainOf _ _ found) rfl short count
  exact ⟨after, later, fresh, saved, grown, stores,
    (allocated.grow found grown stores).1⟩

/-- A new page that is a segment of its own. -/
theorem create (allocated : Allocated mgr pages chains) {key : PageKey_t} {value : PageNo_t}
    {device : Device} {view : PageView} (fresh : mgr.m_PageInfo.find key = none)
    (rootEq : value.nRootPageNo = mgr.m_nPageCnt + 1)
    (lastEq : value.nLastPageNo = mgr.m_nPageCnt + 1)
    (countLt : mgr.m_nPageCnt + 1 < 0xFFFFFFFF) (ends : view.next = noNextPage)
    (stores : Stores device mgr.m_nPageSize (pages.put (mgr.m_nPageCnt + 1) view)) :
    Allocated { mgr with
        m_nPageCnt := mgr.m_nPageCnt + 1
        m_PageInfo := mgr.m_PageInfo.insert key value
        device := device }
      (pages.put (mgr.m_nPageCnt + 1) view)
      (Function.update chains key [mgr.m_nPageCnt + 1]) := by
  have findEq := PageInfo.find_insert key value fresh
  have old : ∀ other, other ≠ key → ((mgr.m_PageInfo.insert key value).find other).isSome →
      (mgr.m_PageInfo.find other).isSome := by
    intro other different known
    rwa [findEq, if_neg different] at known
  refine ⟨allocated.sizeLt, allocated.room, countLt, stores,
    PageInfo.distinct_insert key value allocated.distinct fresh, ?_, ?_, ?_, ?_⟩
  · intro other held known
    rw [findEq] at known
    by_cases same : other = key
    · rw [if_pos same] at known
      rw [same, Function.update_self, ← Option.some.inj known]
      refine ⟨by rw [rootEq]; rfl, by rw [lastEq]; rfl, ⟨view, PageMap.put_self .., ends⟩,
        List.pairwise_singleton _ _, fun pageno member => ?_⟩
      rw [List.mem_singleton.mp member]
    · rw [if_neg same] at known
      rw [Function.update_of_ne same]
      have chainOf := allocated.chainOf other held known
      refine chainOf.keep (fun pageno member => ?_) (Nat.le_succ _)
      have := chainOf.allocated pageno member
      exact PageMap.put_other _ _ _ _ (by omega)
  · intro one other oneKnown otherKnown pageno inOne inOther
    by_cases oneSame : one = key
    · by_cases otherSame : other = key
      · rw [oneSame, otherSame]
      · rw [oneSame, Function.update_self] at inOne
        rw [Function.update_of_ne otherSame] at inOther
        have := allocated.below (old other otherSame otherKnown) pageno inOther
        have := List.mem_singleton.mp inOne
        omega
    · rw [Function.update_of_ne oneSame] at inOne
      have oneOld := old one oneSame oneKnown
      by_cases otherSame : other = key
      · rw [otherSame, Function.update_self] at inOther
        have := allocated.below oneOld pageno inOne
        have := List.mem_singleton.mp inOther
        omega
      · rw [Function.update_of_ne otherSame] at inOther
        exact allocated.apart one other oneOld (old other otherSame otherKnown) pageno inOne inOther
  · intro pageno bound
    by_cases new : pageno = mgr.m_nPageCnt + 1
    · refine ⟨key, ?_, ?_⟩
      · show ((mgr.m_PageInfo.insert key value).find key).isSome = true
        rw [findEq, if_pos rfl]
        rfl
      · rw [Function.update_self, new]
        exact List.mem_singleton.mpr rfl
    · have bound' : pageno ≤ mgr.m_nPageCnt + 1 := bound
      obtain ⟨other, known, member⟩ := allocated.covered pageno (by omega)
      have different : other ≠ key := fun same => by
        rw [same, fresh] at known
        cases known
      refine ⟨other, ?_, ?_⟩
      · show ((mgr.m_PageInfo.insert key value).find other).isSome = true
        rw [findEq, if_neg different]
        exact known
      · rw [Function.update_of_ne different]
        exact member
  · obtain ⟨last, known⟩ := allocated.table
    refine ⟨last, ?_⟩
    show (mgr.m_PageInfo.insert key value).find SMDPageManagement.pageTableKey = _
    rw [findEq, if_neg (fun same => by rw [← same, known] at fresh; cases fresh), known]

end Allocated

/-! ### A new segment -/

namespace SMDPageManagement

/-- The allocator with one more segment in its table, whose root page is the next page. -/
def enrolled (mgr : SMDPageManagement Device) (key : PageKey_t) (minUnit : Nat) :
    SMDPageManagement Device :=
  { mgr with
    m_nPageCnt := mgr.m_nPageCnt + 1
    m_PageInfo := mgr.m_PageInfo.insert key
      ⟨0, minUnit, mgr.m_nPageCnt + 1, mgr.m_nPageCnt + 1⟩ }

/-- The table with the new entry is saved on the pages it has, while it fits on the last one. -/
theorem enrolled_saved (mgr : SMDPageManagement Device) (pages : PageMap)
    (chains : PageKey_t → List Nat) (key : PageKey_t) (unit last : Nat)
    (allocated : Allocated mgr pages chains) (fresh : mgr.m_PageInfo.find key = none)
    (table : mgr.m_PageInfo.find pageTableKey = some ⟨0, 0, 0, last⟩)
    (fits : (mgr.enrolled key unit).tableBytes.length + 4 ≤ mgr.m_nPageSize - bodyOffset last)
    (count : mgr.m_nPageCnt + 3 + (mgr.enrolled key unit).tableBytes.length < 0xFFFFFFFF) :
    ∃ device mid,
      (mgr.enrolled key unit).saveInnerInfoToFile =
        .ok (true, { mgr.enrolled key unit with device := device }) ∧
      Allocated { mgr with device := device } mid chains ∧
      (∀ pageno, pageno ∉ chains pageTableKey → mid pageno = pages pageno) ∧
      SavedIn mgr.device device (chains pageTableKey) := by
  let value : PageNo_t := ⟨0, 0, 0, last⟩
  have sizeLt := allocated.sizeLt
  have tableNe : pageTableKey ≠ key := fun same => by
    rw [← same, table] at fresh
    cases fresh
  have chainOf : ChainOf pages mgr.m_nPageCnt value (chains pageTableKey) :=
    allocated.chainOf _ _ table
  have enrolledTable : (mgr.enrolled key unit).m_PageInfo.find (tableFile value).key =
      some value := by
    show (mgr.m_PageInfo.insert key _).find pageTableKey = _
    rw [PageInfo.find_insert key _ fresh, if_neg tableNe, table]
  have serves : Serves (mgr.enrolled key unit) pages (tableFile value) value := by
    refine ⟨sizeLt, allocated.room, allocated.stores, (fun _ equal => by cases equal),
      enrolledTable, ?_, ?_⟩
    · intro entry member
      rcases (PageInfo.mem_insert _ _ _ _).mp member with equal | member
      · rw [equal]
        exact Nat.le_refl _
      · exact Nat.le_succ_of_le (allocated.registered entry member)
    · show mgr.m_nPageCnt + 1 < 0xFFFFFFFF
      omega
  obtain ⟨view, page, stored, mid, none', known, spaceEq, saved, grown, midStores, _, noFresh⟩ :=
    (mgr.enrolled key unit).saveInnerInfoToFile_spec pages value (chains pageTableKey) serves
      (chainOf.keep (fun _ _ => rfl) (Nat.le_succ _)) rfl (by omega) (by
        show mgr.m_nPageCnt + 1 + 2 + _ < _
        omega)
  have empty : none' = [] := noFresh (by
    rw [spaceEq]
    exact fits)
  subst empty
  have storedEq : stored = { mgr.enrolled key unit with device := stored.device } :=
    grown.eq_of_nil chainOf.last
  have others := grown.others
  have linked := grown.linked
  have saves := grown.saves
  rw [List.append_nil] at others linked saves
  refine ⟨stored.device, mid, by rw [← storedEq]; exact saved, ?_, others, saves⟩
  have rewritten := grown_of_rewrite allocated.countLt others linked saves
  have whole := (allocated.grow table rewritten midStores).1
  rwa [List.append_nil, Function.update_eq_self] at whole

/-- `createPageFile`, while the table fits on the last page of its segment. -/
theorem createPageFile_spec (mgr : SMDPageManagement Device) (pages : PageMap)
    (chains : PageKey_t → List Nat) (key : PageKey_t) (minUnit last : Nat)
    (allocated : Allocated mgr pages chains) (fresh : mgr.m_PageInfo.find key = none)
    (table : mgr.m_PageInfo.find pageTableKey = some ⟨0, 0, 0, last⟩)
    (fits : (mgr.enrolled key (max minUnit 4)).tableBytes.length + 4 ≤
      mgr.m_nPageSize - bodyOffset last)
    (count : mgr.m_nPageCnt + 3 + (mgr.enrolled key (max minUnit 4)).tableBytes.length <
      0xFFFFFFFF) :
    ∃ device later,
      mgr.createPageFile key.segType key.sTableName minUnit =
        .ok (some ⟨key.segType, key.sTableName, max minUnit 4, none⟩,
          { mgr.enrolled key (max minUnit 4) with device := device }) ∧
      Allocated { mgr.enrolled key (max minUnit 4) with device := device } later
        (Function.update chains key [mgr.m_nPageCnt + 1]) ∧
      (∀ pageno, pageno ∉ chains pageTableKey → pageno ≠ mgr.m_nPageCnt + 1 →
        later pageno = pages pageno) ∧
      later (mgr.m_nPageCnt + 1) = some (PageView.blank (mgr.m_nPageSize - 12)) ∧
      SavedIn mgr.device device (chains pageTableKey ++ [mgr.m_nPageCnt + 1]) := by
  generalize unitEq : max minUnit 4 = unit at fits count ⊢
  have sizeLt := allocated.sizeLt
  have room := allocated.room
  have findEq := PageInfo.find_insert key ⟨0, unit, mgr.m_nPageCnt + 1, mgr.m_nPageCnt + 1⟩ fresh
  obtain ⟨tableDevice, mid, saved, rewritten, others, saves⟩ :=
    mgr.enrolled_saved pages chains key unit last allocated fresh table fits count
  obtain ⟨blank, blankEq, formed, number, modified, blankView⟩ :=
    SMDPage.new_spec mgr.m_nPageSize (mgr.m_nPageCnt + 1) sizeLt
      (by rw [bodyOffset_pos _ (by omega)]; omega)
  rw [bodyOffset_pos _ (by omega)] at blankView
  have pending : Pending tableDevice mgr.m_nPageSize
      (mid.put (mgr.m_nPageCnt + 1) (PageView.blank (mgr.m_nPageSize - 12))) blank := by
    refine ⟨formed, by rw [number, blankView, PageMap.put_self], ?_, Or.inl modified⟩
    intro pageno held different heldEq
    rw [number] at different
    rw [PageMap.put_other _ _ _ _ different] at heldEq
    exact rewritten.stores pageno held heldEq
  obtain ⟨kept, device, keptEq, _, _, _, stores, blankSaves⟩ :=
    savePageToFile_spec { mgr.enrolled key unit with device := tableDevice } _ blank pending
  refine ⟨device, _, ?_, rewritten.create fresh rfl rfl (by
      show mgr.m_nPageCnt + 1 < _
      omega) rfl stores, ?_, PageMap.put_self ..,
    (saves.mono fun pageno member => List.mem_append_left _ member).trans
      (blankSaves.mono fun pageno member => List.mem_append_right _ ?_)⟩
  · have countEq : uint (↑mgr.m_nPageCnt + 1) = mgr.m_nPageCnt + 1 :=
      uint_of_lt (mgr.m_nPageCnt + 1) (by omega)
    have keyEq : (⟨key.segType, key.sTableName⟩ : PageKey_t) = key := rfl
    rw [createPageFile, keyEq, fresh]
    simp only [countEq, unitEq]
    rw [show ({ mgr with
        m_PageInfo := mgr.m_PageInfo.insert key
          ⟨0, unit, mgr.m_nPageCnt + 1, mgr.m_nPageCnt + 1⟩
        m_nPageCnt := mgr.m_nPageCnt + 1 } : SMDPageManagement Device) = mgr.enrolled key unit
        from rfl, saved, ok_bind]
    simp only [if_true]
    show (SMDPage.new mgr.m_nPageSize (mgr.m_nPageCnt + 1) >>= _) = _
    rw [blankEq, ok_bind]
    rw [keptEq, ok_bind]
    simp only [if_true, getPageFile, keyEq]
    rw [show ({ mgr.enrolled key unit with device := device } :
      SMDPageManagement Device).m_PageInfo.find key = _ from findEq key, if_pos rfl]
    rfl
  · intro pageno outside notNew
    rw [PageMap.put_other _ _ _ _ notNew]
    exact others pageno outside
  · rw [List.mem_singleton.mp member, number]
    exact List.mem_singleton.mpr rfl

end SMDPageManagement

end LevelDBLib.KvDB
