/-
This file is about opening a file whose page table is damaged.

The string of the table announces how many attributes and how many segments
follow (`Encoded`). A string that holds all of them is loaded whole. From any
other one the loop of `getInnerInfoFromFile` keeps the segments that it read in
front of the damage and returns false; the constructor drops that result, and
`open` returns true.
-/

import LevelDBLib.KvDB.TableFile
import LevelDBLib.KvDB.Reload

namespace LevelDBLib.KvDB

open Buffers

/-! ### What a string of the page table encodes -/

namespace SMDPageManagement

/-- `externAttributes.insert`, which leaves a key that is there as it is. -/
def storeAttribute (attributes : List (Bytes × Bytes)) (pair : Bytes × Bytes) :
    List (Bytes × Bytes) :=
  if (List.lookup pair.1 attributes).isSome then attributes
  else List.orderedInsert (fun first second => first.1 < second.1) pair attributes

def pairBytes (pair : Bytes × Bytes) : Bytes :=
  SMDMemStream.stringBytes pair.1 ++ SMDMemStream.stringBytes pair.2

/-- The string announces these attributes and segments and holds all of them. -/
structure Encoded (data : Bytes) (pageSize : BitVec 16) (pageCnt : BitVec 32)
    (attributes : List (Bytes × Bytes)) (entries : PageInfo) : Prop where
  layout : ∃ (flag : UInt8) (reserved rest : Bytes) (size count : BitVec 32),
    flag ≠ 0 ∧ reserved.length = 3 ∧ size.toInt.toNat = entries.length ∧
      count.toInt.toNat = attributes.length ∧
      data = flag :: reserved ++ (SMDValue.putShort pageSize ++ (SMDValue.putInt pageCnt ++
        (SMDValue.putInt size ++ (SMDValue.putInt count ++
          (attributes.flatMap pairBytes ++ (entries.flatMap entryBytes ++ rest))))))
  pairs : ∀ pair ∈ attributes, pair.1.length < 2147483648 ∧ pair.2.length < 2147483648
  entries : ∀ entry ∈ entries, EntryInRange entry

/-- The string holds all that it announces. -/
def Complete (data : Bytes) : Prop :=
  ∃ pageSize pageCnt attributes entries, Encoded data pageSize pageCnt attributes entries

/-! ### A string that is whole -/

theorem readExternAttributes_holds (attributes : List (Bytes × Bytes)) :
    ∀ (stream : SMDMemStream) (held : List (Bytes × Bytes)) (rest : Bytes),
      (∀ pair ∈ attributes, pair.1.length < 2147483648 ∧ pair.2.length < 2147483648) →
      stream.Holds (attributes.flatMap pairBytes ++ rest) →
      ∃ next, readExternAttributes stream attributes.length held =
        .ok (attributes.foldl storeAttribute held, next) ∧ next.Holds rest := by
  induction attributes with
  | nil => exact fun stream held rest _ holds => ⟨stream, rfl, holds⟩
  | cons pair others inductionHypothesis =>
    intro stream held rest range holds
    obtain ⟨shortKey, shortVal⟩ := range pair List.mem_cons_self
    rw [List.flatMap_cons, pairBytes, List.append_assoc, List.append_assoc] at holds
    obtain ⟨middle, keyEq, middleHolds⟩ := readStr_holds stream _ _ shortKey holds
    obtain ⟨behind, valEq, behindHolds⟩ := readStr_holds middle _ _ shortVal middleHolds
    obtain ⟨next, readEq, nextHolds⟩ := inductionHypothesis behind (storeAttribute held pair) rest
      (fun other member => range other (List.mem_cons_of_mem _ member)) behindHolds
    refine ⟨next, ?_, nextHolds⟩
    simp only [List.length_cons, readExternAttributes, keyEq, ok_bind, valEq]
    exact readEq

theorem readPageInfos_encoded (entries : PageInfo) :
    ∀ (stream : SMDMemStream) (info : PageInfo) (rest : Bytes),
      (∀ entry ∈ entries, EntryInRange entry) →
      stream.Holds (entries.flatMap entryBytes ++ rest) →
      readPageInfos entries.length stream info = .ok (true, entries.foldl PageInfo.store info) := by
  induction entries with
  | nil =>
    intro stream info rest _ _
    rfl
  | cons entry others inductionHypothesis =>
    intro stream info rest range holds
    rw [List.flatMap_cons, List.append_assoc] at holds
    obtain ⟨next, readEq, nextHolds⟩ := readPageInfo_holds stream entry _
      (range entry List.mem_cons_self) holds
    rw [List.length_cons, readPageInfos, readEq, ok_bind]
    exact inductionHypothesis next _ rest
      (fun other member => range other (List.mem_cons_of_mem _ member)) nextHolds

variable {Device : Type}

/-- A string that holds all that it announces is loaded whole. -/
theorem loadInnerInfo_encoded (mgr : SMDPageManagement Device) {data : Bytes}
    {pageSize : BitVec 16} {pageCnt : BitVec 32} {attributes : List (Bytes × Bytes)}
    {entries : PageInfo} (small : data.length < 4294967296)
    (encoded : Encoded data pageSize pageCnt attributes entries) :
    mgr.loadInnerInfo ⟨data, 0⟩ = .ok (true, { mgr with
      m_nPageSize := pageSize.toNat
      m_nPageCnt := pageCnt.toNat
      m_PageInfo := entries.foldl PageInfo.store mgr.m_PageInfo
      externAttributes := attributes.foldl storeAttribute mgr.externAttributes }) := by
  obtain ⟨⟨flag, reserved, rest, size, count, marked, three, sizeEq, countEq, dataEq⟩, pairs,
    ranges⟩ := encoded
  have whole : (⟨data, 0⟩ : SMDMemStream).Holds ([flag] ++ data.drop 1) := by
    refine ⟨small, Nat.zero_le _, ?_⟩
    rw [List.drop_zero, dataEq]
    rfl
  obtain ⟨first, firstEq, _⟩ := SMDMemStream.readBytes_holds _ [flag] _ whole
  rw [List.length_singleton] at firstEq
  have same : first.data = data := SMDMemStream.data_readBytes firstEq
  have front : (flag :: reserved).length = 4 := by rw [List.length_cons, three]
  have enough : 4 ≤ data.length := by
    rw [dataEq, List.length_append, front]
    exact Nat.le_add_right 4 _
  have moved : (first.setPosition 4).2.Holds (data.drop 4) := by
    have longEnough : ¬ first.size < 4 := by
      rw [SMDMemStream.size, same, uint_of_lt _ small]
      exact Nat.not_lt.mpr enough
    rw [SMDMemStream.setPosition, if_neg longEnough]
    exact ⟨by rw [same]; exact small, by rw [same]; exact enough, by rw [same]⟩
  rw [dataEq, List.drop_left' front] at moved
  obtain ⟨one, oneEq, oneHolds⟩ := SMDMemStream.readShort_holds _ _ _ moved
  obtain ⟨two, twoEq, twoHolds⟩ := one.readInt_holds _ _ oneHolds
  obtain ⟨four, threeEq, threeHolds⟩ := two.readInt_holds _ _ twoHolds
  obtain ⟨five, fourEq, fourHolds⟩ := four.readInt_holds _ _ threeHolds
  obtain ⟨six, attributesEq, attributesHold⟩ := readExternAttributes_holds attributes five
    mgr.externAttributes _ pairs fourHolds
  have infos := readPageInfos_encoded entries six mgr.m_PageInfo rest ranges attributesHold
  have nonzero : ¬ [flag] = [0] := fun equal => marked (List.singleton_inj.mp equal)
  simp only [loadInnerInfo, firstEq, ok_bind, if_neg nonzero, oneEq, twoEq, threeEq, fourEq,
    Option.getD_some, countEq, sizeEq, attributesEq, infos]

/-- The constructor reads the page table from the segment that it finds. -/
theorem getInnerInfoFromFile_found [PageDevice Device] {mgr after : SMDPageManagement Device}
    {file filed : SMDPageFile} {stream : SMDMemStream}
    (found : getPageFile { mgr with m_PageInfo := [(pageTableKey, ⟨0, 0, 0, 0⟩)] }
      .SEG_TYPE_PAGEMGR PAGE_MANAGEMENT_NAME = some file)
    (got : file.get { mgr with m_PageInfo := [(pageTableKey, ⟨0, 0, 0, 0⟩)] } (SMDMemStream.new 0)
      (-1) = .ok (true, stream, filed, after)) :
    getInnerInfoFromFile mgr true = after.loadInnerInfo stream := by
  simp only [getInnerInfoFromFile, if_true, found, got, ok_bind]

end SMDPageManagement

/-! ### Opening the file -/

namespace SMDTable

open SMDPageManagement

/-- The allocator of a table that is being opened, before it reads its page table. -/
def unread (file : FILE) (offset : Int32) (pageSize : Nat) (cache : CDevCache) :
    SMDPageManagement TableFile where
  m_PageInfo := [(pageTableKey, ⟨0, 0, 0, 0⟩)]
  m_nPageSize := pageSize
  m_nPageCnt := 0
  externAttributes := []
  device := ⟨file, offset, cache⟩

/-- The segment object that reads the page table. -/
def tableSegment : SMDPageFile := ⟨.SEG_TYPE_PAGEMGR, PAGE_MANAGEMENT_NAME, 0, none⟩

/-- What `open` returns for a string of the page table: nothing, or the allocator as it was where
the string holds no table, or with all that the string encodes. -/
def LoadsWhole (data : Bytes) (before : SMDPageManagement TableFile) :
    Option (SMDPageManagement TableFile) → Prop
  | none => True
  | some mgr => (data = [] ∨ data.head? = some 0) ∧ mgr = before ∨
      ∃ pageSize pageCnt attributes entries,
        Encoded data pageSize pageCnt attributes entries ∧
          mgr.m_nPageSize = pageSize.toNat ∧ mgr.m_nPageCnt = pageCnt.toNat ∧
          mgr.externAttributes = attributes.foldl storeAttribute before.externAttributes ∧
          mgr.m_PageInfo = entries.foldl PageInfo.store before.m_PageInfo

variable {newMemory : Nat → Nat → UInt8} {file rest : FILE} {offset : Int32} {pageSize : Nat}
  {cache : CDevCache} {data : Bytes} {filed : SMDPageFile} {before : SMDPageManagement TableFile}

/-- `open` of a file with its flag is what the reader of the page table makes of the string,
whatever the reader returns. -/
theorem open_eq (flag : (checkFlag file offset).1 = true)
    (cached : CDevCache.init newMemory pageSize CDevCache.DEFAULT_NUM (checkFlag file offset).2 =
      .ok (rest, cache))
    (got : tableSegment.get (unread rest offset pageSize cache) (SMDMemStream.new 0) (-1) =
      .ok (true, ⟨data, 0⟩, filed, before)) :
    open' newMemory file offset pageSize true =
      (before.loadInnerInfo ⟨data, 0⟩).map fun loaded => some loaded.2 := by
  have found : (unread rest offset pageSize cache).getPageFile .SEG_TYPE_PAGEMGR
      PAGE_MANAGEMENT_NAME = some tableSegment := by
    rw [getPageFile, unread, PageInfo.find_cons]
    exact congrArg _ (if_pos rfl)
  have read : getInnerInfoFromFile { unread rest offset pageSize cache with m_PageInfo := [] } true =
      before.loadInnerInfo ⟨data, 0⟩ := getInnerInfoFromFile_found found got
  have made : newPageMgr newMemory (checkFlag file offset).2 offset pageSize true =
      (before.loadInnerInfo ⟨data, 0⟩).map Prod.snd := by
    rw [newPageMgr, cached, ok_bind]
    change (getInnerInfoFromFile { unread rest offset pageSize cache with m_PageInfo := [] } true >>=
      fun loaded => .ok loaded.2) = _
    rw [read]
    cases before.loadInnerInfo ⟨data, 0⟩ with
    | error fault => rfl
    | ok loaded => rfl
  rw [open', if_pos rfl]
  dsimp only
  rw [if_pos flag, made]
  cases before.loadInnerInfo ⟨data, 0⟩ with
  | error fault => rfl
  | ok loaded => rfl

/-- Opening a file with its flag loads the page table whole exactly when its string holds no table
or all that it announces; `open` never returns false for it. -/
theorem open_loads_whole_iff (flag : (checkFlag file offset).1 = true)
    (cached : CDevCache.init newMemory pageSize CDevCache.DEFAULT_NUM (checkFlag file offset).2 =
      .ok (rest, cache))
    (got : tableSegment.get (unread rest offset pageSize cache) (SMDMemStream.new 0) (-1) =
      .ok (true, ⟨data, 0⟩, filed, before)) (small : data.length < 4294967296) :
    (∃ opened, open' newMemory file offset pageSize true = .ok opened ∧
      LoadsWhole data before opened) ↔
      data = [] ∨ data.head? = some 0 ∨ Complete data := by
  rw [open_eq flag cached got]
  constructor
  · rintro ⟨opened, equal, loads⟩
    cases result : before.loadInnerInfo ⟨data, 0⟩ with
    | error fault =>
      rw [result] at equal
      cases equal
    | ok loaded =>
      rw [result] at equal
      cases equal
      rcases loads with ⟨nothing | zero, _⟩ | ⟨pageSize, pageCnt, attributes, entries, encoded, _⟩
      · exact Or.inl nothing
      · exact Or.inr (Or.inl zero)
      · exact Or.inr (Or.inr ⟨pageSize, pageCnt, attributes, entries, encoded⟩)
  · rintro (rfl | zero | ⟨pageSize, pageCnt, attributes, entries, encoded⟩)
    · exact ⟨some before, rfl, Or.inl ⟨Or.inl rfl, rfl⟩⟩
    · refine ⟨some before, ?_, Or.inl ⟨Or.inr zero, rfl⟩⟩
      obtain ⟨tail, rfl⟩ := List.head?_eq_some_iff.mp zero
      have whole : (⟨0 :: tail, 0⟩ : SMDMemStream).Holds ([0] ++ tail) := ⟨small, Nat.zero_le _, rfl⟩
      obtain ⟨next, readEq, _⟩ := SMDMemStream.readBytes_holds _ [0] _ whole
      rw [List.length_singleton] at readEq
      simp only [loadInnerInfo, readEq, ok_bind, if_true]
      rfl
    · rw [loadInnerInfo_encoded before small encoded]
      exact ⟨_, rfl, Or.inr ⟨pageSize, pageCnt, attributes, entries, encoded, rfl, rfl, rfl, rfl⟩⟩

/-- A string of the page table that announces `count` segments and holds the table's own entry. -/
def announcing (count : Nat) : Bytes :=
  [1, 0, 0, 0] ++ (SMDValue.putShort 96 ++ (SMDValue.putInt 1 ++
    (SMDValue.putInt (BitVec.ofNat 32 count) ++ (SMDValue.putInt 0 ++
      entryBytes (pageTableKey, ⟨0, 0, 0, 0⟩)))))

/-- A file of one page whose page table is this string. -/
def fileOf (table : Bytes) : Except Fault FILE := do
  let page ← SMDPage.new 96 0
  let page ← page.write (SMDPageFile.lengthHeader table.length)
  let page ← page.write table
  let page ← page.push
  .ok ⟨page.data, 0⟩

/-- The string of the page table in a file, and whether the file can be opened. -/
def readsTable (file : FILE) : Except Fault (Bool × Bool × SMDMemStream × Bool) := do
  let start ← CDevCache.init (fun _ _ => 0) 96 CDevCache.DEFAULT_NUM (checkFlag file 0).2
  let result ← tableSegment.get (unread start.1 0 96 start.2) (SMDMemStream.new 0) (-1)
  let opened ← open' (fun _ _ => 0) file 0 96 true
  .ok ((checkFlag file 0).1, result.1, result.2.1, opened.isSome)

theorem opens_of_readsTable {table : Bytes}
    (evaluated : (fileOf table >>= readsTable) = .ok (true, true, ⟨table, 0⟩, true)) :
    ∃ file rest cache filed before mgr, (checkFlag file 0).1 = true ∧
      CDevCache.init (fun _ _ => 0) 96 CDevCache.DEFAULT_NUM (checkFlag file 0).2 =
        .ok (rest, cache) ∧
      tableSegment.get (unread rest 0 96 cache) (SMDMemStream.new 0) (-1) =
        .ok (true, ⟨table, 0⟩, filed, before) ∧
      open' (fun _ _ => 0) file 0 96 true = .ok (some mgr) := by
  simp only [readsTable, bind_eq_ok] at evaluated
  obtain ⟨file, _, ⟨rest, cache⟩, cached, ⟨found, stream, filed, before⟩, got, opened, openEq,
    equal⟩ := evaluated
  have observed := Except.ok.inj equal
  simp only [Prod.mk.injEq] at observed
  obtain ⟨flag, rfl, rfl, succeeds⟩ := observed
  obtain ⟨mgr, rfl⟩ := Option.isSome_iff_exists.mp succeeds
  exact ⟨file, rest, cache, filed, before, mgr, flag, cached, got, openEq⟩

theorem open_loads_whole_iff_once : ∃ file before opened,
    open' (fun _ _ => 0) file 0 96 true = .ok opened ∧ LoadsWhole (announcing 1) before opened := by
  obtain ⟨file, rest, cache, filed, before, _, flag, cached, got, _⟩ :=
    @opens_of_readsTable (announcing 1) (by decide +kernel)
  have complete : Complete (announcing 1) := by
    refine ⟨96, 1, [], [(pageTableKey, ⟨0, 0, 0, 0⟩)], ⟨1, [0, 0, 0], [], 1, 0, by decide, rfl, rfl,
      rfl, by decide⟩, by simp, fun entry member => ?_⟩
    rw [List.mem_singleton.mp member]
    exact ⟨by decide, by decide, by decide, by decide, by decide⟩
  obtain ⟨opened, equal, loads⟩ := (open_loads_whole_iff flag cached got (by decide)).mpr
    (Or.inr (Or.inr complete))
  exact ⟨file, before, opened, equal, loads⟩

/-- A table that announces two segments and breaks off behind the first: `open` succeeds and knows
one segment. -/
theorem open_loads_half : ∃ file rest cache filed before mgr, (checkFlag file 0).1 = true ∧
    CDevCache.init (fun _ _ => 0) 96 CDevCache.DEFAULT_NUM (checkFlag file 0).2 =
      .ok (rest, cache) ∧
    tableSegment.get (unread rest 0 96 cache) (SMDMemStream.new 0) (-1) =
      .ok (true, ⟨announcing 2, 0⟩, filed, before) ∧
    open' (fun _ _ => 0) file 0 96 true = .ok (some mgr) ∧
    ¬ LoadsWhole (announcing 2) before (some mgr) := by
  obtain ⟨file, rest, cache, filed, before, mgr, flag, cached, got, opened⟩ :=
    @opens_of_readsTable (announcing 2) (by decide +kernel)
  refine ⟨file, rest, cache, filed, before, mgr, flag, cached, got, opened, ?_⟩
  rintro (⟨nothing | zero, _⟩ | ⟨pageSize, pageCnt, attributes, entries, encoded, _⟩)
  · cases nothing
  · cases zero
  · have loaded := loadInnerInfo_encoded (⟨[], 96, 0, [], ()⟩ : SMDPageManagement Unit) (by decide)
      encoded
    have breaksOff : (loadInnerInfo (⟨[], 96, 0, [], ()⟩ : SMDPageManagement Unit)
        ⟨announcing 2, 0⟩).map Prod.fst = .ok false := by decide +kernel
    rw [loaded] at breaksOff
    cases breaksOff

end SMDTable

end LevelDBLib.KvDB
