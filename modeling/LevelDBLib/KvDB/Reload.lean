/-
This file proves that the page table survives its file: the string that `save`
puts is read back field by field, and a new allocator that reads it knows the page
size, the page counter and the entries of the one that saved it.
-/

import LevelDBLib.KvDB.PageTable

namespace LevelDBLib.KvDB

open Buffers Tapes

variable {Device : Type} [CoherentDevice Device]

namespace PageInfo

/-! ### Entries read into a table -/

/-- `m_PageInfo[key] = value`. -/
def store (info : PageInfo) (entry : PageKey_t × PageNo_t) : PageInfo :=
  if (info.find entry.1).isSome then info.assign entry.1 entry.2 else info.insert entry.1 entry.2

theorem keys_assign (info : PageInfo) (key : PageKey_t) (value : PageNo_t) :
    (info.assign key value).map Prod.fst = info.map Prod.fst := by
  rw [assign, List.map_map]
  refine List.map_congr_left fun entry _ => ?_
  by_cases same : entry.1 = key
  · rw [Function.comp_apply, if_pos same, same]
  · rw [Function.comp_apply, if_neg same]

theorem assign_absent (info : PageInfo) (key : PageKey_t) (value : PageNo_t)
    (absent : info.find key = none) : info.assign key value = info := by
  induction info with
  | nil => rfl
  | cons entry rest inductionHypothesis =>
    obtain ⟨first, held⟩ := entry
    rw [find_cons] at absent
    by_cases here : key = first
    · rw [if_pos here] at absent
      cases absent
    · rw [if_neg here] at absent
      rw [assign, List.map_cons, ← assign, inductionHypothesis absent,
        if_neg fun equal => here equal.symm]

theorem find_assign (info : PageInfo) (key other : PageKey_t) (value : PageNo_t)
    (known : (info.find key).isSome) :
    (info.assign key value).find other = if other = key then some value else info.find other := by
  induction info with
  | nil => cases known
  | cons entry rest inductionHypothesis =>
    obtain ⟨first, held⟩ := entry
    rw [assign, List.map_cons, ← assign]
    by_cases here : first = key
    · rw [if_pos here, find_cons, find_cons, here]
      by_cases same : other = key
      · rw [if_pos same, if_pos same]
      · rw [if_neg same, if_neg same, if_neg same]
        by_cases more : (PageInfo.find rest key).isSome
        · rw [inductionHypothesis more, if_neg same]
        · rw [assign_absent rest key value (by simpa using more)]
    · rw [find_cons, if_neg fun equal => here equal.symm] at known
      rw [if_neg here, find_cons, find_cons, inductionHypothesis known]
      by_cases same : other = first
      · rw [if_pos same, if_pos same, if_neg (by rw [same]; exact here)]
      · rw [if_neg same, if_neg same]

theorem find_store {info : PageInfo} (distinct : info.Distinct) (entry : PageKey_t × PageNo_t)
    (other : PageKey_t) :
    (info.store entry).Distinct ∧
      (info.store entry).find other =
        if other = entry.1 then some entry.2 else info.find other := by
  rw [store]
  by_cases known : (info.find entry.1).isSome
  · rw [if_pos known]
    refine ⟨?_, find_assign info entry.1 other entry.2 known⟩
    rw [Distinct, keys_assign]
    exact distinct
  · rw [if_neg known]
    have fresh : info.find entry.1 = none := by simpa using known
    exact ⟨distinct_insert entry.1 entry.2 distinct fresh,
      find_insert entry.1 entry.2 fresh other⟩

/-- A table into which the entries of another one were read finds what that one finds. -/
theorem find_foldl_store (entries : PageInfo) :
    ∀ (info : PageInfo), info.Distinct → entries.Distinct → ∀ key,
      PageInfo.find (entries.foldl store info) key = (entries.find key).or (info.find key) := by
  induction entries with
  | nil =>
    intro info _ _ key
    exact Option.none_or.symm
  | cons entry rest inductionHypothesis =>
    intro info distinct entriesDistinct key
    obtain ⟨name, value⟩ := entry
    obtain ⟨notInRest, restDistinct⟩ := List.nodup_cons.mp entriesDistinct
    rw [List.foldl_cons, inductionHypothesis _ (find_store distinct (name, value) name).1
      restDistinct, (find_store distinct (name, value) key).2, find_cons]
    by_cases same : key = name
    · rw [if_pos same, if_pos same, Option.some_or]
      cases found : PageInfo.find rest key with
      | none => rw [Option.none_or]
      | some held =>
        refine absurd (List.mem_map.mpr ⟨(key, held), mem_of_find found, ?_⟩) notInRest
        exact same
    · rw [if_neg same, if_neg same]

end PageInfo

namespace SMDPageManagement

/-! ### The string read back -/

/-- An entry whose numbers survive the integer types of the file. -/
structure EntryInRange (entry : PageKey_t × PageNo_t) : Prop where
  name : entry.1.sTableName.length < 2147483648
  offset : entry.2.nOffset < 65536
  unit : entry.2.nMinUnit < 65536
  root : entry.2.nRootPageNo < 4294967296
  last : entry.2.nLastPageNo < 4294967296

theorem readPageInfo_holds (stream : SMDMemStream) (entry : PageKey_t × PageNo_t) (rest : Bytes)
    (range : EntryInRange entry) (holds : stream.Holds (entryBytes entry ++ rest)) :
    ∃ next, readPageInfo stream = .ok (some entry, next) ∧ next.Holds rest := by
  simp only [entryBytes, List.append_assoc] at holds
  obtain ⟨one, oneEq, oneHolds⟩ := stream.readBytes_holds [entry.1.segType.code] _ holds
  obtain ⟨two, twoEq, twoHolds⟩ := one.readString_holds _ _ range.name oneHolds
  obtain ⟨three, threeEq, threeHolds⟩ := two.readInt_holds _ _ twoHolds
  obtain ⟨four, fourEq, fourHolds⟩ := three.readShort_holds _ _ threeHolds
  obtain ⟨five, fiveEq, fiveHolds⟩ := four.readShort_holds _ _ fourHolds
  obtain ⟨last, lastEq, lastHolds⟩ := five.readInt_holds _ _ fiveHolds
  rw [List.length_singleton] at oneEq
  refine ⟨last, ?_, lastHolds⟩
  simp only [readPageInfo, oneEq, ok_bind, twoEq, threeEq, fourEq, fiveEq, lastEq, Option.map_some,
    BitVec.toNat_ofNat]
  rw [Nat.mod_eq_of_lt range.offset, Nat.mod_eq_of_lt range.unit, Nat.mod_eq_of_lt range.root,
    Nat.mod_eq_of_lt range.last]
  rw [show SegType.ofCode ([entry.1.segType.code].getD 0 0) = entry.1.segType from
    SegType.ofCode_code _]

theorem readPageInfos_holds (entries : PageInfo) :
    ∀ (stream : SMDMemStream) (info : PageInfo), (∀ entry ∈ entries, EntryInRange entry) →
      stream.Holds (entries.flatMap entryBytes) →
      readPageInfos entries.length stream info = .ok (true, entries.foldl PageInfo.store info) := by
  induction entries with
  | nil =>
    intro stream info _ _
    rfl
  | cons entry rest inductionHypothesis =>
    intro stream info range holds
    rw [List.flatMap_cons] at holds
    obtain ⟨next, readEq, nextHolds⟩ := readPageInfo_holds stream entry _
      (range entry List.mem_cons_self) holds
    rw [List.length_cons, readPageInfos, readEq, ok_bind]
    exact inductionHypothesis next _
      (fun other member => range other (List.mem_cons_of_mem _ member)) nextHolds

theorem length_le_flatMap_entryBytes (entries : PageInfo) :
    entries.length ≤ (entries.flatMap entryBytes).length := by
  induction entries with
  | nil => exact Nat.le_refl _
  | cons entry rest inductionHypothesis =>
    rw [List.flatMap_cons, List.length_append, length_entryBytes, List.length_cons]
    omega

omit [CoherentDevice Device] in
/-- An allocator that reads the string of another one, which kept no attributes. -/
theorem loadInnerInfo_spec (mgr saved : SMDPageManagement Device)
    (small : saved.tableBytes.length < 2147483648) (sizeLt : saved.m_nPageSize < 65536)
    (countLt : saved.m_nPageCnt < 4294967296) (attributes : saved.externAttributes = [])
    (range : ∀ entry ∈ saved.m_PageInfo, EntryInRange entry) :
    mgr.loadInnerInfo ⟨saved.tableBytes, 0⟩ = .ok (true, { mgr with
      m_nPageSize := saved.m_nPageSize
      m_nPageCnt := saved.m_nPageCnt
      m_PageInfo := saved.m_PageInfo.foldl PageInfo.store mgr.m_PageInfo }) := by
  have bytesEq : saved.tableBytes = [1, 0, 0, 0] ++
      (SMDValue.putShort (BitVec.ofNat 16 saved.m_nPageSize) ++
        (SMDValue.putInt (BitVec.ofNat 32 saved.m_nPageCnt) ++
          (SMDValue.putInt (BitVec.ofNat 32 saved.m_PageInfo.length) ++
            (SMDValue.putInt (BitVec.ofNat 32 0) ++ saved.m_PageInfo.flatMap entryBytes)))) := by
    simp only [tableBytes, attributeBytes, attributes, List.length_nil, List.flatMap_nil,
      List.append_nil, List.append_assoc]
  have entriesLt : saved.m_PageInfo.length < 2147483648 := by
    have := length_le_flatMap_entryBytes saved.m_PageInfo
    rw [bytesEq] at small
    simp only [List.length_append] at small
    omega
  have start : (⟨saved.tableBytes, 0⟩ : SMDMemStream).Holds ([1] ++ ([0, 0, 0] ++
      (saved.tableBytes.drop 4))) := by
    refine ⟨by simp only; omega, Nat.zero_le _, ?_⟩
    rw [List.drop_zero, bytesEq]
    rfl
  obtain ⟨marked, markEq, _⟩ := SMDMemStream.readBytes_holds _ [1] _ start
  rw [List.length_singleton] at markEq
  have dataEq : marked.data = saved.tableBytes := SMDMemStream.data_readBytes markEq
  have longEnough : ¬ marked.size < 4 := by
    rw [SMDMemStream.size, dataEq, uint_of_lt _ (by omega), bytesEq, List.length_append]
    exact Nat.not_lt.mpr (Nat.le_add_right 4 _)
  have moved : (marked.setPosition 4).2.Holds (saved.tableBytes.drop 4) := by
    rw [SMDMemStream.setPosition, if_neg longEnough]
    refine ⟨by rw [dataEq]; omega, ?_, by rw [dataEq]⟩
    rw [dataEq, bytesEq, List.length_append]
    exact Nat.le_add_right 4 _
  rw [bytesEq, List.drop_left' (by rfl)] at moved
  obtain ⟨one, oneEq, oneHolds⟩ := SMDMemStream.readShort_holds _ _ _ moved
  obtain ⟨two, twoEq, twoHolds⟩ := one.readInt_holds _ _ oneHolds
  obtain ⟨three, threeEq, threeHolds⟩ := two.readInt_holds _ _ twoHolds
  obtain ⟨four, fourEq, fourHolds⟩ := three.readInt_holds _ _ threeHolds
  have entries := readPageInfos_holds saved.m_PageInfo four mgr.m_PageInfo range fourHolds
  have countEq : (BitVec.ofNat 32 saved.m_PageInfo.length).toInt.toNat =
      saved.m_PageInfo.length := by
    have toNat : (BitVec.ofNat 32 saved.m_PageInfo.length).toNat = saved.m_PageInfo.length := by
      rw [BitVec.toNat_ofNat]
      omega
    rw [BitVec.toInt_eq_toNat_cond, toNat]
    split <;> omega
  simp only [loadInnerInfo, markEq, ok_bind, oneEq, twoEq, threeEq, fourEq, Option.getD_some,
    countEq, BitVec.toNat_ofNat]
  rw [show (BitVec.ofNat 32 0).toInt.toNat = 0 from rfl, readExternAttributes]
  simp only [ok_bind, entries, Nat.mod_eq_of_lt sizeLt, Nat.mod_eq_of_lt countLt]
  rfl

end SMDPageManagement

end LevelDBLib.KvDB
