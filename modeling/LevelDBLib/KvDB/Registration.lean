/-
This file proves what every call of the allocator keeps of the page table,
whatever the file under it does: the segments that are registered and their
minimal units. Reading and writing only ever move last pages; a new segment adds
its own entry.
-/

import LevelDBLib.Library.Agreements
import LevelDBLib.KvDB.PageInfo
import LevelDBLib.KvDB.Segments

namespace LevelDBLib.KvDB

open Agreements Runs

/-! ### Units -/

namespace PageInfo

/-- The minimal unit with which a segment is registered. -/
def unitOf (info : PageInfo) (key : PageKey_t) : Option Nat :=
  (info.find key).map PageNo_t.nMinUnit

theorem isSome_unitOf (info : PageInfo) (key : PageKey_t) :
    (info.unitOf key).isSome = (info.find key).isSome :=
  Option.isSome_map

theorem unitOf_incLastPageNoIn (info : PageInfo) (first last : Nat) :
    PageInfo.unitOf (SMDPageManagement.incLastPageNoIn info first last) = info.unitOf := by
  funext key
  induction info with
  | nil => rfl
  | cons entry rest hypothesis =>
    obtain ⟨other, value⟩ := entry
    unfold unitOf at hypothesis ⊢
    rw [SMDPageManagement.incLastPageNoIn]
    by_cases ends : value.nLastPageNo = first
    · rw [if_pos ends, find_cons, find_cons]
      by_cases same : key = other
      · rw [if_pos same, if_pos same]
        rfl
      · rw [if_neg same, if_neg same]
    · rw [if_neg ends, find_cons, find_cons]
      by_cases same : key = other
      · rw [if_pos same, if_pos same]
      · rw [if_neg same, if_neg same]
        exact hypothesis

end PageInfo

variable {Device : Type}

/-- The result comes with an allocator that has the segments and the units of the first one. -/
def KeepsUnits {Value Object : Type} (mgr : SMDPageManagement Device)
    (result : Value × Object × SMDPageManagement Device) : Prop :=
  result.2.2.m_PageInfo.unitOf = mgr.m_PageInfo.unitOf

theorem KeepsUnits.trans {Value Object More Other : Type} {mgr : SMDPageManagement Device}
    {first : Value × Object × SMDPageManagement Device}
    {second : More × Other × SMDPageManagement Device} (one : KeepsUnits mgr first)
    (two : KeepsUnits first.2.2 second) : KeepsUnits mgr second :=
  Eq.trans two one

/-! ### Segment objects -/

namespace Segments

/-- Every segment object has the unit with which its segment is registered. -/
def Matched (state : Segments Device) : Prop :=
  ∀ key file, state.files key = some file →
    file.key = key ∧ state.mgr.m_PageInfo.unitOf key = some file.minUint

/-- The segment objects match the page table, and no segment went missing from it. -/
def StaysMatched (state after : Segments Device) : Prop :=
  Matched after ∧ ∀ key, (state.mgr.m_PageInfo.find key).isSome →
    (after.mgr.m_PageInfo.find key).isSome

theorem stays_of_unitOf {mgr after : SMDPageManagement Device}
    (kept : after.m_PageInfo.unitOf = mgr.m_PageInfo.unitOf) (key : PageKey_t)
    (known : (mgr.m_PageInfo.find key).isSome) : (after.m_PageInfo.find key).isSome := by
  rw [← PageInfo.isSome_unitOf] at known ⊢
  rw [kept]
  exact known

variable {state : Segments Device}

theorem Matched.refl (matched : state.Matched) : state.StaysMatched state :=
  ⟨matched, fun _ known => known⟩

/-- A call through the segment object of `key` that keeps the units. -/
theorem Matched.after (matched : state.Matched) {key : PageKey_t} {file changed : SMDPageFile}
    (opened : state.files key = some file) {mgr : SMDPageManagement Device}
    (kept : mgr.m_PageInfo.unitOf = state.mgr.m_PageInfo.unitOf)
    (unit : changed.minUint = file.minUint) (named : changed.key = file.key) :
    state.StaysMatched (state.after key changed mgr) := by
  obtain ⟨keyEq, unitEq⟩ := matched key file opened
  refine ⟨fun other held equal => ?_, stays_of_unitOf kept⟩
  rw [after_mgr, kept]
  by_cases same : other = key
  · rw [same, after_files_self] at equal
    cases equal
    rw [same, named, keyEq, unitEq, unit]
    exact ⟨rfl, rfl⟩
  · rw [after_files_other _ _ _ _ _ same] at equal
    exact matched other held equal

end Segments

variable [PageDevice Device]

/-! ### Pages -/

namespace SMDPageManagement

theorem getPageByPageNo_units (mgr : SMDPageManagement Device) (page : Option SMDPage)
    (pageno : Nat) : Returns (KeepsUnits mgr) (mgr.getPageByPageNo page pageno) := by
  unfold getPageByPageNo
  refine Returns.bind (Returns.any _) fun held _ => ?_
  refine Returns.ite (fun _ => Returns.ok rfl) fun _ => ?_
  refine Returns.bind (Returns.any _) fun blank _ => ?_
  refine Returns.bind (Returns.any _) fun ⟨data, device⟩ _ => ?_
  cases data with
  | none => exact Returns.ok rfl
  | some bytes =>
    refine Returns.bind (Returns.any _) fun source _ => ?_
    refine Returns.bind (Returns.any _) fun copied _ => ?_
    refine Returns.bind (Returns.any _) fun loaded _ => ?_
    exact Returns.ok rfl

theorem savePageToFile_units (mgr : SMDPageManagement Device) (page : SMDPage) :
    Returns (KeepsUnits mgr) (mgr.savePageToFile page) := by
  unfold savePageToFile
  refine Returns.ite (fun _ => ?_) fun _ => Returns.ok rfl
  refine Returns.bind (Returns.any _) fun pushed _ => ?_
  refine Returns.bind (Returns.any _) fun buffer _ => ?_
  refine Returns.bind (Returns.any _) fun saved _ => ?_
  exact Returns.ok rfl

theorem appendPage_units (mgr : SMDPageManagement Device) (page : SMDPage) :
    Returns (KeepsUnits mgr) (mgr.appendPage page) := by
  unfold appendPage
  refine Returns.bind (savePageToFile_units { mgr with m_nPageCnt := uint (mgr.m_nPageCnt + 1) }
    (page.setNextPageNo _)) fun ⟨linked, held, after⟩ kept => ?_
  refine Returns.ite (fun _ => ?_) fun _ => Returns.ok kept
  refine Returns.bind (Returns.any _) fun blank _ => ?_
  refine (savePageToFile_units _ blank).mono fun result keptAfter => ?_
  exact Eq.trans keptAfter ((PageInfo.unitOf_incLastPageNoIn _ _ _).trans kept)

theorem getNextPage_units (mgr : SMDPageManagement Device) (page : Option SMDPage)
    (pageno : Nat) : Returns (KeepsUnits mgr) (mgr.getNextPage page pageno) := by
  unfold getNextPage
  refine Returns.bind (Returns.any _) fun held _ => ?_
  refine Returns.bind (mgr.getPageByPageNo_units (some held) pageno)
    fun ⟨loaded, page, after⟩ kept => ?_
  refine Returns.ite (fun _ => ?_) fun _ => Returns.ok kept
  refine Returns.ite (fun _ => ?_) fun _ => ?_
  · exact (appendPage_units after page).mono fun _ keptAfter => kept.trans keptAfter
  · exact (getPageByPageNo_units after (some page) _).mono fun _ keptAfter => kept.trans keptAfter

end SMDPageManagement

/-! ### Segments -/

namespace SMDPageFile

theorem turnPage_units (mgr : SMDPageManagement Device) (page : SMDPage) :
    Returns (fun result => result.2.m_PageInfo.unitOf = mgr.m_PageInfo.unitOf)
      (turnPage mgr page) := by
  unfold turnPage
  refine Returns.bind (mgr.savePageToFile_units page) fun ⟨_, saved, after⟩ kept => ?_
  refine Returns.bind (after.getNextPage_units (some saved) _) fun ⟨_, next, last⟩ keptAfter => ?_
  exact Returns.ok (kept.trans keptAfter)

theorem putLoop_units (minUint : Nat) (sSize : Int) (fuel : Nat) (bytes : Bytes) (flag : Bool)
    (offset : Int) (page : SMDPage) (mgr : SMDPageManagement Device) :
    Returns (KeepsUnits mgr) (putLoop minUint sSize fuel bytes flag offset page mgr) := by
  induction fuel generalizing bytes flag offset page mgr with
  | zero =>
    cases bytes with
    | nil => exact Returns.ok rfl
    | cons byte rest => exact Returns.error _
  | succ fuel hypothesis =>
    cases bytes with
    | nil => exact Returns.ok rfl
    | cons byte rest =>
      unfold putLoop
      refine Returns.ite (fun _ => ?_) fun _ => ?_
      · refine Returns.bind (turnPage_units mgr page) fun ⟨next, after⟩ kept => ?_
        refine Returns.bind (Returns.any _) fun headed _ => ?_
        exact (hypothesis _ _ _ _ after).mono fun _ keptAfter => Eq.trans keptAfter kept
      · refine Returns.bind (Returns.any _) fun headed _ => ?_
        refine Returns.bind (Returns.any _) fun written _ => ?_
        dsimp only
        split
        · exact Returns.ok rfl
        · refine Returns.bind (turnPage_units mgr _) fun ⟨next, after⟩ kept => ?_
          exact (hypothesis _ _ _ _ after).mono fun _ keptAfter => Eq.trans keptAfter kept

theorem put_units (file : SMDPageFile) (mgr : SMDPageManagement Device) (stream : SMDMemStream) :
    Returns (fun result => KeepsUnits mgr result ∧ result.2.1.minUint = file.minUint ∧
      result.2.1.key = file.key) (file.put mgr stream) := by
  unfold put
  refine Returns.ite (fun _ => Returns.ok ⟨rfl, rfl, rfl⟩) fun _ => ?_
  refine Returns.bind (mgr.getPageByPageNo_units _ _) fun ⟨loaded, page, after⟩ kept => ?_
  refine Returns.ite (fun _ => ?_) fun _ => Returns.ok ⟨kept, rfl, rfl⟩
  refine Returns.ite (fun _ => ?_) fun _ => ?_
  · refine Returns.bind (Returns.any _) fun headed _ => ?_
    refine Returns.bind (Returns.any _) fun written _ => ?_
    refine Returns.bind (after.savePageToFile_units written) fun ⟨_, _, _⟩ keptAfter => ?_
    exact Returns.ok ⟨Eq.trans keptAfter kept, rfl, rfl⟩
  · refine Returns.bind (putLoop_units _ _ _ _ _ _ page after) fun ⟨_, last, more⟩ keptMore => ?_
    refine Returns.bind (more.savePageToFile_units last) fun ⟨_, _, _⟩ keptAfter => ?_
    exact Returns.ok ⟨Eq.trans keptAfter (kept.trans keptMore), rfl, rfl⟩

theorem putAtLoop_units (fuel : Nat) (bytes : Bytes) (offset : Int) (page : SMDPage)
    (mgr : SMDPageManagement Device) :
    Returns (fun result => result.2.m_PageInfo.unitOf = mgr.m_PageInfo.unitOf)
      (putAtLoop fuel bytes offset page mgr) := by
  induction fuel generalizing bytes offset page mgr with
  | zero =>
    cases bytes with
    | nil => exact Returns.ok rfl
    | cons byte rest => exact Returns.error _
  | succ fuel hypothesis =>
    cases bytes with
    | nil => exact Returns.ok rfl
    | cons byte rest =>
      unfold putAtLoop
      refine Returns.bind (Returns.any _) fun written _ => ?_
      dsimp only
      split
      · exact Returns.ok rfl
      · refine Returns.bind (turnPage_units mgr _) fun ⟨next, after⟩ kept => ?_
        exact (hypothesis _ _ _ after).mono fun _ keptAfter => Eq.trans keptAfter kept

theorem putAt_units (file : SMDPageFile) (mgr : SMDPageManagement Device)
    (stream : SMDMemStream) (offset : Int) :
    Returns (fun result => KeepsUnits mgr result ∧ result.2.1.minUint = file.minUint ∧
      result.2.1.key = file.key) (file.putAt mgr stream offset) := by
  unfold putAt
  refine Returns.ite (fun _ => Returns.ok ⟨rfl, rfl, rfl⟩) fun _ => ?_
  refine Returns.bind (mgr.getPageByPageNo_units _ _) fun ⟨loaded, page, after⟩ kept => ?_
  refine Returns.ite (fun _ => ?_) fun _ => Returns.ok ⟨kept, rfl, rfl⟩
  refine Returns.ite (fun _ => ?_) fun _ => ?_
  · refine Returns.bind (Returns.any _) fun headed _ => ?_
    refine Returns.bind (putAtLoop_units _ _ _ headed after) fun ⟨last, more⟩ keptMore => ?_
    refine Returns.bind (more.savePageToFile_units last) fun ⟨_, _, _⟩ keptAfter => ?_
    exact Returns.ok ⟨Eq.trans keptAfter (Eq.trans keptMore kept), rfl, rfl⟩
  · refine Returns.bind (after.savePageToFile_units page) fun ⟨_, _, _⟩ keptAfter => ?_
    exact Returns.ok ⟨kept.trans keptAfter, rfl, rfl⟩

theorem getStart_units (file : SMDPageFile) (mgr : SMDPageManagement Device) (offset : Int) :
    Returns (KeepsUnits mgr) (file.getStart mgr offset) := by
  unfold getStart
  refine Returns.ite (fun _ => ?_) fun _ => ?_
  · refine Returns.bind (mgr.getPageByPageNo_units _ _) fun ⟨_, page, after⟩ kept => ?_
    exact Returns.ok kept
  · refine Returns.bind (mgr.getPageByPageNo_units _ _) fun ⟨_, page, after⟩ kept => ?_
    exact Returns.ok kept

theorem getSkip_units (minUint offset : Nat) (page : SMDPage) (mgr : SMDPageManagement Device) :
    Returns (KeepsUnits mgr) (getSkip minUint offset page mgr) := by
  unfold getSkip
  refine Returns.ite (fun _ => ?_) fun _ => Returns.ok rfl
  refine Returns.bind (mgr.getNextPage_units _ _) fun ⟨_, next, after⟩ kept => ?_
  exact Returns.ok kept

theorem getLoop_units (nSize fuel offset i : Nat) (stream : SMDMemStream) (page : SMDPage)
    (mgr : SMDPageManagement Device) :
    Returns (KeepsUnits mgr) (getLoop nSize fuel offset i stream page mgr) := by
  induction fuel generalizing offset i stream page mgr with
  | zero =>
    unfold getLoop
    exact Returns.ite (fun _ => Returns.ok rfl) fun _ => Returns.error _
  | succ fuel hypothesis =>
    unfold getLoop
    refine Returns.ite (fun _ => Returns.ok rfl) fun _ => ?_
    refine Returns.bind (Returns.any _) fun bytes _ => ?_
    refine Returns.bind (Returns.any _) fun data _ => ?_
    refine Returns.ite (fun _ => Returns.ok rfl) fun _ => ?_
    refine Returns.bind (mgr.getNextPage_units _ _) fun ⟨_, next, after⟩ kept => ?_
    exact (hypothesis _ _ _ next after).mono fun _ keptAfter => kept.trans keptAfter

theorem get_units (file : SMDPageFile) (mgr : SMDPageManagement Device) (stream : SMDMemStream)
    (offset : Int) :
    Returns (fun result => result.2.2.2.m_PageInfo.unitOf = mgr.m_PageInfo.unitOf ∧
      result.2.2.1.minUint = file.minUint ∧ result.2.2.1.key = file.key)
      (file.get mgr stream offset) := by
  unfold get
  refine Returns.bind (file.getStart_units mgr offset) fun ⟨start, page, after⟩ kept => ?_
  cases start with
  | none => exact Returns.ok ⟨kept, rfl, rfl⟩
  | some start =>
    refine Returns.bind (getSkip_units _ _ page after) fun ⟨_, skipped, next⟩ keptNext => ?_
    refine Returns.bind (Returns.any _) fun nSize _ => ?_
    refine Returns.bind (getLoop_units _ _ _ _ _ skipped next) fun ⟨_, last, more⟩ keptMore => ?_
    exact Returns.ok ⟨(kept.trans keptNext).trans keptMore, rfl, rfl⟩

theorem clearLoop_units (fuel : Nat) (page : SMDPage) (mgr : SMDPageManagement Device) :
    Returns (fun result => result.2.m_PageInfo.unitOf = mgr.m_PageInfo.unitOf)
      (clearLoop fuel page mgr) := by
  induction fuel generalizing page mgr with
  | zero => exact Returns.error _
  | succ fuel hypothesis =>
    unfold clearLoop
    refine Returns.bind (Returns.any _) fun freed _ => ?_
    refine Returns.bind (mgr.savePageToFile_units freed) fun ⟨_, saved, after⟩ kept => ?_
    refine Returns.ite (fun _ => Returns.ok kept) fun _ => ?_
    refine Returns.bind (after.getNextPage_units _ _) fun ⟨moved, next, last⟩ keptNext => ?_
    refine Returns.ite (fun _ => ?_) fun _ => Returns.ok (kept.trans keptNext)
    exact (hypothesis next last).mono fun _ keptAfter => Eq.trans keptAfter (kept.trans keptNext)

theorem clearPage_units (file : SMDPageFile) (mgr : SMDPageManagement Device) :
    Returns (fun result => KeepsUnits mgr result ∧ result.2.1.minUint = file.minUint ∧
      result.2.1.key = file.key) (file.clearPage mgr) := by
  unfold clearPage
  refine Returns.bind (mgr.getPageByPageNo_units _ _) fun ⟨_, page, after⟩ kept => ?_
  refine Returns.bind (clearLoop_units _ page after) fun ⟨last, more⟩ keptMore => ?_
  exact Returns.ok ⟨Eq.trans keptMore kept, rfl, rfl⟩

end SMDPageFile

/-! ### The page table and new segments -/

namespace SMDPageManagement

theorem saveInnerInfoToFile_units (mgr : SMDPageManagement Device) :
    Returns (fun result => result.2.m_PageInfo.unitOf = mgr.m_PageInfo.unitOf ∧
        (result.1 = true ↔ (mgr.m_PageInfo.find pageTableKey).isSome))
      mgr.saveInnerInfoToFile := by
  unfold saveInnerInfoToFile
  cases found : mgr.m_PageInfo.find pageTableKey with
  | none =>
    have noFile : mgr.getPageFile .SEG_TYPE_PAGEMGR PAGE_MANAGEMENT_NAME = none := by
      rw [getPageFile, ← pageTableKey, found]
      rfl
    rw [noFile]
    exact Returns.ok ⟨rfl, by simp⟩
  | some value =>
    have opened : mgr.getPageFile .SEG_TYPE_PAGEMGR PAGE_MANAGEMENT_NAME =
        some ⟨.SEG_TYPE_PAGEMGR, PAGE_MANAGEMENT_NAME, value.nMinUnit, none⟩ := by
      rw [getPageFile, ← pageTableKey, found]
      rfl
    rw [opened]
    refine Returns.bind (Returns.any _) fun stream _ => ?_
    refine Returns.bind (SMDPageFile.clearPage_units _ mgr) fun ⟨_, file, after⟩ kept => ?_
    refine Returns.bind (SMDPageFile.put_units file after stream) fun ⟨_, _, last⟩ keptAfter => ?_
    exact Returns.ok ⟨Eq.trans keptAfter.1 kept.1, by simp⟩

/-- A new segment is registered with its unit, whatever becomes of the writes; the others stay as
they are. -/
theorem createPageFile_units (mgr : SMDPageManagement Device) (key : PageKey_t) (minUnit : Nat) :
    Returns (fun result =>
        (∀ other, result.2.m_PageInfo.unitOf other =
          if other = key then (mgr.m_PageInfo.unitOf key).or (some (max minUnit 4))
          else mgr.m_PageInfo.unitOf other) ∧
        ∀ file, result.1 = some file → file.key = key ∧
          result.2.m_PageInfo.unitOf key = some file.minUint)
      (mgr.createPageFile key.segType key.sTableName minUnit) := by
  have keyEq : (⟨key.segType, key.sTableName⟩ : PageKey_t) = key := rfl
  unfold createPageFile
  rw [keyEq]
  have opens : ∀ (last : SMDPageManagement Device) (file : SMDPageFile),
      last.getPageFile key.segType key.sTableName = some file →
        file.key = key ∧ last.m_PageInfo.unitOf key = some file.minUint := by
    intro last file opened
    obtain ⟨value, found, equal⟩ := Option.map_eq_some_iff.mp opened
    rw [← equal, PageInfo.unitOf, show last.m_PageInfo.find key = some value from found]
    exact ⟨rfl, rfl⟩
  cases found : mgr.m_PageInfo.find key with
  | some value =>
    refine Returns.ok ⟨fun other => ?_, opens mgr⟩
    by_cases same : other = key
    · rw [if_pos same, same, PageInfo.unitOf, found]
      rfl
    · rw [if_neg same]
  | none =>
    have noUnit : mgr.m_PageInfo.unitOf key = none := by
      rw [PageInfo.unitOf, found]
      rfl
    have enrolled : ∀ (entry : PageNo_t) (other : PageKey_t),
        PageInfo.unitOf (mgr.m_PageInfo.insert key entry) other =
          if other = key then some entry.nMinUnit else mgr.m_PageInfo.unitOf other := by
      intro entry other
      rw [PageInfo.unitOf, PageInfo.find_insert key entry found]
      by_cases same : other = key
      · rw [if_pos same, if_pos same]
        rfl
      · rw [if_neg same, if_neg same]
        rfl
    refine Returns.bind (saveInnerInfoToFile_units _) fun ⟨stored, after⟩ kept => ?_
    have unitsEq : ∀ other, after.m_PageInfo.unitOf other =
        if other = key then (mgr.m_PageInfo.unitOf key).or (some (max minUnit 4))
        else mgr.m_PageInfo.unitOf other := by
      intro other
      rw [show after.m_PageInfo.unitOf = _ from kept.1, enrolled, noUnit, Option.none_or]
    refine Returns.ite (fun _ => ?_) fun _ => Returns.ok ⟨unitsEq, fun file equal => by cases equal⟩
    refine Returns.bind (Returns.any _) fun page _ => ?_
    refine Returns.bind (savePageToFile_units after page) fun ⟨saved, _, last⟩ keptLast => ?_
    refine Returns.ok ⟨fun other => ?_, fun file equal => ?_⟩
    · rw [show last.m_PageInfo.unitOf = _ from keptLast]
      exact unitsEq other
    · refine opens last file ?_
      dsimp only at equal
      split at equal
      · exact equal
      · cases equal

end SMDPageManagement

/-! ### One call -/

namespace Segments

/-- Every call, whatever becomes of its writes, leaves the segment objects matched and the
segments registered. -/
theorem Matched.step {state : Segments Device} (matched : state.Matched) (call : Request) :
    Returns (fun result => state.StaysMatched result.2) (state.step call) := by
  cases call with
  | createPageFile enumType sTableName minUnit =>
    refine Returns.bind (SMDPageManagement.createPageFile_units state.mgr ⟨enumType, sTableName⟩
      minUnit) fun ⟨made, mgr⟩ ⟨units, opens⟩ => Returns.ok ⟨fun other file equal => ?_,
        fun other known => ?_⟩
    · by_cases same : other = ⟨enumType, sTableName⟩
      · rw [same] at equal ⊢
        exact opens file (by simpa using equal)
      · have old : state.files other = some file := by
          simpa only [Function.update_of_ne same] using equal
        obtain ⟨keyEq, unitEq⟩ := matched other file old
        exact ⟨keyEq, by rw [units, if_neg same, unitEq]⟩
    · rw [← PageInfo.isSome_unitOf] at known ⊢
      dsimp only
      rw [units]
      by_cases same : other = ⟨enumType, sTableName⟩
      · rw [if_pos same, ← same, Option.isSome_or, known, Bool.true_or]
      · rw [if_neg same, known]
  | put key bytes =>
    simp only [Segments.step]
    cases opened : state.files key with
    | none => exact Returns.ok matched.refl
    | some file =>
      refine Returns.bind (file.put_units state.mgr ⟨bytes, 0⟩)
        fun ⟨_, _, _⟩ ⟨kept, unit, named⟩ => ?_
      exact Returns.ok (matched.after opened kept unit named)
  | putAt key bytes offset =>
    simp only [Segments.step]
    cases opened : state.files key with
    | none => exact Returns.ok matched.refl
    | some file =>
      refine Returns.bind (file.putAt_units state.mgr ⟨bytes, 0⟩ offset)
        fun ⟨_, _, _⟩ ⟨kept, unit, named⟩ => ?_
      exact Returns.ok (matched.after opened kept unit named)
  | get key offset =>
    simp only [Segments.step]
    cases opened : state.files key with
    | none => exact Returns.ok matched.refl
    | some file =>
      refine Returns.bind (file.get_units state.mgr (SMDMemStream.new 0) offset)
        fun ⟨_, _, _, _⟩ ⟨kept, unit, named⟩ => ?_
      exact Returns.ok (matched.after opened kept unit named)
  | clearPage key =>
    simp only [Segments.step]
    cases opened : state.files key with
    | none => exact Returns.ok matched.refl
    | some file =>
      refine Returns.bind (file.clearPage_units state.mgr) fun ⟨_, _, _⟩ ⟨kept, unit, named⟩ => ?_
      exact Returns.ok (matched.after opened kept unit named)
  | save =>
    refine Returns.bind (SMDPageManagement.saveInnerInfoToFile_units state.mgr)
      fun ⟨_, mgr⟩ ⟨kept, _⟩ => Returns.ok ⟨fun other file equal => ?_, stays_of_unitOf kept⟩
    obtain ⟨keyEq, unitEq⟩ := matched other file equal
    exact ⟨keyEq, (congrFun kept other).trans unitEq⟩

end Segments

end LevelDBLib.KvDB
