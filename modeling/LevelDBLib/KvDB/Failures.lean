/-
This file lets the page writes of the allocator fail. A `FaultyFile` numbers its
writes; a pattern says which of them fail, and what a failed write leaves of the
file is open.

As long as no write fails, a call on a faulty file does what it does on the file
itself: it returns the same, and the file that it leaves is the same. That goes
through the allocator function by function, and so every result about files that
do not fail speaks of the calls that no failure meets.
-/

import LevelDBLib.Library.Agreements
import LevelDBLib.KvDB.Devices
import LevelDBLib.KvDB.Segments

namespace LevelDBLib.KvDB

open Agreements

/-! ### A file whose writes fail -/

/-- A file whose page writes may fail. `writes` is the number of the next write, `fails` says
which writes fail, and `spoiled` what a failed write of a page leaves of the file. -/
structure FaultyFile (Device : Type) where
  file : Device
  fails : Nat → Bool
  spoiled : Device → Nat → Bytes → Device
  writes : Nat

instance {Device : Type} [PageDevice Device] : PageDevice (FaultyFile Device) where
  getPageByNo faulty pageno := do
    let (data, file) ← PageDevice.getPageByNo faulty.file pageno
    .ok (data, { faulty with file := file })
  save faulty pageno offset bytes :=
    if faulty.fails faulty.writes then
      .ok (false, { faulty with
        file := faulty.spoiled faulty.file pageno bytes
        writes := faulty.writes + 1 })
    else do
      let (saved, file) ← PageDevice.save faulty.file pageno offset bytes
      .ok (saved, { faulty with file := file, writes := faulty.writes + 1 })

variable {Device : Type} [CoherentDevice Device]

namespace FaultyFile

/-- The faulty file after writes that all succeeded and left this file. -/
def holding (origin : FaultyFile Device) (file : Device) : FaultyFile Device :=
  { origin with
    file := file
    writes := origin.writes +
      ((CoherentDevice.saves file).length - (CoherentDevice.saves origin.file).length) }

theorem holding_self (origin : FaultyFile Device) : origin.holding origin.file = origin := by
  rw [holding, Nat.sub_self, Nat.add_zero]

/-- No write from one faulty file to the other fails. -/
def AllSaved (before after : FaultyFile Device) : Prop :=
  ∀ number, before.writes ≤ number → number < after.writes → before.fails number = false

/-- No write fails that leads to this file. -/
def Spares (origin : FaultyFile Device) (file : Device) : Prop := origin.AllSaved (origin.holding file)

theorem Spares.of_prefix {origin : FaultyFile Device} {first second : Device}
    (spares : origin.Spares second)
    (reached : CoherentDevice.saves first <+: CoherentDevice.saves second) :
    origin.Spares first := fun number least less =>
  spares number least (Nat.lt_of_lt_of_le less
    (Nat.add_le_add_left (Nat.sub_le_sub_right reached.length_le _) _))

/-- Without a write none can fail. -/
theorem spares_of_saves_eq {origin : FaultyFile Device} {file : Device}
    (same : CoherentDevice.saves file = CoherentDevice.saves origin.file) : origin.Spares file := by
  intro number least less
  rw [holding, same, Nat.sub_self] at less
  exact absurd less (Nat.not_lt.mpr least)

/-- Files wear out by the writes that fail. -/
def wear (origin : FaultyFile Device) : Wear Device where
  origin := origin.file
  reach one two := CoherentDevice.saves one <+: CoherentDevice.saves two
  intact := origin.Spares
  refl _ := List.prefix_rfl
  trans := List.IsPrefix.trans
  back reached spares := spares.of_prefix reached

theorem load_tracks (origin : FaultyFile Device) (file : Device) (pageno : Nat) :
    Tracks origin.wear file Prod.snd (fun result => (result.1, origin.holding result.2))
      (PageDevice.getPageByNo file pageno) (PageDevice.getPageByNo (origin.holding file) pageno) := by
  intro _ result returned
  obtain ⟨after, loaded, _, saves⟩ := CoherentDevice.load_coherent file pageno
  have reached : CoherentDevice.saves file <+: CoherentDevice.saves after :=
    saves.symm ▸ List.prefix_rfl
  have same : { origin.holding file with file := after } = origin.holding after := by
    simp only [holding, saves]
  rw [loaded] at returned
  cases returned
  refine ⟨reached, fun _ => ?_⟩
  show (PageDevice.getPageByNo file pageno >>= fun loaded =>
    .ok (loaded.1, { origin.holding file with file := loaded.2 })) = _
  rw [loaded, ok_bind, same]

theorem save_tracks (origin : FaultyFile Device) (file : Device) (pageno offset : Nat)
    (bytes : Bytes) :
    Tracks origin.wear file Prod.snd (fun result => (result.1, origin.holding result.2))
      (PageDevice.save file pageno offset bytes)
      (PageDevice.save (origin.holding file) pageno offset bytes) := by
  intro begun result returned
  obtain ⟨after, saved, _, _, saves⟩ := CoherentDevice.save_coherent file pageno offset bytes
  have reached : CoherentDevice.saves file <+: CoherentDevice.saves after := by
    rw [saves]
    exact List.prefix_append _ _
  have begun : CoherentDevice.saves origin.file <+: CoherentDevice.saves file := begun
  have longer := begun.length_le
  have next : (origin.holding after).writes = (origin.holding file).writes + 1 := by
    simp only [holding, saves, List.length_append, List.length_singleton]
    omega
  have same : { origin.holding file with file := after, writes := (origin.holding file).writes + 1 } =
      origin.holding after := by
    rw [← next]
    rfl
  rw [saved] at returned
  cases returned
  refine ⟨reached, fun spares => ?_⟩
  have success : origin.fails (origin.holding file).writes = false :=
    spares _ (Nat.le_add_right _ _) (Nat.lt_of_lt_of_eq (Nat.lt_succ_self _) next.symm)
  show (if origin.fails (origin.holding file).writes then _ else
    PageDevice.save file pageno offset bytes >>= fun saved => .ok (saved.1,
      { origin.holding file with file := saved.2, writes := (origin.holding file).writes + 1 })) = _
  rw [success, if_neg Bool.false_ne_true, saved, ok_bind, same]

end FaultyFile

/-! ### Pages -/

/-- The allocator over the faulty file, after writes that all succeeded. -/
def SMDPageManagement.onFaulty (mgr : SMDPageManagement Device) (origin : FaultyFile Device) :
    SMDPageManagement (FaultyFile Device) :=
  mgr.onDevice (origin.holding mgr.device)

/-- The call on the file is repeated on the faulty file, as long as no write fails. -/
def Repeats {Value Object : Type} (origin : FaultyFile Device) (mgr : SMDPageManagement Device)
    (one : Except Fault (Value × Object × SMDPageManagement Device))
    (two : Except Fault (Value × Object × SMDPageManagement (FaultyFile Device))) : Prop :=
  Tracks origin.wear mgr.device (fun result => result.2.2.device)
    (fun result => (result.1, result.2.1, result.2.2.onFaulty origin)) one two

/-- The same for a call without a return value of its own. -/
def RepeatsOn {Object : Type} (origin : FaultyFile Device) (mgr : SMDPageManagement Device)
    (one : Except Fault (Object × SMDPageManagement Device))
    (two : Except Fault (Object × SMDPageManagement (FaultyFile Device))) : Prop :=
  Tracks origin.wear mgr.device (fun result => result.2.device)
    (fun result => (result.1, result.2.onFaulty origin)) one two

variable {origin : FaultyFile Device}

namespace SMDPageManagement

theorem getPageByPageNo_repeats (mgr : SMDPageManagement Device) (page : Option SMDPage)
    (pageno : Nat) : Repeats origin mgr (mgr.getPageByPageNo page pageno)
      ((mgr.onFaulty origin).getPageByPageNo page pageno) := by
  unfold getPageByPageNo onFaulty
  rw [pageObject_onDevice]
  refine Tracks.same fun held => ?_
  refine Tracks.ite (fun _ => Tracks.ok (origin.wear.refl _)) fun _ => ?_
  refine Tracks.same fun blank => ?_
  refine Tracks.bind (origin.load_tracks mgr.device pageno) fun ⟨data, device⟩ => ?_
  cases data with
  | none => exact Tracks.ok (origin.wear.refl _)
  | some bytes =>
    refine Tracks.same fun source => ?_
    refine Tracks.same fun data => ?_
    refine Tracks.same fun loaded => ?_
    exact Tracks.ok (origin.wear.refl _)

theorem savePageToFile_repeats (mgr : SMDPageManagement Device) (page : SMDPage) :
    Repeats origin mgr (mgr.savePageToFile page) ((mgr.onFaulty origin).savePageToFile page) := by
  unfold savePageToFile onFaulty
  refine Tracks.ite (fun _ => ?_) fun _ => Tracks.ok (origin.wear.refl _)
  refine Tracks.same fun pushed => ?_
  refine Tracks.same fun buffer => ?_
  refine Tracks.bind (origin.save_tracks mgr.device _ _ _) fun ⟨saved, device⟩ => ?_
  exact Tracks.ok (origin.wear.refl _)

theorem appendPage_repeats (mgr : SMDPageManagement Device) (page : SMDPage) :
    Repeats origin mgr (mgr.appendPage page) ((mgr.onFaulty origin).appendPage page) := by
  unfold appendPage
  refine Tracks.bind (savePageToFile_repeats
    { mgr with m_nPageCnt := uint (mgr.m_nPageCnt + 1) } _) fun ⟨linked, held, after⟩ => ?_
  refine Tracks.ite (fun _ => ?_) fun _ => Tracks.ok (origin.wear.refl _)
  refine Tracks.same fun blank => ?_
  exact savePageToFile_repeats (after.incLastPageNo _ _) blank

theorem getNextPage_repeats (mgr : SMDPageManagement Device) (page : Option SMDPage)
    (pageno : Nat) : Repeats origin mgr (mgr.getNextPage page pageno)
      ((mgr.onFaulty origin).getNextPage page pageno) := by
  unfold getNextPage
  rw [onFaulty, pageObject_onDevice]
  refine Tracks.same fun held => ?_
  refine Tracks.bind (getPageByPageNo_repeats mgr _ _) fun ⟨loaded, page, after⟩ => ?_
  refine Tracks.ite (fun _ => ?_) fun _ => Tracks.ok (origin.wear.refl _)
  exact Tracks.ite (fun _ => appendPage_repeats after page) fun _ =>
    getPageByPageNo_repeats after _ _

end SMDPageManagement

/-! ### Segments -/

namespace SMDPageFile

theorem turnPage_repeats (mgr : SMDPageManagement Device) (page : SMDPage) :
    RepeatsOn origin mgr (turnPage mgr page) (turnPage (mgr.onFaulty origin) page) := by
  unfold turnPage
  refine Tracks.bind (mgr.savePageToFile_repeats page) fun ⟨_, saved, after⟩ => ?_
  refine Tracks.bind (after.getNextPage_repeats _ _) fun ⟨_, next, last⟩ => ?_
  exact Tracks.ok (origin.wear.refl _)

theorem putLoop_repeats (minUint : Nat) (sSize : Int) (fuel : Nat) (bytes : Bytes) (flag : Bool)
    (offset : Int) (page : SMDPage) (mgr : SMDPageManagement Device) :
    Repeats origin mgr (putLoop minUint sSize fuel bytes flag offset page mgr)
      (putLoop minUint sSize fuel bytes flag offset page (mgr.onFaulty origin)) := by
  induction fuel generalizing bytes flag offset page mgr with
  | zero =>
    cases bytes with
    | nil => exact Tracks.ok (origin.wear.refl _)
    | cons byte rest => exact Tracks.error _ _
  | succ fuel hypothesis =>
    cases bytes with
    | nil => exact Tracks.ok (origin.wear.refl _)
    | cons byte rest =>
      unfold putLoop
      refine Tracks.ite (fun _ => ?_) fun _ => ?_
      · refine Tracks.bind (turnPage_repeats mgr page) fun ⟨next, after⟩ => ?_
        refine Tracks.same fun headed => ?_
        exact hypothesis _ _ _ _ after
      · refine Tracks.same fun headed => ?_
        refine Tracks.same fun written => ?_
        dsimp only
        split
        · exact Tracks.ok (origin.wear.refl _)
        · refine Tracks.bind (turnPage_repeats mgr written) fun ⟨next, after⟩ => ?_
          exact hypothesis _ _ _ _ after

theorem put_repeats (file : SMDPageFile) (mgr : SMDPageManagement Device) (stream : SMDMemStream) :
    Repeats origin mgr (file.put mgr stream) (file.put (mgr.onFaulty origin) stream) := by
  unfold put
  refine Tracks.ite (fun _ => Tracks.ok (origin.wear.refl _)) fun _ => ?_
  refine Tracks.bind (mgr.getPageByPageNo_repeats _ _) fun ⟨loaded, page, after⟩ => ?_
  refine Tracks.ite (fun _ => ?_) fun _ => Tracks.ok (origin.wear.refl _)
  refine Tracks.ite (fun _ => ?_) fun _ => ?_
  · refine Tracks.same fun headed => ?_
    refine Tracks.same fun written => ?_
    refine Tracks.bind (after.savePageToFile_repeats written) fun ⟨_, saved, last⟩ => ?_
    exact Tracks.ok (origin.wear.refl _)
  · refine Tracks.bind (putLoop_repeats _ _ _ _ _ _ page after) fun ⟨_, last, more⟩ => ?_
    refine Tracks.bind (more.savePageToFile_repeats last) fun ⟨_, saved, final⟩ => ?_
    exact Tracks.ok (origin.wear.refl _)

theorem putAtLoop_repeats (fuel : Nat) (bytes : Bytes) (offset : Int) (page : SMDPage)
    (mgr : SMDPageManagement Device) :
    RepeatsOn origin mgr (putAtLoop fuel bytes offset page mgr)
      (putAtLoop fuel bytes offset page (mgr.onFaulty origin)) := by
  induction fuel generalizing bytes offset page mgr with
  | zero =>
    cases bytes with
    | nil => exact Tracks.ok (origin.wear.refl _)
    | cons byte rest => exact Tracks.error _ _
  | succ fuel hypothesis =>
    cases bytes with
    | nil => exact Tracks.ok (origin.wear.refl _)
    | cons byte rest =>
      unfold putAtLoop
      refine Tracks.same fun written => ?_
      dsimp only
      split
      · exact Tracks.ok (origin.wear.refl _)
      · refine Tracks.bind (turnPage_repeats mgr written) fun ⟨next, after⟩ => ?_
        exact hypothesis _ _ _ after

theorem putAt_repeats (file : SMDPageFile) (mgr : SMDPageManagement Device)
    (stream : SMDMemStream) (offset : Int) :
    Repeats origin mgr (file.putAt mgr stream offset)
      (file.putAt (mgr.onFaulty origin) stream offset) := by
  unfold putAt
  refine Tracks.ite (fun _ => Tracks.ok (origin.wear.refl _)) fun _ => ?_
  refine Tracks.bind (mgr.getPageByPageNo_repeats _ _) fun ⟨loaded, page, after⟩ => ?_
  refine Tracks.ite (fun _ => ?_) fun _ => Tracks.ok (origin.wear.refl _)
  refine Tracks.ite (fun _ => ?_) fun _ => ?_
  · refine Tracks.same fun headed => ?_
    refine Tracks.bind (putAtLoop_repeats _ _ _ headed after) fun ⟨last, more⟩ => ?_
    refine Tracks.bind (more.savePageToFile_repeats last) fun ⟨_, saved, final⟩ => ?_
    exact Tracks.ok (origin.wear.refl _)
  · refine Tracks.bind (after.savePageToFile_repeats page) fun ⟨_, saved, final⟩ => ?_
    exact Tracks.ok (origin.wear.refl _)

theorem getStart_repeats (file : SMDPageFile) (mgr : SMDPageManagement Device) (offset : Int) :
    Repeats origin mgr (file.getStart mgr offset) (file.getStart (mgr.onFaulty origin) offset) := by
  unfold getStart
  refine Tracks.ite (fun _ => ?_) fun _ => ?_
  · refine Tracks.bind (mgr.getPageByPageNo_repeats _ _) fun ⟨_, page, after⟩ => ?_
    exact Tracks.ok (origin.wear.refl _)
  · refine Tracks.bind (mgr.getPageByPageNo_repeats _ _) fun ⟨loaded, page, after⟩ => ?_
    exact Tracks.ok (origin.wear.refl _)

theorem getSkip_repeats (minUint offset : Nat) (page : SMDPage) (mgr : SMDPageManagement Device) :
    Repeats origin mgr (getSkip minUint offset page mgr)
      (getSkip minUint offset page (mgr.onFaulty origin)) := by
  unfold getSkip
  refine Tracks.ite (fun _ => ?_) fun _ => Tracks.ok (origin.wear.refl _)
  refine Tracks.bind (mgr.getNextPage_repeats _ _) fun ⟨_, next, after⟩ => ?_
  exact Tracks.ok (origin.wear.refl _)

theorem getLoop_repeats (nSize fuel offset i : Nat) (stream : SMDMemStream) (page : SMDPage)
    (mgr : SMDPageManagement Device) :
    Repeats origin mgr (getLoop nSize fuel offset i stream page mgr)
      (getLoop nSize fuel offset i stream page (mgr.onFaulty origin)) := by
  induction fuel generalizing offset i stream page mgr with
  | zero =>
    unfold getLoop
    exact Tracks.ite (fun _ => Tracks.ok (origin.wear.refl _)) fun _ => Tracks.error _ _
  | succ fuel hypothesis =>
    unfold getLoop
    refine Tracks.ite (fun _ => Tracks.ok (origin.wear.refl _)) fun _ => ?_
    refine Tracks.same fun bytes => ?_
    refine Tracks.same fun data => ?_
    refine Tracks.ite (fun _ => Tracks.ok (origin.wear.refl _)) fun _ => ?_
    refine Tracks.bind (mgr.getNextPage_repeats _ _) ?_
    rintro ⟨_, next, after⟩
    exact hypothesis _ _ _ next after

theorem get_repeats (file : SMDPageFile) (mgr : SMDPageManagement Device) (stream : SMDMemStream)
    (offset : Int) :
    Tracks origin.wear mgr.device (fun result => result.2.2.2.device)
      (fun result => (result.1, result.2.1, result.2.2.1, result.2.2.2.onFaulty origin))
      (file.get mgr stream offset) (file.get (mgr.onFaulty origin) stream offset) := by
  unfold get
  refine Tracks.bind (file.getStart_repeats mgr offset) fun ⟨start, page, after⟩ => ?_
  cases start with
  | none => exact Tracks.ok (origin.wear.refl _)
  | some start =>
    refine Tracks.bind (getSkip_repeats _ _ page after) fun ⟨_, skipped, next⟩ => ?_
    refine Tracks.same fun nSize => ?_
    refine Tracks.bind (getLoop_repeats _ _ _ _ _ skipped next) fun ⟨_, last, more⟩ => ?_
    exact Tracks.ok (origin.wear.refl _)

theorem clearLoop_repeats (fuel : Nat) (page : SMDPage) (mgr : SMDPageManagement Device) :
    RepeatsOn origin mgr (clearLoop fuel page mgr) (clearLoop fuel page (mgr.onFaulty origin)) := by
  induction fuel generalizing page mgr with
  | zero => exact Tracks.error _ _
  | succ fuel hypothesis =>
    unfold clearLoop
    refine Tracks.same fun freed => ?_
    refine Tracks.bind (mgr.savePageToFile_repeats freed) fun ⟨_, saved, after⟩ => ?_
    refine Tracks.ite (fun _ => Tracks.ok (origin.wear.refl _)) fun _ => ?_
    refine Tracks.bind (after.getNextPage_repeats _ _) fun ⟨moved, next, last⟩ => ?_
    exact Tracks.ite (fun _ => hypothesis next last) fun _ => Tracks.ok (origin.wear.refl _)

theorem clearPage_repeats (file : SMDPageFile) (mgr : SMDPageManagement Device) :
    Repeats origin mgr (file.clearPage mgr) (file.clearPage (mgr.onFaulty origin)) := by
  unfold clearPage
  refine Tracks.bind (mgr.getPageByPageNo_repeats _ _) fun ⟨_, page, after⟩ => ?_
  refine Tracks.bind (clearLoop_repeats _ page after) fun ⟨last, more⟩ => ?_
  exact Tracks.ok (origin.wear.refl _)

end SMDPageFile

/-! ### The page table and new segments -/

namespace SMDPageManagement

theorem saveInnerInfoToFile_repeats (mgr : SMDPageManagement Device) :
    RepeatsOn origin mgr mgr.saveInnerInfoToFile (mgr.onFaulty origin).saveInnerInfoToFile := by
  unfold saveInnerInfoToFile
  have same : (mgr.onFaulty origin).getPageFile .SEG_TYPE_PAGEMGR PAGE_MANAGEMENT_NAME =
      mgr.getPageFile .SEG_TYPE_PAGEMGR PAGE_MANAGEMENT_NAME := rfl
  rw [same]
  cases mgr.getPageFile .SEG_TYPE_PAGEMGR PAGE_MANAGEMENT_NAME with
  | none => exact Tracks.ok (origin.wear.refl _)
  | some file =>
    refine Tracks.same fun stream => ?_
    refine Tracks.bind (file.clearPage_repeats mgr) fun ⟨_, cleared, after⟩ => ?_
    refine Tracks.bind (cleared.put_repeats after stream) fun ⟨_, _, last⟩ => ?_
    exact Tracks.ok (origin.wear.refl _)

theorem createPageFile_repeats (mgr : SMDPageManagement Device) (enumType : SegType)
    (sTableName : Bytes) (minUnit : Nat) :
    RepeatsOn origin mgr (mgr.createPageFile enumType sTableName minUnit)
      ((mgr.onFaulty origin).createPageFile enumType sTableName minUnit) := by
  unfold createPageFile
  have same : (mgr.onFaulty origin).m_PageInfo = mgr.m_PageInfo := rfl
  dsimp only
  rw [same]
  cases mgr.m_PageInfo.find ⟨enumType, sTableName⟩ with
  | some value => exact Tracks.ok (origin.wear.refl _)
  | none =>
    refine Tracks.bind (saveInnerInfoToFile_repeats { mgr with
      m_nPageCnt := uint (mgr.m_nPageCnt + 1)
      m_PageInfo := mgr.m_PageInfo.insert ⟨enumType, sTableName⟩
        ⟨0, max minUnit 4, uint (mgr.m_nPageCnt + 1), uint (mgr.m_nPageCnt + 1)⟩ })
      fun ⟨stored, after⟩ => ?_
    refine Tracks.ite (fun _ => ?_) fun _ => Tracks.ok (origin.wear.refl _)
    refine Tracks.same fun page => ?_
    refine Tracks.bind (savePageToFile_repeats after page) fun ⟨saved, _, last⟩ => ?_
    exact Tracks.ok (origin.wear.refl _)

end SMDPageManagement

/-! ### The calls -/

namespace Segments

/-- The state over the faulty file, after writes that all succeeded. -/
def onFaulty (state : Segments Device) (origin : FaultyFile Device) :
    Segments (FaultyFile Device) :=
  ⟨state.mgr.onFaulty origin, state.files⟩

/-- The state over the file behind the faulty one. -/
def onFile (state : Segments (FaultyFile Device)) : Segments Device :=
  ⟨state.mgr.onDevice state.mgr.device.file, state.files⟩

theorem onFaulty_onFile (state : Segments (FaultyFile Device)) :
    state.onFile.onFaulty state.mgr.device = state := by
  obtain ⟨⟨info, size, count, attributes, device⟩, files⟩ := state
  show (⟨⟨info, size, count, attributes, device.holding device.file⟩, files⟩ :
    Segments (FaultyFile Device)) = _
  rw [device.holding_self]

/-- Every call is repeated on the faulty file, as long as no write fails. -/
theorem step_repeats (state : Segments Device) (call : Request) :
    Tracks origin.wear state.mgr.device (fun result => result.2.mgr.device)
      (fun result => (result.1, result.2.onFaulty origin)) (state.step call)
      ((state.onFaulty origin).step call) := by
  cases call with
  | createPageFile enumType sTableName minUnit =>
    refine Tracks.bind (state.mgr.createPageFile_repeats enumType sTableName minUnit)
      fun ⟨file, mgr⟩ => ?_
    exact Tracks.ok (origin.wear.refl _)
  | put key bytes =>
    have same : (state.onFaulty origin).files key = state.files key := rfl
    simp only [step, same]
    cases state.files key with
    | none => exact Tracks.ok (origin.wear.refl _)
    | some file =>
      refine Tracks.bind (file.put_repeats state.mgr ⟨bytes, 0⟩) fun ⟨_, _, _⟩ => ?_
      exact Tracks.ok (origin.wear.refl _)
  | putAt key bytes offset =>
    have same : (state.onFaulty origin).files key = state.files key := rfl
    simp only [step, same]
    cases state.files key with
    | none => exact Tracks.ok (origin.wear.refl _)
    | some file =>
      refine Tracks.bind (file.putAt_repeats state.mgr ⟨bytes, 0⟩ offset) fun ⟨_, _, _⟩ => ?_
      exact Tracks.ok (origin.wear.refl _)
  | get key offset =>
    have same : (state.onFaulty origin).files key = state.files key := rfl
    simp only [step, same]
    cases state.files key with
    | none => exact Tracks.ok (origin.wear.refl _)
    | some file =>
      refine Tracks.bind (file.get_repeats state.mgr (SMDMemStream.new 0) offset)
        fun ⟨_, _, _, _⟩ => ?_
      exact Tracks.ok (origin.wear.refl _)
  | clearPage key =>
    have same : (state.onFaulty origin).files key = state.files key := rfl
    simp only [step, same]
    cases state.files key with
    | none => exact Tracks.ok (origin.wear.refl _)
    | some file =>
      refine Tracks.bind (file.clearPage_repeats state.mgr) fun ⟨_, _, _⟩ => ?_
      exact Tracks.ok (origin.wear.refl _)
  | save =>
    refine Tracks.bind state.mgr.saveInnerInfoToFile_repeats fun ⟨success, mgr⟩ => ?_
    exact Tracks.ok (origin.wear.refl _)

/-- A call that returns on the file returns the same on the faulty file, if no write of it
fails. -/
theorem step_spared {state : Segments (FaultyFile Device)} {call : Request} {reply : Reply}
    {after : Segments Device} (returned : state.onFile.step call = .ok (reply, after))
    (spared : state.mgr.device.Spares after.mgr.device) :
    state.step call = .ok (reply, after.onFaulty state.mgr.device) := by
  have tracked := step_repeats state.onFile call (state.mgr.device.wear.refl _) _ returned
  rw [onFaulty_onFile] at tracked
  exact tracked.2 spared

end Segments

end LevelDBLib.KvDB
