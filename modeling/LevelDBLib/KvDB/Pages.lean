/-
This file proves what the page primitives of the allocator do, over any coherent
device. The file is seen as a map from page numbers to page views; a page object
in memory may be ahead of the file (`Pending`) until it is saved. Loading keeps
the map, saving catches up with it, and going on from the last page of a chain
links and appends a blank page.
-/

import Mathlib.Logic.Function.Basic
import LevelDBLib.KvDB.PageDisk

namespace LevelDBLib.KvDB

open Buffers

variable {Device : Type} [CoherentDevice Device]

/-- The pages of a file as far as they are known. -/
abbrev PageMap := Nat → Option PageView

/-- The file holds `view` as page `pageno`. -/
def StoresPage (device : Device) (pageSize pageno : Nat) (view : PageView) : Prop :=
  ∃ bytes, CoherentDevice.contents device pageno = some bytes ∧ bytes.length = pageSize ∧
    viewOf pageno bytes = view ∧ view.space + bodyOffset pageno ≤ pageSize

/-- The file holds the pages of the map. -/
def Stores (device : Device) (pageSize : Nat) (pages : PageMap) : Prop :=
  ∀ pageno view, pages pageno = some view → StoresPage device pageSize pageno view

/-- A page object that the map knows, over a file that holds the other pages of the map. -/
structure Pending (device : Device) (pageSize : Nat) (pages : PageMap) (page : SMDPage) :
    Prop where
  formed : page.WellFormed pageSize
  seen : pages page.pageno = some page.view
  others : ∀ pageno view, pageno ≠ page.pageno → pages pageno = some view →
    StoresPage device pageSize pageno view
  kept : page.modify = true ∨ StoresPage device pageSize page.pageno page.view

/-- The page object of a segment object, if there is one, says what the map says. -/
def HeldIn (pages : PageMap) (pageSize : Nat) (held : Option SMDPage) : Prop :=
  ∀ page, held = some page → page.WellFormed pageSize ∧ pages page.pageno = some page.view

/-- The device `after` has saved only pages of the list since it was `before`. -/
def SavedIn (before after : Device) (pagenos : List Nat) : Prop :=
  ∃ log, CoherentDevice.saves after = CoherentDevice.saves before ++ log ∧
    ∀ pageno ∈ log, pageno ∈ pagenos

/-- The map with the view of one page replaced. -/
def PageMap.put (pages : PageMap) (pageno : Nat) (view : PageView) : PageMap :=
  Function.update pages pageno (some view)

/-! ### The map and the log -/

@[simp] theorem PageMap.put_self (pages : PageMap) (pageno : Nat) (view : PageView) :
    pages.put pageno view pageno = some view := Function.update_self ..

theorem PageMap.put_other (pages : PageMap) (pageno other : Nat) (view : PageView)
    (different : other ≠ pageno) : pages.put pageno view other = pages other :=
  Function.update_of_ne different ..

theorem PageMap.put_same (pages : PageMap) (pageno : Nat) (view : PageView)
    (known : pages pageno = some view) : pages.put pageno view = pages := by
  rw [PageMap.put, ← known, Function.update_eq_self]

theorem SavedIn.refl (device : Device) (pagenos : List Nat) : SavedIn device device pagenos :=
  ⟨[], (List.append_nil _).symm, fun _ member => absurd member List.not_mem_nil⟩

theorem SavedIn.trans {first second third : Device} {pagenos : List Nat}
    (before : SavedIn first second pagenos) (after : SavedIn second third pagenos) :
    SavedIn first third pagenos := by
  obtain ⟨log, equal, inside⟩ := before
  obtain ⟨more, moreEqual, moreInside⟩ := after
  refine ⟨log ++ more, by rw [moreEqual, equal, List.append_assoc], fun pageno member => ?_⟩
  rcases List.mem_append.mp member with member | member
  · exact inside pageno member
  · exact moreInside pageno member

theorem SavedIn.mono {before after : Device} {pagenos wider : List Nat}
    (saved : SavedIn before after pagenos) (subset : ∀ n ∈ pagenos, n ∈ wider) :
    SavedIn before after wider := by
  obtain ⟨log, equal, inside⟩ := saved
  exact ⟨log, equal, fun pageno member => subset pageno (inside pageno member)⟩

theorem SavedIn.of_saves_eq {before after : Device} (pagenos : List Nat)
    (equal : CoherentDevice.saves after = CoherentDevice.saves before) :
    SavedIn before after pagenos :=
  ⟨[], by rw [equal, List.append_nil], fun _ member => absurd member List.not_mem_nil⟩

/-! ### What the file holds -/

theorem StoresPage.of_contents_eq {before after : Device} {pageSize pageno : Nat}
    {view : PageView}
    (equal : CoherentDevice.contents after = CoherentDevice.contents before)
    (stored : StoresPage before pageSize pageno view) :
    StoresPage after pageSize pageno view := by
  obtain ⟨bytes, held, rest⟩ := stored
  exact ⟨bytes, by rw [equal, held], rest⟩

theorem Stores.of_contents_eq {before after : Device} {pageSize : Nat} {pages : PageMap}
    (equal : CoherentDevice.contents after = CoherentDevice.contents before)
    (stores : Stores before pageSize pages) : Stores after pageSize pages :=
  fun pageno view known => (stores pageno view known).of_contents_eq equal

/-- A page the file holds has a body that fills the page. -/
theorem StoresPage.length_body {device : Device} {pageSize pageno : Nat} {view : PageView}
    (stored : StoresPage device pageSize pageno view) :
    view.body.length + bodyOffset pageno = pageSize ∧ view.space ≤ view.body.length := by
  obtain ⟨bytes, _, lengthEq, seen, fits⟩ := stored
  have bodyEq : view.body.length = pageSize - bodyOffset pageno := by
    rw [← seen, viewOf, List.length_drop, lengthEq]
  omega

/-- A settled page object is pending too. -/
theorem Stores.pending {device : Device} {pageSize : Nat} {pages : PageMap} {page : SMDPage}
    (stores : Stores device pageSize pages) (formed : page.WellFormed pageSize)
    (seen : pages page.pageno = some page.view) : Pending device pageSize pages page :=
  ⟨formed, seen, fun pageno view _ known => stores pageno view known,
    Or.inr (stores _ _ seen)⟩

theorem Stores.put {before after : Device} {pageSize pageno : Nat} {pages : PageMap}
    {view : PageView}
    (others : ∀ other held, other ≠ pageno → pages other = some held →
      StoresPage before pageSize other held)
    (unchanged : ∀ other held, other ≠ pageno →
      CoherentDevice.contents before other = some held →
        CoherentDevice.contents after other = some held)
    (stored : StoresPage after pageSize pageno view) :
    Stores after pageSize (pages.put pageno view) := by
  intro other held known
  by_cases same : other = pageno
  · subst same
    rw [PageMap.put_self] at known
    cases known
    exact stored
  · rw [PageMap.put_other _ _ _ _ same] at known
    obtain ⟨bytes, inFile, rest⟩ := others other held same known
    exact ⟨bytes, unchanged other bytes same inFile, rest⟩

namespace SMDPageManagement

/-! ### Loads -/

/-- Loading a page of the map fills the page object with it. -/
theorem getPageByPageNo_spec (mgr : SMDPageManagement Device) (pages : PageMap)
    (held : Option SMDPage) (pageno : Nat) (view : PageView)
    (sizeLt : mgr.m_nPageSize < 65536) (room : 28 ≤ mgr.m_nPageSize)
    (stores : Stores mgr.device mgr.m_nPageSize pages)
    (heldIn : HeldIn pages mgr.m_nPageSize held)
    (known : pages pageno = some view) (valid : pageno ≠ 0xFFFFFFFF) :
    ∃ page device,
      mgr.getPageByPageNo held pageno = .ok (true, page, { mgr with device := device }) ∧
      page.pageno = pageno ∧ page.view = view ∧
      Pending device mgr.m_nPageSize pages page ∧ Stores device mgr.m_nPageSize pages ∧
      CoherentDevice.saves device = CoherentDevice.saves mgr.device := by
  have fitsAll : ∀ number, bodyOffset number ≤ mgr.m_nPageSize := fun number => by
    rw [bodyOffset_eq]
    have start := headOffset_cases number
    omega
  obtain ⟨page, object, lengthEq, same⟩ : ∃ page, mgr.pageObject held = .ok page ∧
      page.data.length = mgr.m_nPageSize ∧
      (page.pageno = pageno → page.WellFormed mgr.m_nPageSize ∧ page.view = view) := by
    cases held with
    | none =>
      obtain ⟨page, equal, formed, number, _⟩ :=
        SMDPage.new_spec mgr.m_nPageSize 0xFFFFFFFF sizeLt (fitsAll _)
      exact ⟨page, equal, formed.length_eq, fun same => absurd (same.symm.trans number) valid⟩
    | some page =>
      obtain ⟨formed, seen⟩ := heldIn page rfl
      refine ⟨page, rfl, formed.length_eq, fun same => ⟨formed, ?_⟩⟩
      rw [same, known] at seen
      exact (Option.some.inj seen).symm
  by_cases already : page.pageno = pageno
  · obtain ⟨formed, viewEq⟩ := same already
    refine ⟨page, mgr.device, ?_, already, viewEq,
      stores.pending formed (by rw [already, known, viewEq]), stores, rfl⟩
    rw [getPageByPageNo, object, ok_bind, SMDPage.getPageNo, if_pos already]
  · obtain ⟨fresh, resetEq, formed, number, _, _⟩ := page.reset_spec mgr.m_nPageSize pageno lengthEq
      sizeLt (fitsAll _)
    obtain ⟨device, loaded, contentsEq, savesEq⟩ :=
      CoherentDevice.load_coherent mgr.device pageno
    obtain ⟨bytes, inFile, bytesLength, seen, fits⟩ := stores pageno view known
    have copied : splice fresh.data 0 bytes = bytes := by
      rw [splice, List.take_zero, List.nil_append,
        List.drop_of_length_le (by rw [formed.length_eq]; omega), List.append_nil]
    obtain ⟨head, popped, poppedFormed, poppedView⟩ :=
      SMDPage.pop_spec { fresh with data := bytes } mgr.m_nPageSize formed.size_eq bytesLength
        sizeLt (by rw [number, seen]; exact fits)
    have viewEq : ({ { fresh with data := bytes } with head := head } : SMDPage).view = view := by
      rw [poppedView, number, seen]
    have storesAfter := stores.of_contents_eq contentsEq
    refine ⟨{ { fresh with data := bytes } with head := head }, device, ?_, number, viewEq,
      storesAfter.pending poppedFormed (by rw [viewEq, number, known]), storesAfter, savesEq⟩
    rw [getPageByPageNo, object, ok_bind, SMDPage.getPageNo, if_neg already, resetEq, ok_bind,
      loaded, inFile]
    simp only [ok_bind]
    rw [fetch_of_le _ _ _ (by omega), ok_bind, ← bytesLength, slice_all,
      memcpy_of_le _ _ _ (by rw [formed.length_eq]; omega), ok_bind, copied, popped, ok_bind]

/-! ### Saves -/

/-- Saving a page object leaves the file with the whole map. -/
theorem savePageToFile_spec (mgr : SMDPageManagement Device) (pages : PageMap) (page : SMDPage)
    (pending : Pending mgr.device mgr.m_nPageSize pages page) :
    ∃ saved device,
      mgr.savePageToFile page = .ok (true, saved, { mgr with device := device }) ∧
      saved.pageno = page.pageno ∧ saved.view = page.view ∧
      Pending device mgr.m_nPageSize pages saved ∧ Stores device mgr.m_nPageSize pages ∧
      SavedIn mgr.device device [page.pageno] := by
  obtain ⟨formed, seen, others, kept⟩ := pending
  by_cases modified : page.modify = true
  · obtain ⟨data, pushed, lengthEq, body, viewEq⟩ := page.push_spec mgr.m_nPageSize formed
    obtain ⟨device, savedEq, here, unchanged, savesEq⟩ := CoherentDevice.save_coherent mgr.device
      page.pageno page.getFileOffset data
    let saved : SMDPage := { page with data := data, modify := false }
    have savedFormed : saved.WellFormed mgr.m_nPageSize :=
      ⟨formed.size_eq, lengthEq, formed.sizeLt, formed.space_le, formed.next_lt⟩
    have savedView : saved.view = page.view := by
      rw [SMDPage.view, SMDPage.view, ← body]
    have stores : Stores device mgr.m_nPageSize pages := by
      rw [← PageMap.put_same pages page.pageno page.view seen]
      exact Stores.put others unchanged ⟨data, here, lengthEq, viewEq, formed.space_le⟩
    refine ⟨saved, device, ?_, rfl, savedView, stores.pending savedFormed (by
        rw [savedView]
        exact seen), stores,
      ⟨[page.pageno], savesEq, fun _ member => member⟩⟩
    rw [savePageToFile, if_pos modified, pushed, ok_bind, fetch_of_le _ _ _ (by
      rw [Nat.zero_add, lengthEq]), ok_bind]
    simp only
    rw [← lengthEq, slice_all]
    simp only [SMDPage.getFileOffset] at savedEq ⊢
    rw [savedEq, ok_bind, modified, Bool.not_true, Bool.and_false]
  · have stored := kept.resolve_left modified
    have stores : Stores mgr.device mgr.m_nPageSize pages := by
      intro pageno view known
      by_cases same : pageno = page.pageno
      · subst same
        rw [seen] at known
        cases known
        exact stored
      · exact others pageno view same known
    exact ⟨page, mgr.device, if_neg modified, rfl, rfl, ⟨formed, seen, others, kept⟩, stores,
      SavedIn.refl _ _⟩

/-! ### The next page -/

/-- The map after a chain went on from page `pageno` to the new page `fresh`. -/
def grown (pageSize : Nat) (pages : PageMap) (pageno : Nat) (view : PageView) (fresh : Nat) :
    PageMap :=
  (pages.put pageno (view.linked fresh)).put fresh (PageView.blank (pageSize - bodyOffset fresh))

theorem getPageByPageNo_held (mgr : SMDPageManagement Device) (page : SMDPage) :
    mgr.getPageByPageNo (some page) page.pageno = .ok (true, page, mgr) := by
  rw [getPageByPageNo, pageObject, ok_bind, SMDPage.getPageNo, if_pos rfl]

theorem linked_pending (device : Device) (pageSize : Nat) (pages : PageMap) (page : SMDPage)
    (next : Nat) (pending : Pending device pageSize pages page) (nextLt : next < 4294967296) :
    Pending device pageSize (pages.put page.pageno (page.view.linked next))
      (page.setNextPageNo next) := by
  refine ⟨⟨pending.formed.size_eq, pending.formed.length_eq, pending.formed.sizeLt,
    pending.formed.space_le, nextLt⟩, PageMap.put_self .., ?_, Or.inl rfl⟩
  intro pageno view different known
  have apart : pageno ≠ page.pageno := different
  rw [PageMap.put_other _ _ _ _ apart] at known
  exact pending.others pageno view apart known

/-- Going on from the last page of a chain links a blank page to it. -/
theorem getNextPage_last (mgr : SMDPageManagement Device) (pages : PageMap) (page : SMDPage)
    (pending : Pending mgr.device mgr.m_nPageSize pages page) (room : 28 ≤ mgr.m_nPageSize)
    (last : page.view.next = noNextPage)
    (count : mgr.m_nPageCnt + 1 < 0xFFFFFFFF) :
    ∃ fresh device,
      mgr.getNextPage (some page) page.pageno = .ok (true, fresh, { mgr with
        m_nPageCnt := mgr.m_nPageCnt + 1
        m_PageInfo := incLastPageNoIn mgr.m_PageInfo page.pageno (mgr.m_nPageCnt + 1)
        device := device }) ∧
      fresh.pageno = mgr.m_nPageCnt + 1 ∧
      fresh.view = PageView.blank (mgr.m_nPageSize - bodyOffset (mgr.m_nPageCnt + 1)) ∧
      Pending device mgr.m_nPageSize
        (grown mgr.m_nPageSize pages page.pageno page.view (mgr.m_nPageCnt + 1)) fresh ∧
      Stores device mgr.m_nPageSize
        (grown mgr.m_nPageSize pages page.pageno page.view (mgr.m_nPageCnt + 1)) ∧
      SavedIn mgr.device device [page.pageno, mgr.m_nPageCnt + 1] := by
  let next := mgr.m_nPageCnt + 1
  have nextEq : uint (↑mgr.m_nPageCnt + 1) = next := uint_of_lt next (by omega)
  obtain ⟨linked, linkedDevice, linkedEq, linkedNo, linkedView, linkedPending, linkedStores,
      linkedSaves⟩ :=
    savePageToFile_spec { mgr with m_nPageCnt := next } _ _
      (linked_pending mgr.device mgr.m_nPageSize pages page next pending (by omega))
  let linkedMgr : SMDPageManagement Device := { mgr with
    m_nPageCnt := next
    m_PageInfo := incLastPageNoIn mgr.m_PageInfo page.pageno next
    device := linkedDevice }
  obtain ⟨blank, blankEq, blankFormed, blankNo, blankModify, blankView⟩ :=
    linked.reset_spec mgr.m_nPageSize next linkedPending.formed.length_eq
      pending.formed.sizeLt (by
        rw [bodyOffset_eq]
        have start := headOffset_cases next
        omega)
  have blankPending : Pending linkedMgr.device linkedMgr.m_nPageSize
      (grown mgr.m_nPageSize pages page.pageno page.view next) blank := by
    refine ⟨blankFormed, ?_, ?_, Or.inl blankModify⟩
    · rw [blankNo, blankView, grown, PageMap.put_self]
    · intro pageno view different known
      rw [grown, PageMap.put_other _ _ _ _ (by rw [← blankNo]; exact different)] at known
      exact linkedStores pageno view known
  obtain ⟨fresh, device, freshEq, freshNo, freshView, freshPending, freshStores, freshSaves⟩ :=
    savePageToFile_spec linkedMgr _ _ blankPending
  refine ⟨fresh, device, ?_, by rw [freshNo, blankNo], by rw [freshView, blankView],
    freshPending, freshStores, (linkedSaves.mono ?_).trans (freshSaves.mono ?_)⟩
  · have numberEq : linked.getPageNo = page.pageno := linkedNo
    have lastEq : page.getNextPageNo = noNextPage := last
    rw [getNextPage, pageObject, ok_bind, getPageByPageNo_held]
    simp only [ok_bind, if_true, if_pos lastEq]
    simp only [appendPage, nextEq]
    rw [linkedEq]
    simp only [ok_bind, if_true, numberEq, incLastPageNo]
    rw [blankEq, ok_bind]
    exact freshEq
  · intro number member
    exact List.mem_cons.mpr (Or.inl (List.mem_singleton.mp member))
  · intro number member
    rw [List.mem_singleton.mp member, blankNo]
    exact List.mem_cons_of_mem _ (List.mem_singleton.mpr rfl)

/-- Going on from any other page loads the page it links to. -/
theorem getNextPage_middle (mgr : SMDPageManagement Device) (pages : PageMap) (page : SMDPage)
    (view : PageView) (stores : Stores mgr.device mgr.m_nPageSize pages)
    (pending : Pending mgr.device mgr.m_nPageSize pages page) (room : 28 ≤ mgr.m_nPageSize)
    (notLast : page.view.next ≠ noNextPage) (known : pages page.view.next = some view) :
    ∃ next device,
      mgr.getNextPage (some page) page.pageno = .ok (true, next, { mgr with device := device }) ∧
      next.pageno = page.view.next ∧ next.view = view ∧
      Pending device mgr.m_nPageSize pages next ∧ Stores device mgr.m_nPageSize pages ∧
      CoherentDevice.saves device = CoherentDevice.saves mgr.device := by
  obtain ⟨next, device, loaded, rest⟩ := getPageByPageNo_spec mgr pages (some page)
    page.view.next view pending.formed.sizeLt room stores
    (fun held equal => by
      cases equal
      exact ⟨pending.formed, pending.seen⟩) known notLast
  refine ⟨next, device, ?_, rest⟩
  have nextNe : ¬ page.getNextPageNo = noNextPage := notLast
  rw [getNextPage, pageObject, ok_bind, getPageByPageNo_held]
  simp only [ok_bind, if_true, if_neg nextNe]
  exact loaded

end SMDPageManagement

namespace SMDPageFile

/-- Turning from the last page of a chain saves it and appends a blank page. -/
theorem turnPage_last (mgr : SMDPageManagement Device) (pages : PageMap) (page : SMDPage)
    (pending : Pending mgr.device mgr.m_nPageSize pages page) (room : 28 ≤ mgr.m_nPageSize)
    (last : page.view.next = noNextPage)
    (count : mgr.m_nPageCnt + 1 < 0xFFFFFFFF) :
    ∃ fresh device,
      turnPage mgr page = .ok (fresh, { mgr with
        m_nPageCnt := mgr.m_nPageCnt + 1
        m_PageInfo := SMDPageManagement.incLastPageNoIn mgr.m_PageInfo page.pageno
          (mgr.m_nPageCnt + 1)
        device := device }) ∧
      fresh.pageno = mgr.m_nPageCnt + 1 ∧
      fresh.view = PageView.blank (mgr.m_nPageSize - bodyOffset (mgr.m_nPageCnt + 1)) ∧
      Pending device mgr.m_nPageSize (SMDPageManagement.grown mgr.m_nPageSize pages page.pageno
        page.view (mgr.m_nPageCnt + 1)) fresh ∧
      SavedIn mgr.device device [page.pageno, mgr.m_nPageCnt + 1] := by
  obtain ⟨saved, device, savedEq, savedNo, savedView, savedPending, _, saves⟩ :=
    mgr.savePageToFile_spec pages page pending
  obtain ⟨fresh, after, freshEq, freshNo, freshView, freshPending, _, more⟩ :=
    SMDPageManagement.getNextPage_last { mgr with device := device } pages saved savedPending room
      (by rw [savedView, last]) count
  rw [savedNo, savedView] at freshPending
  rw [savedNo] at freshEq more
  refine ⟨fresh, after, ?_, freshNo, freshView, freshPending, (saves.mono ?_).trans more⟩
  · rw [turnPage, savedEq]
    simp only [ok_bind, SMDPage.getPageNo, savedNo]
    rw [freshEq]
    rfl
  · intro number member
    exact List.mem_cons.mpr (Or.inl (List.mem_singleton.mp member))

/-- Turning from any other page saves it and loads the page it links to. -/
theorem turnPage_middle (mgr : SMDPageManagement Device) (pages : PageMap) (page : SMDPage)
    (view : PageView) (pending : Pending mgr.device mgr.m_nPageSize pages page)
    (room : 28 ≤ mgr.m_nPageSize) (notLast : page.view.next ≠ noNextPage)
    (known : pages page.view.next = some view) :
    ∃ next device,
      turnPage mgr page = .ok (next, { mgr with device := device }) ∧
      next.pageno = page.view.next ∧ next.view = view ∧
      Pending device mgr.m_nPageSize pages next ∧ SavedIn mgr.device device [page.pageno] := by
  obtain ⟨saved, device, savedEq, savedNo, savedView, savedPending, stores, saves⟩ :=
    mgr.savePageToFile_spec pages page pending
  obtain ⟨next, after, nextEq, nextNo, nextView, nextPending, _, same⟩ :=
    SMDPageManagement.getNextPage_middle { mgr with device := device } pages saved view stores
      savedPending room (by rw [savedView]; exact notLast) (by rw [savedView]; exact known)
  rw [savedNo] at nextEq
  rw [savedView] at nextNo
  refine ⟨next, after, ?_, nextNo, nextView, nextPending, saves.trans (.of_saves_eq _ same)⟩
  rw [turnPage, savedEq]
  simp only [ok_bind, SMDPage.getPageNo, savedNo]
  rw [nextEq]
  rfl

/-! ### Writes to a page object -/

/-- A write to a page object, seen in the map. -/
theorem write_pending (device : Device) (pageSize : Nat) (pages : PageMap) (page : SMDPage)
    (buffer : Bytes) (pending : Pending device pageSize pages page)
    (short : buffer.length < 65536) :
    ∃ next, page.write buffer = .ok next ∧ next.pageno = page.pageno ∧
      next.view = page.view.append (buffer.take (min page.view.space buffer.length)) ∧
      Pending device pageSize (pages.put page.pageno next.view) next := by
  obtain ⟨next, written, formed, number, _, viewEq⟩ :=
    page.write_spec pageSize pending.formed buffer short
  refine ⟨next, written, number, viewEq, formed, by rw [number, PageMap.put_self], ?_, ?_⟩
  · intro pageno view different known
    rw [number] at different
    rw [PageMap.put_other _ _ _ _ different] at known
    exact pending.others pageno view different known
  · by_cases full : page.head.space = 0
    · have same : next = page := by
        rw [SMDPage.write, if_pos full] at written
        exact (Except.ok.inj written).symm
      rw [same]
      exact pending.kept
    · left
      simp only [SMDPage.write, if_neg full, bind_eq_ok] at written
      obtain ⟨data, _, equal⟩ := written
      rw [← Except.ok.inj equal]

/-- A positioned write to a page object, seen in the map. -/
theorem writeAt_pending (device : Device) (pageSize : Nat) (pages : PageMap) (page : SMDPage)
    (buffer : Bytes) (offset : Int) (pos : Nat) (pending : Pending device pageSize pages page)
    (inPage : ushort offset % pageSize = bodyOffset page.pageno + pos)
    (inside : pos + buffer.length ≤ page.view.body.length) :
    ∃ next, page.writeAt buffer offset = .ok next ∧ next.pageno = page.pageno ∧
      next.view = page.view.overwrite pos buffer ∧
      Pending device pageSize (pages.put page.pageno next.view) next := by
  obtain ⟨data, written, formed, viewEq⟩ :=
    page.writeAt_spec pageSize pending.formed buffer offset pos inPage inside
  refine ⟨{ page with data := data, modify := true }, written, rfl, viewEq, formed,
    PageMap.put_self .., ?_, Or.inl rfl⟩
  intro pageno view different known
  rw [PageMap.put_other _ _ _ _ different] at known
  exact pending.others pageno view different known

/-- An emptied page object, seen in the map. -/
theorem freeSpace_pending (device : Device) (pageSize : Nat) (pages : PageMap) (page : SMDPage)
    (pending : Pending device pageSize pages page) :
    ∃ next, page.freeSpace = .ok next ∧ next.pageno = page.pageno ∧
      next.view = page.view.freed ∧
      Pending device pageSize (pages.put page.pageno page.view.freed) next := by
  obtain ⟨next, freed, formed, number, modified, viewEq⟩ :=
    page.freeSpace_spec pageSize pending.formed
  refine ⟨next, freed, number, viewEq, formed, by rw [number, PageMap.put_self, viewEq], ?_,
    Or.inl modified⟩
  intro pageno view different known
  rw [number] at different
  rw [PageMap.put_other _ _ _ _ different] at known
  exact pending.others pageno view different known

end SMDPageFile

/-! ### A new file -/

/-- The only page of a new file. -/
def newPages (pageSize : Nat) : PageMap := fun pageno =>
  if pageno = 0 then some (PageView.blank (pageSize - 28)) else none

theorem flagPage_room {pageSize : Nat} {bytes : Bytes} (flag : flagPage pageSize = .ok bytes) :
    28 ≤ pageSize := by
  by_contra small
  have refused : ∀ size < 28, (flagPage size).toOption = none := by decide
  have none' := refused pageSize (by omega)
  rw [flag] at none'
  cases none'

theorem flagPage_spec (pageSize : Nat) (room : 28 ≤ pageSize) (sizeLt : pageSize < 65536) :
    ∃ bytes, flagPage pageSize = .ok bytes ∧ bytes.length = pageSize ∧
      viewOf 0 bytes = PageView.blank (pageSize - 28) := by
  obtain ⟨page, newEq, formed, number, _, viewEq⟩ :=
    SMDPage.new_spec pageSize 0 sizeLt (by rw [bodyOffset_zero]; exact room)
  obtain ⟨data, pushEq, lengthEq, _, dataView⟩ := page.push_spec pageSize formed
  refine ⟨data, ?_, lengthEq, by rw [← number, dataView, viewEq, bodyOffset_zero]⟩
  rw [flagPage, newEq, ok_bind, pushEq, ok_bind, fetch_of_le _ _ _ (by
    rw [Nat.zero_add]
    exact Nat.le_of_eq lengthEq.symm)]
  rw [← lengthEq, slice_all]

theorem HoldsFlag.stores {device : Device} {pageSize : Nat} (flag : HoldsFlag device pageSize)
    (sizeLt : pageSize < 65536) :
    28 ≤ pageSize ∧ Stores device pageSize (newPages pageSize) := by
  obtain ⟨bytes, flagEq, held⟩ := flag
  have room := flagPage_room flagEq
  obtain ⟨same, sameEq, lengthEq, viewEq⟩ := flagPage_spec pageSize room sizeLt
  rw [flagEq] at sameEq
  cases sameEq
  refine ⟨room, fun pageno view known => ?_⟩
  by_cases zero : pageno = 0
  · rw [newPages, if_pos zero] at known
    rw [zero, ← Option.some.inj known]
    refine ⟨bytes, held, lengthEq, viewEq, ?_⟩
    show pageSize - 28 + 28 ≤ pageSize
    omega
  · rw [newPages, if_neg zero] at known
    cases known

end LevelDBLib.KvDB
