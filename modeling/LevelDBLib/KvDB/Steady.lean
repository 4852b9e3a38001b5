/-
This file proves what the calls of the page allocator keep of the device under
them. A property of the device is steady when a load keeps it and a save keeps it
that is made the way `savePageToFile` makes it: a buffer of one page, pushed, at
the file offset of the page. The allocator makes no other saves, as long as the
page objects it is given have its page size.
-/

import LevelDBLib.Library.Agreements
import LevelDBLib.KvDB.PageManagement

namespace LevelDBLib.KvDB

open Agreements Buffers

/-! ### Page objects of one size -/

namespace SMDPage

/-- The object and its buffer have the given size. -/
def Fits (size : Nat) (page : SMDPage) : Prop := page.size = size ∧ page.data.length = size

end SMDPage

theorem memcpy_returns (buffer : Bytes) (offset : Nat) (source : Bytes) :
    Returns (fun copied => copied.length = buffer.length ∧ offset + source.length ≤ buffer.length)
      (memcpy buffer offset source) := by
  unfold memcpy
  refine Returns.ite (fun bound => ?_) fun _ => Returns.error _
  exact Returns.ok ⟨length_splice _ _ _ bound, bound⟩

theorem fetch_returns (buffer : Bytes) (offset count : Nat) :
    Returns (fun bytes => bytes.length = count) (fetch buffer offset count) := by
  unfold fetch
  exact Returns.ite (fun bound => Returns.ok (length_slice _ _ _ bound)) fun _ => Returns.error _

namespace SMDPage

variable {size : Nat}

theorem checkFirstPage_fits (page : SMDPage) (fits : page.Fits size) :
    Returns (fun checked => checked.Fits size ∧ checked.pageno = page.pageno)
      page.checkFirstPage := by
  unfold checkFirstPage
  refine Returns.ite (fun _ => ?_) fun _ => Returns.ok ⟨fits, rfl⟩
  refine Returns.bind (memcpy_returns _ _ _) ?_
  rintro data ⟨length, _⟩
  exact Returns.ok ⟨⟨fits.1, length.trans fits.2⟩, rfl⟩

theorem new_fits (pageno : Nat) :
    Returns (fun page => page.Fits size ∧ page.pageno = pageno) (new size pageno) :=
  checkFirstPage_fits _ ⟨rfl, List.length_replicate⟩

theorem reset_fits (page : SMDPage) (pageno : Nat) (fits : page.Fits size) :
    Returns (fun page => page.Fits size ∧ page.pageno = pageno) (page.reset size pageno) :=
  checkFirstPage_fits _ ⟨rfl, List.length_replicate.trans fits.2⟩

theorem freeSpace_fits (page : SMDPage) (fits : page.Fits size) :
    Returns (fun freed => freed.Fits size ∧ freed.pageno = page.pageno) page.freeSpace :=
  checkFirstPage_fits _ ⟨fits.1, List.length_replicate.trans fits.2⟩

theorem pop_fits (page : SMDPage) (fits : page.Fits size) :
    Returns (fun popped => popped.Fits size ∧ popped.pageno = page.pageno) page.pop := by
  unfold pop
  refine Returns.bind (Returns.any _) fun next _ => ?_
  refine Returns.bind (Returns.any _) fun space _ => ?_
  refine Returns.bind (Returns.any _) fun reserve1 _ => ?_
  refine Returns.bind (Returns.any _) fun reserve2 _ => ?_
  exact Returns.ok ⟨fits, rfl⟩

theorem pushFlag_length (page : SMDPage) :
    Returns (fun data => data.length = page.data.length) page.pushFlag := by
  unfold pushFlag
  refine Returns.ite (fun _ => ?_) fun _ => Returns.ok rfl
  exact (memcpy_returns _ _ _).mono fun _ copied => copied.1

/-- A page that can be pushed has room for its header. -/
theorem push_fits (page : SMDPage) (fits : page.Fits size) :
    Returns (fun pushed => pushed.Fits size ∧ pushed.pageno = page.pageno ∧
      pushed.modify = page.modify ∧ headOffset page.pageno + 12 ≤ size) page.push := by
  unfold push
  refine Returns.bind (pushFlag_length page) fun flagged length => ?_
  refine Returns.bind (memcpy_returns _ _ _) ?_
  rintro linked ⟨linkedLength, _⟩
  refine Returns.bind (memcpy_returns _ _ _) ?_
  rintro spaced ⟨spacedLength, _⟩
  refine Returns.bind (memcpy_returns _ _ _) ?_
  rintro first ⟨firstLength, _⟩
  refine Returns.bind (memcpy_returns _ _ _) ?_
  rintro second ⟨secondLength, bound⟩
  have lengths : first.length = size := by
    rw [firstLength, spacedLength, linkedLength, length, fits.2]
  rw [lengths, SMDValue.length_putShort] at bound
  exact Returns.ok ⟨⟨fits.1, secondLength.trans lengths⟩, rfl, rfl, bound⟩

/-- A page can be popped exactly when its buffer has room for a header. -/
theorem pop_cases (page : SMDPage) :
    headOffset page.pageno + 12 ≤ page.data.length ∧ (∃ head, page.pop = .ok { page with head := head }) ∨
      page.data.length < headOffset page.pageno + 12 ∧ ∀ popped, page.pop ≠ .ok popped := by
  by_cases room : headOffset page.pageno + 12 ≤ page.data.length
  · let at' := headOffset page.pageno
    refine Or.inl ⟨room, {
      next := (SMDValue.getInt (slice page.data at' 4)).toNat
      space := (SMDValue.getShort (slice page.data (at' + 4) 2)).toNat
      reserve1 := (SMDValue.getShort (slice page.data (at' + 6) 2)).toNat
      reserve2 := extendShort (SMDValue.getShort (slice page.data (at' + 10) 2)) }, ?_⟩
    simp only [pop]
    rw [fetch_of_le _ _ _ (by omega), fetch_of_le _ _ _ (by omega), fetch_of_le _ _ _ (by omega),
      fetch_of_le _ _ _ (by omega)]
    rfl
  · refine Or.inr ⟨by omega, fun popped returned => ?_⟩
    unfold pop at returned
    obtain ⟨next, _, returned⟩ := (bind_eq_ok _ _ _).mp returned
    obtain ⟨space, _, returned⟩ := (bind_eq_ok _ _ _).mp returned
    obtain ⟨reserve1, _, returned⟩ := (bind_eq_ok _ _ _).mp returned
    obtain ⟨reserve2, fetched, _⟩ := (bind_eq_ok _ _ _).mp returned
    rw [fetch, if_neg (by omega)] at fetched
    cases fetched

/-- A page with room for its header can be made. -/
theorem checkFirstPage_returns (page : SMDPage)
    (room : headOffset page.pageno + 12 ≤ page.data.length) :
    ∃ checked, page.checkFirstPage = .ok checked := by
  unfold checkFirstPage
  by_cases first : page.pageno = 0
  · rw [if_pos first, memcpy_of_le]
    · exact ⟨_, rfl⟩
    · exact Nat.le_trans (by decide) (Nat.le_trans (Nat.le_add_left 12 _) room)
  · rw [if_neg first]
    exact ⟨page, rfl⟩

theorem write_fits (page : SMDPage) (buffer : Bytes) (fits : page.Fits size) :
    Returns (fun written => written.Fits size ∧ written.pageno = page.pageno)
      (page.write buffer) := by
  unfold write
  refine Returns.ite (fun _ => Returns.ok ⟨fits, rfl⟩) fun _ => ?_
  refine Returns.bind (memcpy_returns _ _ _) ?_
  rintro data ⟨length, _⟩
  exact Returns.ok ⟨⟨fits.1, length.trans fits.2⟩, rfl⟩

theorem setNextPageNo_fits (page : SMDPage) (next : Nat) (fits : page.Fits size) :
    (page.setNextPageNo next).Fits size := fits

end SMDPage

theorem some_fits {size : Nat} {page : SMDPage} (fits : page.Fits size) :
    ∀ held ∈ some page, held.Fits size := by
  rintro _ ⟨⟩
  exact fits

/-! ### Steady properties -/

variable {Device : Type} {size : Nat} {holds : Device → Prop}

/-- An allocator with the page size over a device with the property. -/
def Over (size : Nat) (holds : Device → Prop) (mgr : SMDPageManagement Device) : Prop :=
  mgr.m_nPageSize = size ∧ holds mgr.device

/-- A result that carries a page object and the allocator. -/
def Served {Value : Type} (size : Nat) (holds : Device → Prop)
    (result : Value × SMDPage × SMDPageManagement Device) : Prop :=
  result.2.1.Fits size ∧ Over size holds result.2.2

theorem SMDPageManagement.pageObject_fits (mgr : SMDPageManagement Device)
    (page : Option SMDPage) (fits : ∀ held ∈ page, held.Fits mgr.m_nPageSize) :
    Returns (fun held => held.Fits mgr.m_nPageSize) (mgr.pageObject page) := by
  cases page with
  | none => exact (SMDPage.new_fits _).mono fun _ made => made.1
  | some held => exact Returns.ok (fits held rfl)

/-- Loads keep the property, and so do saves of one pushed page at its file offset. -/
structure Steady [PageDevice Device] (size : Nat) (holds : Device → Prop) : Prop where
  loads : ∀ device pageno, holds device →
    Returns (fun result => holds result.2) (PageDevice.getPageByNo device pageno)
  saves : ∀ device pageno (bytes : Bytes), holds device → bytes.length = size →
    SMDPage.headOffset pageno + 12 ≤ size →
    Returns (fun result => holds result.2)
      (PageDevice.save device pageno (uint (pageno * size)) bytes)

variable [PageDevice Device]

namespace SMDPageManagement

variable {mgr : SMDPageManagement Device}

theorem getPageByPageNo_steady (steady : Steady size holds) (mounted : Over size holds mgr)
    (page : Option SMDPage) (fits : ∀ held ∈ page, held.Fits size) (pageno : Nat) :
    Returns (Served size holds) (mgr.getPageByPageNo page pageno) := by
  obtain ⟨rfl, kept⟩ := mounted
  unfold getPageByPageNo
  refine Returns.bind (mgr.pageObject_fits page fits) fun held heldFits => ?_
  refine Returns.ite (fun _ => Returns.ok ⟨heldFits, rfl, kept⟩) fun _ => ?_
  refine Returns.bind (SMDPage.reset_fits held pageno heldFits) ?_
  rintro blank ⟨blankFits, _⟩
  refine Returns.bind (steady.loads mgr.device pageno kept) ?_
  rintro ⟨data, device⟩ after
  cases data with
  | none => exact Returns.ok ⟨blankFits, rfl, after⟩
  | some bytes =>
    refine Returns.bind (Returns.any _) fun source _ => ?_
    refine Returns.bind (memcpy_returns _ _ _) ?_
    rintro data ⟨length, _⟩
    refine Returns.bind (SMDPage.pop_fits { blank with data := data }
      ⟨blankFits.1, length.trans blankFits.2⟩) ?_
    rintro loaded ⟨loadedFits, _⟩
    exact Returns.ok ⟨loadedFits, rfl, after⟩

theorem savePageToFile_steady (steady : Steady size holds) (mounted : Over size holds mgr)
    (page : SMDPage) (fits : page.Fits size) :
    Returns (Served size holds) (mgr.savePageToFile page) := by
  obtain ⟨rfl, kept⟩ := mounted
  unfold savePageToFile
  refine Returns.ite (fun _ => ?_) fun _ => Returns.ok ⟨fits, rfl, kept⟩
  refine Returns.bind (SMDPage.push_fits page fits) ?_
  rintro pushed ⟨pushedFits, number, _, room⟩
  refine Returns.bind (fetch_returns _ _ _) fun buffer length => ?_
  rw [SMDPage.getFileOffset, pushedFits.1]
  rw [← number] at room
  refine Returns.bind (steady.saves mgr.device pushed.pageno buffer kept length room) ?_
  rintro ⟨saved, device⟩ after
  exact Returns.ok ⟨⟨rfl, pushedFits.2⟩, rfl, after⟩

theorem appendPage_steady (steady : Steady size holds) (mounted : Over size holds mgr)
    (page : SMDPage) (fits : page.Fits size) :
    Returns (Served size holds) (mgr.appendPage page) := by
  unfold appendPage
  have counted : Over size holds { mgr with m_nPageCnt := uint (mgr.m_nPageCnt + 1) } := mounted
  refine Returns.bind (savePageToFile_steady steady counted _ (page.setNextPageNo_fits _ fits)) ?_
  rintro ⟨linked, held, after⟩ ⟨heldFits, overAfter⟩
  refine Returns.ite (fun _ => ?_) fun _ => Returns.ok ⟨heldFits, overAfter⟩
  have sized : (after.incLastPageNo held.getPageNo (uint (mgr.m_nPageCnt + 1))).m_nPageSize =
      size := overAfter.1
  dsimp only
  rw [sized]
  refine Returns.bind (SMDPage.reset_fits held _ heldFits) ?_
  rintro blank ⟨blankFits, _⟩
  have moved : Over size holds (after.incLastPageNo held.getPageNo (uint (mgr.m_nPageCnt + 1))) :=
    ⟨overAfter.1, overAfter.2⟩
  exact savePageToFile_steady steady moved blank blankFits

theorem getNextPage_steady (steady : Steady size holds) (mounted : Over size holds mgr)
    (page : Option SMDPage) (fits : ∀ held ∈ page, held.Fits size) (pageno : Nat) :
    Returns (Served size holds) (mgr.getNextPage page pageno) := by
  unfold getNextPage
  refine Returns.bind (mgr.pageObject_fits page (by rw [mounted.1]; exact fits))
    fun held heldFits => ?_
  rw [mounted.1] at heldFits
  refine Returns.bind (getPageByPageNo_steady steady mounted (some held) (some_fits heldFits) pageno)
    ?_
  rintro ⟨loaded, page, after⟩ ⟨pageFits, overAfter⟩
  refine Returns.ite (fun _ => ?_) fun _ => Returns.ok ⟨pageFits, overAfter⟩
  exact Returns.ite (fun _ => appendPage_steady steady overAfter page pageFits) fun _ =>
    getPageByPageNo_steady steady overAfter (some page) (some_fits pageFits) _

end SMDPageManagement

/-! ### What a load shows -/

/-- The page object does not hold the page. A missing object is made for page 0xFFFFFFFF. -/
def Elsewhere (page : Option SMDPage) (pageno : Nat) : Prop :=
  page.elim 0xFFFFFFFF SMDPage.getPageNo ≠ pageno

instance (page : Option SMDPage) (pageno : Nat) : Decidable (Elsewhere page pageno) :=
  inferInstanceAs (Decidable (_ ≠ _))

/-- A load through an object that does not hold the page fills it with given bytes exactly when
the page has room for its header and the device shows these bytes. -/
theorem getPageByPageNo_shows_iff (mgr : SMDPageManagement Device) (page : Option SMDPage)
    (fits : ∀ held ∈ page, held.Fits mgr.m_nPageSize) (pageno : Nat)
    (elsewhere : Elsewhere page pageno) (bytes : Bytes) :
    (∃ loaded after, mgr.getPageByPageNo page pageno = .ok (true, loaded, after) ∧
        loaded.data = bytes) ↔
      SMDPage.headOffset pageno + 12 ≤ mgr.m_nPageSize ∧
        ∃ shown device, PageDevice.getPageByNo mgr.device pageno = .ok (some shown, device) ∧
          fetch shown 0 mgr.m_nPageSize = .ok bytes := by
  obtain ⟨held, object, heldFits, other⟩ : ∃ held, mgr.pageObject page = .ok held ∧
      held.Fits mgr.m_nPageSize ∧ held.getPageNo ≠ pageno := by
    cases page with
    | none => exact ⟨_, rfl, ⟨rfl, List.length_replicate⟩, elsewhere⟩
    | some held => exact ⟨held, rfl, fits held rfl, elsewhere⟩
  have copied : ∀ blank : SMDPage, blank.Fits mgr.m_nPageSize → ∀ source : Bytes,
      source.length = mgr.m_nPageSize → memcpy blank.data 0 source = .ok source := by
    intro blank blankFits source length
    rw [memcpy_of_le _ _ _ (by rw [blankFits.2, length]; omega),
      splice_all _ _ (by rw [length, blankFits.2])]
  unfold SMDPageManagement.getPageByPageNo
  rw [object, ok_bind, if_neg other]
  constructor
  · rintro ⟨loaded, after, returned, dataEq⟩
    obtain ⟨blank, reset, returned⟩ := (bind_eq_ok _ _ _).mp returned
    obtain ⟨blankFits, number⟩ := SMDPage.reset_fits held pageno heldFits blank reset
    obtain ⟨⟨data, device⟩, load, returned⟩ := (bind_eq_ok _ _ _).mp returned
    cases data with
    | none => cases returned
    | some shown =>
      obtain ⟨source, fetched, returned⟩ := (bind_eq_ok _ _ _).mp returned
      have length := fetch_returns _ _ _ source fetched
      rw [copied blank blankFits source length, ok_bind] at returned
      obtain ⟨popped, pop, returned⟩ := (bind_eq_ok _ _ _).mp returned
      cases returned
      rcases SMDPage.pop_cases { blank with data := source } with ⟨room, head, equal⟩ | ⟨_, never⟩
      · rw [equal] at pop
        cases pop
        have inside : SMDPage.headOffset pageno + 12 ≤ mgr.m_nPageSize := by
          rw [← number, ← length]
          exact room
        rw [← dataEq]
        exact ⟨inside, shown, device, load, fetched⟩
      · exact absurd pop (never _)
  · rintro ⟨room, shown, device, load, fetched⟩
    have length := fetch_returns _ _ _ bytes fetched
    obtain ⟨blank, reset⟩ : ∃ blank, held.reset mgr.m_nPageSize pageno = .ok blank :=
      SMDPage.checkFirstPage_returns _ (by rw [List.length_replicate, heldFits.2]; exact room)
    obtain ⟨blankFits, number⟩ := SMDPage.reset_fits held pageno heldFits blank reset
    rcases SMDPage.pop_cases { blank with data := bytes } with ⟨_, head, equal⟩ | ⟨small, _⟩
    · refine ⟨{ blank with data := bytes, head := head }, { mgr with device := device }, ?_, rfl⟩
      rw [reset, ok_bind, load, ok_bind]
      dsimp only
      rw [fetched, ok_bind, copied blank blankFits bytes length, ok_bind, equal, ok_bind]
    · dsimp only at small
      rw [length, number] at small
      omega

/-! ### Segments -/

namespace SMDPageFile

variable {mgr : SMDPageManagement Device}

/-- A result that carries a segment object and the allocator. -/
def Filed {Value : Type} (size : Nat) (holds : Device → Prop)
    (result : Value × SMDPageFile × SMDPageManagement Device) : Prop :=
  (∀ page ∈ result.2.1.page, page.Fits size) ∧ Over size holds result.2.2

theorem turnPage_steady (steady : Steady size holds) (mounted : Over size holds mgr)
    (page : SMDPage) (fits : page.Fits size) :
    Returns (fun result => result.1.Fits size ∧ Over size holds result.2)
      (turnPage mgr page) := by
  unfold turnPage
  refine Returns.bind (SMDPageManagement.savePageToFile_steady steady mounted page fits) ?_
  rintro ⟨_, saved, after⟩ ⟨savedFits, overAfter⟩
  refine Returns.bind (SMDPageManagement.getNextPage_steady steady overAfter (some saved)
    (some_fits savedFits) _) ?_
  rintro ⟨_, next, last⟩ ⟨nextFits, overLast⟩
  exact Returns.ok ⟨nextFits, overLast⟩

theorem putHead_fits (sSize : Int) (flag : Bool) (offset : Int) (page : SMDPage) (start : Nat)
    (fits : page.Fits size) :
    Returns (fun result => result.2.Fits size) (putHead sSize flag offset page start) := by
  unfold putHead
  refine Returns.ite (fun _ => ?_) fun _ => Returns.ok fits
  refine Returns.bind (SMDPage.write_fits page _ fits) fun written writtenFits => ?_
  exact Returns.ok writtenFits.1

theorem putLoop_steady (steady : Steady size holds) (minUint : Nat) (sSize : Int) (fuel : Nat)
    (rest : Bytes) (flag : Bool) (offset : Int) (page : SMDPage) (mounted : Over size holds mgr)
    (fits : page.Fits size) :
    Returns (Served size holds) (putLoop minUint sSize fuel rest flag offset page mgr) := by
  induction fuel generalizing rest flag offset page mgr with
  | zero =>
    cases rest with
    | nil => exact Returns.ok ⟨fits, mounted⟩
    | cons byte bytes => exact Returns.error _
  | succ fuel hypothesis =>
    cases rest with
    | nil => exact Returns.ok ⟨fits, mounted⟩
    | cons byte bytes =>
      unfold putLoop
      refine Returns.ite (fun _ => ?_) fun _ => ?_
      · refine Returns.bind (turnPage_steady steady mounted page fits) ?_
        rintro ⟨next, after⟩ ⟨nextFits, overAfter⟩
        refine Returns.bind (putHead_fits _ _ _ next _ nextFits) ?_
        rintro ⟨place, headed⟩ headedFits
        exact hypothesis _ _ _ headed overAfter headedFits
      · refine Returns.bind (putHead_fits _ _ _ page _ fits) ?_
        rintro ⟨place, headed⟩ headedFits
        refine Returns.bind (SMDPage.write_fits headed _ headedFits) ?_
        rintro written ⟨writtenFits, _⟩
        split
        · exact Returns.ok ⟨writtenFits, mounted⟩
        · refine Returns.bind (turnPage_steady steady mounted written writtenFits) ?_
          rintro ⟨next, after⟩ ⟨nextFits, overAfter⟩
          exact hypothesis _ _ _ next overAfter nextFits

theorem put_steady (steady : Steady size holds) (mounted : Over size holds mgr) (file : SMDPageFile)
    (fits : ∀ page ∈ file.page, page.Fits size) (stream : SMDMemStream) :
    Returns (Filed size holds) (file.put mgr stream) := by
  unfold put
  refine Returns.ite (fun _ => Returns.ok ⟨fits, mounted⟩) fun _ => ?_
  refine Returns.bind (SMDPageManagement.getPageByPageNo_steady steady mounted _ fits _) ?_
  rintro ⟨loaded, page, after⟩ ⟨pageFits, overAfter⟩
  refine Returns.ite (fun _ => ?_) fun _ => Returns.ok ⟨some_fits pageFits, overAfter⟩
  refine Returns.ite (fun _ => ?_) fun _ => ?_
  · refine Returns.bind (SMDPage.write_fits page _ pageFits) ?_
    rintro headed ⟨headedFits, _⟩
    refine Returns.bind (SMDPage.write_fits headed _ headedFits) ?_
    rintro written ⟨writtenFits, _⟩
    refine Returns.bind (SMDPageManagement.savePageToFile_steady steady overAfter written
      writtenFits) ?_
    rintro ⟨_, saved, last⟩ ⟨savedFits, overLast⟩
    exact Returns.ok ⟨some_fits savedFits, overLast⟩
  · refine Returns.bind (putLoop_steady steady _ _ _ _ _ _ page overAfter pageFits) ?_
    rintro ⟨offset, written, next⟩ ⟨writtenFits, overNext⟩
    refine Returns.bind (SMDPageManagement.savePageToFile_steady steady overNext written
      writtenFits) ?_
    rintro ⟨_, saved, last⟩ ⟨savedFits, overLast⟩
    exact Returns.ok ⟨some_fits savedFits, overLast⟩

theorem getStart_steady (steady : Steady size holds) (mounted : Over size holds mgr)
    (file : SMDPageFile) (fits : ∀ page ∈ file.page, page.Fits size) (offset : Int) :
    Returns (Served size holds) (file.getStart mgr offset) := by
  unfold getStart
  refine Returns.ite (fun _ => ?_) fun _ => ?_
  · refine Returns.bind (SMDPageManagement.getPageByPageNo_steady steady mounted _ fits _) ?_
    rintro ⟨_, page, after⟩ served
    exact Returns.ok served
  · unfold SMDPageManagement.getPageByOffset
    refine Returns.bind (SMDPageManagement.getPageByPageNo_steady steady mounted _ fits _) ?_
    rintro ⟨loaded, page, after⟩ served
    exact Returns.ok served

theorem getSkip_steady (steady : Steady size holds) (mounted : Over size holds mgr)
    (minUint offset : Nat) (page : SMDPage) (fits : page.Fits size) :
    Returns (Served size holds) (getSkip minUint offset page mgr) := by
  unfold getSkip
  refine Returns.ite (fun _ => ?_) fun _ => Returns.ok ⟨fits, mounted⟩
  refine Returns.bind (SMDPageManagement.getNextPage_steady steady mounted (some page)
    (some_fits fits) _) ?_
  rintro ⟨_, next, after⟩ served
  exact Returns.ok served

theorem getLoop_steady (steady : Steady size holds) (nSize fuel offset i : Nat)
    (stream : SMDMemStream) (page : SMDPage) (mounted : Over size holds mgr) (fits : page.Fits size) :
    Returns (Served size holds) (getLoop nSize fuel offset i stream page mgr) := by
  induction fuel generalizing offset i stream page mgr with
  | zero =>
    unfold getLoop
    exact Returns.ite (fun _ => Returns.ok ⟨fits, mounted⟩) fun _ => Returns.error _
  | succ fuel hypothesis =>
    unfold getLoop
    refine Returns.ite (fun _ => Returns.ok ⟨fits, mounted⟩) fun _ => ?_
    refine Returns.bind (Returns.any _) fun bytes _ => ?_
    refine Returns.bind (Returns.any _) fun data _ => ?_
    refine Returns.ite (fun _ => Returns.ok ⟨fits, mounted⟩) fun _ => ?_
    refine Returns.bind (SMDPageManagement.getNextPage_steady steady mounted (some page)
      (some_fits fits) _) ?_
    rintro ⟨_, next, after⟩ ⟨nextFits, overAfter⟩
    exact hypothesis _ _ _ next overAfter nextFits

theorem get_steady (steady : Steady size holds) (mounted : Over size holds mgr) (file : SMDPageFile)
    (fits : ∀ page ∈ file.page, page.Fits size) (stream : SMDMemStream) (offset : Int) :
    Returns (fun result => Over size holds result.2.2.2) (file.get mgr stream offset) := by
  unfold get
  refine Returns.bind (getStart_steady steady mounted file fits offset) ?_
  rintro ⟨start, page, after⟩ ⟨pageFits, overAfter⟩
  cases start with
  | none => exact Returns.ok overAfter
  | some start =>
    refine Returns.bind (getSkip_steady steady overAfter _ _ page pageFits) ?_
    rintro ⟨place, skipped, next⟩ ⟨skippedFits, overNext⟩
    refine Returns.bind (Returns.any _) fun nSize _ => ?_
    refine Returns.bind (getLoop_steady steady _ _ _ _ _ skipped overNext skippedFits) ?_
    rintro ⟨read, last, final⟩ ⟨_, overFinal⟩
    exact Returns.ok overFinal

theorem clearLoop_steady (steady : Steady size holds) (fuel : Nat) (page : SMDPage)
    (mounted : Over size holds mgr) (fits : page.Fits size) :
    Returns (fun result => result.1.Fits size ∧ Over size holds result.2)
      (clearLoop fuel page mgr) := by
  induction fuel generalizing page mgr with
  | zero => exact Returns.error _
  | succ fuel hypothesis =>
    unfold clearLoop
    refine Returns.bind (SMDPage.freeSpace_fits page fits) ?_
    rintro freed ⟨freedFits, _⟩
    refine Returns.bind (SMDPageManagement.savePageToFile_steady steady mounted freed freedFits) ?_
    rintro ⟨_, saved, after⟩ ⟨savedFits, overAfter⟩
    refine Returns.ite (fun _ => Returns.ok ⟨savedFits, overAfter⟩) fun _ => ?_
    refine Returns.bind (SMDPageManagement.getNextPage_steady steady overAfter (some saved)
      (some_fits savedFits) _) ?_
    rintro ⟨moved, next, last⟩ ⟨nextFits, overLast⟩
    exact Returns.ite (fun _ => hypothesis next overLast nextFits) fun _ =>
      Returns.ok ⟨nextFits, overLast⟩

theorem clearPage_steady (steady : Steady size holds) (mounted : Over size holds mgr)
    (file : SMDPageFile) (fits : ∀ page ∈ file.page, page.Fits size) :
    Returns (Filed size holds) (file.clearPage mgr) := by
  unfold clearPage
  refine Returns.bind (SMDPageManagement.getPageByPageNo_steady steady mounted _ fits _) ?_
  rintro ⟨_, page, after⟩ ⟨pageFits, overAfter⟩
  refine Returns.bind (clearLoop_steady steady _ page overAfter pageFits) ?_
  rintro ⟨last, final⟩ ⟨lastFits, overFinal⟩
  exact Returns.ok ⟨some_fits lastFits, overFinal⟩

end SMDPageFile

/-! ### The page table and new segments -/

namespace SMDPageManagement

variable {mgr : SMDPageManagement Device}

theorem saveInnerInfoToFile_steady (steady : Steady size holds) (mounted : Over size holds mgr) :
    Returns (fun result => Over size holds result.2) mgr.saveInnerInfoToFile := by
  unfold saveInnerInfoToFile
  split
  · exact Returns.ok mounted
  · rename_i file found
    have blank : ∀ page ∈ file.page, page.Fits size := by
      obtain ⟨value, _, equal⟩ := Option.map_eq_some_iff.mp found
      rw [← equal]
      intro page member
      cases member
    refine Returns.bind (Returns.any _) fun stream _ => ?_
    refine Returns.bind (SMDPageFile.clearPage_steady steady mounted file blank) ?_
    rintro ⟨_, cleared, after⟩ ⟨clearedFits, overAfter⟩
    refine Returns.bind (SMDPageFile.put_steady steady overAfter cleared clearedFits stream) ?_
    rintro ⟨_, written, last⟩ ⟨_, overLast⟩
    exact Returns.ok overLast

theorem createPageFile_steady (steady : Steady size holds) (mounted : Over size holds mgr)
    (enumType : SegType) (sTableName : Bytes) (minUnit : Nat) :
    Returns (fun result => Over size holds result.2)
      (mgr.createPageFile enumType sTableName minUnit) := by
  unfold createPageFile
  dsimp only
  split
  · exact Returns.ok mounted
  · have enrolled : Over size holds { mgr with
        m_nPageCnt := uint (mgr.m_nPageCnt + 1)
        m_PageInfo := mgr.m_PageInfo.insert ⟨enumType, sTableName⟩
          ⟨0, max minUnit 4, uint (mgr.m_nPageCnt + 1), uint (mgr.m_nPageCnt + 1)⟩ } := mounted
    refine Returns.bind (saveInnerInfoToFile_steady steady enrolled) ?_
    rintro ⟨stored, after⟩ ⟨sized, kept⟩
    refine Returns.ite (fun _ => ?_) fun _ => Returns.ok ⟨sized, kept⟩
    dsimp only at sized
    rw [sized]
    refine Returns.bind (SMDPage.new_fits after.m_nPageCnt) ?_
    rintro page ⟨pageFits, _⟩
    refine Returns.bind (savePageToFile_steady steady ⟨sized, kept⟩ page pageFits) ?_
    rintro ⟨saved, written, last⟩ ⟨_, overLast⟩
    exact Returns.ok overLast

end SMDPageManagement

end LevelDBLib.KvDB
