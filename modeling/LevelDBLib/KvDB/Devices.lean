/-
This file compares the page allocator on two devices. When the loads of the two
devices agree on the bytes of a page, and their saves on the answer, reading a
segment gives the same string on both. The comparison speaks only of calls that
return on both devices, so a device may stop with a fault where it has nothing
to say.
-/

import LevelDBLib.Library.Agreements
import LevelDBLib.KvDB.PageManagement

namespace LevelDBLib.KvDB

open Agreements

variable {One Two : Type}

/-! ### Allocators side by side -/

namespace SMDPageManagement

/-- The same allocator over another device. -/
def onDevice (mgr : SMDPageManagement One) (device : Two) : SMDPageManagement Two where
  m_PageInfo := mgr.m_PageInfo
  m_nPageSize := mgr.m_nPageSize
  m_nPageCnt := mgr.m_nPageCnt
  externAttributes := mgr.externAttributes
  device := device

end SMDPageManagement

/-- Two allocators that differ in the device at most, for pages of `size` bytes. -/
def Paired (size : Nat) (related : One → Two → Prop) (one : SMDPageManagement One)
    (two : SMDPageManagement Two) : Prop :=
  one.m_nPageSize = size ∧ related one.device two.device ∧ two = one.onDevice two.device

/-- The results of two calls: the same values, and allocators that are paired. -/
def PairedWith {Value Object : Type} (size : Nat) (related : One → Two → Prop)
    (first : Value × Object × SMDPageManagement One)
    (second : Value × Object × SMDPageManagement Two) : Prop :=
  first.1 = second.1 ∧ first.2.1 = second.2.1 ∧ Paired size related first.2.2 second.2.2

theorem Paired.mk {size : Nat} {related : One → Two → Prop} (mgr : SMDPageManagement One)
    (device : Two) (sized : mgr.m_nPageSize = size) (alike : related mgr.device device) :
    Paired size related mgr (mgr.onDevice device) :=
  ⟨sized, alike, rfl⟩

theorem pageObject_onDevice (mgr : SMDPageManagement One) (device : Two) (page : Option SMDPage) :
    (mgr.onDevice device).pageObject page = mgr.pageObject page := by
  cases page <;> rfl

/-- Two loads of a page of `size` bytes: both find none, or both find the same bytes. -/
def SameLoad (size : Nat) (one two : Option Bytes) : Prop :=
  one = none ∧ two = none ∨
    ∃ first second, one = some first ∧ two = some second ∧
      Agree Eq (fetch first 0 size) (fetch second 0 size)

/-- A relation of two devices that their calls keep. -/
structure Mirrors [PageDevice One] [PageDevice Two] (size : Nat) (related : One → Two → Prop) :
    Prop where
  loads : ∀ one two pageno, related one two →
    Agree (fun first second => SameLoad size first.1 second.1 ∧ related first.2 second.2)
      (PageDevice.getPageByNo one pageno) (PageDevice.getPageByNo two pageno)
  saves : ∀ one two pageno offset bytes, related one two →
    Agree (fun first second => first.1 = second.1 ∧ related first.2 second.2)
      (PageDevice.save one pageno offset bytes) (PageDevice.save two pageno offset bytes)

variable [PageDevice One] [PageDevice Two] {size : Nat} {related : One → Two → Prop}
  {one : SMDPageManagement One} {two : SMDPageManagement Two}

/-! ### Pages -/

theorem getPageByPageNo_agree (mirrors : Mirrors size related) (paired : Paired size related one two)
    (page : Option SMDPage) (pageno : Nat) :
    Agree (PairedWith size related) (one.getPageByPageNo page pageno)
      (two.getPageByPageNo page pageno) := by
  obtain ⟨sized, alike, same⟩ := paired
  rw [same]
  unfold SMDPageManagement.getPageByPageNo
  rw [pageObject_onDevice]
  refine Agree.bind (Agree.refl _) ?_
  rintro held _ rfl
  refine Agree.ite (fun _ => Agree.ok ⟨rfl, rfl, Paired.mk one two.device sized alike⟩) fun _ => ?_
  refine Agree.bind (Agree.refl _) ?_
  rintro blank _ rfl
  refine Agree.bind (mirrors.loads one.device two.device pageno alike) ?_
  rintro ⟨data, deviceOne⟩ ⟨other, deviceTwo⟩ ⟨load, after⟩
  rcases load with ⟨rfl, rfl⟩ | ⟨first, second, rfl, rfl, bytes⟩
  · exact Agree.ok ⟨rfl, rfl,
      Paired.mk { one with device := deviceOne } deviceTwo sized after⟩
  · refine Agree.bind (by rw [show (one.onDevice two.device).m_nPageSize = size from sized, sized]
                          exact bytes) ?_
    rintro source _ rfl
    refine Agree.bind (Agree.refl _) ?_
    rintro data _ rfl
    refine Agree.bind (Agree.refl _) ?_
    rintro loaded _ rfl
    exact Agree.ok ⟨rfl, rfl, Paired.mk { one with device := deviceOne } deviceTwo sized after⟩

theorem savePageToFile_agree (mirrors : Mirrors size related) (paired : Paired size related one two)
    (page : SMDPage) :
    Agree (PairedWith size related) (one.savePageToFile page) (two.savePageToFile page) := by
  obtain ⟨sized, alike, same⟩ := paired
  rw [same]
  unfold SMDPageManagement.savePageToFile
  refine Agree.ite (fun _ => ?_) fun _ =>
    Agree.ok ⟨rfl, rfl, Paired.mk one two.device sized alike⟩
  refine Agree.bind (Agree.refl _) ?_
  rintro pushed _ rfl
  refine Agree.bind (Agree.refl _) ?_
  rintro buffer _ rfl
  refine Agree.bind (mirrors.saves one.device two.device _ _ _ alike) ?_
  rintro ⟨saved, deviceOne⟩ ⟨_, deviceTwo⟩ ⟨rfl, after⟩
  exact Agree.ok ⟨rfl, rfl, Paired.mk { one with device := deviceOne } deviceTwo sized after⟩

theorem appendPage_agree (mirrors : Mirrors size related) (paired : Paired size related one two)
    (page : SMDPage) :
    Agree (PairedWith size related) (one.appendPage page) (two.appendPage page) := by
  obtain ⟨sized, alike, same⟩ := paired
  rw [same]
  unfold SMDPageManagement.appendPage
  refine Agree.bind (savePageToFile_agree mirrors
    (Paired.mk { one with m_nPageCnt := uint (one.m_nPageCnt + 1) } two.device sized alike) _) ?_
  rintro ⟨linked, held, after⟩ ⟨_, _, afterTwo⟩ ⟨rfl, rfl, sizedAfter, alikeAfter, sameAfter⟩
  have equal : afterTwo = after.onDevice afterTwo.device := sameAfter
  rw [equal]
  refine Agree.ite (fun _ => ?_) fun _ =>
    Agree.ok ⟨rfl, rfl, Paired.mk after afterTwo.device sizedAfter alikeAfter⟩
  refine Agree.bind (Agree.refl _) ?_
  rintro blank _ rfl
  exact savePageToFile_agree mirrors
    (Paired.mk (after.incLastPageNo _ _) afterTwo.device sizedAfter alikeAfter) blank

theorem getNextPage_agree (mirrors : Mirrors size related) (paired : Paired size related one two)
    (page : Option SMDPage) (pageno : Nat) :
    Agree (PairedWith size related) (one.getNextPage page pageno)
      (two.getNextPage page pageno) := by
  obtain ⟨sized, alike, same⟩ := paired
  rw [same]
  unfold SMDPageManagement.getNextPage
  rw [pageObject_onDevice]
  refine Agree.bind (Agree.refl _) ?_
  rintro held _ rfl
  refine Agree.bind (getPageByPageNo_agree mirrors (Paired.mk one two.device sized alike) _ _) ?_
  rintro ⟨loaded, page, after⟩ ⟨_, _, afterTwo⟩ ⟨rfl, rfl, pairedAfter⟩
  refine Agree.ite (fun _ => ?_) fun _ => Agree.ok ⟨rfl, rfl, pairedAfter⟩
  exact Agree.ite (fun _ => appendPage_agree mirrors pairedAfter page) fun _ =>
    getPageByPageNo_agree mirrors pairedAfter _ _

/-! ### Reading a segment -/

theorem getStart_agree (mirrors : Mirrors size related) (paired : Paired size related one two)
    (file : SMDPageFile) (offset : Int) :
    Agree (PairedWith size related) (file.getStart one offset) (file.getStart two offset) := by
  obtain ⟨sized, alike, same⟩ := paired
  rw [same]
  unfold SMDPageFile.getStart
  refine Agree.ite (fun _ => ?_) fun _ => ?_
  · refine Agree.bind (getPageByPageNo_agree mirrors (Paired.mk one two.device sized alike) _ _) ?_
    rintro ⟨_, page, after⟩ ⟨_, _, afterTwo⟩ ⟨rfl, rfl, pairedAfter⟩
    exact Agree.ok ⟨rfl, rfl, pairedAfter⟩
  · refine Agree.bind (getPageByPageNo_agree mirrors (Paired.mk one two.device sized alike) _ _) ?_
    rintro ⟨loaded, page, after⟩ ⟨_, _, afterTwo⟩ ⟨rfl, rfl, pairedAfter⟩
    exact Agree.ok ⟨rfl, rfl, pairedAfter⟩

theorem getSkip_agree (mirrors : Mirrors size related) (paired : Paired size related one two)
    (minUint offset : Nat) (page : SMDPage) :
    Agree (PairedWith size related) (SMDPageFile.getSkip minUint offset page one)
      (SMDPageFile.getSkip minUint offset page two) := by
  unfold SMDPageFile.getSkip
  refine Agree.ite (fun _ => ?_) fun _ => Agree.ok ⟨rfl, rfl, paired⟩
  refine Agree.bind (getNextPage_agree mirrors paired _ _) ?_
  rintro ⟨_, next, after⟩ ⟨_, _, afterTwo⟩ ⟨rfl, rfl, pairedAfter⟩
  exact Agree.ok ⟨rfl, rfl, pairedAfter⟩

theorem getLoop_agree (mirrors : Mirrors size related) (nSize fuel offset i : Nat)
    (stream : SMDMemStream) (page : SMDPage) (paired : Paired size related one two) :
    Agree (PairedWith size related) (SMDPageFile.getLoop nSize fuel offset i stream page one)
      (SMDPageFile.getLoop nSize fuel offset i stream page two) := by
  induction fuel generalizing offset i stream page one two with
  | zero =>
    unfold SMDPageFile.getLoop
    exact Agree.ite (fun _ => Agree.ok ⟨rfl, rfl, paired⟩) fun _ => Agree.error_left _ _
  | succ fuel hypothesis =>
    unfold SMDPageFile.getLoop
    refine Agree.ite (fun _ => Agree.ok ⟨rfl, rfl, paired⟩) fun _ => ?_
    refine Agree.bind (Agree.refl _) ?_
    rintro bytes _ rfl
    refine Agree.bind (Agree.refl _) ?_
    rintro data _ rfl
    refine Agree.ite (fun _ => Agree.ok ⟨rfl, rfl, paired⟩) fun _ => ?_
    refine Agree.bind (getNextPage_agree mirrors paired _ _) ?_
    rintro ⟨_, next, after⟩ ⟨_, _, afterTwo⟩ ⟨rfl, rfl, pairedAfter⟩
    exact hypothesis _ _ _ _ pairedAfter

/-- The string read from a segment is the same on both devices. -/
theorem get_agree (mirrors : Mirrors size related) (paired : Paired size related one two)
    (file : SMDPageFile) (stream : SMDMemStream) (offset : Int) :
    Agree (fun first second => first.1 = second.1 ∧ first.2.1 = second.2.1 ∧
        first.2.2.1 = second.2.2.1 ∧ Paired size related first.2.2.2 second.2.2.2)
      (file.get one stream offset) (file.get two stream offset) := by
  unfold SMDPageFile.get
  refine Agree.bind (getStart_agree mirrors paired file offset) ?_
  rintro ⟨start, page, after⟩ ⟨_, _, afterTwo⟩ ⟨rfl, rfl, pairedAfter⟩
  cases start with
  | none => exact Agree.ok ⟨rfl, rfl, rfl, pairedAfter⟩
  | some start =>
    refine Agree.bind (getSkip_agree mirrors pairedAfter _ _ page) ?_
    rintro ⟨begin', skipped, skippedOne⟩ ⟨_, _, skippedTwo⟩ ⟨rfl, rfl, pairedSkipped⟩
    refine Agree.bind (Agree.refl _) ?_
    rintro nSize _ rfl
    refine Agree.bind (getLoop_agree mirrors _ _ _ _ _ skipped pairedSkipped) ?_
    rintro ⟨read, last, lastOne⟩ ⟨_, _, lastTwo⟩ ⟨rfl, rfl, pairedLast⟩
    exact Agree.ok ⟨rfl, rfl, rfl, pairedLast⟩

end LevelDBLib.KvDB
