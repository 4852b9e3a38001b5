/-
This file proves what `SMDPageFile::clearPage` does: it empties every page of the
chain of its segment and keeps the links, so the chain stays as long as it was.
-/

import Mathlib.Data.List.Perm.Subperm
import LevelDBLib.KvDB.ReadBack

namespace LevelDBLib.KvDB

open Buffers Tapes

variable {Device : Type} [CoherentDevice Device]

/-- The map with the pages of a chain emptied. -/
def PageMap.cleared (pages : PageMap) (chain : List Nat) : PageMap := fun pageno =>
  if pageno ∈ chain then (pages pageno).map PageView.freed else pages pageno

namespace PageMap

theorem cleared_outside (pages : PageMap) (chain : List Nat) (pageno : Nat)
    (outside : pageno ∉ chain) : pages.cleared chain pageno = pages pageno := if_neg outside

theorem cleared_inside (pages : PageMap) (chain : List Nat) (pageno : Nat) (view : PageView)
    (inside : pageno ∈ chain) (known : pages pageno = some view) :
    pages.cleared chain pageno = some view.freed := by
  rw [cleared, if_pos inside, known, Option.map_some]

/-- Emptying a chain is emptying its first page and then the rest. -/
theorem cleared_cons (pages : PageMap) (pageno : Nat) (rest : List Nat) (view : PageView)
    (known : pages pageno = some view) (apart : pageno ∉ rest) :
    (pages.put pageno view.freed).cleared rest = pages.cleared (pageno :: rest) := by
  funext other
  by_cases same : other = pageno
  · subst same
    rw [cleared_outside _ _ _ apart, put_self,
      cleared_inside pages _ other view List.mem_cons_self known]
  · by_cases inRest : other ∈ rest
    · rw [cleared, cleared, if_pos inRest, if_pos (List.mem_cons_of_mem _ inRest),
        put_other _ _ _ _ same]
    · rw [cleared_outside _ _ _ inRest, put_other _ _ _ _ same, cleared_outside]
      rw [List.mem_cons, not_or]
      exact ⟨same, inRest⟩

end PageMap

theorem chain_cleared {pages : PageMap} {chain : List Nat} (whole : List Nat)
    (linked : Chain pages chain) (inside : ∀ pageno ∈ chain, pageno ∈ whole) :
    Chain (pages.cleared whole) chain := by
  induction chain with
  | nil => exact linked
  | cons pageno rest inductionHypothesis =>
    cases rest with
    | nil =>
      obtain ⟨view, known, last⟩ := linked
      exact ⟨view.freed,
        pages.cleared_inside whole pageno view (inside pageno List.mem_cons_self) known, last⟩
    | cons next rest =>
      obtain ⟨⟨view, known, link⟩, tail⟩ := linked
      exact ⟨⟨view.freed, pages.cleared_inside whole pageno view
        (inside pageno List.mem_cons_self) known, link⟩,
        inductionHypothesis tail fun other member => inside other (List.mem_cons_of_mem _ member)⟩

namespace SMDPageFile

/-- The loop of `clearPage` empties the pages from its page object on. -/
theorem clearLoop_spec (fuel : Nat) :
    ∀ (after : List Nat) (page : SMDPage) (mgr : SMDPageManagement Device) (pages : PageMap),
      Pending mgr.device mgr.m_nPageSize pages page → 28 ≤ mgr.m_nPageSize →
      Chain pages (page.pageno :: after) → (page.pageno :: after).Nodup → after.length < fuel →
      ∃ last device,
        clearLoop fuel page mgr = .ok (last, { mgr with device := device }) ∧
        last.pageno ∈ page.pageno :: after ∧
        Pending device mgr.m_nPageSize (pages.cleared (page.pageno :: after)) last ∧
        Stores device mgr.m_nPageSize (pages.cleared (page.pageno :: after)) ∧
        SavedIn mgr.device device (page.pageno :: after) := by
  induction fuel with
  | zero =>
    intro after page mgr pages _ _ _ _ enough
    cases enough
  | succ fuel inductionHypothesis =>
    intro after page mgr pages pending room chain distinct enough
    obtain ⟨freed, freedEq, number, viewEq, freedPending⟩ :=
      freeSpace_pending mgr.device mgr.m_nPageSize pages page pending
    obtain ⟨saved, device, savedEq, savedNo, savedView, savedPending, stores, saves⟩ :=
      mgr.savePageToFile_spec _ freed freedPending
    have apart : page.pageno ∉ after := (List.nodup_cons.mp distinct).1
    rw [number] at savedNo saves
    rw [viewEq] at savedView
    rw [clearLoop, freedEq, ok_bind, savedEq, ok_bind]
    cases after with
    | nil =>
      obtain ⟨view, known, last⟩ := chain
      rw [pending.seen] at known
      cases known
      have lastPage : saved.isLastPage = true := by
        rw [SMDPage.isLastPage, beq_iff_eq]
        show saved.view.next = noNextPage
        rw [savedView]
        exact last
      have cleared := pages.cleared_cons page.pageno [] page.view pending.seen apart
      have same : (pages.put page.pageno page.view.freed).cleared [] =
          pages.put page.pageno page.view.freed :=
        funext fun other => PageMap.cleared_outside _ _ _ List.not_mem_nil
      rw [← cleared, same]
      exact ⟨saved, device, by simp only [lastPage, if_true], List.mem_singleton.mpr savedNo,
        savedPending, stores, saves⟩
    | cons next rest =>
      obtain ⟨view, known, link, valid⟩ := (chain : (_ ∧ _)).1
      rw [pending.seen] at known
      cases known
      have nextNe : next ≠ page.pageno := fun equal => apart (by
        rw [equal]
        exact List.mem_cons_self)
      obtain ⟨nextView, nextKnown⟩ := chain.2.known List.mem_cons_self
      have savedNext : saved.view.next = next := by
        rw [savedView]
        exact link
      have notLast : ¬ saved.isLastPage = true := by
        rw [SMDPage.isLastPage, beq_iff_eq]
        show ¬ saved.view.next = noNextPage
        rw [savedNext]
        exact valid
      obtain ⟨turned, turnedDevice, turnEq, turnedNo, turnedView, turnedPending, _, same⟩ :=
        SMDPageManagement.getNextPage_middle { mgr with device := device } _ saved nextView stores
          savedPending room (by rw [savedNext]; exact valid)
          (by rw [savedNext, PageMap.put_other _ _ _ _ nextNe]; exact nextKnown)
      rw [savedNext] at turnedNo
      have tail : Chain (pages.put page.pageno page.view.freed) (turned.pageno :: rest) := by
        rw [turnedNo]
        refine chain.2.congr fun other member => PageMap.put_other _ _ _ _ fun equal => ?_
        exact apart (by rw [← equal]; exact member)
      obtain ⟨ended, final, loopEq, endNo, endPending, endStores, endSaves⟩ :=
        inductionHypothesis rest turned { mgr with device := turnedDevice } _ turnedPending room tail
          (by rw [turnedNo]; exact (List.nodup_cons.mp distinct).2)
          (by rw [List.length_cons] at enough; omega)
      rw [turnedNo, PageMap.cleared_cons _ _ _ _ pending.seen apart] at endPending endStores
      rw [turnedNo] at endSaves endNo
      refine ⟨ended, final, ?_, List.mem_cons_of_mem _ endNo, endPending, endStores, (saves.mono ?_).trans
        (((SavedIn.of_saves_eq _ same).trans endSaves).mono ?_)⟩
      · simp only [notLast, Bool.false_eq_true, if_false, SMDPage.getPageNo]
        rw [turnEq, ok_bind]
        exact loopEq
      · intro other member
        rw [List.mem_singleton.mp member]
        exact List.mem_cons_self
      · exact fun other member => List.mem_cons_of_mem _ member

/-- A chain is not longer than there are pages. -/
theorem length_chain_le (chain : List Nat) (count : Nat) (distinct : chain.Nodup)
    (allocated : ∀ pageno ∈ chain, pageno ≤ count) : chain.length ≤ count + 1 := by
  have subset : chain ⊆ List.range (count + 1) := fun pageno member =>
    List.mem_range.mpr (Nat.lt_succ_of_le (allocated pageno member))
  have le := (List.subperm_of_subset distinct subset).length_le
  rwa [List.length_range] at le

/-- `clearPage` empties the pages of the chain of its segment. -/
theorem clearPage_spec (file : SMDPageFile) (mgr : SMDPageManagement Device) (pages : PageMap)
    (value : PageNo_t) (after : List Nat) (serves : Serves mgr pages file value)
    (chain : Chain pages (value.nRootPageNo :: after))
    (distinct : (value.nRootPageNo :: after).Nodup)
    (allocated : ∀ pageno ∈ value.nRootPageNo :: after, pageno ≤ mgr.m_nPageCnt) :
    ∃ page device,
      file.clearPage mgr =
        .ok (true, { file with page := some page }, { mgr with device := device }) ∧
      page.pageno ∈ value.nRootPageNo :: after ∧
      HeldIn (pages.cleared (value.nRootPageNo :: after)) mgr.m_nPageSize (some page) ∧
      Stores device mgr.m_nPageSize (pages.cleared (value.nRootPageNo :: after)) ∧
      SavedIn mgr.device device (value.nRootPageNo :: after) := by
  obtain ⟨view, known⟩ := chain.known List.mem_cons_self
  have countLt := serves.countLt
  have rootLe := allocated value.nRootPageNo List.mem_cons_self
  obtain ⟨page, device, loaded, number, viewEq, pending, _, same⟩ :=
    mgr.getPageByPageNo_spec pages file.page value.nRootPageNo view serves.sizeLt serves.room
      serves.stores serves.held known (by omega)
  have firstEq : uint (mgr.getFirstPageNo file.key) = value.nRootPageNo := by
    rw [SMDPageManagement.getFirstPageNo, serves.found]
    simp only
    rw [uint_int, uint_of_lt _ (by omega)]
  have lengthLe := length_chain_le _ _ distinct allocated
  rw [List.length_cons] at lengthLe
  rw [← number] at chain distinct
  obtain ⟨last, final, loopEq, endNo, endPending, stores, saves⟩ := clearLoop_spec
    (mgr.m_nPageCnt + 2) after page { mgr with device := device } pages pending serves.room chain
    distinct (by omega)
  rw [number] at endNo endPending stores saves
  refine ⟨last, final, ?_, endNo, ?_, stores, (SavedIn.of_saves_eq _ same).trans saves⟩
  · rw [clearPage, firstEq, loaded, ok_bind]
    simp only [loopEq, ok_bind]
  · rintro _ equal
    cases equal
    exact ⟨endPending.formed, endPending.seen⟩

end SMDPageFile

end LevelDBLib.KvDB
