/-
This file is about the pages of a file that grows: which segment owns which page,
in every state that an open allocator reaches.

`PageOwnership` is read off the file itself. It holds as long as the page table
fits on the last page of its own segment whenever a segment is created. When it
does not, `createPageFile` saves the table in the middle of an allocation: the
table takes the page behind the new root page, the counter moves on, and the page
written in the end is not the root page but the last page of the table.
-/

import LevelDBLib.Library.Runs
import LevelDBLib.KvDB.Segments
import LevelDBLib.KvDB.Overwrite
import LevelDBLib.KvDB.PageTable

namespace LevelDBLib.KvDB

open Buffers Tapes Runs

variable {Device : Type} [CoherentDevice Device]

/-! ### The file -/

/-- The pages of the file behind an allocator. -/
def filePages (mgr : SMDPageManagement Device) : PageMap := fun pageno =>
  (CoherentDevice.contents mgr.device pageno).map (viewOf pageno)

/-- The pages of the segment with the given entry, read off the links in the file: from the root
page upwards to the registered last page, which is the only one without a next page. -/
structure OwnedChain (mgr : SMDPageManagement Device) (value : PageNo_t) (chain : List Nat) :
    Prop where
  root : chain.head? = some value.nRootPageNo
  last : chain.getLast? = some value.nLastPageNo
  linked : Chain (filePages mgr) chain
  upward : chain.Pairwise (· < ·)

/-- Every allocated page lies on the chain of exactly one segment. -/
structure PageOwnership (mgr : SMDPageManagement Device) (chains : PageKey_t → List Nat) :
    Prop where
  owned : ∀ key value, mgr.m_PageInfo.find key = some value → OwnedChain mgr value (chains key)
  unique : ∀ pageno ≤ mgr.m_nPageCnt,
    ∃! key, (mgr.m_PageInfo.find key).isSome ∧ pageno ∈ chains key

/-- The segments that a call is about. Creating a segment saves the page table, too. -/
def Request.segments : Request → List PageKey_t
  | .createPageFile enumType sTableName _ =>
    [⟨enumType, sTableName⟩, SMDPageManagement.pageTableKey]
  | .put key _ => [key]
  | .putAt key _ _ => [key]
  | .get key _ => [key]
  | .clearPage key => [key]
  | .save => [SMDPageManagement.pageTableKey]

/-- Between two states of a file, only pages that belong to segments of the list were saved. -/
def SavesOnly (before after : SMDPageManagement Device) (chains : PageKey_t → List Nat)
    (segments : List PageKey_t) : Prop :=
  ∃ log, CoherentDevice.saves after.device = CoherentDevice.saves before.device ++ log ∧
    ∀ pageno ∈ log, ∃ key ∈ segments, pageno ∈ chains key

theorem Stores.filePages {mgr : SMDPageManagement Device} {pages : PageMap}
    (stores : Stores mgr.device mgr.m_nPageSize pages) (pageno : Nat) (view : PageView)
    (known : pages pageno = some view) : filePages mgr pageno = some view := by
  obtain ⟨bytes, held, _, seen, _⟩ := stores pageno view known
  rw [KvDB.filePages, held, Option.map_some, seen]

theorem Chain.mono {pages other : PageMap} {chain : List Nat} (linked : Chain pages chain)
    (more : ∀ pageno view, pages pageno = some view → other pageno = some view) :
    Chain other chain := by
  induction chain with
  | nil => exact linked
  | cons pageno rest inductionHypothesis =>
    cases rest with
    | nil =>
      obtain ⟨view, known, last⟩ := linked
      exact ⟨view, more _ _ known, last⟩
    | cons next rest =>
      obtain ⟨⟨view, known, link⟩, tail⟩ := linked
      exact ⟨⟨view, more _ _ known, link⟩, inductionHypothesis tail⟩

/-- The links determine the chain behind a page. -/
theorem Chain.unique {pages : PageMap} {pageno : Nat} {first second : List Nat}
    (one : Chain pages (pageno :: first)) (two : Chain pages (pageno :: second)) :
    first = second := by
  induction first generalizing pageno second with
  | nil =>
    cases second with
    | nil => rfl
    | cons next rest =>
      obtain ⟨view, known, last⟩ := one
      obtain ⟨⟨other, otherKnown, link, valid⟩, _⟩ := two
      rw [known] at otherKnown
      cases otherKnown
      exact absurd (link.symm.trans last) valid
  | cons head tail inductionHypothesis =>
    obtain ⟨⟨view, known, link, valid⟩, rest⟩ := one
    cases second with
    | nil =>
      obtain ⟨other, otherKnown, last⟩ := two
      rw [known] at otherKnown
      cases otherKnown
      exact absurd (link.symm.trans last) valid
    | cons next others =>
      obtain ⟨⟨other, otherKnown, otherLink, _⟩, otherRest⟩ := two
      rw [known] at otherKnown
      cases otherKnown
      have same : head = next := link.symm.trans otherLink
      rw [← same] at otherRest ⊢
      rw [inductionHypothesis rest otherRest]

/-- What the chains of an allocator say, read off its file. -/
theorem Allocated.pageOwnership {mgr : SMDPageManagement Device} {pages : PageMap}
    {chains : PageKey_t → List Nat} (allocated : Allocated mgr pages chains) :
    PageOwnership mgr chains := by
  refine ⟨fun key value found => ?_, fun pageno bound => ?_⟩
  · obtain ⟨root, last, linked, upward, _⟩ := allocated.chainOf key value found
    exact ⟨root, last, linked.mono allocated.stores.filePages, upward⟩
  · obtain ⟨key, known, member⟩ := allocated.covered pageno bound
    refine ⟨key, ⟨known, member⟩, ?_⟩
    rintro other ⟨otherKnown, otherMember⟩
    exact allocated.apart other key otherKnown known pageno otherMember member

/-! ### The invariant -/

namespace Segments

/-- The state of an open allocator whose segments own their pages, with a segment object for
some of the segments. What a segment object holds is as it is in the file, but for the page
table, which the allocator also writes itself. -/
structure Sound (state : Segments Device) (pages : PageMap) (chains : PageKey_t → List Nat) :
    Prop where
  allocated : Allocated state.mgr pages chains
  named : ∀ key file, state.files key = some file →
    file.key = key ∧ (state.mgr.m_PageInfo.find key).isSome
  held : ∀ key file page, state.files key = some file → file.page = some page →
    page.WellFormed state.mgr.m_nPageSize ∧ page.pageno ∈ chains key ∧
      (key ≠ SMDPageManagement.pageTableKey → pages page.pageno = some page.view)

/-- The page object of a segment object says what the file says. -/
def Current (state : Segments Device) (file : SMDPageFile) : Prop :=
  ∀ page, file.page = some page → filePages state.mgr page.pageno = some page.view

variable {state : Segments Device} {pages : PageMap} {chains : PageKey_t → List Nat}

theorem Sound.heldIn (sound : Sound state pages chains) {key : PageKey_t} {file : SMDPageFile}
    (opened : state.files key = some file)
    (current : key = SMDPageManagement.pageTableKey → state.Current file) :
    HeldIn pages state.mgr.m_nPageSize file.page := by
  intro page equal
  obtain ⟨formed, member, same⟩ := sound.held key file page opened equal
  refine ⟨formed, ?_⟩
  by_cases table : key = SMDPageManagement.pageTableKey
  · obtain ⟨value, found⟩ := Option.isSome_iff_exists.mp (sound.named key file opened).2
    obtain ⟨view, known⟩ := (sound.allocated.chainOf key value found).linked.known member
    have inFile := sound.allocated.stores.filePages _ _ known
    rw [current table page equal] at inFile
    rw [known, Option.some.inj inFile]
  · exact same table

theorem Sound.opens (sound : Sound state pages chains) {key : PageKey_t} {file : SMDPageFile}
    (opened : state.files key = some file)
    (current : key = SMDPageManagement.pageTableKey → state.Current file) :
    ∃ value, state.mgr.m_PageInfo.find key = some value ∧
      Serves state.mgr pages file value ∧
      ChainOf pages state.mgr.m_nPageCnt value (chains key) := by
  obtain ⟨keyEq, known⟩ := sound.named key file opened
  obtain ⟨value, found⟩ := Option.isSome_iff_exists.mp known
  exact ⟨value, found, sound.allocated.serves file value (by rw [keyEq]; exact found)
    (sound.heldIn opened current), sound.allocated.chainOf key value found⟩

/-! ### A new file -/

/-- An allocator over a new file owns page 0 for its page table. -/
theorem new_sound {device : Device} {pageSize : Nat} {mgr : SMDPageManagement Device}
    (flag : HoldsFlag device pageSize) (sizeLt : pageSize < 65536)
    (newEq : SMDPageManagement.new device false pageSize = .ok mgr) :
    Sound (Segments.opened mgr) (newPages pageSize) fun _ => [0] := by
  obtain ⟨room, stores⟩ := flag.stores sizeLt
  cases newEq
  have first : newPages pageSize 0 = some (PageView.blank (pageSize - 28)) := rfl
  have tableOnly : ∀ key value, PageInfo.find
      [(SMDPageManagement.pageTableKey, (⟨0, 0, 0, 0⟩ : PageNo_t))] key = some value →
      key = SMDPageManagement.pageTableKey ∧ value = ⟨0, 0, 0, 0⟩ := by
    intro key value found
    rw [PageInfo.find_cons] at found
    by_cases same : key = SMDPageManagement.pageTableKey
    · rw [if_pos same] at found
      exact ⟨same, (Option.some.inj found).symm⟩
    · rw [if_neg same] at found
      cases found
  have tableKnown : PageInfo.find
      [(SMDPageManagement.pageTableKey, (⟨0, 0, 0, 0⟩ : PageNo_t))]
        SMDPageManagement.pageTableKey = some ⟨0, 0, 0, 0⟩ := by
    rw [PageInfo.find_cons, if_pos rfl]
  refine ⟨⟨sizeLt, room, (by decide : 0 < 0xFFFFFFFF), stores, List.nodup_singleton _, ?_, ?_, ?_,
    0, tableKnown⟩, fun _ _ equal => ?_, fun _ _ _ equal => ?_⟩
  · intro key value found
    rw [(tableOnly key value found).2]
    refine ⟨rfl, rfl, ⟨_, first, rfl⟩, List.pairwise_singleton _ _, fun pageno member => ?_⟩
    rw [List.mem_singleton.mp member]
    exact Nat.le_refl 0
  · intro key other known otherKnown _ _ _
    obtain ⟨value, found⟩ := Option.isSome_iff_exists.mp known
    obtain ⟨otherValue, otherFound⟩ := Option.isSome_iff_exists.mp otherKnown
    rw [(tableOnly key value found).1, (tableOnly other otherValue otherFound).1]
  · intro pageno bound
    exact ⟨SMDPageManagement.pageTableKey, by rw [Segments.opened, tableKnown]; rfl,
      List.mem_singleton.mpr (Nat.le_zero.mp bound)⟩
  · cases equal
  · cases equal

/-- The invariant behind a call that grew the chain of one segment, for any segment objects that
are as they were or hold a page of that chain. -/
theorem Sound.grow (sound : Sound state pages chains) {key : PageKey_t} {value : PageNo_t}
    (found : state.mgr.m_PageInfo.find key = some value)
    {after : SMDPageManagement Device} {later : PageMap} {fresh : List Nat}
    (grown : Grown state.mgr after pages later (chains key) fresh)
    (stores : Stores after.device state.mgr.m_nPageSize later)
    (files : PageKey_t → Option SMDPageFile)
    (others : ∀ other, other ≠ key → files other = state.files other)
    (own : ∀ file, files key = some file → file.key = key ∧ ∀ page, file.page = some page →
      page.WellFormed state.mgr.m_nPageSize ∧ page.pageno ∈ chains key ++ fresh ∧
        (key ≠ SMDPageManagement.pageTableKey → later page.pageno = some page.view)) :
    Sound ⟨after, files⟩ later (Function.update chains key (chains key ++ fresh)) := by
  obtain ⟨allocated, last, _, findEq⟩ := sound.allocated.grow found grown stores
  refine ⟨allocated, ?_, ?_⟩
  · intro other file opened
    show file.key = other ∧ (after.m_PageInfo.find other).isSome = true
    rw [findEq]
    by_cases same : other = key
    · rw [if_pos same]
      rw [same] at opened ⊢
      exact ⟨(own file opened).1, rfl⟩
    · rw [if_neg same]
      exact sound.named other file ((others other same).symm.trans opened)
  · intro other file page opened holds
    show page.WellFormed after.m_nPageSize ∧ _
    rw [grown.sizeEq]
    by_cases same : other = key
    · rw [same] at opened ⊢
      rw [Function.update_self]
      exact (own file opened).2 page holds
    · rw [Function.update_of_ne same]
      have before := (others other same).symm.trans opened
      obtain ⟨formed, member, seen⟩ := sound.held other file page before holds
      refine ⟨formed, member, fun notTable => ?_⟩
      rw [grown.others page.pageno (sound.allocated.outside (by rw [found]; rfl)
        (sound.named other file before).2 same grown page.pageno member)]
      exact seen notTable

/-! ### The calls -/

/-- `put` to a segment, as a step. -/
theorem Sound.put (sound : Sound state pages chains) {key : PageKey_t} {file : SMDPageFile}
    (opened : state.files key = some file)
    (current : key = SMDPageManagement.pageTableKey → state.Current file) (bytes : Bytes)
    (some' : bytes ≠ []) (short : bytes.length + 4 < 2147483648)
    (count : state.mgr.m_nPageCnt + 2 + bytes.length < 0xFFFFFFFF) {value : PageNo_t}
    (found : state.mgr.m_PageInfo.find key = some value) {view : PageView}
    (known : pages value.nLastPageNo = some view)
    (unit : bytes.length + 4 ≤ view.space ∨ file.minUint + 12 ≤ state.mgr.m_nPageSize) :
    ∃ page after later fresh,
      state.step (.put key bytes) =
        .ok (.offset (int (SMDPageFile.putAddress file.minUint bytes.length state.mgr.m_nPageSize
          state.mgr.m_nPageCnt value.nLastPageNo view)),
          state.after key { file with page := some page } after) ∧
      Grown state.mgr after pages later (chains key) fresh ∧
      Sound (state.after key { file with page := some page } after) later
        (Function.update chains key (chains key ++ fresh)) ∧
      chainCells later (value.nLastPageNo :: fresh) = view.written.map some ++
        SMDPageFile.putCells file.minUint state.mgr.m_nPageSize view bytes ++
          free page.view.space ∧
      (∀ pageno, pageno ∉ value.nLastPageNo :: fresh → later pageno = pages pageno) ∧
      (bytes.length + 4 ≤ view.space → fresh = []) ∧
      (value.nLastPageNo :: fresh).getLast? = some page.pageno ∧ 0 < page.view.used := by
  obtain ⟨value', found', serves, chainOf⟩ := sound.opens opened current
  rw [found] at found'
  cases found'
  obtain ⟨front, splitEq⟩ := chainOf.split
  obtain ⟨lastView, lastKnown, last⟩ := chainOf.last_view
  rw [known] at lastKnown
  cases lastKnown
  obtain ⟨page, after, later, fresh, putEq, extended, stores, cells, fits⟩ :=
    file.put_spec state.mgr pages value view bytes 0 serves known last unit some' short count
  have distinct := chainOf.distinct
  have linked := chainOf.linked
  rw [splitEq] at distinct linked
  have grown := extended.grown front linked
    (fun member => (List.nodup_append.mp distinct).2.2 _ member _ (List.mem_singleton.mpr rfl) rfl)
    fun pageno member => chainOf.allocated pageno (by
      rw [splitEq]
      exact List.mem_append_left _ member)
  rw [← splitEq] at grown
  refine ⟨page, after, later, fresh, ?_, grown, ?_, cells, extended.others, fits, extended.lastEq,
    file.put_used state.mgr pages value view bytes 0 serves known last some' short putEq⟩
  · simp only [step, opened, putEq, ok_bind]
  · refine sound.grow found grown stores _
      (fun other different => Function.update_of_ne different ..) ?_
    intro changed equal
    rw [Function.update_self] at equal
    cases equal
    refine ⟨(sound.named key file opened).1, ?_⟩
    rintro _ equal
    cases equal
    refine ⟨extended.pending.formed, ?_, fun _ => extended.pending.seen⟩
    rw [splitEq, List.append_assoc]
    exact List.mem_append_right _ (List.mem_of_getLast? extended.lastEq)

/-- A segment object that turned to another page of its segment. -/
theorem Sound.load (sound : Sound state pages chains) {key : PageKey_t} {file : SMDPageFile}
    (opened : state.files key = some file) {page : SMDPage} {device : Device}
    (formed : page.WellFormed state.mgr.m_nPageSize) (member : page.pageno ∈ chains key)
    (seen : pages page.pageno = some page.view) (stores : Stores device state.mgr.m_nPageSize pages)
    (same : CoherentDevice.saves device = CoherentDevice.saves state.mgr.device) :
    Sound (state.after key { file with page := some page } { state.mgr with device := device })
      pages chains := by
  obtain ⟨keyEq, known⟩ := sound.named key file opened
  obtain ⟨value, found⟩ := Option.isSome_iff_exists.mp known
  have next := sound.grow found (grown_of_rewrite sound.allocated.countLt (fun _ _ => rfl)
    (sound.allocated.chainOf key value found).linked (SavedIn.of_saves_eq _ same)) stores
    (state.after key { file with page := some page } { state.mgr with device := device }).files
    (fun other different => state.after_files_other _ _ _ _ different) ?_
  · rwa [List.append_nil, Function.update_eq_self] at next
  · intro now equal
    rw [after_files_self] at equal
    cases equal
    refine ⟨keyEq, ?_⟩
    rintro _ equal
    cases equal
    exact ⟨formed, List.mem_append_left _ member, fun _ => seen⟩

/-- `get` at the offset of a string that stands on the chain of the segment: it returns the string,
with the segment object on the page where the string ends. -/
theorem Sound.reads (sound : Sound state pages chains) {key : PageKey_t} {file : SMDPageFile}
    (opened : state.files key = some file)
    (current : key = SMDPageManagement.pageTableKey → state.Current file)
    (room : 28 < state.mgr.m_nPageSize)
    (fileSize : (state.mgr.m_nPageCnt + 1) * state.mgr.m_nPageSize ≤ 2147483648)
    {front after : List Nat} {pageno pos : Nat} {bytes : Bytes}
    (chainEq : chains key = front ++ pageno :: after)
    (stands : Stands pages (pageno :: after) pos bytes)
    (header : bodyOffset pageno + pos + 4 ≤ state.mgr.m_nPageSize)
    (unit : bodyOffset pageno + pos + file.minUint ≤ state.mgr.m_nPageSize)
    (small : bytes.length < 2147483648) :
    ∃ page device,
      file.get state.mgr (SMDMemStream.new 0)
          (pageno * state.mgr.m_nPageSize + bodyOffset pageno + pos : Nat) =
        .ok (true, ⟨bytes, 0⟩, { file with page := some page },
          { state.mgr with device := device }) ∧
      Sound (state.after key { file with page := some page } { state.mgr with device := device })
        pages chains ∧
      CoherentDevice.saves device = CoherentDevice.saves state.mgr.device ∧
      EndsOn pages (pageno :: after) (pos + 4 + bytes.length) page.pageno := by
  obtain ⟨value, found, serves, chainOf⟩ := sound.opens opened current
  have linked := chainOf.linked
  have allocated := chainOf.allocated
  rw [chainEq] at linked allocated
  obtain ⟨page, device, getEq, ends, held, stores, same⟩ := file.get_spec state.mgr pages value
    (SMDMemStream.new 0) pageno pos after bytes serves room
    (fun number inside => allocated number (List.mem_append_right _ inside)) fileSize
    (linked.suffix (List.cons_ne_nil _ _)) stands header unit small
  refine ⟨page, device, getEq, ?_, same, ends⟩
  refine sound.load opened (held page rfl).1 ?_ (held page rfl).2 stores same
  rw [chainEq]
  exact List.mem_append_right _ ends.mem

/-- The same, as a step. -/
theorem Sound.get (sound : Sound state pages chains) {key : PageKey_t} {file : SMDPageFile}
    (opened : state.files key = some file)
    (current : key = SMDPageManagement.pageTableKey → state.Current file)
    (room : 28 < state.mgr.m_nPageSize)
    (fileSize : (state.mgr.m_nPageCnt + 1) * state.mgr.m_nPageSize ≤ 2147483648)
    {front after : List Nat} {pageno pos : Nat} {bytes : Bytes}
    (chainEq : chains key = front ++ pageno :: after)
    (stands : Stands pages (pageno :: after) pos bytes)
    (header : bodyOffset pageno + pos + 4 ≤ state.mgr.m_nPageSize)
    (unit : bodyOffset pageno + pos + file.minUint ≤ state.mgr.m_nPageSize)
    (small : bytes.length < 2147483648) :
    ∃ page device,
      state.step (.get key (pageno * state.mgr.m_nPageSize + bodyOffset pageno + pos : Nat)) =
        .ok (.bytes true bytes, state.after key { file with page := some page }
          { state.mgr with device := device }) ∧
      Sound (state.after key { file with page := some page } { state.mgr with device := device })
        pages chains ∧
      CoherentDevice.saves device = CoherentDevice.saves state.mgr.device := by
  obtain ⟨page, device, getEq, next, same, _⟩ :=
    sound.reads opened current room fileSize chainEq stands header unit small
  exact ⟨page, device, by simp only [step, opened, getEq, ok_bind], next, same⟩

/-- `put` at an offset on a page of the segment, as a step that returned. -/
theorem Sound.putAt (sound : Sound state pages chains) {key : PageKey_t} {file : SMDPageFile}
    (opened : state.files key = some file)
    (current : key = SMDPageManagement.pageTableKey → state.Current file) (bytes : Bytes)
    (some' : bytes ≠ []) (short : bytes.length < 2147483648)
    (count : state.mgr.m_nPageCnt + bytes.length < 0xFFFFFFFF) (offset : Int)
    (onChain : uint offset / state.mgr.m_nPageSize ∈ chains key) {reply : Reply}
    {after : Segments Device} (returned : state.step (.putAt key bytes offset) = .ok (reply, after)) :
    ∃ later fresh, Grown state.mgr after.mgr pages later (chains key) fresh ∧
      Sound after later (Function.update chains key (chains key ++ fresh)) := by
  obtain ⟨value, found, serves, chainOf⟩ := sound.opens opened current
  obtain ⟨front, rest, splitEq⟩ := List.append_of_mem onChain
  have distinct := chainOf.distinct
  have linked := chainOf.linked
  have below := chainOf.allocated
  rw [splitEq] at distinct linked below
  simp only [step, opened, bind_eq_ok] at returned
  obtain ⟨⟨result, changed, mgr⟩, putEq, equal⟩ := returned
  cases equal
  obtain ⟨last, later, fresh, changedEq, grown, stores, held, member⟩ :=
    file.putAt_grown changed state.mgr mgr pages value front rest bytes 0 offset result serves
      linked distinct below some' short count putEq
  rw [← splitEq] at grown member
  refine ⟨later, fresh, grown, sound.grow found grown stores _
    (fun other different => Function.update_of_ne different ..) ?_⟩
  intro now equal
  rw [Function.update_self] at equal
  cases equal
  rw [changedEq]
  refine ⟨(sound.named key file opened).1, ?_⟩
  rintro _ equal
  cases equal
  exact ⟨(held last rfl).1, member, fun _ => (held last rfl).2⟩

/-- `clearPage` of a segment, as a step. -/
theorem Sound.clearPage (sound : Sound state pages chains) {key : PageKey_t} {file : SMDPageFile}
    (opened : state.files key = some file)
    (current : key = SMDPageManagement.pageTableKey → state.Current file) :
    ∃ page device,
      state.step (.clearPage key) = .ok (.done true,
        state.after key { file with page := some page } { state.mgr with device := device }) ∧
      Grown state.mgr { state.mgr with device := device } pages (pages.cleared (chains key))
        (chains key) [] ∧
      Sound (state.after key { file with page := some page } { state.mgr with device := device })
        (pages.cleared (chains key)) (Function.update chains key (chains key ++ [])) := by
  obtain ⟨value, found, serves, chainOf⟩ := sound.opens opened current
  obtain ⟨tail, chainEq⟩ := chainOf.first
  obtain ⟨page, device, clearEq, member, held, stores, saves⟩ := file.clearPage_spec state.mgr pages value
    tail serves (by rw [← chainEq]; exact chainOf.linked) (by rw [← chainEq]; exact chainOf.distinct)
    (by rw [← chainEq]; exact chainOf.allocated)
  rw [← chainEq] at member held stores saves
  have linked := chain_cleared (chains key) chainOf.linked fun _ member => member
  have others : ∀ pageno, pageno ∉ chains key → pages.cleared (chains key) pageno = pages pageno :=
    fun pageno outside => pages.cleared_outside (chains key) pageno outside
  have grown := grown_of_rewrite sound.allocated.countLt others linked saves
  refine ⟨page, device, ?_, grown, sound.grow found grown stores _
    (fun other different => Function.update_of_ne different ..) ?_⟩
  · simp only [step, opened, clearEq, ok_bind]
  · intro now equal
    rw [Function.update_self] at equal
    cases equal
    refine ⟨(sound.named key file opened).1, ?_⟩
    rintro _ equal
    cases equal
    exact ⟨(held page rfl).1, List.mem_append_left _ member, fun _ => (held page rfl).2⟩

/-- `save` of the allocator, as a step. -/
theorem Sound.save (sound : Sound state pages chains)
    (short : state.mgr.tableBytes.length + 4 < 2147483648)
    (count : state.mgr.m_nPageCnt + 2 + state.mgr.tableBytes.length < 0xFFFFFFFF) :
    ∃ mgr later fresh,
      state.step .save = .ok (.done true, { state with mgr := mgr }) ∧
      Grown state.mgr mgr pages later (chains SMDPageManagement.pageTableKey) fresh ∧
      Sound { state with mgr := mgr } later (Function.update chains SMDPageManagement.pageTableKey
        (chains SMDPageManagement.pageTableKey ++ fresh)) := by
  obtain ⟨last, found⟩ := sound.allocated.table
  obtain ⟨mgr, later, fresh, saved, grown, stores, _⟩ := sound.allocated.save short count
  refine ⟨mgr, later, fresh, by rw [step, saved, ok_bind], grown,
    sound.grow found grown stores state.files (fun _ _ => rfl) fun file opened => ?_⟩
  refine ⟨(sound.named _ file opened).1, fun page holds => ?_⟩
  obtain ⟨formed, member, _⟩ := sound.held _ file page opened holds
  exact ⟨formed, List.mem_append_left _ member, fun different => absurd rfl different⟩

/-- `createPageFile` of a registered segment makes a fresh segment object, as a step. -/
theorem Sound.reopen (sound : Sound state pages chains) {key : PageKey_t} {value : PageNo_t}
    (found : state.mgr.m_PageInfo.find key = some value) (minUnit : Nat) :
    state.step (.createPageFile key.segType key.sTableName minUnit) = .ok (.created true,
      state.after key ⟨key.segType, key.sTableName, value.nMinUnit, none⟩ state.mgr) ∧
    Sound (state.after key ⟨key.segType, key.sTableName, value.nMinUnit, none⟩ state.mgr) pages
      chains := by
  have keyEq : (⟨key.segType, key.sTableName⟩ : PageKey_t) = key := rfl
  refine ⟨?_, sound.allocated, ?_, ?_⟩
  · rw [step, SMDPageManagement.createPageFile, keyEq, found]
    simp only [SMDPageManagement.getPageFile, keyEq, found, Option.map_some, ok_bind]
    rfl
  · intro other file opened
    by_cases same : other = key
    · rw [same, after_files_self] at opened
      cases opened
      rw [same]
      exact ⟨rfl, by rw [after_mgr, found]; rfl⟩
    · rw [after_files_other _ _ _ _ _ same] at opened
      exact sound.named other file opened
  · intro other file page opened holds
    by_cases same : other = key
    · rw [same, after_files_self] at opened
      cases opened
      cases holds
    · rw [after_files_other _ _ _ _ _ same] at opened
      exact sound.held other file page opened holds

/-- `createPageFile` of a new segment, as a step, while the table fits on the last page of its
segment. -/
theorem Sound.create (sound : Sound state pages chains) {key : PageKey_t} {last : Nat}
    (fresh : state.mgr.m_PageInfo.find key = none) (minUnit : Nat)
    (table : state.mgr.m_PageInfo.find SMDPageManagement.pageTableKey = some ⟨0, 0, 0, last⟩)
    (fits : (state.mgr.enrolled key (max minUnit 4)).tableBytes.length + 4 ≤
      state.mgr.m_nPageSize - bodyOffset last)
    (count : state.mgr.m_nPageCnt + 3 + (state.mgr.enrolled key (max minUnit 4)).tableBytes.length <
      0xFFFFFFFF) :
    ∃ device later,
      state.step (.createPageFile key.segType key.sTableName minUnit) = .ok (.created true,
        state.after key ⟨key.segType, key.sTableName, max minUnit 4, none⟩
          { state.mgr.enrolled key (max minUnit 4) with device := device }) ∧
      Sound (state.after key ⟨key.segType, key.sTableName, max minUnit 4, none⟩
          { state.mgr.enrolled key (max minUnit 4) with device := device }) later
        (Function.update chains key [state.mgr.m_nPageCnt + 1]) ∧
      (∀ pageno, pageno ∉ chains SMDPageManagement.pageTableKey →
        pageno ≠ state.mgr.m_nPageCnt + 1 → later pageno = pages pageno) ∧
      later (state.mgr.m_nPageCnt + 1) = some (PageView.blank (state.mgr.m_nPageSize - 12)) ∧
      SavedIn state.mgr.device device
        (chains SMDPageManagement.pageTableKey ++ [state.mgr.m_nPageCnt + 1]) := by
  obtain ⟨device, later, created, allocated, others, blank, saves⟩ :=
    state.mgr.createPageFile_spec pages chains key minUnit last sound.allocated fresh table fits
      count
  have keyEq : (⟨key.segType, key.sTableName⟩ : PageKey_t) = key := rfl
  have findEq := PageInfo.find_insert key
    ⟨0, max minUnit 4, state.mgr.m_nPageCnt + 1, state.mgr.m_nPageCnt + 1⟩ fresh
  refine ⟨device, later, ?_, ⟨allocated, ?_, ?_⟩, others, blank, saves⟩
  · rw [step, created, ok_bind, keyEq]
    rfl
  · intro other file opened
    show file.key = other ∧ ((state.mgr.m_PageInfo.insert key _).find other).isSome = true
    rw [findEq]
    by_cases same : other = key
    · rw [same, after_files_self] at opened
      cases opened
      rw [if_pos same]
      exact ⟨same.symm, rfl⟩
    · rw [after_files_other _ _ _ _ _ same] at opened
      rw [if_neg same]
      exact sound.named other file opened
  · intro other file page opened holds
    by_cases same : other = key
    · rw [same, after_files_self] at opened
      cases opened
      cases holds
    · rw [after_files_other _ _ _ _ _ same] at opened
      obtain ⟨formed, member, seen⟩ := sound.held other file page opened holds
      have known := (sound.named other file opened).2
      refine ⟨formed, by rw [Function.update_of_ne same]; exact member, fun notTable => ?_⟩
      rw [others, seen notTable]
      · exact fun inTable => notTable
          (sound.allocated.apart other _ known (by rw [table]; rfl) _ member inTable)
      · obtain ⟨value, found⟩ := Option.isSome_iff_exists.mp known
        have := (sound.allocated.chainOf other value found).allocated _ member
        omega

end Segments

end LevelDBLib.KvDB
