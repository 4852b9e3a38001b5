/-
This file proves what `put` at an offset does to the chain of its segment.

Whatever the offset, it writes to pages of the chain from the page of the offset
on, and may go on behind the last one (`putAtLoop_grown`). Where the string it
overwrites is as long as the new one and every piece is written where it belongs,
the tape is spliced (`putAt_spec`). The code computes the place of a piece from
its file offset cut to 16 bits, and the size of a piece from the whole offset;
`Aimed` says that the two agree.
-/

import LevelDBLib.KvDB.Allocation

namespace LevelDBLib.KvDB

open Buffers Tapes

variable {Device : Type} [CoherentDevice Device]

namespace SMDPageFile

/-! ### Any offset -/

/-- A positioned write, wherever it goes, keeps the header of the page object. -/
theorem writeAt_any (device : Device) (pageSize : Nat) (pages : PageMap) (page next : SMDPage)
    (buffer : Bytes) (offset : Int) (pending : Pending device pageSize pages page)
    (written : page.writeAt buffer offset = .ok next) :
    next.pageno = page.pageno ∧ next.view.next = page.view.next ∧
      next.view.space = page.view.space ∧
      Pending device pageSize (pages.put page.pageno next.view) next := by
  simp only [SMDPage.writeAt] at written
  by_cases outside : page.size < ushort offset % page.size + buffer.length
  · rw [if_pos outside] at written
    cases written
  · rw [if_neg outside] at written
    have formed := pending.formed
    have bound : ushort offset % page.size + buffer.length ≤ page.data.length := by
      rw [formed.length_eq, ← formed.size_eq]
      omega
    rw [memcpy_of_le _ _ _ bound, ok_bind] at written
    cases written
    refine ⟨rfl, rfl, rfl, ⟨formed.size_eq, by
      rw [length_splice _ _ _ bound, formed.length_eq], formed.sizeLt, formed.space_le,
      formed.next_lt⟩, PageMap.put_self .., ?_, Or.inl rfl⟩
    intro pageno view different known
    have apart : pageno ≠ page.pageno := different
    rw [PageMap.put_other _ _ _ _ apart] at known
    exact pending.others pageno view apart known

/-- Every turn of the loop of `put` at an offset writes at least one byte. -/
theorem piece_pos (page : SMDPage) (pageSize : Nat) (offset : Int)
    (formed : page.WellFormed pageSize) (positive : 0 < pageSize) :
    0 < (page.getOffsetToEndSize offset).toNat := by
  have less := Int.tmod_lt_of_pos offset (Int.natCast_pos.mpr positive)
  rw [SMDPage.getOffsetToEndSize, formed.size_eq]
  omega

/-- A page is turned to the next one of its chain. -/
theorem turnPage_inside (mgr : SMDPageManagement Device) {pages : PageMap} {changed : SMDPage}
    {next : Nat} {after : List Nat} (pending : Pending mgr.device mgr.m_nPageSize pages changed)
    (room : 28 ≤ mgr.m_nPageSize) (chain : Chain pages (changed.pageno :: next :: after)) :
    ∃ turned device, turnPage mgr changed = .ok (turned, { mgr with device := device }) ∧
      turned.pageno = next ∧ Pending device mgr.m_nPageSize pages turned ∧
      SavedIn mgr.device device [changed.pageno] := by
  obtain ⟨view, known, link, valid⟩ := (chain : (_ ∧ _)).1
  rw [pending.seen] at known
  cases known
  obtain ⟨nextView, nextKnown⟩ := chain.2.known List.mem_cons_self
  obtain ⟨turned, device, turnEq, turnedNo, _, turnedPending, saves⟩ := turnPage_middle mgr _ changed
    nextView pending room (by rw [link]; exact valid) (by rw [link]; exact nextKnown)
  exact ⟨turned, device, turnEq, turnedNo.trans link, turnedPending, saves⟩

/-- The loop of `put` at an offset, on the last page of a chain. -/
theorem putAtLoop_end (fuel : Nat) :
    ∀ (bytes : Bytes) (offset : Int) (page last : SMDPage) (mgr after : SMDPageManagement Device)
      (pages : PageMap), AtEnd mgr pages page → mgr.m_nPageCnt + bytes.length < 0xFFFFFFFF →
      putAtLoop fuel bytes offset page mgr = .ok (last, after) →
      ∃ later fresh, Extended mgr after pages later last page.pageno fresh := by
  induction fuel with
  | zero =>
    intro bytes offset page last mgr after pages atEnd _ equal
    cases bytes with
    | nil =>
      cases equal
      exact ⟨pages, [], atEnd.stay⟩
    | cons byte rest => cases equal
  | succ fuel inductionHypothesis =>
    intro bytes offset page last mgr after pages atEnd count equal
    cases bytes with
    | nil =>
      cases equal
      exact ⟨pages, [], atEnd.stay⟩
    | cons byte tail =>
      have room := atEnd.room
      have positive := piece_pos page _ offset atEnd.pending.formed (by omega)
      rw [putAtLoop] at equal
      simp only [bind_eq_ok] at equal
      obtain ⟨next, written, equal⟩ := equal
      obtain ⟨number, nextEq, _, pending⟩ := writeAt_any _ _ pages page next _ offset atEnd.pending
        written
      have nextAtEnd : AtEnd mgr (pages.put page.pageno next.view) next :=
        ⟨pending, atEnd.room, nextEq.trans atEnd.last, by rw [number]; exact atEnd.allocated,
          atEnd.registered, atEnd.countLt⟩
      have stay := nextAtEnd.stay
      rw [number] at stay
      split at equal
      case h_1 =>
        cases equal
        exact ⟨_, [], stay.of_put⟩
      case h_2 more rest dropped =>
        have restLength := congrArg List.length dropped
        rw [List.length_drop] at restLength
        obtain ⟨fresh, turned, mid, turnEq, freshAtEnd, _, countEq, _, _, behind⟩ :=
          nextAtEnd.turn (by
            simp only [List.length_cons] at count restLength
            omega)
        simp only [turnEq, ok_bind] at equal
        obtain ⟨later, others, extended⟩ := inductionHypothesis _ _ fresh last turned after mid
          freshAtEnd (by
            simp only [List.length_cons] at count restLength ⊢
            rw [countEq]
            omega) equal
        obtain ⟨longer, _⟩ := behind after last later others extended
        rw [number] at longer
        exact ⟨later, _, longer.of_put⟩

/-- The loop of `put` at an offset, on any page of a chain. -/
theorem putAtLoop_grown (fuel : Nat) :
    ∀ (rest : List Nat) (bytes : Bytes) (offset : Int) (page last : SMDPage)
      (mgr after : SMDPageManagement Device) (pages : PageMap),
      Pending mgr.device mgr.m_nPageSize pages page → 28 ≤ mgr.m_nPageSize →
      Chain pages (page.pageno :: rest) → (page.pageno :: rest).Nodup →
      (∀ pageno ∈ page.pageno :: rest, pageno ≤ mgr.m_nPageCnt) →
      (∀ entry ∈ mgr.m_PageInfo, entry.2.nLastPageNo ≤ mgr.m_nPageCnt) →
      mgr.m_nPageCnt + bytes.length < 0xFFFFFFFF →
      putAtLoop fuel bytes offset page mgr = .ok (last, after) →
      ∃ later fresh, Grown mgr after pages later (page.pageno :: rest) fresh ∧
        Pending after.device mgr.m_nPageSize later last ∧
        last.pageno ∈ page.pageno :: rest ++ fresh := by
  induction fuel with
  | zero =>
    intro rest bytes offset page last mgr after pages pending _ chain _ _ _ _ equal
    cases bytes with
    | nil =>
      cases equal
      exact ⟨pages, [], grown_of_rewrite (by omega) (fun _ _ => rfl) chain (SavedIn.refl _ _), pending,
        List.mem_append_left _ List.mem_cons_self⟩
    | cons byte tail => cases equal
  | succ fuel inductionHypothesis =>
    intro rest bytes offset page last mgr after pages pending room chain distinct below registered
      count equal
    cases rest with
    | nil =>
      obtain ⟨view, known, ends⟩ := chain
      rw [pending.seen] at known
      cases known
      have atEnd : AtEnd mgr pages page :=
        ⟨pending, room, ends, below _ List.mem_cons_self, registered, by omega⟩
      obtain ⟨later, fresh, extended⟩ := putAtLoop_end (fuel + 1) bytes offset page last mgr after
        pages atEnd count equal
      refine ⟨later, fresh, extended.grown [] ⟨page.view, pending.seen, ends⟩ List.not_mem_nil
        (fun _ member => absurd member List.not_mem_nil), extended.pending, ?_⟩
      exact List.mem_of_getLast? extended.lastEq
    | cons next others =>
      cases bytes with
      | nil =>
        cases equal
        exact ⟨pages, [], grown_of_rewrite (by omega) (fun _ _ => rfl) chain (SavedIn.refl _ _), pending,
          List.mem_append_left _ List.mem_cons_self⟩
      | cons byte tail =>
        have positive := piece_pos page _ offset pending.formed (by omega)
        rw [putAtLoop] at equal
        simp only [bind_eq_ok] at equal
        obtain ⟨changed, written, equal⟩ := equal
        obtain ⟨number, nextEq, spaceEq, changedPending⟩ := writeAt_any _ _ pages page changed _
          offset pending written
        have rewritten := rewritten_put (page.pageno :: next :: others) pending.seen nextEq spaceEq
          List.mem_cons_self
        have linked := rewritten.linked chain
        split at equal
        case h_1 =>
          cases equal
          exact ⟨_, [], grown_of_rewrite (by omega) rewritten.others linked (SavedIn.refl _ _),
            changedPending, List.mem_append_left _ (by rw [number]; exact List.mem_cons_self)⟩
        case h_2 more left dropped =>
          have restLength := congrArg List.length dropped
          rw [List.length_drop] at restLength
          obtain ⟨turned, device, turnEq, turnedNo, turnedPending, saves⟩ :=
            turnPage_inside mgr changedPending room (by rw [number]; exact linked)
          rw [number] at saves
          simp only [turnEq, ok_bind] at equal
          obtain ⟨later, fresh, grown, lastPending, member⟩ := inductionHypothesis others _ _ turned
            last { mgr with device := device } after _ turnedPending room
            (by rw [turnedNo]; exact linked.2)
            (by rw [turnedNo]; exact (List.nodup_cons.mp distinct).2)
            (fun pageno inside => below pageno (by
              rw [turnedNo] at inside
              exact List.mem_cons_of_mem _ inside))
            registered (by
              simp only [List.length_cons] at count restLength ⊢
              omega) equal
          rw [turnedNo] at grown member
          have apart := (List.nodup_cons.mp distinct).1
          have whole := grown.prepend [page.pageno] linked (List.cons_ne_nil _ _)
            (fun pageno inside => by rw [List.mem_singleton.mp inside]; exact apart)
            (fun pageno inside => by
              rw [List.mem_singleton.mp inside]
              exact below _ List.mem_cons_self)
          refine ⟨later, fresh, Grown.of_change whole rewritten.others (saves.mono ?_), lastPending,
            List.mem_cons_of_mem _ member⟩
          intro pageno inside
          rw [List.mem_singleton.mp inside]
          exact List.mem_cons_self

end SMDPageFile

/-- Saving a page of the chain changes nothing but the file. -/
theorem Grown.save {mgr after : SMDPageManagement Device} {pages later : PageMap}
    {page : SMDPage} {chain fresh : List Nat}
    (grown : Grown mgr after pages later chain fresh)
    (pending : Pending after.device mgr.m_nPageSize later page)
    (member : page.pageno ∈ chain ++ fresh) :
    ∃ saved device,
      after.savePageToFile page = .ok (true, saved, { after with device := device }) ∧
      Grown mgr { after with device := device } pages later chain fresh ∧
      Stores device mgr.m_nPageSize later ∧ HeldIn later mgr.m_nPageSize (some saved) ∧
      saved.pageno = page.pageno := by
  rw [← grown.sizeEq] at pending
  obtain ⟨saved, device, savedEq, number, _, savedPending, stores, saves⟩ :=
    after.savePageToFile_spec later page pending
  rw [grown.sizeEq] at savedPending stores
  refine ⟨saved, device, savedEq, { grown with
    saves := grown.saves.trans (saves.mono fun other inside => ?_) }, stores, ?_, number⟩
  · rw [List.mem_singleton.mp inside]
    exact member
  · rintro _ equal
    cases equal
    exact ⟨savedPending.formed, savedPending.seen⟩

namespace SMDPageFile

/-- `put` at an offset loads the page of the offset, writes the length header there, and then the
string. -/
theorem putAt_begins (file : SMDPageFile) {mgr : SMDPageManagement Device} {pages : PageMap}
    {value : PageNo_t} {bytes : Bytes} {offset : Int} {pageno : Nat} {view : PageView} (pos : Nat)
    (serves : Serves mgr pages file value) (pagenoEq : uint offset / mgr.m_nPageSize = pageno)
    (known : pages pageno = some view) (allocated : pageno ≤ mgr.m_nPageCnt) (some' : bytes ≠ [])
    (short : bytes.length < 2147483648) :
    ∃ page device, page.pageno = pageno ∧ page.view = view ∧
      Pending device mgr.m_nPageSize pages page ∧
      CoherentDevice.saves device = CoherentDevice.saves mgr.device ∧
      file.putAt mgr ⟨bytes, pos⟩ offset = (do
        let page ← page.writeAt (lengthHeader bytes.length) offset
        let (page, mgr) ← putAtLoop (bytes.length + 1) bytes (offset + 4) page
          { mgr with device := device }
        let (_, page, mgr) ← mgr.savePageToFile page
        .ok (offset, { file with page := some page }, mgr)) := by
  have countLt := serves.countLt
  have positive := List.length_pos_iff.mpr some'
  obtain ⟨page, device, loaded, number, viewEq, pending, -, same⟩ := mgr.getPageByPageNo_spec pages
    file.page pageno view serves.sizeLt serves.room serves.stores serves.held known (by omega)
  have sizeEq : (⟨bytes, pos⟩ : SMDMemStream).size = bytes.length :=
    uint_of_lt bytes.length (by omega)
  have sSizeEq : int (bytes.length : Int) = bytes.length := int_of_lt _ short
  refine ⟨page, device, number, viewEq, pending, same, ?_⟩
  rw [putAt, if_neg (by rw [sizeEq]; omega), SMDPageManagement.getPageByOffset, pagenoEq, loaded,
    ok_bind]
  simp only [if_true, sizeEq, sSizeEq, Int.natCast_pos.mpr positive, Int.toNat_natCast,
    List.take_length]

/-- `put` at an offset on a page of the chain of its segment grows the chain. -/
theorem putAt_grown (file changed : SMDPageFile) (mgr after : SMDPageManagement Device)
    (pages : PageMap) (value : PageNo_t) (front rest : List Nat) (bytes : Bytes) (pos : Nat)
    (offset result : Int) (serves : Serves mgr pages file value)
    (chain : Chain pages (front ++ uint offset / mgr.m_nPageSize :: rest))
    (distinct : (front ++ uint offset / mgr.m_nPageSize :: rest).Nodup)
    (below : ∀ pageno ∈ front ++ uint offset / mgr.m_nPageSize :: rest, pageno ≤ mgr.m_nPageCnt)
    (some' : bytes ≠ []) (short : bytes.length < 2147483648)
    (count : mgr.m_nPageCnt + bytes.length < 0xFFFFFFFF)
    (equal : file.putAt mgr ⟨bytes, pos⟩ offset = .ok (result, changed, after)) :
    ∃ last later fresh,
      changed = { file with page := some last } ∧
      Grown mgr after pages later (front ++ uint offset / mgr.m_nPageSize :: rest) fresh ∧
      Stores after.device mgr.m_nPageSize later ∧ HeldIn later mgr.m_nPageSize (some last) ∧
      last.pageno ∈ front ++ uint offset / mgr.m_nPageSize :: rest ++ fresh := by
  obtain ⟨pageno, pagenoEq⟩ : ∃ pageno, uint offset / mgr.m_nPageSize = pageno := ⟨_, rfl⟩
  rw [pagenoEq] at chain distinct below ⊢
  obtain ⟨view, known⟩ := (chain.suffix (List.cons_ne_nil _ _)).known List.mem_cons_self
  obtain ⟨page, device, number, viewEq, pending, same, runs⟩ := file.putAt_begins pos serves pagenoEq
    known (below pageno (List.mem_append_right _ List.mem_cons_self)) some' short
  simp only [runs, bind_eq_ok] at equal
  obtain ⟨headed, headWritten, ⟨last, ended⟩, loopEq, ⟨flag, saved, final⟩, savedEq, equal⟩ := equal
  obtain ⟨headNo, nextEq, spaceEq, headPending⟩ := writeAt_any _ _ pages page headed _ offset
    pending headWritten
  have rewritten := rewritten_put (front ++ pageno :: rest) pending.seen nextEq spaceEq (by
    rw [number]
    exact List.mem_append_right _ List.mem_cons_self)
  rw [number] at headPending rewritten
  have linked := rewritten.linked chain
  have split := List.nodup_append.mp distinct
  obtain ⟨later, fresh, grown, lastPending, member⟩ := putAtLoop_grown _ rest bytes (offset + 4)
    headed last { mgr with device := device } ended _ headPending serves.room
    (by rw [headNo, number]; exact linked.suffix (List.cons_ne_nil _ _))
    (by rw [headNo, number]; exact split.2.1)
    (fun other inside => below other (by
      rw [headNo, number] at inside
      exact List.mem_append_right _ inside))
    serves.registered count loopEq
  rw [headNo, number] at grown member
  have whole : Grown mgr ended pages later (front ++ pageno :: rest) fresh := Grown.of_change
    (grown.prepend front linked (List.cons_ne_nil _ _)
      (fun other inside again => split.2.2 other inside other again rfl)
      fun other inside => below other (List.mem_append_left _ inside))
    rewritten.others (SavedIn.of_saves_eq _ same)
  have memberAll : last.pageno ∈ front ++ pageno :: rest ++ fresh := by
    rw [List.append_assoc]
    exact List.mem_append_right _ member
  obtain ⟨kept, keptDevice, keptEq, keptGrown, stores, held, keptNo⟩ :=
    whole.save lastPending memberAll
  rw [keptEq] at savedEq
  cases savedEq
  cases equal
  exact ⟨_, later, fresh, rfl, keptGrown, stores, held, by rw [keptNo]; exact memberAll⟩

/-! ### The offset of a string -/

/-- The place of the offset in its page is the one that `write` at an offset computes. -/
def Aimed (pageSize offset : Nat) : Prop := ushort offset % pageSize = offset % pageSize

instance (pageSize offset : Nat) : Decidable (Aimed pageSize offset) :=
  inferInstanceAs (Decidable (_ = _))

/-- Page sizes that divide `2 ^ 16` lose nothing to the cast. -/
theorem aimed_of_dvd (pageSize offset : Nat) (divides : pageSize ∣ 65536) :
    Aimed pageSize offset := by
  rw [Aimed, ushort, show ((offset : Int) % 65536).toNat = offset % 65536 by omega]
  exact Nat.mod_mod_of_dvd offset divides

/-- The pages on which the next `count` bytes of the tape of the list lie. -/
def reached (pageSize : Nat) : List Nat → Nat → List Nat
  | [], _ => []
  | pageno :: rest, count =>
    if count = 0 then []
    else pageno :: reached pageSize rest (count - (pageSize - bodyOffset pageno))

theorem reached_zero (pageSize : Nat) (rest : List Nat) : reached pageSize rest 0 = [] := by
  cases rest with
  | nil => rfl
  | cons pageno rest => rw [reached, if_pos rfl]

theorem mem_reached_head (pageSize pageno : Nat) (rest : List Nat) (count : Nat)
    (positive : 0 < count) : pageno ∈ reached pageSize (pageno :: rest) count := by
  rw [reached, if_neg (by omega)]
  exact List.mem_cons_self

theorem mem_reached_tail (pageSize pageno : Nat) (rest : List Nat) (count other : Nat)
    (member : other ∈ reached pageSize rest (count - (pageSize - bodyOffset pageno))) :
    other ∈ reached pageSize (pageno :: rest) count := by
  by_cases none' : count = 0
  · rw [none', Nat.zero_sub, reached_zero] at member
    cases member
  · rw [reached, if_neg none']
    exact List.mem_cons_of_mem _ member

/-- The place and the rest of the page that `put` at an offset computes from an aimed offset. -/
theorem aimed_place (page : SMDPage) (pageSize offset start : Nat)
    (formed : page.WellFormed pageSize) (aimed : Aimed pageSize offset)
    (inPage : offset % pageSize = start) (inside : start ≤ pageSize) :
    ushort offset % pageSize = start ∧
      page.getOffsetToEndSize offset = (pageSize - start : Nat) := by
  refine ⟨by rw [aimed, inPage], ?_⟩
  rw [SMDPage.getOffsetToEndSize, formed.size_eq,
    Int.tmod_eq_emod_of_nonneg (Int.natCast_nonneg _), ← Int.natCast_emod, inPage]
  omega

/-- A string goes on at the start of the body of a page. -/
theorem contentOffset_place (page : SMDPage) (pageSize : Nat) (formed : page.WellFormed pageSize)
    (room : 28 < pageSize) (address : page.pageno * pageSize + pageSize ≤ 2147483648)
    (aimed : Aimed pageSize (page.pageno * pageSize + bodyOffset page.pageno)) :
    ushort (int page.getContentOffset) % pageSize = bodyOffset page.pageno ∧
      page.getOffsetToEndSize (int page.getContentOffset) =
        (pageSize - bodyOffset page.pageno : Nat) := by
  have small : bodyOffset page.pageno < pageSize :=
    Nat.lt_of_le_of_lt (bodyOffset_le _) room
  have offsetEq : int (page.getContentOffset : Int) =
      (page.pageno * pageSize + bodyOffset page.pageno : Nat) := by
    rw [int_contentAddress page pageSize formed, int_of_lt _ (by omega)]
  rw [offsetEq]
  refine aimed_place page pageSize _ _ formed aimed ?_ (Nat.le_of_lt small)
  rw [Nat.mul_comm, Nat.mul_add_mod, Nat.mod_eq_of_lt small]

/-- The last piece of an overwrite. -/
theorem putAtLoop_last (fuel : Nat) (bytes : Bytes) (offset : Int) (page changed : SMDPage)
    (mgr : SMDPageManagement Device) (some' : bytes ≠ [])
    (written : page.writeAt (bytes.take (min (page.getOffsetToEndSize offset).toNat bytes.length))
      offset = .ok changed)
    (dropped : bytes.drop (min (page.getOffsetToEndSize offset).toNat bytes.length) = []) :
    putAtLoop (fuel + 1) bytes offset page mgr = .ok (changed, mgr) := by
  obtain ⟨byte, tail, rfl⟩ := List.exists_cons_of_ne_nil some'
  rw [putAtLoop]
  simp only [written, ok_bind, dropped]

/-- A piece of an overwrite that goes on over the next page. -/
theorem putAtLoop_turn (fuel : Nat) (bytes rest : Bytes) (offset : Int)
    (page changed turned : SMDPage) (mgr later : SMDPageManagement Device) (next : UInt8)
    (some' : bytes ≠ [])
    (written : page.writeAt (bytes.take (min (page.getOffsetToEndSize offset).toNat bytes.length))
      offset = .ok changed)
    (dropped : bytes.drop (min (page.getOffsetToEndSize offset).toNat bytes.length) = next :: rest)
    (turnEq : turnPage mgr changed = .ok (turned, later)) :
    putAtLoop (fuel + 1) bytes offset page mgr =
      putAtLoop fuel (next :: rest) (int turned.getContentOffset) turned later := by
  obtain ⟨byte, tail, rfl⟩ := List.exists_cons_of_ne_nil some'
  rw [putAtLoop]
  simp only [written, ok_bind, dropped, turnEq]

/-- The first piece of a string on a chain lies on the first page, and what is behind the page is on
the others. -/
theorem reads_piece {pages : PageMap} {page : SMDPage} {rest : List Nat} {old : Bytes} {pos wSize : Nat}
    (seen : pages page.pageno = some page.view) (space : page.view.space ≤ page.view.body.length)
    (reads : Reads (chainCells pages (page.pageno :: rest)) pos old) (some' : 0 < wSize)
    (short : wSize ≤ old.length) (inside : pos + wSize ≤ page.view.body.length) :
    pos + wSize ≤ page.view.used ∧
      (pos + wSize = page.view.body.length → Reads (chainCells pages rest) 0 (old.drop wSize)) := by
  have length : (old.take wSize).length = wSize := List.length_take_of_le short
  obtain ⟨here, behind⟩ := reads_split seen space reads short
  have onPage := (page.view.slice_of_reads pos (old.take wSize) _ space (by rw [length]; exact inside)
    here (List.ne_nil_of_length_pos (by rw [length]; exact some'))).1
  rw [length] at onPage
  exact ⟨onPage, behind⟩

/-- A piece written on the first page of a list of pages is spliced into their tape. -/
theorem writeAt_first {device : Device} {pageSize : Nat} {pages : PageMap} {page : SMDPage}
    {rest : List Nat} {offset : Int} {pos : Nat} (buffer : Bytes)
    (pending : Pending device pageSize pages page) (distinct : (page.pageno :: rest).Nodup)
    (place : ushort offset % pageSize = bodyOffset page.pageno + pos)
    (used : pos + buffer.length ≤ page.view.used) :
    ∃ changed, page.writeAt buffer offset = .ok changed ∧ changed.pageno = page.pageno ∧
      Pending device pageSize (pages.put page.pageno changed.view) changed ∧
      Rewritten pages (pages.put page.pageno changed.view) (page.pageno :: rest) ∧
      chainCells (pages.put page.pageno changed.view) rest = chainCells pages rest ∧
      chainCells (pages.put page.pageno changed.view) (page.pageno :: rest) =
        splice (chainCells pages (page.pageno :: rest)) pos (buffer.map some) := by
  have space := page.view_space_le pageSize pending.formed
  have usedEq : page.view.used = page.view.body.length - page.view.space := rfl
  obtain ⟨changed, written, number, viewEq, changedPending⟩ :=
    writeAt_pending device pageSize pages page buffer offset pos pending place (by omega)
  have apart := (List.nodup_cons.mp distinct).1
  have restCells : chainCells (pages.put page.pageno changed.view) rest = chainCells pages rest :=
    chainCells_congr fun other member => PageMap.put_other _ _ _ _ fun equal =>
      apart (by rw [← equal]; exact member)
  refine ⟨changed, written, number, changedPending, rewritten_put _ pending.seen
    (by rw [viewEq]; rfl) (by rw [viewEq]; rfl) List.mem_cons_self, restCells, ?_⟩
  rw [chainCells_cons, chainCells_cons, restCells, pageCells_of_some (PageMap.put_self ..),
    pageCells_of_some pending.seen, viewEq, PageView.cells_overwrite _ _ _ space used,
    splice_append_left _ _ _ _ (by
      rw [List.length_map, page.view.length_cells space]
      omega)]

/-- The loop of `put` at an offset ends, and the string stands at `pos` on the tape of the pages. -/
def Overwrites (fuel : Nat) (bytes : Bytes) (offset : Int) (page : SMDPage)
    (mgr : SMDPageManagement Device) (pages : PageMap) (rest : List Nat) (pos : Nat) : Prop :=
  ∃ last device later,
    putAtLoop fuel bytes offset page mgr = .ok (last, { mgr with device := device }) ∧
    last.pageno ∈ page.pageno :: rest ∧ Pending device mgr.m_nPageSize later last ∧
    Rewritten pages later (page.pageno :: rest) ∧
    chainCells later (page.pageno :: rest) =
      splice (chainCells pages (page.pageno :: rest)) pos (bytes.map some) ∧
    SavedIn mgr.device device (page.pageno :: rest)

section Pieces

variable {fuel : Nat} {bytes : Bytes} {offset : Int} {page : SMDPage}
  {mgr : SMDPageManagement Device} {pages : PageMap} {rest : List Nat} {pos : Nat}

theorem overwrites_nothing (fuel : Nat) (offset : Int)
    (pending : Pending mgr.device mgr.m_nPageSize pages page) (rest : List Nat) (pos : Nat) :
    Overwrites fuel [] offset page mgr pages rest pos :=
  ⟨page, mgr.device, pages, by rw [putAtLoop], List.mem_cons_self, pending, .refl _ _,
    (splice_nil _ _).symm, SavedIn.refl _ _⟩

/-- A string that ends on its page. -/
theorem overwrites_within (pending : Pending mgr.device mgr.m_nPageSize pages page)
    (distinct : (page.pageno :: rest).Nodup)
    (place : ushort offset % mgr.m_nPageSize = bodyOffset page.pageno + pos)
    (left : page.getOffsetToEndSize offset = (page.view.body.length - pos : Nat))
    (used : pos + bytes.length ≤ page.view.used) (some' : bytes ≠ []) :
    Overwrites (fuel + 1) bytes offset page mgr pages rest pos := by
  have usedEq : page.view.used = page.view.body.length - page.view.space := rfl
  have sizeEq : min (page.getOffsetToEndSize offset).toNat bytes.length = bytes.length := by
    rw [left, Int.toNat_natCast]
    omega
  obtain ⟨changed, written, number, changedPending, rewritten, _, cells⟩ :=
    writeAt_first bytes pending distinct place used
  refine ⟨changed, mgr.device, _, putAtLoop_last fuel bytes offset page changed mgr some'
    (by rw [sizeEq, List.take_length]; exact written) (by rw [sizeEq, List.drop_length]),
    by rw [number]; exact List.mem_cons_self, changedPending, rewritten, cells, SavedIn.refl _ _⟩

/-- A string that goes on over the next page. -/
theorem overwrites_across {next count : Nat} {after : List Nat}
    (pending : Pending mgr.device mgr.m_nPageSize pages page) (room : 28 ≤ mgr.m_nPageSize)
    (chain : Chain pages (page.pageno :: next :: after))
    (distinct : (page.pageno :: next :: after).Nodup)
    (place : ushort offset % mgr.m_nPageSize = bodyOffset page.pageno + pos)
    (left : page.getOffsetToEndSize offset = (count : Nat)) (more : count < bytes.length)
    (full : pos + count = page.view.used) (border : page.view.used = page.view.body.length)
    (bound : bytes.length - count ≤ (chainCells pages (next :: after)).length)
    (goesOn : ∀ (turned : SMDPage) (device : Device) (other : PageMap), turned.pageno = next →
      Pending device mgr.m_nPageSize other turned → Chain other (next :: after) →
      chainCells other (next :: after) = chainCells pages (next :: after) →
      Overwrites fuel (bytes.drop count) (int turned.getContentOffset) turned
        { mgr with device := device } other after 0) :
    Overwrites (fuel + 1) bytes offset page mgr pages (next :: after) pos := by
  have sizeEq : min (page.getOffsetToEndSize offset).toNat bytes.length = count := by
    rw [left, Int.toNat_natCast]
    omega
  have chunkLength : (bytes.take count).length = count := List.length_take_of_le (Nat.le_of_lt more)
  obtain ⟨changed, written, number, changedPending, rewritten, restCells, cells⟩ :=
    writeAt_first (bytes.take count) pending distinct place (by rw [chunkLength, full])
  have linked := rewritten.linked chain
  obtain ⟨turned, device, turnEq, turnedNo, turnedPending, saves⟩ :=
    turnPage_inside mgr changedPending room (by rw [number]; exact linked)
  rw [number] at saves
  obtain ⟨last, final, later, loopEq, lastNo, lastPending, laterRewritten, laterCells, laterSaves⟩ :=
    goesOn turned device _ turnedNo turnedPending linked.2 restCells
  rw [turnedNo] at lastNo laterRewritten laterCells laterSaves
  refine ⟨last, final, later, ?_, List.mem_cons_of_mem _ lastNo, lastPending,
    rewritten.trans laterRewritten fun pageno member => List.mem_cons_of_mem _ member, ?_,
    (saves.mono ?_).trans (laterSaves.mono fun pageno member => List.mem_cons_of_mem _ member)⟩
  · obtain ⟨byte, others, dropped⟩ :=
      List.exists_cons_of_ne_nil (List.drop_eq_nil_iff.not.mpr (Nat.not_le_of_lt more))
    rw [dropped] at loopEq
    rw [putAtLoop_turn fuel bytes _ offset page changed turned mgr _ byte
      (List.ne_nil_of_length_pos (Nat.zero_lt_of_lt more)) (by rw [sizeEq]; exact written)
      (by rw [sizeEq]; exact dropped) turnEq]
    exact loopEq
  · have space := page.view_space_le _ pending.formed
    have hereCells : pageCells later page.pageno =
        pageCells (pages.put page.pageno changed.view) page.pageno := by
      rw [pageCells, pageCells, laterRewritten.others _ (List.nodup_cons.mp distinct).1]
    have here : (pageCells (pages.put page.pageno changed.view) page.pageno).length = pos + count := by
      have lengths := congrArg List.length cells
      rw [length_splice _ _ _ (by
        rw [List.length_map, chunkLength, full, border, chainCells_cons,
          pageCells_of_some pending.seen, List.length_append, page.view.length_cells space]
        exact Nat.le_add_right _ _), chainCells_cons, chainCells_cons pages, restCells,
        List.length_append, List.length_append, pageCells_of_some pending.seen,
        page.view.length_cells space, ← border, ← full] at lengths
      exact Nat.add_right_cancel lengths
    have bound' : pos + count + (bytes.drop count).length ≤
        (chainCells pages (page.pageno :: next :: after)).length := by
      rw [List.length_drop, chainCells_cons, pageCells_of_some pending.seen, List.length_append,
        page.view.length_cells space, ← border, ← full]
      exact Nat.add_le_add_left bound _
    have joined := splice_append (chainCells pages (page.pageno :: next :: after)) pos
      ((bytes.take count).map some) ((bytes.drop count).map some) (by
        rw [List.length_map, List.length_map, chunkLength, ← Nat.add_assoc]
        exact bound')
    rw [List.length_map, chunkLength, ← List.map_append, List.take_append_drop] at joined
    rw [chainCells_behind hereCells laterCells, here, cells, joined]
  · intro pageno member
    rw [List.mem_singleton.mp member]
    exact List.mem_cons_self

end Pieces

/-- The loop of `put` at an offset overwrites the string that stands there, if every piece is
written where it belongs. -/
theorem putAtLoop_spec (fuel : Nat) :
    ∀ (rest : List Nat) (bytes old : Bytes) (pos : Nat) (offset : Int) (page : SMDPage)
      (mgr : SMDPageManagement Device) (pages : PageMap),
      Pending mgr.device mgr.m_nPageSize pages page → 28 < mgr.m_nPageSize →
      Chain pages (page.pageno :: rest) → (page.pageno :: rest).Nodup →
      (∀ pageno ∈ rest, pageno * mgr.m_nPageSize + mgr.m_nPageSize ≤ 2147483648) →
      Reads (chainCells pages (page.pageno :: rest)) pos old → old.length = bytes.length →
      pos < page.view.body.length →
      ushort offset % mgr.m_nPageSize = bodyOffset page.pageno + pos →
      page.getOffsetToEndSize offset = (page.view.body.length - pos : Nat) →
      (∀ pageno ∈ reached mgr.m_nPageSize rest (bytes.length - (page.view.body.length - pos)),
        Aimed mgr.m_nPageSize (pageno * mgr.m_nPageSize + bodyOffset pageno)) →
      bytes.length ≤ fuel → Overwrites fuel bytes offset page mgr pages rest pos := by
  induction fuel with
  | zero =>
    intro rest bytes old pos offset page mgr pages pending _ _ _ _ _ _ _ _ _ _ short
    rw [List.length_eq_zero_iff.mp (Nat.le_zero.mp short)]
    exact overwrites_nothing 0 offset pending rest pos
  | succ fuel inductionHypothesis =>
    intro rest bytes old pos offset page mgr pages pending room chain distinct address reads lengths
      inPage place left aimed short
    by_cases some' : bytes = []
    · rw [some']
      exact overwrites_nothing (fuel + 1) offset pending rest pos
    have positive : 0 < bytes.length := List.length_pos_iff.mpr some'
    have space := page.view_space_le _ pending.formed
    by_cases ends : bytes.length ≤ page.view.body.length - pos
    · obtain ⟨used, _⟩ := reads_piece pending.seen space reads positive (by omega) (by omega)
      exact overwrites_within pending distinct place left used some'
    have more := Nat.lt_of_not_le ends
    obtain ⟨used, behindPage⟩ := reads_piece pending.seen space reads
      (show 0 < page.view.body.length - pos by omega) (by omega) (by omega)
    have full : pos + (page.view.body.length - pos) = page.view.body.length := by omega
    have usedLe : page.view.used ≤ page.view.body.length := Nat.sub_le _ _
    have restReads := behindPage full
    have restLengths : (old.drop (page.view.body.length - pos)).length =
        (bytes.drop (page.view.body.length - pos)).length := by
      rw [List.length_drop, List.length_drop, lengths]
    have bound := restReads.length_le (List.ne_nil_of_length_pos (by
      rw [List.length_drop]
      omega))
    rw [restLengths, List.length_drop, Nat.zero_add] at bound
    cases rest with
    | nil =>
      rw [chainCells_nil, List.length_nil] at bound
      omega
    | cons next after =>
      refine overwrites_across pending (Nat.le_of_lt room) chain distinct place left more (by omega)
        (by omega) bound fun turned device other turnedNo turnedPending linked cells => ?_
      -- the rest of the string starts the body of the next page
      have turnedBody : turned.view.body.length = mgr.m_nPageSize - bodyOffset turned.pageno :=
        turned.length_body _ turnedPending.formed
      have nextAimed := aimed next (mem_reached_head _ _ _ _ (Nat.sub_pos_of_lt more))
      have nextAddress := address next List.mem_cons_self
      rw [← turnedNo] at nextAimed nextAddress
      obtain ⟨nextPlace, nextLeft⟩ := contentOffset_place turned _ turnedPending.formed room
        nextAddress nextAimed
      refine inductionHypothesis after _ (old.drop (page.view.body.length - pos)) 0 _ turned
        { mgr with device := device } other turnedPending room (by rw [turnedNo]; exact linked)
        (by rw [turnedNo]; exact (List.nodup_cons.mp distinct).2)
        (fun pageno member => address pageno (List.mem_cons_of_mem _ member))
        (by rw [turnedNo, cells]; exact restReads) restLengths ?_
        (by rw [Nat.add_zero]; exact nextPlace) (by rw [nextLeft, turnedBody, Nat.sub_zero])
        (fun pageno member => aimed pageno (mem_reached_tail _ _ _ _ _ ?_)) ?_
      · rw [turnedBody]
        exact Nat.sub_pos_of_lt (Nat.lt_of_le_of_lt (bodyOffset_le _) room)
      · rwa [turnedBody, Nat.sub_zero, turnedNo, List.length_drop] at member
      · rw [List.length_drop]
        omega

/-- `put` at the offset of a string overwrites it by a string of the same length, if the data does
not start a page and every piece is written where it belongs. -/
theorem putAt_spec (file : SMDPageFile) (mgr : SMDPageManagement Device) (pages : PageMap)
    (value : PageNo_t) (pageno pos offset : Nat) (rest : List Nat) (bytes old : Bytes)
    (serves : Serves mgr pages file value) (room : 28 < mgr.m_nPageSize)
    (fileSize : (mgr.m_nPageCnt + 1) * mgr.m_nPageSize ≤ 2147483648)
    (chain : Chain pages (pageno :: rest)) (distinct : (pageno :: rest).Nodup)
    (allocated : ∀ number ∈ pageno :: rest, number ≤ mgr.m_nPageCnt)
    (stands : Stands pages (pageno :: rest) pos old) (lengths : old.length = bytes.length)
    (some' : bytes ≠ []) (small : bytes.length < 2147483648)
    (offsetEq : offset = pageno * mgr.m_nPageSize + bodyOffset pageno + pos)
    (header : bodyOffset pageno + pos + 4 < mgr.m_nPageSize)
    (headAimed : Aimed mgr.m_nPageSize offset) (dataAimed : Aimed mgr.m_nPageSize (offset + 4))
    (aimed : ∀ number ∈ reached mgr.m_nPageSize rest
        (bytes.length - (mgr.m_nPageSize - (bodyOffset pageno + pos + 4))),
      Aimed mgr.m_nPageSize (number * mgr.m_nPageSize + bodyOffset number)) :
    ∃ last device later,
      file.putAt mgr ⟨bytes, 0⟩ offset =
        .ok (offset, { file with page := some last }, { mgr with device := device }) ∧
      last.pageno ∈ pageno :: rest ∧ HeldIn later mgr.m_nPageSize (some last) ∧
      Stores device mgr.m_nPageSize later ∧ Rewritten pages later (pageno :: rest) ∧
      chainCells later (pageno :: rest) =
        splice (chainCells pages (pageno :: rest)) pos
          ((lengthHeader bytes.length ++ bytes).map some) ∧
      SavedIn mgr.device device (pageno :: rest) := by
  obtain ⟨view, known⟩ := chain.known List.mem_cons_self
  have numberLe := allocated pageno List.mem_cons_self
  have pageEnd : ∀ number ≤ mgr.m_nPageCnt,
      number * mgr.m_nPageSize + mgr.m_nPageSize ≤ 2147483648 :=
    fun _ bound => page_end_le bound fileSize
  have inFile := pageEnd pageno numberLe
  have startEq : uint (offset : Int) = offset := uint_of_lt _ (by omega)
  have quotient : uint (offset : Int) / mgr.m_nPageSize = pageno := by
    rw [startEq, offsetEq, place_div (by omega)]
  have inPage : offset % mgr.m_nPageSize = bodyOffset pageno + pos := by
    rw [offsetEq, place_mod (by omega)]
  have dataInPage : (offset + 4) % mgr.m_nPageSize = bodyOffset pageno + pos + 4 := by
    rw [offsetEq, Nat.add_assoc, Nat.add_assoc, address_mod (by omega), Nat.add_assoc]
  obtain ⟨page, device, number, viewEq, pending, same, runs⟩ :=
    file.putAt_begins 0 serves quotient known numberLe some' small
  subst number
  have bodyEq := page.length_body _ pending.formed
  have headLength := length_lengthHeader (bytes.length : Int)
  obtain ⟨headReads, dataReads⟩ := (reads_append _ _ _ _).mp stands
  rw [length_lengthHeader] at dataReads
  have tapeBound := dataReads.length_le (List.ne_nil_of_length_pos (by
    rw [lengths]
    exact List.length_pos_iff.mpr some'))
  -- the length header
  have used : pos + 4 ≤ page.view.used := by
    rw [chainCells_cons, pageCells_of_some pending.seen] at headReads
    exact (page.view.slice_of_reads pos _ _ (page.view_space_le _ pending.formed)
      (by rw [length_lengthHeader, bodyEq]; omega) headReads
      (List.ne_nil_of_length_pos (by decide : 0 < 4))).1
  obtain ⟨headed, headWritten, headNo, headPending, rewritten, restCells, headCells⟩ :=
    writeAt_first (lengthHeader bytes.length) pending distinct
      (headAimed.trans inPage) (by rw [headLength]; exact used)
  -- the data
  have headBody : headed.view.body.length = mgr.m_nPageSize - bodyOffset page.pageno := by
    rw [headed.length_body _ headPending.formed, headNo]
  obtain ⟨dataPlace, dataLeft⟩ := aimed_place headed mgr.m_nPageSize (offset + 4) _
    headPending.formed dataAimed dataInPage (Nat.le_of_lt header)
  have leftEq : headed.view.body.length - (pos + 4) =
      mgr.m_nPageSize - (bodyOffset page.pageno + pos + 4) := by
    rw [headBody, Nat.sub_sub, ← Nat.add_assoc]
  obtain ⟨last, final, later, loopEq, lastNo, lastPending, laterRewritten, laterCells, laterSaves⟩ :=
    putAtLoop_spec (bytes.length + 1) rest bytes old (pos + 4) (offset + 4) headed
      { mgr with device := device } _ headPending room
      (by rw [headNo]; exact rewritten.linked chain) (by rw [headNo]; exact distinct)
      (fun other member => pageEnd other (allocated other (List.mem_cons_of_mem _ member)))
      (by
        rw [headNo, headCells]
        refine dataReads.splice_disjoint _ _ ?_ (Or.inr ?_)
        · rw [List.length_map, headLength]
          exact Nat.le_trans (Nat.le_add_right _ _) tapeBound
        · rw [List.length_map, headLength])
      lengths (by rw [headBody]; omega) (by rw [headNo, ← Nat.add_assoc]; exact dataPlace)
      (by rw [leftEq]; exact dataLeft) (by rw [leftEq]; exact aimed) (Nat.le_succ _)
  rw [headNo] at lastNo laterRewritten laterCells laterSaves
  obtain ⟨saved, stored, savedEq, savedNo, _, savedPending, stores, saves⟩ :=
    SMDPageManagement.savePageToFile_spec { mgr with device := final } later last lastPending
  refine ⟨saved, stored, later, ?_, by rw [savedNo]; exact lastNo, ?_, stores,
    rewritten.trans laterRewritten fun _ member => member, ?_, ?_⟩
  · rw [runs, headWritten, ok_bind, loopEq, ok_bind]
    simp only [savedEq, ok_bind]
  · rintro _ equal
    cases equal
    exact ⟨savedPending.formed, savedPending.seen⟩
  · rw [laterCells, headCells, List.map_append, ← splice_append _ _ _ _ (by
      rw [List.length_map, List.length_map, headLength, ← lengths, ← Nat.add_assoc]
      exact tapeBound), List.length_map, headLength]
  · refine ((SavedIn.of_saves_eq _ same).trans laterSaves).trans (saves.mono fun other member => ?_)
    rw [List.mem_singleton.mp member]
    exact lastNo

end SMDPageFile

end LevelDBLib.KvDB
