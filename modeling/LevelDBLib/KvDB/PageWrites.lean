/-
This file says which writes `put` at an offset makes, and that it fails the
assertion of `SMDPage::write` exactly when one of them does not fit.

The page that `put` loads and the length of a piece come from the whole offset, the
place of the piece from the offset cut to 16 bits. Where the page size divides
`2 ^ 16` the two agree; elsewhere a piece may begin too far back on its page.
-/

import LevelDBLib.KvDB.Overwrite

namespace LevelDBLib.KvDB

variable {Device : Type} [CoherentDevice Device]

/-! ### The writes -/

/-- A write to a page at an offset. -/
structure PageWrite where
  offset : Int
  sz : Nat
deriving DecidableEq, Repr

/-- The assertion of `write` passes. -/
def PageWrite.Fits (size : Nat) (write : PageWrite) : Prop :=
  ushort write.offset % size + write.sz ≤ size

instance (size : Nat) (write : PageWrite) : Decidable (write.Fits size) :=
  inferInstanceAs (Decidable (_ ≤ _))

namespace SMDPageFile

/-- The writes of the loop of `put` at an offset. The pages that it turns to have their contents at
the offsets `turned`. -/
def pieces (size : Nat) : Nat → Nat → Int → (Nat → Int) → List PageWrite
  | 0, _, _, _ => []
  | _ + 1, 0, _, _ => []
  | fuel + 1, count + 1, offset, turned =>
    let wSize := min (size - offset.tmod size).toNat (count + 1)
    ⟨offset, wSize⟩ ::
      pieces size fuel (count + 1 - wSize) (turned 0) fun turn => turned (turn + 1)

/-- The writes of `put` at an offset, of a string of `count` bytes. -/
def putAtWrites (size count : Nat) (offset : Int) (turned : Nat → Int) : List PageWrite :=
  ⟨offset, 4⟩ :: pieces size (count + 1) count (offset + 4) turned

theorem pieces_succ (size fuel : Nat) {count : Nat} (positive : 0 < count) (offset : Int)
    (turned : Nat → Int) :
    pieces size (fuel + 1) count offset turned =
      ⟨offset, min (size - offset.tmod size).toNat count⟩ ::
        pieces size fuel (count - min (size - offset.tmod size).toNat count) (turned 0)
          fun turn => turned (turn + 1) := by
  obtain ⟨count, rfl⟩ := Nat.exists_eq_add_of_le' positive
  rfl

/-- The assertions of the writes, one after the other. -/
def assertWrites (size : Nat) : List PageWrite → Except Fault Unit
  | [] => .ok ()
  | write :: rest =>
    if size < ushort write.offset % size + write.sz then .error .assertion
    else assertWrites size rest

theorem assertWrites_eq_ok {size : Nat} {writes : List PageWrite} :
    assertWrites size writes = .ok () ↔ ∀ write ∈ writes, write.Fits size := by
  induction writes with
  | nil => exact ⟨(fun _ _ member => nomatch member), fun _ => rfl⟩
  | cons write rest inductionHypothesis =>
    rw [assertWrites, List.forall_mem_cons, ← inductionHypothesis, PageWrite.Fits]
    by_cases outside : size < ushort write.offset % size + write.sz
    · rw [if_pos outside]
      exact ⟨(fun equal => nomatch equal), fun fits => absurd fits.1 (Nat.not_le_of_lt outside)⟩
    · rw [if_neg outside]
      exact ⟨fun equal => ⟨Nat.le_of_not_lt outside, equal⟩, And.right⟩

/-- A piece at an aimed offset fits. -/
theorem fits_of_aimed {size offset : Nat} (positive : 0 < size) (aimed : Aimed size offset)
    (count : Nat) :
    PageWrite.Fits size ⟨offset, min (size - (offset : Int).tmod size).toNat count⟩ := by
  have less := Nat.mod_lt offset positive
  have place : ushort offset % size = offset % size := aimed
  show ushort (offset : Int) % size + min _ count ≤ size
  rw [place, Int.tmod_eq_emod_of_nonneg (Int.natCast_nonneg _), ← Int.natCast_emod]
  omega

/-- All pieces fit at aimed offsets. -/
theorem pieces_fit {size : Nat} (positive : 0 < size) (fuel : Nat) :
    ∀ (count offset : Nat) (turned : Nat → Nat), Aimed size offset →
      (∀ turn, Aimed size (turned turn)) →
      ∀ write ∈ pieces size fuel count offset fun turn => turned turn, write.Fits size := by
  induction fuel with
  | zero => exact fun _ _ _ _ _ _ member => nomatch member
  | succ fuel inductionHypothesis =>
    intro count offset turned aimed turnedAimed write member
    rcases Nat.eq_zero_or_pos count with rfl | some'
    · cases member
    · rw [pieces_succ size fuel some'] at member
      rcases List.mem_cons.mp member with rfl | behind
      · exact fits_of_aimed positive aimed count
      · exact inductionHypothesis _ (turned 0) (fun turn => turned (turn + 1)) (turnedAimed 0)
          (fun turn => turnedAimed (turn + 1)) write behind

/-- Page sizes that divide `2 ^ 16` pass the assertion, if the length header fits on its page. -/
theorem putAtWrites_fit {size : Nat} (divides : size ∣ 65536) (count offset : Nat)
    (turned : Nat → Nat) (header : offset % size + 4 ≤ size) :
    ∀ write ∈ putAtWrites size count offset fun turn => turned turn, write.Fits size := by
  intro write member
  rcases List.mem_cons.mp member with rfl | behind
  · rw [PageWrite.Fits, aimed_of_dvd size offset divides]
    exact header
  · exact pieces_fit (by omega) (count + 1) count (offset + 4) turned (aimed_of_dvd _ _ divides)
      (fun turn => aimed_of_dvd _ _ divides) write behind

/-! ### The writes of a segment object -/

/-- `getContentOffset` of a page, as an `int`. -/
def contentOffset (size pageno : Nat) : Int :=
  int (uint (pageno * size + sizeofHead + SMDPage.headOffset pageno))

/-- Where the contents of the pages behind a page of a chain begin. -/
def turnedOffsets (size : Nat) (rest : List Nat) (turn : Nat) : Int :=
  contentOffset size (rest.getD turn 0)

theorem writeAt_fits (page : SMDPage) (buffer : Bytes) (offset : Int)
    (length : page.data.length = page.size) :
    (PageWrite.Fits page.size ⟨offset, buffer.length⟩ →
      ∃ next, page.writeAt buffer offset = .ok next) ∧
    (¬ PageWrite.Fits page.size ⟨offset, buffer.length⟩ →
      page.writeAt buffer offset = .error .assertion) := by
  unfold PageWrite.Fits
  simp only [SMDPage.writeAt]
  refine ⟨fun fits => ?_, fun outside => if_pos (by omega)⟩
  rw [if_neg (by omega), memcpy_of_le _ _ _ (by omega), ok_bind]
  exact ⟨_, rfl⟩

theorem pieces_length_pos (size fuel : Nat) {count : Nat} (positive : 0 < count)
    (short : count ≤ fuel) (offset : Int) (turned : Nat → Int) :
    0 < (pieces size fuel count offset turned).length := by
  obtain ⟨fuel, rfl⟩ := Nat.exists_eq_add_of_le' (Nat.lt_of_lt_of_le positive short)
  rw [pieces_succ size fuel positive]
  exact Nat.succ_pos _

/-- A piece is written, and the loop of `put` at an offset goes on where the contents of the next
page begin. -/
theorem putAtLoop_inside (fuel : Nat) {bytes others : Bytes} {byte : UInt8} {offset : Int}
    {page changed : SMDPage} {mgr : SMDPageManagement Device} {pages : PageMap} {next : Nat}
    {after : List Nat} (pending : Pending mgr.device mgr.m_nPageSize pages page)
    (room : 28 ≤ mgr.m_nPageSize) (chain : Chain pages (page.pageno :: next :: after))
    (some' : bytes ≠ [])
    (written : page.writeAt (bytes.take (min (page.getOffsetToEndSize offset).toNat bytes.length))
      offset = .ok changed)
    (dropped : bytes.drop (min (page.getOffsetToEndSize offset).toNat bytes.length) =
      byte :: others) :
    ∃ turned device later, Pending device mgr.m_nPageSize later turned ∧
      Chain later (turned.pageno :: after) ∧
      putAtLoop (fuel + 1) bytes offset page mgr =
        putAtLoop fuel (byte :: others) (contentOffset mgr.m_nPageSize next) turned
          { mgr with device := device } := by
  obtain ⟨number, nextEq, spaceEq, changedPending⟩ := writeAt_any _ _ pages page changed _ offset
    pending written
  have linked := (rewritten_put (page.pageno :: next :: after) pending.seen nextEq spaceEq
    List.mem_cons_self).linked chain
  obtain ⟨turned, device, turnEq, turnedNo, turnedPending, _⟩ :=
    turnPage_inside mgr changedPending room (by rw [number]; exact linked)
  have startEq : int turned.getContentOffset = contentOffset mgr.m_nPageSize next := by
    rw [SMDPage.getContentOffset, turnedPending.formed.size_eq, turnedNo]
    rfl
  refine ⟨turned, device, _, turnedPending, by rw [turnedNo]; exact linked.2, ?_⟩
  rw [← startEq]
  exact putAtLoop_turn fuel bytes others offset page changed turned mgr _ byte some' written dropped
    turnEq

/-- The loop of `put` at an offset, on a chain that is long enough, fails at the first piece that
does not fit. -/
theorem putAtLoop_fits (fuel : Nat) :
    ∀ (rest : List Nat) (bytes : Bytes) (offset : Int) (page : SMDPage)
      (mgr : SMDPageManagement Device) (pages : PageMap),
      Pending mgr.device mgr.m_nPageSize pages page → 28 ≤ mgr.m_nPageSize →
      Chain pages (page.pageno :: rest) → bytes.length ≤ fuel →
      (pieces mgr.m_nPageSize fuel bytes.length offset
        (turnedOffsets mgr.m_nPageSize rest)).length ≤ rest.length + 1 →
      ((∀ write ∈ pieces mgr.m_nPageSize fuel bytes.length offset
          (turnedOffsets mgr.m_nPageSize rest), write.Fits mgr.m_nPageSize) →
        ∃ last device later, putAtLoop fuel bytes offset page mgr =
            .ok (last, { mgr with device := device }) ∧
          Pending device mgr.m_nPageSize later last) ∧
      ((∃ write ∈ pieces mgr.m_nPageSize fuel bytes.length offset
          (turnedOffsets mgr.m_nPageSize rest), ¬ write.Fits mgr.m_nPageSize) →
        putAtLoop fuel bytes offset page mgr = .error .assertion) := by
  induction fuel with
  | zero =>
    intro rest bytes offset page mgr pages pending _ _ short _
    rw [List.length_eq_zero_iff.mp (Nat.le_zero.mp short)]
    refine ⟨fun _ => ⟨page, mgr.device, pages, by rw [putAtLoop], pending⟩, ?_⟩
    rintro ⟨_, member, _⟩
    cases member
  | succ fuel inductionHypothesis =>
    intro rest bytes offset page mgr pages pending room chain short enough
    cases bytes with
    | nil =>
      refine ⟨fun _ => ⟨page, mgr.device, pages, by rw [putAtLoop], pending⟩, ?_⟩
      rintro ⟨_, member, _⟩
      cases member
    | cons byte tail =>
      generalize bytesEq : byte :: tail = bytes at short enough ⊢
      have some' : bytes ≠ [] := bytesEq ▸ List.cons_ne_nil _ _
      have positive := List.length_pos_iff.mpr some'
      have formed := pending.formed
      have piecePos := piece_pos page _ offset formed (by omega)
      rw [pieces_succ _ fuel positive] at enough ⊢
      have sizeEq : min (mgr.m_nPageSize - offset.tmod mgr.m_nPageSize).toNat bytes.length =
          min (page.getOffsetToEndSize offset).toNat bytes.length := by
        rw [SMDPage.getOffsetToEndSize, formed.size_eq]
      rw [sizeEq] at enough ⊢
      generalize wSizeEq : min (page.getOffsetToEndSize offset).toNat bytes.length = wSize at *
      have chunk : (bytes.take wSize).length = wSize := by
        rw [List.length_take]
        omega
      obtain ⟨writes, fails⟩ := writeAt_fits page (bytes.take wSize) offset
        (formed.length_eq.trans formed.size_eq.symm)
      rw [chunk, formed.size_eq] at writes fails
      by_cases fits : PageWrite.Fits mgr.m_nPageSize ⟨offset, wSize⟩
      · obtain ⟨changed, written⟩ := writes fits
        obtain ⟨-, -, -, changedPending⟩ := writeAt_any _ _ pages page changed _ offset pending
          written
        rw [← wSizeEq] at written
        have left : (bytes.drop wSize).length = bytes.length - wSize := List.length_drop
        cases dropped : bytes.drop wSize with
        | nil =>
          rw [dropped, List.length_nil] at left
          rw [← left]
          refine ⟨fun _ => ⟨changed, mgr.device, _, ?_, changedPending⟩, ?_⟩
          · exact putAtLoop_last fuel bytes offset page changed mgr some' written
              (by rw [wSizeEq, dropped])
          · rintro ⟨write, member, unfit⟩
            rcases List.mem_cons.mp member with rfl | behind
            · exact absurd fits unfit
            · cases fuel <;> cases behind
        | cons more others =>
          rw [dropped] at left
          rw [← left] at enough ⊢
          have morePos : 0 < (more :: others).length := Nat.succ_pos _
          have moreShort : (more :: others).length ≤ fuel := by omega
          rw [List.length_cons] at enough
          cases rest with
          | nil =>
            have := pieces_length_pos mgr.m_nPageSize fuel morePos moreShort
              (turnedOffsets mgr.m_nPageSize [] 0)
              fun turn => turnedOffsets mgr.m_nPageSize [] (turn + 1)
            exact absurd enough (by rw [List.length_nil]; omega)
          | cons next after =>
            obtain ⟨turned, device, later, turnedPending, linked, loopEq⟩ := putAtLoop_inside fuel
              pending room chain some' written (by rw [wSizeEq]; exact dropped)
            obtain ⟨behindFits, behindFails⟩ := inductionHypothesis after (more :: others)
              (contentOffset mgr.m_nPageSize next) turned { mgr with device := device } later
              turnedPending room linked moreShort (Nat.le_of_succ_le_succ enough)
            rw [loopEq]
            refine ⟨fun all => behindFits fun write member => all write
              (List.mem_cons_of_mem _ member), ?_⟩
            rintro ⟨write, member, unfit⟩
            rcases List.mem_cons.mp member with rfl | behind
            · exact absurd fits unfit
            · exact behindFails ⟨write, behind, unfit⟩
      · refine ⟨fun all => absurd (all _ List.mem_cons_self) fits, fun _ => ?_⟩
        subst bytesEq
        rw [putAtLoop]
        simp only [wSizeEq, fails fits, error_bind]

/-- `put` at an offset returns if every write fits, and fails the assertion if one does not. -/
theorem putAt_fits (file : SMDPageFile) (mgr : SMDPageManagement Device) (pages : PageMap)
    (value : PageNo_t) (rest : List Nat) (bytes : Bytes) (offset : Int)
    (serves : Serves mgr pages file value)
    (chain : Chain pages (uint offset / mgr.m_nPageSize :: rest))
    (allocated : uint offset / mgr.m_nPageSize ≤ mgr.m_nPageCnt)
    (some' : bytes ≠ []) (small : bytes.length < 2147483648)
    (enough : (putAtWrites mgr.m_nPageSize bytes.length offset
      (turnedOffsets mgr.m_nPageSize rest)).length ≤ rest.length + 2) :
    ((∀ write ∈ putAtWrites mgr.m_nPageSize bytes.length offset
        (turnedOffsets mgr.m_nPageSize rest), write.Fits mgr.m_nPageSize) →
      ∃ result, file.putAt mgr ⟨bytes, 0⟩ offset = .ok result) ∧
    ((∃ write ∈ putAtWrites mgr.m_nPageSize bytes.length offset
        (turnedOffsets mgr.m_nPageSize rest), ¬ write.Fits mgr.m_nPageSize) →
      file.putAt mgr ⟨bytes, 0⟩ offset = .error .assertion) := by
  obtain ⟨view, known⟩ := chain.known List.mem_cons_self
  obtain ⟨page, device, number, -, pending, -, runs⟩ :=
    file.putAt_begins 0 serves rfl known allocated some' small
  have formed := pending.formed
  rw [runs]
  obtain ⟨writes, fails⟩ := writeAt_fits page (lengthHeader bytes.length) offset
    (formed.length_eq.trans formed.size_eq.symm)
  rw [length_lengthHeader, formed.size_eq] at writes fails
  by_cases fits : PageWrite.Fits mgr.m_nPageSize ⟨offset, 4⟩
  · obtain ⟨headed, headWritten⟩ := writes fits
    obtain ⟨headNo, nextEq, spaceEq, headPending⟩ := writeAt_any _ _ pages page headed _ offset
      pending headWritten
    have chainHere : Chain pages (page.pageno :: rest) := by
      rw [number]
      exact chain
    have linked := (rewritten_put (page.pageno :: rest) pending.seen nextEq spaceEq
      List.mem_cons_self).linked chainHere
    obtain ⟨behindFits, behindFails⟩ := putAtLoop_fits (bytes.length + 1) rest bytes (offset + 4)
      headed { mgr with device := device } _ headPending serves.room (by rw [headNo]; exact linked)
      (Nat.le_succ _) (Nat.le_of_succ_le_succ enough)
    simp only [headWritten, ok_bind]
    refine ⟨fun all => ?_, ?_⟩
    · obtain ⟨last, final, later, loopEq, lastPending⟩ := behindFits fun write member =>
        all write (List.mem_cons_of_mem _ member)
      obtain ⟨saved, stored, savedEq, _⟩ := SMDPageManagement.savePageToFile_spec
        { mgr with device := final } later last lastPending
      rw [loopEq, ok_bind]
      simp only [savedEq, ok_bind]
      exact ⟨_, rfl⟩
    · rintro ⟨write, member, unfit⟩
      rcases List.mem_cons.mp member with rfl | behind
      · exact absurd fits unfit
      · rw [behindFails ⟨write, behind, unfit⟩, error_bind]
  · refine ⟨fun all => absurd (all _ List.mem_cons_self) fits, fun _ => ?_⟩
    rw [fails fits, error_bind]

end SMDPageFile

end LevelDBLib.KvDB
