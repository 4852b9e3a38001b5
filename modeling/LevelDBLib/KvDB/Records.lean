/-
This file is what a segment is for: a log of strings, each found again under the
offset that `put` returned for it.

`contentsOf` is that log, read off the history of the calls alone. In the file
the strings stand on the tape of the chain of the segment, and `Recorded` relates
the two: every string of the log stands where its offset points, and no two of
them share a cell.
-/

import Mathlib.Algebra.GroupWithZero.Nat
import LevelDBLib.Library.Logs
import LevelDBLib.KvDB.Ownership

namespace LevelDBLib.KvDB

open Buffers Tapes Runs Logs

variable {Device : Type} [CoherentDevice Device]

/-! ### The log of the history -/

/-- The string that one call wrote at an offset of a segment, if it did. -/
def writtenBy (call : Request) (reply : Reply) (key : PageKey_t) (offset : Int) : Option Bytes :=
  match call, reply with
  | .put other bytes, .offset start => if other = key ∧ start = offset then some bytes else none
  | .putAt other bytes _, .offset start =>
    if other = key ∧ start = offset then some bytes else none
  | _, _ => none

/-- The string that the calls wrote last at an offset of a segment. -/
def contentsOf : History Request Reply → PageKey_t → Int → Option Bytes
  | [], _, _ => none
  | (call, reply) :: rest, key, offset =>
    (writtenBy call reply key offset).or (contentsOf rest key offset)

/-- A call that returned no offset wrote nothing. -/
theorem contentsOf_quiet (call : Request) (reply : Reply) (rest : History Request Reply)
    (quiet : ∀ offset, reply ≠ .offset offset) :
    contentsOf ((call, reply) :: rest) = contentsOf rest := by
  funext key offset
  rw [contentsOf]
  cases reply with
  | offset start => exact absurd rfl (quiet start)
  | _ => cases call <;> exact Option.none_or

theorem contentsOf_other (call : Request) (reply : Reply) (rest : History Request Reply)
    (key other : PageKey_t) (offset : Int) (segment : call.segments = [key])
    (different : other ≠ key) :
    contentsOf ((call, reply) :: rest) other offset = contentsOf rest other offset := by
  rw [contentsOf]
  have nothing : writtenBy call reply other offset = none := by
    cases call with
    | put name bytes =>
      cases segment
      cases reply with
      | offset start => exact if_neg fun equal => different equal.1.symm
      | _ => rfl
    | putAt name bytes at' =>
      cases segment
      cases reply with
      | offset start => exact if_neg fun equal => different equal.1.symm
      | _ => rfl
    | _ => rfl
  rw [nothing, Option.none_or]

theorem contentsOf_put (rest : History Request Reply) (key : PageKey_t) (bytes : Bytes)
    (start offset : Int) :
    contentsOf ((.put key bytes, .offset start) :: rest) key offset =
      if offset = start then some bytes else contentsOf rest key offset := by
  rw [contentsOf, writtenBy]
  by_cases same : offset = start
  · rw [if_pos ⟨rfl, same.symm⟩, if_pos same, Option.some_or]
  · rw [if_neg fun equal => same equal.2.symm, if_neg same, Option.none_or]

theorem contentsOf_putAt (rest : History Request Reply) (key : PageKey_t) (bytes : Bytes)
    (place start offset : Int) :
    contentsOf ((.putAt key bytes place, .offset start) :: rest) key offset =
      if offset = start then some bytes else contentsOf rest key offset := by
  rw [contentsOf, writtenBy]
  by_cases same : offset = start
  · rw [if_pos ⟨rfl, same.symm⟩, if_pos same, Option.some_or]
  · rw [if_neg fun equal => same equal.2.symm, if_neg same, Option.none_or]

/-! ### Offsets and cells -/

/-- The cells of a chain of pages of the given size. -/
def tapeLength (pageSize : Nat) (chain : List Nat) : Nat :=
  (chain.map fun pageno => pageSize - bodyOffset pageno).sum

/-- The cell of the chain at a file offset. -/
def tapePos (pageSize : Nat) (chain : List Nat) (place : Nat) : Nat :=
  tapeLength pageSize (chain.takeWhile (· ≠ place / pageSize)) +
    (place % pageSize - bodyOffset (place / pageSize))

/-- The offset lies in the body of a page of the chain, with room for a length header. -/
def OnPage (pageSize : Nat) (chain : List Nat) (offset : Int) : Prop :=
  0 ≤ offset ∧ offset.toNat / pageSize ∈ chain ∧
    bodyOffset (offset.toNat / pageSize) ≤ offset.toNat % pageSize ∧
    offset.toNat % pageSize + 4 ≤ pageSize

theorem tapeLength_append (pageSize : Nat) (front back : List Nat) :
    tapeLength pageSize (front ++ back) = tapeLength pageSize front + tapeLength pageSize back := by
  rw [tapeLength, List.map_append, List.sum_append, tapeLength, tapeLength]

theorem length_pageCells {pages : PageMap} {device : Device} {pageSize : Nat}
    (stores : Stores device pageSize pages) {pageno : Nat} {view : PageView}
    (known : pages pageno = some view) :
    (pageCells pages pageno).length = pageSize - bodyOffset pageno := by
  obtain ⟨bodyEq, space⟩ := (stores pageno view known).length_body
  rw [pageCells_of_some known, view.length_cells space]
  omega

theorem length_chainCells {pages : PageMap} {device : Device} {pageSize : Nat}
    (stores : Stores device pageSize pages) (chain : List Nat)
    (known : ∀ pageno ∈ chain, ∃ view, pages pageno = some view) :
    (chainCells pages chain).length = tapeLength pageSize chain := by
  induction chain with
  | nil => rfl
  | cons pageno rest inductionHypothesis =>
    obtain ⟨view, seen⟩ := known pageno List.mem_cons_self
    rw [chainCells_cons, List.length_append, length_pageCells stores seen, inductionHypothesis
      fun other member => known other (List.mem_cons_of_mem _ member), tapeLength, tapeLength,
      List.map_cons, List.sum_cons]

/-- The pages in front of a page of a chain. -/
theorem takeWhile_front {chain front rest : List Nat} {pageno : Nat}
    (split : chain = front ++ pageno :: rest) (apart : pageno ∉ front) :
    chain.takeWhile (· ≠ pageno) = front := by
  rw [split, List.takeWhile_append_of_pos, List.takeWhile_cons_of_neg, List.append_nil]
  · simp
  · intro other member
    exact decide_eq_true fun equal => apart (by rw [← equal]; exact member)

/-- The place of an offset does not depend on the pages behind it. -/
theorem tapePos_append (pageSize : Nat) (chain fresh : List Nat) (place : Nat)
    (member : place / pageSize ∈ chain) :
    tapePos pageSize (chain ++ fresh) place = tapePos pageSize chain place := by
  obtain ⟨front, rest, split, apart⟩ := List.eq_append_cons_of_mem member
  have longer : chain ++ fresh = front ++ place / pageSize :: (rest ++ fresh) := by
    rw [split, List.append_assoc]
    rfl
  rw [tapePos, tapePos, takeWhile_front split apart, takeWhile_front longer apart]

/-- The offset of a cell of a page, as `put` computes it. -/
theorem onPage_of_place {pageSize : Nat} {chain front rest : List Nat} {pageno pos : Nat}
    (split : chain = front ++ pageno :: rest) (apart : pageno ∉ front)
    (inside : bodyOffset pageno + pos + 4 ≤ pageSize) :
    OnPage pageSize chain (pageno * pageSize + bodyOffset pageno + pos : Nat) ∧
      tapePos pageSize chain (pageno * pageSize + bodyOffset pageno + pos) =
        tapeLength pageSize front + pos := by
  have quotient : (pageno * pageSize + bodyOffset pageno + pos) / pageSize = pageno :=
    place_div (by omega)
  have remainder : (pageno * pageSize + bodyOffset pageno + pos) % pageSize =
      bodyOffset pageno + pos := place_mod (by omega)
  refine ⟨⟨Int.natCast_nonneg _, ?_⟩, ?_⟩
  · rw [Int.toNat_natCast, quotient, remainder, split]
    exact ⟨List.mem_append_right _ List.mem_cons_self, Nat.le_add_right _ _, inside⟩
  · rw [tapePos, quotient, remainder, takeWhile_front split apart, Nat.add_sub_cancel_left]

/-- The offset in its page, and the chain around it. -/
theorem OnPage.split {pageSize : Nat} {chain : List Nat} {offset : Int}
    (onPage : OnPage pageSize chain offset) :
    ∃ front pageno pos rest, chain = front ++ pageno :: rest ∧ pageno ∉ front ∧
      offset = (pageno * pageSize + bodyOffset pageno + pos : Nat) ∧
      bodyOffset pageno + pos + 4 ≤ pageSize ∧
      tapePos pageSize chain offset.toNat = tapeLength pageSize front + pos := by
  obtain ⟨nonneg, member, inBody, inside⟩ := onPage
  obtain ⟨front, rest, split, apart⟩ := List.eq_append_cons_of_mem member
  refine ⟨front, _, offset.toNat % pageSize - bodyOffset (offset.toNat / pageSize), rest, split,
    apart, ?_, by omega, by rw [tapePos, takeWhile_front split apart]⟩
  rw [Nat.add_assoc, Nat.add_sub_cancel' inBody, Nat.mul_comm, Nat.div_add_mod,
    Int.toNat_of_nonneg nonneg]

theorem OnPage.append {pageSize : Nat} {chain : List Nat} {offset : Int}
    (onPage : OnPage pageSize chain offset) (fresh : List Nat) :
    OnPage pageSize (chain ++ fresh) offset :=
  ⟨onPage.1, List.mem_append_left _ onPage.2.1, onPage.2.2⟩

/-- A string that the tape reads at the cell of an offset stands on the chain there. -/
theorem OnPage.stands {pages : PageMap} {device : Device} {pageSize : Nat} {chain : List Nat}
    {offset : Int} {bytes : Bytes} (onPage : OnPage pageSize chain offset)
    (stores : Stores device pageSize pages) (linked : Chain pages chain)
    (reads : Reads (chainCells pages chain) (tapePos pageSize chain offset.toNat)
      (SMDPageFile.lengthHeader bytes.length ++ bytes)) :
    ∃ front pageno pos rest, chain = front ++ pageno :: rest ∧
      offset = (pageno * pageSize + bodyOffset pageno + pos : Nat) ∧
      bodyOffset pageno + pos + 4 ≤ pageSize ∧ Stands pages (pageno :: rest) pos bytes ∧
      tapePos pageSize chain offset.toNat = (chainCells pages front).length + pos := by
  obtain ⟨front, pageno, pos, rest, split, _, offsetEq, inside, posEq⟩ := onPage.split
  have frontLength := length_chainCells stores front fun number member => linked.known (by
    rw [split]
    exact List.mem_append_left _ member)
  rw [← frontLength] at posEq
  refine ⟨front, pageno, pos, rest, split, offsetEq, inside, ?_, posEq⟩
  rw [posEq, split, chainCells_append, reads_append_left] at reads
  exact reads

/-! ### Where put leaves a string -/

/-- The place where `put` starts a string has room for the length header and for the minimal
unit, which `get` asks for. -/
def SMDPageFile.Findable (minUint count pageSize : Nat) (view : PageView) : Prop :=
  if turnsFirst minUint count view then minUint + 16 ≤ pageSize else max minUint 4 ≤ view.space

instance (minUint count pageSize : Nat) (view : PageView) :
    Decidable (SMDPageFile.Findable minUint count pageSize view) := by
  unfold SMDPageFile.Findable
  infer_instance

/-- A unit of 4 bytes is that of the length header. -/
theorem SMDPageFile.findable_four {count pageSize : Nat} {view : PageView} (some' : 0 < count)
    (room : 28 < pageSize) : Findable 4 count pageSize view := by
  unfold Findable
  split
  · omega
  · rename_i stays
    rw [turnsFirst, Bool.and_eq_true, decide_eq_true_eq, decide_eq_true_eq, not_and_or] at stays
    omega

/-- Such a place has room for `put` to go on. -/
theorem SMDPageFile.Findable.room {minUint count pageSize : Nat} {view : PageView}
    (findable : Findable minUint count pageSize view) (inPage : view.space + 12 ≤ pageSize) :
    count + 4 ≤ view.space ∨ minUint + 12 ≤ pageSize := by
  unfold Findable at findable
  split at findable <;> omega

/-- A string stands at a place in the body of page `pageno`, behind the first `written` cells of the
chain, with room for the length header and for the minimal unit. -/
structure StandsAt (pageSize minUint : Nat) (pages : PageMap) (chain : List Nat) (written : Nat)
    (bytes : Bytes) (pageno pos : Nat) : Prop where
  room : bodyOffset pageno + pos + max minUint 4 ≤ pageSize
  onPage : OnPage pageSize chain (pageno * pageSize + bodyOffset pageno + pos : Nat)
  behind : written ≤ tapePos pageSize chain (pageno * pageSize + bodyOffset pageno + pos)
  reads : Reads (chainCells pages chain)
    (tapePos pageSize chain (pageno * pageSize + bodyOffset pageno + pos))
    (SMDPageFile.lengthHeader bytes.length ++ bytes)

/-- The place is an `int` in a file that ends below `2 ^ 31`. -/
theorem StandsAt.place_lt {pageSize minUint written count pageno pos : Nat} {pages : PageMap}
    {chain : List Nat} {bytes : Bytes}
    (standsAt : StandsAt pageSize minUint pages chain written bytes pageno pos)
    (allocated : pageno ≤ count) (fileSize : (count + 1) * pageSize ≤ 2147483648) :
    pageno * pageSize + bodyOffset pageno + pos < 2147483648 := by
  have inFile := page_end_le allocated fileSize
  have room := standsAt.room
  omega

/-- A string that was put behind cells of a known number. -/
theorem standsAt_of_cells {pageSize minUint written pageno pos : Nat} {pages : PageMap}
    {chain front rest : List Nat} {bytes : Bytes} (before behind : Tape UInt8)
    (split : chain = front ++ pageno :: rest) (apart : pageno ∉ front)
    (room : bodyOffset pageno + pos + max minUint 4 ≤ pageSize)
    (length : before.length = tapeLength pageSize front + pos) (enough : written ≤ before.length)
    (cells : chainCells pages chain =
      before ++ (SMDPageFile.lengthHeader bytes.length ++ bytes).map some ++ behind) :
    StandsAt pageSize minUint pages chain written bytes pageno pos := by
  obtain ⟨onPage, posEq⟩ := onPage_of_place split apart
    (Nat.le_trans (Nat.add_le_add_left (Nat.le_max_right minUint 4) _) room)
  refine ⟨room, onPage, by rw [posEq, ← length]; exact enough, ?_⟩
  rw [posEq, ← length, cells]
  exact reads_self _ _ _

section Put

variable {mgr after : SMDPageManagement Device} {pages later : PageMap} {value : PageNo_t}
  {chain front fresh : List Nat} {minUint left : Nat} {view : PageView} {bytes : Bytes}

/-- A string that starts a new page does not end on the last page there was. -/
theorem ne_nil_of_turns {last : Nat} {held : PageView}
    (stored : StoresPage mgr.device mgr.m_nPageSize last view)
    (laterStores : Stores after.device mgr.m_nPageSize later) (heldEq : later last = some held)
    (turns : SMDPageFile.turnsFirst minUint bytes.length view = true)
    (cells : chainCells later (last :: fresh) =
      view.written.map some ++ SMDPageFile.putCells minUint mgr.m_nPageSize view bytes ++ free left) :
    fresh ≠ [] := by
  obtain ⟨bodyEq, space⟩ := stored.length_body
  rintro rfl
  have lengths := congrArg List.length cells
  rw [chainCells_cons, chainCells_nil, List.append_nil, length_pageCells laterStores heldEq,
    SMDPageFile.putCells, if_pos turns] at lengths
  simp only [List.length_append, List.length_map, length_free, SMDPageFile.length_lengthHeader,
    view.length_written space] at lengths
  omega

/-- A string that starts a new page needs one. -/
theorem fresh_of_turns (grown : Grown mgr after pages later chain fresh)
    (laterStores : Stores after.device mgr.m_nPageSize later)
    (stores : Stores mgr.device mgr.m_nPageSize pages)
    (splitEq : chain = front ++ [value.nLastPageNo]) (known : pages value.nLastPageNo = some view)
    (turns : SMDPageFile.turnsFirst minUint bytes.length view = true)
    (cells : chainCells later (value.nLastPageNo :: fresh) =
      view.written.map some ++ SMDPageFile.putCells minUint mgr.m_nPageSize view bytes ++ free left) :
    ∃ more, fresh = (mgr.m_nPageCnt + 1) :: more := by
  obtain ⟨held, heldEq⟩ := grown.linked.known (List.mem_append_left fresh
    (show value.nLastPageNo ∈ chain by rw [splitEq]; exact List.mem_concat_self))
  have some' := ne_nil_of_turns (stores _ view known) laterStores heldEq turns cells
  obtain ⟨next, more, rfl⟩ := List.exists_cons_of_ne_nil some'
  have freshEq := grown.freshEq
  rw [List.length_cons, List.range'_succ] at freshEq
  exact ⟨more, by rw [(List.cons.inj freshEq).1]⟩

/-- The cells of a chain before and after `put`. -/
theorem put_cells (chainOf : ChainOf pages mgr.m_nPageCnt value chain)
    (grown : Grown mgr after pages later chain fresh)
    (splitEq : chain = front ++ [value.nLastPageNo]) (known : pages value.nLastPageNo = some view)
    (others : ∀ pageno, pageno ∉ value.nLastPageNo :: fresh → later pageno = pages pageno)
    {rest : Tape UInt8}
    (cells : chainCells later (value.nLastPageNo :: fresh) = view.written.map some ++ rest) :
    value.nLastPageNo ∉ front ∧
      chainCells pages chain = chainCells pages front ++ view.written.map some ++ free view.space ∧
      chainCells later (chain ++ fresh) =
        chainCells pages front ++ view.written.map some ++ rest := by
  have distinct := chainOf.distinct
  rw [splitEq] at distinct
  have lastApart : value.nLastPageNo ∉ front := fun member =>
    (List.nodup_append.mp distinct).2.2 _ member _ (List.mem_singleton.mpr rfl) rfl
  have frontCells : chainCells later front = chainCells pages front := by
    refine chainCells_congr fun pageno member => others pageno fun inside => ?_
    rcases List.mem_cons.mp inside with rfl | inside
    · exact lastApart member
    · have old := chainOf.allocated pageno (by rw [splitEq]; exact List.mem_append_left _ member)
      exact Nat.not_lt_of_le old (grown.new_page inside).1
  refine ⟨lastApart, ?_, ?_⟩
  · rw [splitEq, chainCells_append, chainCells_cons, chainCells_nil, List.append_nil,
      pageCells_of_some known, PageView.cells, List.append_assoc]
  · rw [splitEq, List.append_assoc, List.singleton_append, chainCells_append, frontCells, cells,
      List.append_assoc]

/-- What `put` leaves on the chain of a segment: behind the written part of the tape stands the
string, at the cell of the offset that `put` returns. -/
theorem put_place (chainOf : ChainOf pages mgr.m_nPageCnt value chain)
    (grown : Grown mgr after pages later chain fresh) (room : 28 < mgr.m_nPageSize)
    (stores : Stores mgr.device mgr.m_nPageSize pages)
    (laterStores : Stores after.device mgr.m_nPageSize later)
    (splitEq : chain = front ++ [value.nLastPageNo]) (known : pages value.nLastPageNo = some view)
    (findable : SMDPageFile.Findable minUint bytes.length mgr.m_nPageSize view)
    (others : ∀ pageno, pageno ∉ value.nLastPageNo :: fresh → later pageno = pages pageno)
    (cells : chainCells later (value.nLastPageNo :: fresh) =
      view.written.map some ++ SMDPageFile.putCells minUint mgr.m_nPageSize view bytes ++ free left) :
    ∃ written rest, chainCells pages chain = written ++ free view.space ∧
      chainCells later (chain ++ fresh) = written ++ rest ∧
      ∃ pageno pos, SMDPageFile.putAddress minUint bytes.length mgr.m_nPageSize mgr.m_nPageCnt
          value.nLastPageNo view = pageno * mgr.m_nPageSize + bodyOffset pageno + pos ∧
        pageno ≤ after.m_nPageCnt ∧
        StandsAt mgr.m_nPageSize minUint later (chain ++ fresh) written.length bytes pageno pos := by
  obtain ⟨bodyEq, space⟩ := (stores _ view known).length_body
  have usedEq : view.used = view.body.length - view.space := rfl
  have lastLe := chainOf.allocated _ chainOf.last_mem
  have countEq := grown.countEq
  rw [List.append_assoc] at cells
  obtain ⟨lastApart, before, behind⟩ := put_cells chainOf grown splitEq known others cells
  have length : (chainCells pages front ++ view.written.map some).length =
      tapeLength mgr.m_nPageSize front + view.used := by
    rw [List.length_append, List.length_map, view.length_written space, length_chainCells stores
      front fun pageno member => chainOf.linked.known (by
        rw [splitEq]
        exact List.mem_append_left _ member)]
    rfl
  refine ⟨_, _, before, behind, ?_⟩
  by_cases turns : SMDPageFile.turnsFirst minUint bytes.length view = true
  · -- the string starts the first new page
    rw [← List.append_assoc] at cells
    obtain ⟨more, freshEq⟩ := fresh_of_turns grown laterStores stores splitEq known turns cells
    rw [SMDPageFile.Findable, if_pos turns] at findable
    have offsetEq : bodyOffset (mgr.m_nPageCnt + 1) = 12 := bodyOffset_pos _ (by omega)
    have notSkipped : SMDPageFile.skipped minUint (mgr.m_nPageSize - 16) = 0 := if_neg (by omega)
    have apart : mgr.m_nPageCnt + 1 ∉ chain := fun member =>
      absurd (chainOf.allocated _ member) (Nat.not_succ_le_self _)
    refine ⟨mgr.m_nPageCnt + 1, 0, ?_, ?_, standsAt_of_cells
      (chainCells pages front ++ view.written.map some ++ free view.space) (free left)
      (by rw [freshEq]) apart (by omega) ?_ ?_ ?_⟩
    · rw [SMDPageFile.putAddress, if_pos turns, offsetEq]
    · rw [countEq, freshEq, List.length_cons]
      omega
    · rw [List.length_append, length, length_free, splitEq, tapeLength_append, tapeLength,
        tapeLength, List.map_singleton, List.sum_singleton]
      omega
    · exact (List.prefix_append _ _).length_le
    · rw [behind, SMDPageFile.putCells, if_pos turns, notSkipped, free_zero, List.append_nil,
        List.map_append]
      simp only [List.append_assoc]
  · rw [SMDPageFile.Findable, if_neg turns] at findable
    refine ⟨value.nLastPageNo, view.used, ?_, by omega, standsAt_of_cells _ (free left)
      (by rw [splitEq, List.append_assoc]; rfl) lastApart (by omega) length (Nat.le_refl _) ?_⟩
    · rw [SMDPageFile.putAddress, if_neg turns]
    · rw [behind, SMDPageFile.putCells, if_neg turns, Nat.min_eq_right (by omega),
        SMDPageFile.take_lengthHeader, List.map_append]
      simp only [List.append_assoc]

end Put

end LevelDBLib.KvDB
