/-
This file follows the read cache of the table file through any sequence of
requests, for every number of buffers.

The buffers in use are listed with their pages, the last request first: `Slots`
says that the ring runs through them in this order and then through the buffers
that never held a page, that the page map and the table of the buffers name each
other along the list, and that every listed buffer holds the bytes of its page.
One request does to the list what `Recency.touch` does to a store of limited
capacity, so the pages of the list are those requested last.

Two narrowings limit this. A page number travels as an `unsigned short` whose
largest value stands for no page, and the place of a page is the product of two
`int`.
-/

import Mathlib.Data.List.Perm.Subperm
import LevelDBLib.Library.Recency
import LevelDBLib.Library.Runs
import LevelDBLib.KvDB.CachedPages

namespace LevelDBLib.KvDB

open Buffers Runs Recency

namespace CDevCache

/-! ### Buffers in use and buffers that never were -/

/-- The buffers that never held a page, as they stand in the ring. -/
def idle (used capacity : Nat) : List Nat :=
  (List.range' used (capacity - used)).reverse

theorem idle_of_lt {used capacity : Nat} (room : used < capacity) :
    idle used capacity = idle (used + 1) capacity ++ [used] := by
  have count : capacity - used = capacity - (used + 1) + 1 := by omega
  rw [idle, idle, count, List.range'_succ, List.reverse_cons]

theorem idle_self (capacity : Nat) : idle capacity capacity = [] := by
  rw [idle, Nat.sub_self, List.range'_zero, List.reverse_nil]

/-- The buffer begins with those bytes of the page that are in the file. -/
def Serves (contents : Bytes) (size pageNo : Nat) (page : Bytes) : Prop :=
  page.length = size + 4 ∧ slice contents (pageNo * size) size <+: page

/-- The pages and their buffers, the last request first. -/
structure Slots (contents : Bytes) (pages : Nat) (cache : CDevCache)
    (slots : List (Nat × Nat)) : Prop where
  some_buffer : 0 < cache._nMaxBufferNum
  few_pages : pages ≤ 65535
  maxPageNum : cache._nMaxPageNum = pages
  mapSize : cache._PageMap._nMaxPageNum = pages
  length_map : cache._PageMap._pnArrayPages.length = pages
  length_table : cache._Priorityque._poArrayBuf.length = cache._nMaxBufferNum
  used : slots.length ≤ cache._nMaxBufferNum
  distinct : (slots.map Prod.fst).Nodup
  below : ∀ slot ∈ slots, slot.1 < pages
  buffers : (slots.map Prod.snd).Perm (List.range slots.length)
  ring : cache._Priorityque.ring =
    slots.map Prod.snd ++ idle slots.length cache._nMaxBufferNum
  holds : ∀ pageNo bufNo, cache._PageMap.Holds pageNo bufNo ↔ (pageNo, bufNo) ∈ slots
  named : ∀ pageNo bufNo, (pageNo, bufNo) ∈ slots →
    cache._Priorityque._poArrayBuf[bufNo]? = some pageNo
  unnamed : ∀ bufNo, slots.length ≤ bufNo → bufNo < cache._nMaxBufferNum →
    cache._Priorityque._poArrayBuf[bufNo]? = some CPriorityQue.NO_PAGE
  loaded : ∀ pageNo bufNo, (pageNo, bufNo) ∈ slots → ∃ page,
    cache._ppBuffer[bufNo]? = some (some page) ∧ Serves contents cache._nPageSize pageNo page
  unloaded : ∀ bufNo, slots.length ≤ bufNo → bufNo < cache._nMaxBufferNum →
    cache._ppBuffer[bufNo]? = some none

/-- A new cache has no buffer in use. -/
theorem slots_init {newMemory : Nat → Nat → UInt8} {nPageSize nMaxBufferNum pages : Nat}
    {file : FILE} {start : FILE × CDevCache} (some_buffer : 0 < nMaxBufferNum)
    (count : pageNum file nPageSize = pages) (few_pages : pages ≤ 65535)
    (ready : init newMemory nPageSize nMaxBufferNum file = .ok start) :
    start.1 = { file with position := 0 } ∧ start.2._nPageSize = nPageSize ∧
      start.2._nMaxBufferNum = nMaxBufferNum ∧ Slots file.contents pages start.2 [] := by
  unfold init at ready
  split at ready
  · cases ready
  · cases ready
    have short : ushort (pageNum file nPageSize) = pages := by
      rw [count, ushort_of_lt pages (by omega)]
    refine ⟨rfl, rfl, rfl, some_buffer, few_pages, count, short,
      List.length_replicate.trans short, List.length_replicate, Nat.zero_le _, List.nodup_nil,
      by simp, List.Perm.refl _, ?_, ?_, by simp, ?_, by simp, ?_⟩
    · show (List.range nMaxBufferNum).reverse = [] ++ idle 0 nMaxBufferNum
      rw [idle, List.range_eq_range', List.nil_append, Nat.sub_zero]
    · intro pageNo bufNo
      constructor
      · rintro ⟨found, named⟩
        exact absurd (List.eq_of_mem_replicate (List.mem_of_getElem? found)) named
      · intro member
        cases member
    · intro bufNo _ inside
      exact List.getElem?_replicate_of_lt inside
    · intro bufNo _ inside
      exact List.getElem?_replicate_of_lt inside

variable {contents : Bytes} {pages : Nat} {cache : CDevCache} {slots : List (Nat × Nat)}

namespace Slots

variable (listed : Slots contents pages cache slots)

include listed

/-! ### What the list says -/

theorem buffer_lt {pageNo bufNo : Nat} (member : (pageNo, bufNo) ∈ slots) :
    bufNo < slots.length :=
  List.mem_range.mp (listed.buffers.mem_iff.mp (List.mem_map_of_mem member))

/-- Every used buffer has a page. -/
theorem exists_page {bufNo : Nat} (used : bufNo < slots.length) :
    ∃ pageNo, (pageNo, bufNo) ∈ slots := by
  obtain ⟨slot, member, equal⟩ :=
    List.mem_map.mp (listed.buffers.mem_iff.mpr (List.mem_range.mpr used))
  exact ⟨slot.1, equal ▸ member⟩

/-- A page that is missing leaves fewer buffers in use than there are pages. -/
theorem length_lt {pageNo : Nat} (inside : pageNo < pages) (missing : pageNo ∉ slots.map Prod.fst) :
    slots.length < pages := by
  have distinct : (pageNo :: slots.map Prod.fst).Nodup := List.nodup_cons.mpr ⟨missing, listed.distinct⟩
  have sub : pageNo :: slots.map Prod.fst ⊆ List.range pages := by
    intro other member
    rw [List.mem_range]
    rcases List.mem_cons.mp member with rfl | member
    · exact inside
    · obtain ⟨slot, there, equal⟩ := List.mem_map.mp member
      exact equal ▸ listed.below slot there
  have count := (distinct.subperm sub).length_le
  rwa [List.length_cons, List.length_map, List.length_range] at count

/-- The page map and the table of the buffers name each other. -/
theorem paired (pageNo bufNo : Nat) : cache._PageMap.Holds pageNo bufNo ↔
    cache._Priorityque._poArrayBuf[bufNo]? = some pageNo ∧ pageNo ≠ CPriorityQue.NO_PAGE := by
  have few := listed.few_pages
  rw [listed.holds]
  constructor
  · intro member
    refine ⟨listed.named pageNo bufNo member, ?_⟩
    have bound := listed.below _ member
    show pageNo ≠ 65535
    omega
  · rintro ⟨entry, named⟩
    have inside := (List.getElem?_eq_some_iff.mp entry).1
    rw [listed.length_table] at inside
    have used : bufNo < slots.length := by
      by_contra unused
      rw [listed.unnamed bufNo (by omega) inside] at entry
      exact named (Option.some.inj entry).symm
    obtain ⟨other, member⟩ := listed.exists_page used
    rw [listed.named other bufNo member] at entry
    exact Option.some.inj entry ▸ member

/-- The ring runs once through every buffer. -/
theorem ring_perm : cache._Priorityque.ring.Perm (List.range cache._nMaxBufferNum) := by
  have split : List.range cache._nMaxBufferNum = List.range slots.length ++
      List.range' slots.length (cache._nMaxBufferNum - slots.length) := by
    have joined := @List.range'_append_1 0 slots.length (cache._nMaxBufferNum - slots.length)
    rw [Nat.zero_add, Nat.add_sub_cancel' listed.used] at joined
    rw [List.range_eq_range', List.range_eq_range', joined]
  rw [listed.ring, split]
  exact listed.buffers.append (List.reverse_perm _)

/-- Some buffer is free exactly when fewer are in use than there are. -/
theorem free_iff : (∃ bufNo : Nat, cache._Priorityque._poArrayBuf[bufNo]? = some CPriorityQue.NO_PAGE) ↔
    slots.length < cache._nMaxBufferNum := by
  have few := listed.few_pages
  constructor
  · rintro ⟨bufNo, entry⟩
    have inside := (List.getElem?_eq_some_iff.mp entry).1
    rw [listed.length_table] at inside
    by_contra full
    obtain ⟨pageNo, member⟩ := listed.exists_page (Nat.lt_of_lt_of_le inside (Nat.le_of_not_lt full))
    rw [listed.named pageNo bufNo member] at entry
    have bound := listed.below _ member
    have equal : pageNo = 65535 := Option.some.inj entry
    omega
  · intro room
    exact ⟨slots.length, listed.unnamed _ (Nat.le_refl _) room⟩

/-! ### A page that is in a buffer -/

/-- A page in a buffer is served from there and becomes the first of the list. -/
theorem getPageByNo_hit (file : FILE) {pageNo bufNo : Nat} {front back : List (Nat × Nat)}
    (slotsEq : slots = front ++ (pageNo, bufNo) :: back) :
    ∃ page after, cache.getPageByNo file pageNo = .ok (some page, file, after) ∧
      Serves contents cache._nPageSize pageNo page ∧ after._nPageSize = cache._nPageSize ∧
      after._nMaxBufferNum = cache._nMaxBufferNum ∧
      Slots contents pages after ((pageNo, bufNo) :: (front ++ back)) := by
  have member : (pageNo, bufNo) ∈ slots :=
    slotsEq ▸ List.mem_append_right _ List.mem_cons_self
  have perm : ((pageNo, bufNo) :: (front ++ back)).Perm slots := by
    rw [slotsEq]
    exact List.perm_middle.symm
  have inside := listed.below _ member
  have used := listed.buffer_lt member
  have room := listed.used
  have map := listed.length_map
  obtain ⟨page, stored, serves⟩ := listed.loaded pageNo bufNo member
  obtain ⟨found, named⟩ := (listed.holds pageNo bufNo).mpr member
  obtain ⟨bound, entry⟩ := List.getElem?_eq_some_iff.mp found
  have updated : cache._Priorityque.updatePriority bufNo = .ok { cache._Priorityque with
      ring := bufNo :: (front ++ back).map Prod.snd ++ idle slots.length cache._nMaxBufferNum } := by
    have once : bufNo ∉ front.map Prod.snd := by
      have nodup := listed.buffers.nodup_iff.mpr List.nodup_range
      rw [slotsEq, List.map_append, List.map_cons] at nodup
      exact (List.nodup_cons.mp (List.perm_middle.nodup_iff.mp nodup)).1 ∘ List.mem_append_left _
    have ring : cache._Priorityque.ring.erase bufNo =
        (front ++ back).map Prod.snd ++ idle slots.length cache._nMaxBufferNum := by
      rw [listed.ring]
      nth_rewrite 1 [slotsEq]
      rw [List.map_append, List.map_cons, List.append_assoc, List.erase_append_right _ once,
        List.cons_append, List.erase_cons_head, List.map_append, List.append_assoc]
    rw [CPriorityQue.updatePriority, if_pos (by rw [listed.length_table]; omega), ring,
      List.cons_append]
  refine ⟨page, { cache with _Priorityque := { cache._Priorityque with
      ring := bufNo :: (front ++ back).map Prod.snd ++ idle slots.length cache._nMaxBufferNum } },
    ?_, serves, rfl, rfl, ?_⟩
  · have below : ¬ cache._nMaxPageNum ≤ (pageNo : Int) := by
      rw [listed.maxPageNum]
      omega
    rw [getPageByNo, if_neg below, CPageMap.getBufferNo_of_lt _ _ bound, entry, ok_bind,
      if_neg named, updated, ok_bind]
    simp only [getPage, stored, ok_bind]
  · refine ⟨listed.some_buffer, listed.few_pages, listed.maxPageNum, listed.mapSize,
      listed.length_map, listed.length_table, ?_, ?_, ?_, ?_, ?_, ?_, ?_, ?_, ?_, ?_⟩
    · rw [perm.length_eq]
      exact listed.used
    · exact (perm.map Prod.fst).nodup_iff.mpr listed.distinct
    · exact fun slot there => listed.below slot (perm.mem_iff.mp there)
    · rw [perm.length_eq]
      exact (perm.map Prod.snd).trans listed.buffers
    · rw [perm.length_eq]
      rfl
    · exact fun page buffer => (listed.holds page buffer).trans perm.mem_iff.symm
    · exact fun page buffer there => listed.named page buffer (perm.mem_iff.mp there)
    · rw [perm.length_eq]
      exact listed.unnamed
    · exact fun page buffer there => listed.loaded page buffer (perm.mem_iff.mp there)
    · rw [perm.length_eq]
      exact listed.unloaded

end Slots

/-! ### A page that is in no buffer -/

/-- The buffer that is next to be given away, with what the table says of it, and the slots that
stay. -/
structure Gives (cache : CDevCache) (slots : List (Nat × Nat)) (bufNo former : Nat)
    (front : List (Nat × Nat)) : Prop where
  lazy : cache._Priorityque.ring =
    front.map Prod.snd ++ idle (front.length + 1) cache._nMaxBufferNum ++ [bufNo]
  entry : cache._Priorityque._poArrayBuf[bufNo]? = some former
  kept : ∀ slot, slot ∈ front ↔ slot ∈ slots ∧ slot.1 ≠ former
  buffers : (bufNo :: front.map Prod.snd).Perm (List.range (front.length + 1))
  distinct : (front.map Prod.fst).Nodup
  old : former = CPriorityQue.NO_PAGE ∨ former ∈ slots.map Prod.fst
  used : slots.length ≤ front.length + 1
  short : front.length ≤ slots.length
  room : front.length + 1 ≤ cache._nMaxBufferNum
  touched : ∀ pageNo, pageNo ∉ slots.map Prod.fst →
    touch cache._nMaxBufferNum (slots.map Prod.fst) pageNo = pageNo :: front.map Prod.fst

/-- The cache after the page took the buffer of another one. -/
def given (cache : CDevCache) (pageNo bufNo former : Nat) (front : List (Nat × Nat))
    (page : Bytes) : CDevCache :=
  { cache with
    _Priorityque := ⟨cache._Priorityque._poArrayBuf.set bufNo pageNo,
      bufNo :: (front.map Prod.snd ++ idle (front.length + 1) cache._nMaxBufferNum)⟩
    _PageMap := cache._PageMap.swapped pageNo bufNo former
    _ppBuffer := cache._ppBuffer.set bufNo (some page) }

/-- What `downloadPage` reads, and the file after it. -/
def fetched (cache : CDevCache) (file : FILE) (pageNo : Nat) : Bytes × FILE :=
  (file.fseek (cache.pagePosition pageNo)).2.fread cache._nPageSize

namespace Slots

variable (listed : Slots contents pages cache slots)

include listed

/-- While there are free buffers the next of them is given away. -/
theorem gives_free (room : slots.length < cache._nMaxBufferNum) :
    Gives cache slots slots.length CPriorityQue.NO_PAGE slots := by
  have few := listed.few_pages
  refine ⟨?_, listed.unnamed _ (Nat.le_refl _) room, ?_, ?_, listed.distinct, Or.inl rfl,
    Nat.le_succ _, Nat.le_refl _, room, ?_⟩
  · rw [listed.ring, idle_of_lt room, List.append_assoc]
  · intro slot
    refine ⟨fun member => ⟨member, ?_⟩, And.left⟩
    have bound := listed.below slot member
    show slot.1 ≠ 65535
    omega
  · rw [List.range_succ]
    exact (listed.buffers.cons _).trans (List.perm_append_singleton _ _).symm
  · intro pageNo missing
    exact touch_room missing (by rwa [List.length_map])

/-- When every buffer is in use the last of the list is given away. -/
theorem gives_last {front : List (Nat × Nat)} {former bufNo : Nat}
    (slotsEq : slots = front ++ [(former, bufNo)]) (full : slots.length = cache._nMaxBufferNum) :
    Gives cache slots bufNo former front := by
  have count : slots.length = front.length + 1 := by
    rw [slotsEq, List.length_append, List.length_singleton]
  have last : (former, bufNo) ∈ slots := slotsEq ▸ List.mem_append_right _ (List.mem_singleton_self _)
  have distinct := listed.distinct
  rw [slotsEq, List.map_append, List.map_singleton] at distinct
  obtain ⟨nodup, _, apart⟩ := List.nodup_append.mp distinct
  refine ⟨?_, listed.named former bufNo last, ?_, ?_, nodup, Or.inr (List.mem_map_of_mem last),
    Nat.le_of_eq count, by omega, by omega, ?_⟩
  · rw [listed.ring, full, ← count, full, idle_self, List.append_nil, List.append_nil]
    rw [slotsEq, List.map_append, List.map_singleton]
  · intro slot
    rw [slotsEq, List.mem_append, List.mem_singleton]
    constructor
    · intro member
      exact ⟨Or.inl member, apart slot.1 (List.mem_map_of_mem member) former (List.mem_singleton_self _)⟩
    · rintro ⟨member | rfl, differs⟩
      · exact member
      · exact absurd rfl differs
  · have perm := listed.buffers
    rw [count, slotsEq, List.map_append, List.map_singleton] at perm
    exact (List.perm_append_singleton _ _).symm.trans perm
  · intro pageNo missing
    rw [slotsEq, List.map_append, List.map_singleton] at missing ⊢
    refine touch_full missing ?_
    rw [← full, slotsEq, List.length_append, List.length_append, List.length_map,
      List.length_singleton, List.length_singleton]

/-- Some buffer can always be given away. -/
theorem exists_gives : ∃ bufNo former front, Gives cache slots bufNo former front := by
  have used := listed.used
  have some_buffer := listed.some_buffer
  by_cases room : slots.length < cache._nMaxBufferNum
  · exact ⟨_, _, _, listed.gives_free room⟩
  · have filled : slots ≠ [] := by
      intro empty
      rw [empty, List.length_nil] at room
      exact room some_buffer
    exact ⟨_, _, _, listed.gives_last (List.dropLast_concat_getLast filled).symm (by omega)⟩

/-- What a buffer holds before a page is read into it. -/
theorem room_for_page {bufNo : Nat} (inside : bufNo < cache._nMaxBufferNum) :
    ∃ held, cache._ppBuffer[bufNo]? = some held ∧
      (held.getD (cache.newPage bufNo)).length = cache._nPageSize + 4 := by
  by_cases used : bufNo < slots.length
  · obtain ⟨pageNo, member⟩ := listed.exists_page used
    obtain ⟨page, stored, serves⟩ := listed.loaded pageNo bufNo member
    exact ⟨some page, stored, serves.1⟩
  · refine ⟨none, listed.unloaded bufNo (Nat.le_of_not_lt used) inside, ?_⟩
    simp [newPage, PAGE_PROTECT]

section Given

variable {bufNo former pageNo : Nat} {front : List (Nat × Nat)}
  (gives : Gives cache slots bufNo former front) (inside : pageNo < pages)
  (missing : pageNo ∉ slots.map Prod.fst)

include gives inside missing

theorem buffer_named : bufNo < 65535 := by
  have few := listed.few_pages
  have shorter := listed.length_lt inside missing
  have short := gives.short
  have place := List.mem_range.mp (gives.buffers.mem_iff.mp List.mem_cons_self)
  omega

theorem fresh : pageNo ≠ former := by
  have few := listed.few_pages
  rintro rfl
  rcases gives.old with nobody | there
  · have equal : pageNo = 65535 := nobody
    omega
  · exact missing there

/-- The cache after a page took the buffer that was given away. -/
theorem given {page : Bytes} (serves : Serves contents cache._nPageSize pageNo page) :
    Slots contents pages (cache.given pageNo bufNo former front page)
      ((pageNo, bufNo) :: front) := by
  have few := listed.few_pages
  have named : bufNo ≠ CPageMap.BUFFER_NULL :=
    Nat.ne_of_lt (listed.buffer_named gives inside missing)
  have fresh := listed.fresh gives inside missing
  have held := cache._PageMap.holds_swapped pageNo bufNo former
    (listed.length_map.trans listed.mapSize.symm) (by rw [listed.mapSize]; exact few)
    (by rw [listed.mapSize]; exact inside) named fresh
  have inTable := (List.getElem?_eq_some_iff.mp gives.entry).1
  have capacity := listed.length_table
  obtain ⟨before, stored, _⟩ := listed.room_for_page (capacity ▸ inTable)
  have inBuffers := (List.getElem?_eq_some_iff.mp stored).1
  have stays (slot : Nat × Nat) (member : slot ∈ front) : slot ∈ slots ∧ slot.1 ≠ pageNo ∧
      bufNo ≠ slot.2 := by
    have there := ((gives.kept slot).mp member).1
    refine ⟨there, fun equal => missing (equal ▸ List.mem_map_of_mem there), fun equal => ?_⟩
    have nodup := gives.buffers.nodup_iff.mpr List.nodup_range
    exact (List.nodup_cons.mp nodup).1 (equal ▸ List.mem_map_of_mem member)
  refine ⟨listed.some_buffer, few, listed.maxPageNum, ?_, ?_, List.length_set.trans capacity,
    gives.room, ?_, ?_, gives.buffers, rfl, ?_, ?_, ?_, ?_, ?_⟩
  · exact (CPageMap.nMaxPageNum_swapped _ _ _ _).trans listed.mapSize
  · exact (CPageMap.length_swapped _ _ _ _).trans listed.length_map
  · refine List.nodup_cons.mpr ⟨fun member => ?_, gives.distinct⟩
    obtain ⟨slot, there, equal⟩ := List.mem_map.mp member
    exact (stays slot there).2.1 equal
  · intro slot member
    rcases List.mem_cons.mp member with rfl | member
    · exact inside
    · exact listed.below slot (stays slot member).1
  · intro other otherBuf
    refine (held other otherBuf).trans ?_
    rw [List.mem_cons, Prod.mk.injEq, listed.holds]
    refine or_congr_right ⟨fun there => (gives.kept _).mpr ⟨there.2.2, there.2.1⟩, fun member => ?_⟩
    exact ⟨(stays _ member).2.1, ((gives.kept _).mp member).2, (stays _ member).1⟩
  · intro other otherBuf member
    rcases List.mem_cons.mp member with equal | member
    · cases equal
      exact List.getElem?_set_self inTable
    · exact (List.getElem?_set_ne (stays _ member).2.2).trans
        (listed.named other otherBuf (stays _ member).1)
  · intro otherBuf unused bound
    have place := List.mem_range.mp (gives.buffers.mem_iff.mp List.mem_cons_self)
    have used := gives.used
    rw [List.length_cons] at unused
    exact (List.getElem?_set_ne (by omega)).trans (listed.unnamed otherBuf (by omega) bound)
  · intro other otherBuf member
    rcases List.mem_cons.mp member with equal | member
    · cases equal
      exact ⟨page, List.getElem?_set_self inBuffers, serves⟩
    · obtain ⟨kept, found, served⟩ := listed.loaded other otherBuf (stays _ member).1
      exact ⟨kept, (List.getElem?_set_ne (stays _ member).2.2).trans found, served⟩
  · intro otherBuf unused bound
    have place := List.mem_range.mp (gives.buffers.mem_iff.mp List.mem_cons_self)
    have used := gives.used
    rw [List.length_cons] at unused
    exact (List.getElem?_set_ne (by omega)).trans (listed.unloaded otherBuf (by omega) bound)

/-- A page that is in no buffer is read from where the file stands after the seek. -/
theorem getPageByNo_miss (file : FILE) :
    ∃ held, held.length = cache._nPageSize + 4 ∧
      cache.getPageByNo file pageNo =
        .ok (some (splice held 0 (cache.fetched file pageNo).1), (cache.fetched file pageNo).2,
          cache.given pageNo bufNo former front (splice held 0 (cache.fetched file pageNo).1)) := by
  have few := listed.few_pages
  have short := listed.buffer_named gives inside missing
  have inTable := (List.getElem?_eq_some_iff.mp gives.entry).1
  have capacity := listed.length_table
  obtain ⟨before, stored, size⟩ := listed.room_for_page (capacity ▸ inTable)
  have inBuffers := (List.getElem?_eq_some_iff.mp stored).1
  have inMap : pageNo < cache._PageMap._pnArrayPages.length := by
    rw [listed.length_map]
    exact inside
  have entry := cache._PageMap.getBufferNo_of_lt pageNo inMap
  have unnamed : cache._PageMap._pnArrayPages[pageNo] = CPageMap.BUFFER_NULL := by
    by_contra names
    have member := (listed.holds pageNo _).mp ⟨List.getElem?_eq_getElem inMap, names⟩
    exact missing (List.mem_map_of_mem member)
  have below : ¬ cache._nMaxPageNum ≤ (pageNo : Int) := by
    rw [listed.maxPageNum]
    omega
  have swap : cache.swapPage pageNo = .ok (bufNo, { cache with
      _Priorityque := ⟨cache._Priorityque._poArrayBuf.set bufNo pageNo, bufNo ::
        (front.map Prod.snd ++ idle (front.length + 1) cache._nMaxBufferNum)⟩
      _PageMap := cache._PageMap.swapped pageNo bufNo former }) := by
    rw [swapPage, CPriorityQue.getLazyBufNoAndSwapPage, gives.lazy, List.getLast?_concat]
    simp only [ushort_of_lt bufNo (by omega), ushort_of_lt pageNo (by omega), gives.entry,
      List.dropLast_concat, ok_bind]
    rfl
  refine ⟨_, size, ?_⟩
  rw [getPageByNo, if_neg below, entry, ok_bind, if_pos unnamed, swap, ok_bind]
  simp only [downloadPage, stored, ok_bind, getPage, List.getElem?_set_self inBuffers]
  rfl

end Given

/-! ### One request -/

/-- A page whose place in the file is computed right is served, and the list of the slots changes
as a store does that keeps what was requested last. -/
theorem getPageByNo_spec (file : FILE) (whole : file.contents = contents) {pageNo : Nat}
    (inside : pageNo < pages)
    (placed : cache.pagePosition pageNo = (pageNo * cache._nPageSize : Nat)) :
    ∃ page rest after bufNo front, cache.getPageByNo file pageNo = .ok (some page, rest, after) ∧
      Serves contents cache._nPageSize pageNo page ∧ rest.contents = contents ∧
      after._nPageSize = cache._nPageSize ∧ after._nMaxBufferNum = cache._nMaxBufferNum ∧
      Slots contents pages after ((pageNo, bufNo) :: front) ∧
      touch cache._nMaxBufferNum (slots.map Prod.fst) pageNo = pageNo :: front.map Prod.fst := by
  by_cases member : pageNo ∈ slots.map Prod.fst
  · obtain ⟨slot, there, rfl⟩ := List.mem_map.mp member
    obtain ⟨front, back, slotsEq⟩ := List.append_of_mem there
    obtain ⟨page, after, served, serves, size, capacity, listedAfter⟩ :=
      listed.getPageByNo_hit file slotsEq
    have distinct := listed.distinct
    rw [slotsEq, List.map_append, List.map_cons] at distinct
    have new := (List.nodup_cons.mp (List.perm_middle.nodup_iff.mp distinct)).1
    refine ⟨page, file, after, slot.2, front ++ back, served, serves, whole, size, capacity,
      listedAfter, ?_⟩
    rw [slotsEq, List.map_append, List.map_cons, List.map_append]
    exact touch_split _ (new ∘ List.mem_append_left _)
  · obtain ⟨bufNo, former, front, gives⟩ := listed.exists_gives
    obtain ⟨held, size, served⟩ := listed.getPageByNo_miss gives inside member file
    have read : (cache.fetched file pageNo).1 =
        slice contents (pageNo * cache._nPageSize) cache._nPageSize := by
      rw [fetched, placed, FILE.fseek_of_nonneg, ← whole]
      rfl
    have serves : Serves contents cache._nPageSize pageNo
        (splice held 0 (cache.fetched file pageNo).1) := by
      have short : (cache.fetched file pageNo).1.length ≤ cache._nPageSize := by
        rw [read, slice, List.length_take]
        exact Nat.min_le_left _ _
      refine ⟨?_, ?_⟩
      · rw [length_splice _ _ _ (by omega), size]
      · rw [← read, splice, List.take_zero, List.nil_append]
        exact List.prefix_append _ _
    refine ⟨_, _, _, bufNo, front, served, serves, ?_, rfl, rfl,
      listed.given gives inside member serves, gives.touched pageNo member⟩
    rw [fetched, FILE.contents_fread, FILE.contents_fseek, whole]

end Slots

/-! ### Runs -/

/-- The cache and its file, asked for one page. -/
def request (state : FILE × CDevCache) (pageNo : Nat) :
    Except Fault (Option Bytes × FILE × CDevCache) :=
  state.2.getPageByNo state.1 pageNo

/-- The pages of the list are those that a store of this capacity holds after the requests. -/
def Listed (contents : Bytes) (size capacity pages : Nat) (requests : List Nat)
    (state : FILE × CDevCache) : Prop :=
  state.1.contents = contents ∧ state.2._nPageSize = size ∧ state.2._nMaxBufferNum = capacity ∧
    ∃ slots, Slots contents pages state.2 slots ∧ slots.map Prod.fst = held capacity requests

/-- What one request keeps. -/
theorem Listed.request {size capacity : Nat} {requests : List Nat} {state : FILE × CDevCache}
    (listed : Listed contents size capacity pages requests state) {pageNo : Nat}
    (inside : pageNo < pages) (placed : pageNo * size < 2147483648) :
    ∃ page after bufNo, request state pageNo = .ok (some page, after) ∧
      Serves contents size pageNo page ∧ after.2._PageMap.Holds pageNo bufNo ∧
      Listed contents size capacity pages (pageNo :: requests) after := by
  obtain ⟨whole, size_eq, capacity_eq, slots, list, recent⟩ := listed
  have position : state.2.pagePosition pageNo = (pageNo * state.2._nPageSize : Nat) := by
    rw [pagePosition, size_eq, ← Int.natCast_mul, int_of_lt _ placed]
  obtain ⟨page, rest, after, bufNo, front, served, serves, wholeAfter, sizeAfter, capacityAfter,
    listAfter, touched⟩ := list.getPageByNo_spec state.1 whole inside position
  refine ⟨page, (rest, after), bufNo, served, size_eq ▸ serves,
    (listAfter.holds _ _).mpr List.mem_cons_self, wholeAfter, sizeAfter.trans size_eq,
    capacityAfter.trans capacity_eq, _, listAfter, ?_⟩
  rw [List.map_cons, ← touched, recent, capacity_eq]
  rfl

/-- What every run of requests keeps, as long as the places of the pages are computed right. -/
theorem listed_run {size capacity : Nat} {start state : FILE × CDevCache}
    {history : History Nat (Option Bytes)} (fresh : Listed contents size capacity pages [] start)
    (run : Run request (fun _ _ pageNo => pageNo < pages ∧ pageNo * size < 2147483648) start
      history state) :
    Listed contents size capacity pages (history.map Prod.fst) state := by
  refine run.invariant (fun history state =>
    Listed contents size capacity pages (history.map Prod.fst) state) fresh ?_
  intro history state pageNo reply after listed admitted returned
  obtain ⟨page, expected, _, served, _, _, listedAfter⟩ := listed.request admitted.1 admitted.2
  rw [served] at returned
  cases returned
  exact listedAfter

end CDevCache

end LevelDBLib.KvDB
