/-
This file states what the read cache of the table file does, call by call.

A page is held when the page map names a buffer for it. `Sound` collects the
invariant of the cache: the ring runs once through every buffer, the page map
and the table of the buffers name each other, and every held page has its
buffer. From a sound cache every page number inside the page map is served: a
held page from its buffer, any other page from the place of the file where
`downloadPage` looks, and then no page is held that was not held before, or it
is the page just read.
-/

import LevelDBLib.KvDB.DevCache

namespace LevelDBLib.KvDB

open Buffers

namespace CPageMap

/-- The page map names a buffer for the page. -/
def Holds (map : CPageMap) (pageNo bufNo : Nat) : Prop :=
  map._pnArrayPages[pageNo]? = some bufNo ∧ bufNo ≠ BUFFER_NULL

theorem getBufferNo_of_lt (map : CPageMap) (pageNo : Nat)
    (inside : pageNo < map._pnArrayPages.length) :
    map.getBufferNo pageNo = .ok map._pnArrayPages[pageNo] := by
  rw [getBufferNo, if_neg (by omega)]
  simp only [Int.toNat_natCast, List.getElem?_eq_getElem inside]

theorem Holds.unique {map : CPageMap} {pageNo bufNo other : Nat} (one : map.Holds pageNo bufNo)
    (two : map.Holds pageNo other) : bufNo = other :=
  Option.some.inj (one.1.symm.trans two.1)

theorem length_addPageMap (map : CPageMap) (pageNo bufNo : Nat) :
    (map.addPageMap pageNo bufNo)._pnArrayPages.length = map._pnArrayPages.length := by
  unfold addPageMap
  split
  · rfl
  · exact List.length_set

theorem nMaxPageNum_addPageMap (map : CPageMap) (pageNo bufNo : Nat) :
    (map.addPageMap pageNo bufNo)._nMaxPageNum = map._nMaxPageNum := by
  unfold addPageMap
  split <;> rfl

/-- The entry that `addPageMap` writes, for a map whose array is as long as it says. -/
theorem getElem?_addPageMap (map : CPageMap) (pageNo bufNo other : Nat)
    (length : map._pnArrayPages.length = map._nMaxPageNum) :
    (map.addPageMap pageNo bufNo)._pnArrayPages[other]? =
      if other = pageNo ∧ pageNo < map._nMaxPageNum then some bufNo
      else map._pnArrayPages[other]? := by
  unfold addPageMap
  by_cases outside : map._nMaxPageNum ≤ pageNo
  · rw [if_pos outside, if_neg (by omega)]
  · rw [if_neg outside, List.getElem?_set]
    by_cases same : pageNo = other
    · rw [if_pos same, if_pos (by omega), if_pos (by omega)]
    · rw [if_neg same, if_neg (by omega)]

/-- The map after page `pageNo` took buffer `bufNo` from page `former`. -/
def swapped (map : CPageMap) (pageNo bufNo former : Nat) : CPageMap :=
  if former = CPriorityQue.NO_PAGE then map.addPageMap pageNo bufNo
  else (map.addPageMap pageNo bufNo).delPageMap former

theorem length_swapped (map : CPageMap) (pageNo bufNo former : Nat) :
    (map.swapped pageNo bufNo former)._pnArrayPages.length = map._pnArrayPages.length := by
  unfold swapped
  split
  · exact length_addPageMap _ _ _
  · rw [delPageMap, length_addPageMap, length_addPageMap]

theorem nMaxPageNum_swapped (map : CPageMap) (pageNo bufNo former : Nat) :
    (map.swapped pageNo bufNo former)._nMaxPageNum = map._nMaxPageNum := by
  unfold swapped
  split
  · exact nMaxPageNum_addPageMap _ _ _
  · rw [delPageMap, nMaxPageNum_addPageMap, nMaxPageNum_addPageMap]

/-- The pages held after a swap: the new page in the buffer, and of the others all but the page
that gave the buffer up. -/
theorem holds_swapped (map : CPageMap) (pageNo bufNo former : Nat)
    (length : map._pnArrayPages.length = map._nMaxPageNum) (few : map._nMaxPageNum ≤ 65535)
    (inside : pageNo < map._nMaxPageNum) (named : bufNo ≠ BUFFER_NULL) (fresh : pageNo ≠ former)
    (other otherBuf : Nat) :
    (map.swapped pageNo bufNo former).Holds other otherBuf ↔
      other = pageNo ∧ otherBuf = bufNo ∨
        other ≠ pageNo ∧ other ≠ former ∧ map.Holds other otherBuf := by
  have added := getElem?_addPageMap map pageNo bufNo other length
  have deleted := getElem?_addPageMap (map.addPageMap pageNo bufNo) former BUFFER_NULL other
    (by rw [length_addPageMap, nMaxPageNum_addPageMap, length])
  rw [nMaxPageNum_addPageMap, added] at deleted
  have outside : map.Holds other otherBuf → other ≠ CPriorityQue.NO_PAGE := by
    intro holds equal
    have bound := (List.getElem?_eq_some_iff.mp holds.1).1
    rw [length, equal] at bound
    exact absurd (Nat.lt_of_lt_of_le bound few) (by decide)
  unfold swapped Holds
  by_cases same : other = pageNo
  · have entry : (if former = CPriorityQue.NO_PAGE then map.addPageMap pageNo bufNo
        else (map.addPageMap pageNo bufNo).delPageMap former)._pnArrayPages[other]? =
          some bufNo := by
      split
      · rw [added, if_pos ⟨same, inside⟩]
      · rw [delPageMap, deleted, if_neg (by omega), if_pos ⟨same, inside⟩]
    rw [entry]
    constructor
    · rintro ⟨equal, _⟩
      exact Or.inl ⟨same, (Option.some.inj equal).symm⟩
    · rintro (⟨_, equal⟩ | ⟨differs, _⟩)
      · exact ⟨by rw [equal], by rw [equal]; exact named⟩
      · exact absurd same differs
  · by_cases given : other = former
    · constructor
      · intro holds
        split at holds
        · rename_i nobody
          rw [added, if_neg (by omega)] at holds
          exact absurd (given.trans nobody) (outside holds)
        · rw [delPageMap, deleted] at holds
          split at holds
          · exact absurd (Option.some.inj holds.1).symm holds.2
          · rw [if_neg (by omega)] at holds
            have bound := (List.getElem?_eq_some_iff.mp holds.1).1
            omega
      · rintro (⟨equal, _⟩ | ⟨_, differs, _⟩)
        · exact absurd equal same
        · exact absurd given differs
    · have entry : (if former = CPriorityQue.NO_PAGE then map.addPageMap pageNo bufNo
          else (map.addPageMap pageNo bufNo).delPageMap former)._pnArrayPages[other]? =
            map._pnArrayPages[other]? := by
        split
        · rw [added, if_neg (by omega)]
        · rw [delPageMap, deleted, if_neg (by omega), if_neg (by omega)]
      rw [entry]
      constructor
      · intro holds
        exact Or.inr ⟨same, given, holds⟩
      · rintro (⟨equal, _⟩ | ⟨_, _, holds⟩)
        · exact absurd equal same
        · exact holds

end CPageMap

namespace CDevCache

variable {cache after : CDevCache}

/-- The buffer of a held page. -/
def copy (cache : CDevCache) (pageNo : Nat) : Option Bytes :=
  match cache._PageMap._pnArrayPages[pageNo]? with
  | none => none
  | some bufNo =>
    if bufNo = CPageMap.BUFFER_NULL then none else (cache._ppBuffer[bufNo]?).join

structure Sound (cache : CDevCache) : Prop where
  some_buffer : 0 < cache._nMaxBufferNum
  few_buffers : cache._nMaxBufferNum ≤ 65535
  ring : cache._Priorityque.ring.Perm (List.range cache._nMaxBufferNum)
  length_pages : cache._Priorityque._poArrayBuf.length = cache._nMaxBufferNum
  length_buffers : cache._ppBuffer.length = cache._nMaxBufferNum
  length_map : cache._PageMap._pnArrayPages.length = cache._PageMap._nMaxPageNum
  few_pages : cache._PageMap._nMaxPageNum ≤ 65535
  guarded : ∀ (bufNo : Nat) (page : Bytes), cache._ppBuffer[bufNo]? = some (some page) →
    page.length = cache._nPageSize + 4
  paired : ∀ bufNo pageNo : Nat, cache._PageMap.Holds pageNo bufNo ↔
    cache._Priorityque._poArrayBuf[bufNo]? = some pageNo ∧ pageNo ≠ CPriorityQue.NO_PAGE
  loaded : ∀ bufNo pageNo : Nat, cache._PageMap.Holds pageNo bufNo →
    ∃ page, cache._ppBuffer[bufNo]? = some (some page)

/-- The buffer as it is after page `pageNo` was read into it: the bytes of the page, where the
whole page is in the file. -/
def Reads (cache : CDevCache) (file : FILE) (pageNo : Nat) (page : Bytes) : Prop :=
  page.length = cache._nPageSize + 4 ∧
    ∀ start : Nat, cache.pagePosition pageNo = start →
      start + cache._nPageSize ≤ file.contents.length →
        slice page 0 cache._nPageSize = slice file.contents start cache._nPageSize

/-! ### Setting up -/

/-- A new cache holds nothing. -/
theorem init_spec (newMemory : Nat → Nat → UInt8) (nPageSize nMaxBufferNum : Nat) (file : FILE)
    (positive : nPageSize ≠ 0) (some_buffer : 0 < nMaxBufferNum)
    (few_buffers : nMaxBufferNum ≤ 65535) :
    ∃ cache, init newMemory nPageSize nMaxBufferNum file = .ok ({ file with position := 0 }, cache) ∧
      cache.Sound ∧ cache._nPageSize = nPageSize ∧ cache._nMaxPageNum = pageNum file nPageSize ∧
      cache._PageMap._nMaxPageNum = ushort (pageNum file nPageSize) ∧
      ∀ pageNo, cache.copy pageNo = none := by
  have nothing : ∀ pageNo bufNo : Nat,
      (List.replicate (ushort (pageNum file nPageSize)) CPageMap.BUFFER_NULL)[pageNo]? =
        some bufNo → bufNo = CPageMap.BUFFER_NULL := by
    intro pageNo bufNo found
    exact List.eq_of_mem_replicate (List.mem_of_getElem? found)
  refine ⟨_, if_neg positive, ⟨some_buffer, few_buffers, List.reverse_perm _,
    List.length_replicate, List.length_replicate, List.length_replicate, ?_, ?_, ?_, ?_⟩,
    rfl, rfl, rfl, ?_⟩
  · show ushort _ ≤ 65535
    unfold ushort
    omega
  · intro bufNo page found
    cases List.eq_of_mem_replicate (List.mem_of_getElem? found)
  · intro bufNo pageNo
    constructor
    · rintro ⟨found, named⟩
      exact absurd (nothing pageNo bufNo found) named
    · rintro ⟨found, named⟩
      exact absurd (List.eq_of_mem_replicate (List.mem_of_getElem? found)) named
  · rintro bufNo pageNo ⟨found, named⟩
    exact absurd (nothing pageNo bufNo found) named
  · intro pageNo
    unfold copy
    split
    · rfl
    · rename_i bufNo found
      rw [if_pos (nothing pageNo bufNo found)]

/-! ### Held pages -/

theorem copy_eq_some_iff (cache : CDevCache) (pageNo : Nat) (page : Bytes) :
    cache.copy pageNo = some page ↔
      ∃ bufNo, cache._PageMap.Holds pageNo bufNo ∧ cache._ppBuffer[bufNo]? = some (some page) := by
  unfold copy CPageMap.Holds
  split
  · rename_i missing
    constructor
    · intro nothing
      cases nothing
    · rintro ⟨bufNo, ⟨found, _⟩, _⟩
      rw [missing] at found
      cases found
  · rename_i bufNo found
    constructor
    · intro held
      split at held
      · cases held
      · rename_i named
        exact ⟨bufNo, ⟨found, named⟩, Option.join_eq_some_iff.mp held⟩
    · rintro ⟨other, ⟨again, named⟩, held⟩
      rw [found] at again
      cases again
      rw [if_neg named, held]
      rfl

namespace Sound

variable (sound : cache.Sound)

include sound

theorem copy_eq_none_iff (pageNo : Nat) :
    cache.copy pageNo = none ↔ ∀ bufNo, ¬ cache._PageMap.Holds pageNo bufNo := by
  constructor
  · intro nothing bufNo holds
    obtain ⟨page, held⟩ := sound.loaded bufNo pageNo holds
    have found := (cache.copy_eq_some_iff pageNo page).mpr ⟨bufNo, holds, held⟩
    rw [nothing] at found
    cases found
  · intro nowhere
    refine Option.eq_none_iff_forall_not_mem.mpr fun page held => ?_
    obtain ⟨bufNo, holds, _⟩ := (cache.copy_eq_some_iff pageNo page).mp held
    exact nowhere bufNo holds

theorem buffer_lt {bufNo pageNo : Nat} (holds : cache._PageMap.Holds pageNo bufNo) :
    bufNo < cache._nMaxBufferNum := by
  rw [← sound.length_pages]
  exact (List.getElem?_eq_some_iff.mp ((sound.paired bufNo pageNo).mp holds).1).1

/-! ### A page that is held -/

/-- Using a buffer moves its node to the head and changes nothing else. -/
theorem used {bufNo : Nat} (inside : bufNo < cache._nMaxBufferNum) :
    ∃ que, cache._Priorityque.updatePriority bufNo = .ok que ∧
      Sound { cache with _Priorityque := que } := by
  refine ⟨_, if_pos (by rw [sound.length_pages]; exact inside), sound.some_buffer,
    sound.few_buffers, ?_, sound.length_pages, sound.length_buffers, sound.length_map,
    sound.few_pages, sound.guarded, sound.paired, sound.loaded⟩
  have member : bufNo ∈ cache._Priorityque.ring :=
    sound.ring.mem_iff.mpr (List.mem_range.mpr inside)
  exact (List.perm_cons_erase member).symm.trans sound.ring

/-- A held page is served from its buffer. -/
theorem getPageByNo_held (file : FILE) (pageNo : Nat) (page : Bytes)
    (below : (pageNo : Int) < cache._nMaxPageNum) (held : cache.copy pageNo = some page) :
    ∃ after, cache.getPageByNo file pageNo = .ok (some page, file, after) ∧ after.Sound ∧
      after._nPageSize = cache._nPageSize ∧ after._nMaxPageNum = cache._nMaxPageNum ∧
      after._PageMap = cache._PageMap ∧ after.copy = cache.copy := by
  obtain ⟨bufNo, holds, found⟩ := (cache.copy_eq_some_iff pageNo page).mp held
  obtain ⟨que, updated, soundAfter⟩ := sound.used (sound.buffer_lt holds)
  obtain ⟨inside, entry⟩ := List.getElem?_eq_some_iff.mp holds.1
  refine ⟨{ cache with _Priorityque := que }, ?_, soundAfter, rfl, rfl, rfl, rfl⟩
  rw [getPageByNo, if_neg (by omega), CPageMap.getBufferNo_of_lt _ _ inside, entry, ok_bind,
    if_neg holds.2, updated, ok_bind]
  simp only [getPage, found, ok_bind]

/-! ### A page that is not held -/

/-- The node in front of the head is that of some buffer. -/
theorem lazy : ∃ bufNo rest, cache._Priorityque.ring = rest ++ [bufNo] ∧
    bufNo < cache._nMaxBufferNum := by
  have filled : cache._Priorityque.ring ≠ [] := by
    intro empty
    have lengths := sound.ring.length_eq
    rw [empty, List.length_range, List.length_nil] at lengths
    exact absurd sound.some_buffer (by omega)
  refine ⟨cache._Priorityque.ring.getLast filled, _, (List.dropLast_concat_getLast filled).symm, ?_⟩
  exact List.mem_range.mp (sound.ring.mem_iff.mp (List.getLast_mem filled))

/-- The swap of a page that is not held, up to the read into its buffer. -/
theorem swapPage_missing (pageNo : Nat) (inside : pageNo < cache._PageMap._nMaxPageNum)
    (missing : cache.copy pageNo = none) :
    ∃ bufNo former ring, bufNo < cache._nMaxBufferNum ∧ pageNo ≠ former ∧
      cache._Priorityque._poArrayBuf[bufNo]? = some former ∧
      ring.Perm (List.range cache._nMaxBufferNum) ∧
      cache.swapPage pageNo = .ok (bufNo, { cache with
        _Priorityque := ⟨cache._Priorityque._poArrayBuf.set bufNo pageNo, ring⟩
        _PageMap := cache._PageMap.swapped pageNo bufNo former }) := by
  obtain ⟨bufNo, rest, ringEq, bound⟩ := sound.lazy
  have few := sound.few_buffers
  have fewPages := sound.few_pages
  obtain ⟨former, formerEq⟩ : ∃ former, cache._Priorityque._poArrayBuf[bufNo]? = some former :=
    ⟨_, List.getElem?_eq_getElem (by rw [sound.length_pages]; exact bound)⟩
  have fresh : pageNo ≠ former := by
    intro equal
    have named : former ≠ CPriorityQue.NO_PAGE := by
      show former ≠ 65535
      omega
    have holds := (sound.paired bufNo former).mpr ⟨formerEq, named⟩
    rw [← equal] at holds
    exact (sound.copy_eq_none_iff pageNo).mp missing bufNo holds
  refine ⟨bufNo, former, bufNo :: rest, bound, fresh, formerEq, ?_, ?_⟩
  · have ring := sound.ring
    rw [ringEq] at ring
    exact (List.perm_append_singleton bufNo rest).symm.trans ring
  · have lastEq : cache._Priorityque.ring.getLast? = some bufNo := by
      rw [ringEq, List.getLast?_concat]
    have frontEq : cache._Priorityque.ring.dropLast = rest := by
      rw [ringEq, List.dropLast_concat]
    rw [swapPage, CPriorityQue.getLazyBufNoAndSwapPage, lastEq]
    simp only [ushort_of_lt bufNo (by omega), ushort_of_lt pageNo (by omega), formerEq, frontEq,
      ok_bind]
    rfl

/-- What `downloadPage` leaves in the buffer, whatever the queue and the page map say. -/
theorem downloadPage_spec (file : FILE) (que : CPriorityQue) (map : CPageMap)
    (bufNo pageNo : Nat) (inside : bufNo < cache._nMaxBufferNum) :
    ∃ rest page, downloadPage { cache with _Priorityque := que, _PageMap := map } file bufNo pageNo =
        .ok (rest, { cache with
          _Priorityque := que
          _PageMap := map
          _ppBuffer := cache._ppBuffer.set bufNo (some page) }) ∧
      rest.contents = file.contents ∧ cache.Reads file pageNo page := by
  have length := sound.length_buffers
  have found : cache._ppBuffer[bufNo]? = some cache._ppBuffer[bufNo] :=
    List.getElem?_eq_getElem (by omega)
  have size : (cache._ppBuffer[bufNo].getD (cache.newPage bufNo)).length =
      cache._nPageSize + 4 := by
    cases held : cache._ppBuffer[bufNo] with
    | none => simp [newPage, PAGE_PROTECT]
    | some page => exact sound.guarded bufNo page (by rw [found, held])
  unfold downloadPage
  rw [found]
  refine ⟨_, splice (cache._ppBuffer[bufNo].getD (cache.newPage bufNo)) 0
    ((file.fseek (cache.pagePosition pageNo)).2.fread cache._nPageSize).1, rfl, ?_, ?_, ?_⟩
  · rw [FILE.contents_fread, FILE.contents_fseek]
  · rw [length_splice, size]
    rw [size]
    show 0 + (slice _ _ _).length ≤ _
    rw [slice, List.length_take]
    omega
  · intro start position within
    rw [position, FILE.fseek_of_nonneg]
    have read := length_slice file.contents start cache._nPageSize within
    have whole := slice_splice_self (cache._ppBuffer[bufNo].getD (cache.newPage bufNo)) 0
      (slice file.contents start cache._nPageSize) (by rw [read, size]; omega)
    rw [read] at whole
    exact whole

/-- The cache stays sound when a page that is not held takes a buffer. -/
theorem swapped {pageNo bufNo former : Nat} {ring : List Nat} {page : Bytes}
    (bound : bufNo < cache._nMaxBufferNum) (fresh : pageNo ≠ former)
    (formerEq : cache._Priorityque._poArrayBuf[bufNo]? = some former)
    (perm : ring.Perm (List.range cache._nMaxBufferNum))
    (inside : pageNo < cache._PageMap._nMaxPageNum)
    (missing : ∀ bufNo, ¬ cache._PageMap.Holds pageNo bufNo)
    (size : page.length = cache._nPageSize + 4) :
    Sound { cache with
      _Priorityque := ⟨cache._Priorityque._poArrayBuf.set bufNo pageNo, ring⟩
      _PageMap := cache._PageMap.swapped pageNo bufNo former
      _ppBuffer := cache._ppBuffer.set bufNo (some page) } := by
  have few := sound.few_buffers
  have fewPages := sound.few_pages
  have named : bufNo ≠ CPageMap.BUFFER_NULL := by
    show bufNo ≠ 65535
    omega
  have held := cache._PageMap.holds_swapped pageNo bufNo former sound.length_map fewPages inside
    named fresh
  have lengthPages := sound.length_pages
  have lengthBuffers := sound.length_buffers
  refine ⟨sound.some_buffer, few, perm, ?_, ?_, ?_, ?_, ?_, ?_, ?_⟩
  · exact List.length_set.trans lengthPages
  · exact List.length_set.trans lengthBuffers
  · show (CPageMap.swapped _ _ _ _)._pnArrayPages.length = (CPageMap.swapped _ _ _ _)._nMaxPageNum
    rw [CPageMap.length_swapped, CPageMap.nMaxPageNum_swapped, sound.length_map]
  · show (CPageMap.swapped _ _ _ _)._nMaxPageNum ≤ 65535
    rw [CPageMap.nMaxPageNum_swapped]
    exact fewPages
  · intro other otherPage
    show (cache._ppBuffer.set bufNo (some page))[other]? = _ → _
    rw [List.getElem?_set]
    split
    · intro found
      split at found
      · cases found
        exact size
      · cases found
    · exact sound.guarded other otherPage
  · intro other otherPage
    show (CPageMap.swapped _ _ _ _).Holds _ _ ↔
      (cache._Priorityque._poArrayBuf.set bufNo pageNo)[other]? = _ ∧ _
    rw [held, List.getElem?_set, sound.paired]
    by_cases same : bufNo = other
    · rw [if_pos same, if_pos (by omega), ← same, formerEq]
      constructor
      · rintro (⟨equal, _⟩ | ⟨_, differs, equal, _⟩)
        · refine ⟨by rw [equal], ?_⟩
          show otherPage ≠ 65535
          omega
        · exact absurd (Option.some.inj equal).symm differs
      · rintro ⟨equal, _⟩
        exact Or.inl ⟨(Option.some.inj equal).symm, rfl⟩
    · rw [if_neg same]
      constructor
      · rintro (⟨_, equal⟩ | ⟨_, _, found⟩)
        · exact absurd equal.symm same
        · exact found
      · intro found
        have holds := (sound.paired other otherPage).mpr found
        refine Or.inr ⟨fun equal => missing other (equal ▸ holds), fun equal => ?_, found⟩
        have again := (sound.paired bufNo former).mpr ⟨formerEq, equal ▸ found.2⟩
        rw [← equal] at again
        exact same (again.unique holds)
  · intro other otherPage holds
    show ∃ found, (cache._ppBuffer.set bufNo (some page))[other]? = _
    rw [List.getElem?_set]
    rcases (held otherPage other).mp holds with ⟨_, equal⟩ | ⟨_, _, before⟩
    · exact ⟨page, by rw [if_pos equal.symm, if_pos (by omega)]⟩
    · by_cases same : bufNo = other
      · exact ⟨page, by rw [if_pos same, if_pos (by omega)]⟩
      · rw [if_neg same]
        exact sound.loaded other otherPage before

/-- A page that is not held is read from the file into the buffer that is given away. -/
theorem getPageByNo_missing (file : FILE) (pageNo : Nat)
    (below : (pageNo : Int) < cache._nMaxPageNum)
    (inside : pageNo < cache._PageMap._nMaxPageNum) (missing : cache.copy pageNo = none) :
    ∃ page rest after, cache.getPageByNo file pageNo = .ok (some page, rest, after) ∧
      after.Sound ∧ after._nPageSize = cache._nPageSize ∧
      after._nMaxPageNum = cache._nMaxPageNum ∧
      after._PageMap._nMaxPageNum = cache._PageMap._nMaxPageNum ∧
      rest.contents = file.contents ∧ cache.Reads file pageNo page ∧
      after.copy pageNo = some page ∧
      ∀ other held, other ≠ pageNo → after.copy other = some held →
        cache.copy other = some held := by
  obtain ⟨bufNo, former, ring, bound, fresh, formerEq, perm, swap⟩ :=
    sound.swapPage_missing pageNo inside missing
  have nowhere := (sound.copy_eq_none_iff pageNo).mp missing
  have few := sound.few_buffers
  have fewPages := sound.few_pages
  have lengthMap := sound.length_map
  have lengthBuffers := sound.length_buffers
  have named : bufNo ≠ CPageMap.BUFFER_NULL := by
    show bufNo ≠ 65535
    omega
  have held := cache._PageMap.holds_swapped pageNo bufNo former lengthMap fewPages inside named
    fresh
  obtain ⟨rest, page, download, contents, reads⟩ :=
    sound.downloadPage_spec file ⟨cache._Priorityque._poArrayBuf.set bufNo pageNo, ring⟩
      (cache._PageMap.swapped pageNo bufNo former) bufNo pageNo bound
  have soundAfter := sound.swapped bound fresh formerEq perm inside nowhere reads.1
  have stored : (cache._ppBuffer.set bufNo (some page))[bufNo]? = some (some page) := by
    rw [List.getElem?_set, if_pos rfl, if_pos (by omega)]
  refine ⟨page, rest, _, ?_, soundAfter, rfl, rfl, CPageMap.nMaxPageNum_swapped _ _ _ _, contents,
    reads, ?_, ?_⟩
  · have inMap : pageNo < cache._PageMap._pnArrayPages.length := by omega
    have entry := cache._PageMap.getBufferNo_of_lt pageNo inMap
    have unnamed : cache._PageMap._pnArrayPages[pageNo] = CPageMap.BUFFER_NULL := by
      by_contra names
      exact nowhere _ ⟨List.getElem?_eq_getElem inMap, names⟩
    rw [getPageByNo, if_neg (by omega), entry, ok_bind, if_pos unnamed, swap, ok_bind]
    simp only [download, ok_bind, getPage, stored]
  · exact (copy_eq_some_iff _ pageNo page).mpr
      ⟨bufNo, (held pageNo bufNo).mpr (Or.inl ⟨rfl, rfl⟩), stored⟩
  · intro other otherPage differs copied
    obtain ⟨otherBuf, holds, found⟩ := (copy_eq_some_iff _ other otherPage).mp copied
    rcases (held other otherBuf).mp holds with ⟨equal, _⟩ | ⟨_, _, before⟩
    · exact absurd equal differs
    · have elsewhere : bufNo ≠ otherBuf := by
        intro equal
        have one := ((soundAfter.paired otherBuf other).mp holds).1
        rw [List.getElem?_set, if_pos equal, if_pos (by rw [sound.length_pages]; exact bound)] at one
        exact differs (Option.some.inj one).symm
      have same : (cache._ppBuffer.set bufNo (some page))[otherBuf]? = cache._ppBuffer[otherBuf]? := by
        rw [List.getElem?_set, if_neg elsewhere]
      exact (copy_eq_some_iff cache other otherPage).mpr ⟨otherBuf, before, same.symm.trans found⟩

/-- A call that returns finds no page behind the last one, or a page inside the page map. -/
theorem getPageByNo_cases (file rest : FILE) (nPageNo : Int) (page : Option Bytes)
    (returned : cache.getPageByNo file nPageNo = .ok (page, rest, after)) :
    page = none ∧ rest = file ∧ after = cache ∧ cache._nMaxPageNum ≤ nPageNo ∨
      ∃ pageNo : Nat, nPageNo = pageNo ∧ (pageNo : Int) < cache._nMaxPageNum ∧
        pageNo < cache._PageMap._nMaxPageNum := by
  have length := sound.length_map
  by_cases beyond : cache._nMaxPageNum ≤ nPageNo
  · rw [getPageByNo, if_pos beyond] at returned
    cases returned
    exact Or.inl ⟨rfl, rfl, rfl, beyond⟩
  · rw [getPageByNo, if_neg beyond] at returned
    obtain ⟨bufNo, found, _⟩ := (bind_eq_ok _ _ _).mp returned
    unfold CPageMap.getBufferNo at found
    split at found
    · cases found
    · split at found
      · cases found
      · rename_i entry
        have inside := (List.getElem?_eq_some_iff.mp entry).1
        exact Or.inr ⟨nPageNo.toNat, by omega, by omega, by omega⟩

end Sound

end CDevCache

end LevelDBLib.KvDB
