/-
This file states what the read cache of the table file promises over a sequence
of requests: a request is answered with the bytes of its page, and once every
buffer is in use the page requested longest ago gives way.

The promise is kept as long as no page lies behind the first 2 GiB of the file.
From there on the place of a page is no `int` any more, the seek is refused or
goes elsewhere, and nobody looks at its result. For the numbers of the pages the
limit is exact: a cache counts up to 65535 pages, and then every page number is
inside the page map, is no marker and belongs to one buffer.
-/

import LevelDBLib.KvDB.CacheRuns

namespace LevelDBLib.KvDB

open Buffers Runs Recency

namespace CDevCache

/-- The page is in a buffer. -/
def Resident (cache : CDevCache) (pageNo : Nat) : Prop :=
  ∃ bufNo, cache._PageMap.Holds pageNo bufNo

/-- Some buffer has no page. -/
def Free (cache : CDevCache) : Prop :=
  ∃ bufNo : Nat, cache._Priorityque._poArrayBuf[bufNo]? = some CPriorityQue.NO_PAGE

/-- The page map and the table of the buffers are mutually inverse, and the nodes of the ring name
every buffer once. -/
structure Consistent (cache : CDevCache) : Prop where
  inverse : ∀ pageNo bufNo, cache._PageMap.Holds pageNo bufNo ↔
    cache._Priorityque._poArrayBuf[bufNo]? = some pageNo ∧ pageNo ≠ CPriorityQue.NO_PAGE
  ring : (cache._Priorityque.ring.map fun node : Nat => ushort node).Perm
    (List.range cache._nMaxBufferNum)

/-- The call returns the bytes of the page. The page is in a buffer then, and so is every page
that was, unless a buffer was needed and all others were requested after it. -/
def Answers (contents : Bytes) (size : Nat) (requests : List Nat) (state : FILE × CDevCache)
    (pageNo : Nat) : Prop :=
  ∃ page after, request state pageNo = .ok (some page, after) ∧
    slice page 0 size = slice contents (pageNo * size) size ∧
    ∀ other, after.2.Resident other ↔ other = pageNo ∨
      state.2.Resident other ∧ (state.2.Resident pageNo ∨ state.2.Free ∨
        ∃ older, state.2.Resident older ∧ Later requests other older)

/-- The pages that the cache counts in a file. -/
def pageCount (file : FILE) (nPageSize : Nat) : Nat :=
  if file.contents.length % nPageSize = 0 then file.contents.length / nPageSize
  else file.contents.length / nPageSize + 1

theorem pageNum_of_lt {file : FILE} {nPageSize : Nat}
    (fits : pageCount file nPageSize < 2147483648) :
    pageNum file nPageSize = pageCount file nPageSize := by
  have equal : pageNum file nPageSize = int (pageCount file nPageSize : Nat) := by
    dsimp only [pageNum, pageCount]
    by_cases whole : file.contents.length % nPageSize = 0
    · rw [if_pos whole, if_pos whole, Int.natCast_ediv]
    · rw [if_neg whole, if_neg whole, Int.natCast_add, Int.natCast_ediv, Int.natCast_one]
  rw [equal, int_of_lt _ fits]

variable {contents : Bytes} {size capacity pages : Nat} {requests : List Nat}
  {state start : FILE × CDevCache}

/-- A new cache has seen no request. -/
theorem listed_init {newMemory : Nat → Nat → UInt8} {file : FILE} (some_buffer : 0 < capacity)
    (few_pages : pageCount file size ≤ 65535)
    (ready : init newMemory size capacity file = .ok start) :
    Listed file.contents size capacity (pageCount file size) [] start := by
  obtain ⟨fileEq, sizeEq, capacityEq, slots⟩ :=
    slots_init some_buffer (pageNum_of_lt (by omega)) few_pages ready
  exact ⟨by rw [fileEq], sizeEq, capacityEq, [], slots, rfl⟩

theorem Slots.resident_iff {cache : CDevCache} {slots : List (Nat × Nat)}
    (listed : Slots contents pages cache slots) (pageNo : Nat) :
    cache.Resident pageNo ↔ pageNo ∈ slots.map Prod.fst := by
  constructor
  · rintro ⟨bufNo, holds⟩
    exact List.mem_map_of_mem ((listed.holds pageNo bufNo).mp holds)
  · intro member
    obtain ⟨slot, there, rfl⟩ := List.mem_map.mp member
    exact ⟨slot.2, (listed.holds _ _).mpr there⟩

namespace Listed

variable (listed : Listed contents size capacity pages requests state)

include listed

theorem resident_iff (pageNo : Nat) :
    state.2.Resident pageNo ↔ pageNo ∈ held capacity requests := by
  obtain ⟨_, _, _, slots, list, recent⟩ := listed
  rw [list.resident_iff, recent]

theorem free_iff : state.2.Free ↔ (held capacity requests).length < capacity := by
  obtain ⟨_, _, capacityEq, slots, list, recent⟩ := listed
  rw [← recent, List.length_map, ← capacityEq]
  exact list.free_iff

theorem consistent (few_buffers : capacity ≤ 65536) : state.2.Consistent := by
  obtain ⟨_, _, capacityEq, slots, list, _⟩ := listed
  refine ⟨list.paired, ?_⟩
  have same : state.2._Priorityque.ring.map (fun node : Nat => ushort node) = state.2._Priorityque.ring := by
    refine (List.map_congr_left fun node member => ?_).trans (List.map_id _)
    have inside := List.mem_range.mp (list.ring_perm.mem_iff.mp member)
    exact ushort_of_lt node (by omega)
  rw [same]
  exact list.ring_perm

theorem answers (whole : contents.length = pages * size) {pageNo : Nat} (inside : pageNo < pages)
    (placed : pageNo * size < 2147483648) : Answers contents size requests state pageNo := by
  obtain ⟨page, after, bufNo, served, serves, _, listedAfter⟩ := listed.request inside placed
  refine ⟨page, after, served, ?_, fun other => ?_⟩
  · have within : pageNo * size + size ≤ contents.length := by
      rw [whole, ← Nat.succ_mul]
      exact Nat.mul_le_mul_right size inside
    have length := length_slice contents (pageNo * size) size within
    have equal := List.prefix_iff_eq_take.mp serves.2
    rw [length] at equal
    rw [slice, List.drop_zero, equal]
  · rw [listedAfter.resident_iff, held, mem_touch_iff, listed.resident_iff, listed.resident_iff,
      listed.free_iff]
    simp only [listed.resident_iff]

end Listed

/-- As long as every requested page begins in the first 2 GiB of the file, every request finds the
maps inverse to each other and the ring complete, and is answered. -/
theorem least_recent_evicted (newMemory : Nat → Nat → UInt8) (file : FILE)
    (positive : 0 < size) (some_buffer : 0 < capacity) (few_buffers : capacity ≤ 65536)
    (few_pages : pages ≤ 65535) (whole : file.contents.length = pages * size)
    (ready : init newMemory size capacity file = .ok start)
    {history : History Nat (Option Bytes)}
    (run : Run request (fun _ _ pageNo => pageNo < pages ∧ pageNo * size < 2147483648) start
      history state) :
    state.2.Consistent ∧ ∀ pageNo, pageNo < pages → pageNo * size < 2147483648 →
      Answers file.contents size (history.map Prod.fst) state pageNo := by
  have count : pageCount file size = pages := by
    rw [pageCount, whole, Nat.mul_mod_left, if_pos rfl, Nat.mul_div_cancel _ positive]
  have fresh := listed_init some_buffer (count ▸ few_pages) ready
  rw [count] at fresh
  have listed := listed_run fresh run
  exact ⟨listed.consistent few_buffers, fun pageNo inside placed =>
    listed.answers whole inside placed⟩

/-- Three pages of one byte and two buffers: after the pages 0, 1 and 0, page 2 takes the buffer
of page 1. -/
theorem least_recent_evicted_once : ∃ start state : FILE × CDevCache,
    ∃ history : History Nat (Option Bytes),
      init (fun _ _ => 0) 1 2 ⟨[7, 8, 9], 0⟩ = .ok start ∧ history.map Prod.fst = [0, 1, 0] ∧
        state.2.Consistent ∧ ∀ pageNo, pageNo < 3 → pageNo * 1 < 2147483648 →
          Answers [7, 8, 9] 1 (history.map Prod.fst) state pageNo := by
  obtain ⟨start, ready⟩ : ∃ start, init (fun _ _ => 0) 1 2 ⟨[7, 8, 9], 0⟩ = .ok start := ⟨_, rfl⟩
  have fresh := listed_init (by decide) (by decide) ready
  obtain ⟨_, one, _, first, _, _, listedOne⟩ := fresh.request (show 0 < 3 by decide) (by decide)
  obtain ⟨_, two, _, second, _, _, listedTwo⟩ := listedOne.request (show 1 < 3 by decide) (by decide)
  obtain ⟨_, three, _, third, _, _, _⟩ := listedTwo.request (show 0 < 3 by decide) (by decide)
  exact ⟨start, three, _, ready, rfl, least_recent_evicted (fun _ _ => 0) ⟨[7, 8, 9], 0⟩ (by decide)
    (by decide) (by decide) (by decide) rfl ready (((Run.start.step ⟨by decide, by decide⟩ first).step
      ⟨by decide, by decide⟩ second).step ⟨by decide, by decide⟩ third)⟩

/-- A file of zeros whose last page holds ones. -/
def marked (pages size : Nat) : FILE :=
  ⟨List.replicate (pages * size) 0 ++ List.replicate size 1, 0⟩

theorem slice_marked_first (pages size : Nat) (some_page : 0 < pages) :
    slice (marked pages size).contents 0 size = List.replicate size 0 := by
  have enough : size ≤ (List.replicate (pages * size) (0 : UInt8)).length := by
    rw [List.length_replicate]
    exact Nat.le_mul_of_pos_left size some_page
  rw [slice, marked, List.drop_zero, List.take_append_of_le_length enough, List.take_replicate,
    Nat.min_eq_left (by rwa [List.length_replicate] at enough)]

theorem slice_marked_last (pages size : Nat) :
    slice (marked pages size).contents (pages * size) size = List.replicate size 1 := by
  rw [slice, marked, List.drop_left' List.length_replicate]
  exact List.take_of_length_le (Nat.le_of_eq List.length_replicate)

/-- Page 32768 of 64 KiB begins where an `int` ends: the seek is refused and page 0 is served. -/
theorem page_misread : ∃ start, init (fun _ _ => 0) 65536 100 (marked 32768 65536) = .ok start ∧
    (marked 32768 65536).contents.length = 32769 * 65536 ∧
    ¬ Answers (marked 32768 65536).contents 65536 [] start 32768 := by
  have length : (marked 32768 65536).contents.length = 32769 * 65536 := by
    rw [marked, List.length_append, List.length_replicate, List.length_replicate]
  have count : pageCount (marked 32768 65536) 65536 = 32769 := by
    rw [pageCount, length]
    rfl
  obtain ⟨start, ready⟩ : ∃ start, init (fun _ _ => 0) 65536 100 (marked 32768 65536) = .ok start :=
    ⟨_, if_neg (by decide)⟩
  refine ⟨start, ready, length, ?_⟩
  rintro ⟨page, after, served, bytes, _⟩
  obtain ⟨fileEq, sizeEq, capacityEq, slots⟩ :=
    slots_init (by decide) (pageNum_of_lt (by rw [count]; decide)) (by rw [count]; decide) ready
  obtain ⟨bufNo, former, front, gives⟩ := slots.exists_gives
  obtain ⟨held, size, miss⟩ := slots.getPageByNo_miss gives (show 32768 < _ by rw [count]; decide)
    List.not_mem_nil start.1
  have read : (start.2.fetched start.1 32768).1 = List.replicate 65536 0 := by
    have refused : start.2.pagePosition (32768 : Nat) < 0 := by
      rw [pagePosition, sizeEq]
      decide
    rw [fetched, FILE.fseek, if_pos refused, fileEq, sizeEq]
    exact slice_marked_first 32768 65536 (by decide)
  rw [request, miss] at served
  cases served
  have whole := slice_splice_self held 0 (List.replicate 65536 (0 : UInt8))
    (by rw [size, sizeEq, List.length_replicate]; decide)
  rw [List.length_replicate] at whole
  rw [read, whole, slice_marked_last] at bytes
  have first := congrArg List.head? bytes
  rw [List.head?_replicate, List.head?_replicate] at first
  cases first

/-! ### The numbers of the pages -/

/-- The call finds its page number inside the page map and at its place in the file, and the page
is served from a buffer that belongs to it alone. -/
def Addresses (contents : Bytes) (size : Nat) (state : FILE × CDevCache) (pageNo : Nat) : Prop :=
  pageNo < state.2._PageMap._pnArrayPages.length ∧ pageNo ≠ CPriorityQue.NO_PAGE ∧
    state.2.pagePosition pageNo = (pageNo * size : Nat) ∧
    ∃ page after bufNo, request state pageNo = .ok (some page, after) ∧
      Serves contents size pageNo page ∧ bufNo ≠ CPageMap.BUFFER_NULL ∧
      after.2._Priorityque._poArrayBuf[bufNo]? = some pageNo ∧
      ∀ other, after.2._PageMap._pnArrayPages[other]? = some bufNo ↔ other = pageNo

theorem Listed.addresses (listed : Listed contents size capacity pages requests state)
    {pageNo : Nat} (inside : pageNo < pages) (placed : pageNo * size < 2147483648) :
    Addresses contents size state pageNo := by
  obtain ⟨page, after, bufNo, served, serves, holds, _, _, _, slotsAfter, listAfter, _⟩ :=
    listed.request inside placed
  obtain ⟨_, sizeEq, _, slots, list, _⟩ := listed
  have few := list.few_pages
  have named := (listAfter.paired pageNo bufNo).mp holds
  refine ⟨by rw [list.length_map]; exact inside, named.2, ?_, page, after, bufNo, served, serves,
    holds.2, named.1, fun other => ⟨fun found => ?_, ?_⟩⟩
  · rw [pagePosition, sizeEq, ← Int.natCast_mul, int_of_lt _ placed]
  · have entry := ((listAfter.paired other bufNo).mp ⟨found, holds.2⟩).1
    exact Option.some.inj (entry.symm.trans named.1)
  · rintro rfl
    exact holds.1

/-- The numbers that `init` computes, however many pages there are. -/
theorem init_numbers {newMemory : Nat → Nat → UInt8} {file : FILE}
    (ready : init newMemory size capacity file = .ok start) :
    start.2._PageMap._pnArrayPages.length = ushort (pageNum file size) ∧
      start.2._nPageSize = size := by
  unfold init at ready
  split at ready
  · cases ready
  · cases ready
    exact ⟨List.length_replicate, rfl⟩

/-- Whatever was requested before, every page number of the file is handled right exactly when the
cache counts at most 65535 pages and the last of them begins in the first 2 GiB. -/
theorem pages_addressed_iff (newMemory : Nat → Nat → UInt8) (file : FILE)
    (some_buffer : 0 < capacity) (fits : pageCount file size < 2147483648)
    (ready : init newMemory size capacity file = .ok start) :
    (∀ (history : History Nat (Option Bytes)) (state : FILE × CDevCache),
      Run request (fun _ _ pageNo => pageNo < pageCount file size) start history state →
        ∀ pageNo < pageCount file size, Addresses file.contents size state pageNo) ↔
      pageCount file size ≤ 65535 ∧ ∀ pageNo < pageCount file size, pageNo * size < 2147483648 := by
  constructor
  · intro addressed
    obtain ⟨length, sizeEq⟩ := init_numbers ready
    have few : pageCount file size ≤ 65535 := by
      by_contra many
      have inside := (addressed [] start Run.start (pageCount file size - 1) (by omega)).1
      rw [length, pageNum_of_lt fits, ushort] at inside
      omega
    refine ⟨few, fun pageNo inside => ?_⟩
    have position := (addressed [] start Run.start pageNo inside).2.2.1
    rw [pagePosition, sizeEq, ← Int.natCast_mul, int] at position
    omega
  · rintro ⟨few_pages, placed⟩ history state run pageNo inside
    have fresh := listed_init some_buffer few_pages ready
    have narrowed : Run request (fun _ _ pageNo => pageNo < pageCount file size ∧
        pageNo * size < 2147483648) start history state :=
      run.mono fun _ _ pageNo below => ⟨below, placed pageNo below⟩
    exact (listed_run fresh narrowed).addresses inside (placed pageNo inside)

/-- A page and a half, and one buffer. -/
theorem pages_addressed_iff_once : ∃ start,
    init (fun _ _ => 0) 2 1 ⟨[7, 8, 9], 0⟩ = .ok start ∧
      ∀ (history : History Nat (Option Bytes)) (state : FILE × CDevCache),
        Run request (fun _ _ pageNo => pageNo < 2) start history state →
          ∀ pageNo < 2, Addresses [7, 8, 9] 2 state pageNo := by
  obtain ⟨start, ready⟩ : ∃ start, init (fun _ _ => 0) 2 1 ⟨[7, 8, 9], 0⟩ = .ok start := ⟨_, rfl⟩
  exact ⟨start, ready, (pages_addressed_iff (fun _ _ => 0) ⟨[7, 8, 9], 0⟩ (by decide) (by decide)
    ready).mpr ⟨by decide, by decide⟩⟩

/-- A file of 65536 pages has a page map without entries. -/
theorem page_outside_map : ∃ start, init (fun _ _ => 0) 1 100 (marked 65535 1) = .ok start ∧
    pageCount (marked 65535 1) 1 = 65536 ∧ request start 0 = .error .outOfBounds ∧
    ¬ Addresses (marked 65535 1).contents 1 start 0 := by
  have length : (marked 65535 1).contents.length = 65536 := by
    rw [marked, List.length_append, List.length_replicate, List.length_replicate]
  have count : pageCount (marked 65535 1) 1 = 65536 := by
    rw [pageCount, length]
    rfl
  have number : pageNum (marked 65535 1) 1 = 65536 := by
    rw [pageNum_of_lt (by rw [count]; decide), count]
    rfl
  obtain ⟨start, ready⟩ : ∃ start, init (fun _ _ => 0) 1 100 (marked 65535 1) = .ok start :=
    ⟨_, if_neg (by decide)⟩
  obtain ⟨empty, _⟩ := init_numbers ready
  rw [number] at empty
  have below : ¬ start.2._nMaxPageNum ≤ ((0 : Nat) : Int) := by
    cases ready
    show ¬ pageNum (marked 65535 1) 1 ≤ _
    rw [number]
    decide
  have missing : start.2._PageMap._pnArrayPages = [] := List.length_eq_zero_iff.mp empty
  have outside : request start 0 = .error .outOfBounds := by
    rw [request, getPageByNo, if_neg below, CPageMap.getBufferNo, missing]
    rfl
  refine ⟨start, ready, count, outside, ?_⟩
  rintro ⟨inside, _⟩
  rw [missing] at inside
  exact absurd inside (Nat.not_lt_zero _)

end CDevCache

end LevelDBLib.KvDB
