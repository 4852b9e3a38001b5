/-
This file states which pages belong to which segment (`Allocated`): the chains of
the registered segments share no page and together hold every page up to the
counter, and the page table knows the first and the last page of each.

An operation on one segment may rewrite the pages of its chain and put new pages
behind it (`Grown`); that is all the allocator needs to know about it.
-/

import LevelDBLib.KvDB.Clear

namespace LevelDBLib.KvDB

open Buffers Tapes

variable {Device : Type} [CoherentDevice Device]

/-- The chain of a segment: it runs upwards from the root page to the last page of its entry. -/
structure ChainOf (pages : PageMap) (count : Nat) (value : PageNo_t) (chain : List Nat) : Prop where
  root : chain.head? = some value.nRootPageNo
  last : chain.getLast? = some value.nLastPageNo
  linked : Chain pages chain
  upward : chain.Pairwise (· < ·)
  allocated : ∀ pageno ∈ chain, pageno ≤ count

/-- Every page up to the counter belongs to one segment of the page table. -/
structure Allocated (mgr : SMDPageManagement Device) (pages : PageMap)
    (chains : PageKey_t → List Nat) : Prop where
  sizeLt : mgr.m_nPageSize < 65536
  room : 28 ≤ mgr.m_nPageSize
  countLt : mgr.m_nPageCnt < 0xFFFFFFFF
  stores : Stores mgr.device mgr.m_nPageSize pages
  distinct : mgr.m_PageInfo.Distinct
  chainOf : ∀ key value, mgr.m_PageInfo.find key = some value →
    ChainOf pages mgr.m_nPageCnt value (chains key)
  apart : ∀ key other, (mgr.m_PageInfo.find key).isSome → (mgr.m_PageInfo.find other).isSome →
    ∀ pageno, pageno ∈ chains key → pageno ∈ chains other → key = other
  covered : ∀ pageno ≤ mgr.m_nPageCnt, ∃ key,
    (mgr.m_PageInfo.find key).isSome ∧ pageno ∈ chains key
  table : ∃ last, mgr.m_PageInfo.find SMDPageManagement.pageTableKey = some ⟨0, 0, 0, last⟩

/-- The chain was rewritten and goes on over newly allocated pages; nothing else changed. -/
structure Grown (mgr after : SMDPageManagement Device) (pages later : PageMap)
    (chain fresh : List Nat) : Prop where
  sizeEq : after.m_nPageSize = mgr.m_nPageSize
  attributesEq : after.externAttributes = mgr.externAttributes
  countEq : after.m_nPageCnt = mgr.m_nPageCnt + fresh.length
  countLt : after.m_nPageCnt < 0xFFFFFFFF
  freshEq : fresh = List.range' (mgr.m_nPageCnt + 1) fresh.length
  infoEq : ∀ first last, chain.getLast? = some first → (chain ++ fresh).getLast? = some last →
    after.m_PageInfo = SMDPageManagement.incLastPageNoIn mgr.m_PageInfo first last
  others : ∀ pageno, pageno ∉ chain ++ fresh → later pageno = pages pageno
  linked : Chain later (chain ++ fresh)
  saves : SavedIn mgr.device after.device (chain ++ fresh)

/-! ### Chains of segments -/

theorem ChainOf.split {pages : PageMap} {count : Nat} {value : PageNo_t} {chain : List Nat}
    (chainOf : ChainOf pages count value chain) :
    ∃ front, chain = front ++ [value.nLastPageNo] :=
  ⟨chain.dropLast, (List.dropLast_append_getLast? _ chainOf.last).symm⟩

theorem ChainOf.first {pages : PageMap} {count : Nat} {value : PageNo_t} {chain : List Nat}
    (chainOf : ChainOf pages count value chain) :
    ∃ after, chain = value.nRootPageNo :: after := by
  cases chain with
  | nil => cases chainOf.root
  | cons pageno after => exact ⟨after, by rw [Option.some.inj chainOf.root]⟩

theorem ChainOf.distinct {pages : PageMap} {count : Nat} {value : PageNo_t} {chain : List Nat}
    (chainOf : ChainOf pages count value chain) : chain.Nodup :=
  chainOf.upward.imp fun less => Nat.ne_of_lt less

theorem ChainOf.last_mem {pages : PageMap} {count : Nat} {value : PageNo_t} {chain : List Nat}
    (chainOf : ChainOf pages count value chain) : value.nLastPageNo ∈ chain :=
  List.mem_of_getLast? chainOf.last

/-- A segment that ends at its root page has no other page. -/
theorem ChainOf.single {pages : PageMap} {count : Nat} {value : PageNo_t} {chain : List Nat}
    (chainOf : ChainOf pages count value chain) (same : value.nLastPageNo = value.nRootPageNo) :
    chain = [value.nRootPageNo] := by
  obtain ⟨tail, equal⟩ := chainOf.first
  have upward := chainOf.upward
  have last := chainOf.last
  rw [equal] at upward last ⊢
  cases tail with
  | nil => rfl
  | cons next rest =>
    rw [List.getLast?_cons_cons] at last
    have less := List.rel_of_pairwise_cons upward (List.mem_of_getLast? last)
    omega

/-- The last page of a segment has no next page. -/
theorem ChainOf.last_view {pages : PageMap} {count : Nat} {value : PageNo_t} {chain : List Nat}
    (chainOf : ChainOf pages count value chain) :
    ∃ view, pages value.nLastPageNo = some view ∧ view.next = noNextPage := by
  obtain ⟨front, equal⟩ := chainOf.split
  have linked := chainOf.linked
  rw [equal] at linked
  exact linked.last

/-- A chain whose pages did not change is a chain still, whatever pages were added. -/
theorem ChainOf.keep {pages later : PageMap} {count more : Nat} {value : PageNo_t}
    {chain : List Nat} (chainOf : ChainOf pages count value chain)
    (same : ∀ pageno ∈ chain, later pageno = pages pageno) (counts : count ≤ more) :
    ChainOf later more value chain :=
  ⟨chainOf.root, chainOf.last, chainOf.linked.congr same, chainOf.upward,
    fun pageno member => Nat.le_trans (chainOf.allocated pageno member) counts⟩

/-- The pages put behind a chain are those counted since. -/
theorem Grown.new_page {mgr after : SMDPageManagement Device} {pages later : PageMap}
    {chain fresh : List Nat} (grown : Grown mgr after pages later chain fresh) {pageno : Nat}
    (member : pageno ∈ fresh) : mgr.m_nPageCnt < pageno ∧ pageno ≤ after.m_nPageCnt := by
  rw [grown.freshEq, List.mem_range'_1] at member
  rw [grown.countEq]
  omega

/-- A chain that grew is the chain of its entry with the new last page. -/
theorem Grown.chainOf {mgr after : SMDPageManagement Device} {pages later : PageMap}
    {chain fresh : List Nat} (grown : Grown mgr after pages later chain fresh) {value : PageNo_t}
    {last : Nat} (chainOf : ChainOf pages mgr.m_nPageCnt value chain)
    (lastEq : (chain ++ fresh).getLast? = some last) :
    ChainOf later after.m_nPageCnt { value with nLastPageNo := last } (chain ++ fresh) := by
  refine ⟨?_, lastEq, grown.linked, ?_, ?_⟩
  · obtain ⟨tail, equal⟩ := chainOf.first
    rw [equal]
    rfl
  · rw [List.pairwise_append]
    refine ⟨chainOf.upward, ?_, fun first inChain second inFresh => ?_⟩
    · rw [grown.freshEq]
      exact List.pairwise_lt_range'
    · exact Nat.lt_of_le_of_lt (chainOf.allocated first inChain) (grown.new_page inFresh).1
  · intro pageno member
    rcases List.mem_append.mp member with member | member
    · rw [grown.countEq]
      exact Nat.le_trans (chainOf.allocated pageno member) (Nat.le_add_right _ _)
    · exact (grown.new_page member).2

namespace Allocated

variable {mgr : SMDPageManagement Device} {pages : PageMap} {chains : PageKey_t → List Nat}

theorem registered (allocated : Allocated mgr pages chains) :
    ∀ entry ∈ mgr.m_PageInfo, entry.2.nLastPageNo ≤ mgr.m_nPageCnt := by
  rintro ⟨key, value⟩ member
  have chainOf := allocated.chainOf key value (PageInfo.find_of_mem allocated.distinct member)
  exact chainOf.allocated _ chainOf.last_mem

/-- Only one segment ends at the last page of a segment. -/
theorem only_last (allocated : Allocated mgr pages chains) {key : PageKey_t} {value : PageNo_t}
    (found : mgr.m_PageInfo.find key = some value) :
    ∀ entry ∈ mgr.m_PageInfo, entry.2.nLastPageNo = value.nLastPageNo → entry.1 = key := by
  rintro ⟨other, held⟩ member same
  have otherFound := PageInfo.find_of_mem allocated.distinct member
  refine allocated.apart other key (by rw [otherFound]; rfl) (by rw [found]; rfl) held.nLastPageNo
    (allocated.chainOf other held otherFound).last_mem ?_
  rw [show held.nLastPageNo = value.nLastPageNo from same]
  exact (allocated.chainOf key value found).last_mem

theorem serves (allocated : Allocated mgr pages chains) (file : SMDPageFile) (value : PageNo_t)
    (found : mgr.m_PageInfo.find file.key = some value)
    (held : HeldIn pages mgr.m_nPageSize file.page) : Serves mgr pages file value :=
  ⟨allocated.sizeLt, allocated.room, allocated.stores, held, found, allocated.registered,
    allocated.countLt⟩

/-- The page counter is behind every page of a segment. -/
theorem below (allocated : Allocated mgr pages chains) {key : PageKey_t}
    (known : (mgr.m_PageInfo.find key).isSome) :
    ∀ pageno ∈ chains key, pageno ≤ mgr.m_nPageCnt := by
  obtain ⟨value, found⟩ := Option.isSome_iff_exists.mp known
  exact (allocated.chainOf key value found).allocated

variable {key other : PageKey_t} {value : PageNo_t} {after : SMDPageManagement Device}
  {later : PageMap} {fresh : List Nat}

/-- The pages of other segments are not those of a chain that grew. -/
theorem outside (allocated : Allocated mgr pages chains)
    (known : (mgr.m_PageInfo.find key).isSome) (otherKnown : (mgr.m_PageInfo.find other).isSome)
    (different : other ≠ key) (grown : Grown mgr after pages later (chains key) fresh) :
    ∀ pageno ∈ chains other, pageno ∉ chains key ++ fresh := by
  intro pageno member inside
  rcases List.mem_append.mp inside with inside | inside
  · exact different (allocated.apart other key otherKnown known pageno member inside)
  · exact Nat.not_lt_of_le (allocated.below otherKnown pageno member) (grown.new_page inside).1

/-- The entry of a segment that grew has the new last page, the others are as they were. -/
theorem find_grown (allocated : Allocated mgr pages chains)
    (found : mgr.m_PageInfo.find key = some value)
    (grown : Grown mgr after pages later (chains key) fresh) {last : Nat}
    (lastEq : (chains key ++ fresh).getLast? = some last) (other : PageKey_t) :
    after.m_PageInfo.find other =
      if other = key then some { value with nLastPageNo := last } else mgr.m_PageInfo.find other := by
  rw [grown.infoEq _ last (allocated.chainOf key value found).last lastEq]
  exact SMDPageManagement.find_incLastPageNoIn _ _ _ _ found (allocated.only_last found) other

/-- Growing a segment registers no other one. -/
theorem isSome_grown (allocated : Allocated mgr pages chains)
    (found : mgr.m_PageInfo.find key = some value)
    (grown : Grown mgr after pages later (chains key) fresh) (other : PageKey_t) :
    (after.m_PageInfo.find other).isSome = (mgr.m_PageInfo.find other).isSome := by
  obtain ⟨front, equal⟩ := (allocated.chainOf key value found).split
  have lastEq := List.getLast?_eq_some_getLast
    (show chains key ++ fresh ≠ [] by rw [equal]; simp)
  rw [allocated.find_grown found grown lastEq]
  by_cases same : other = key
  · rw [if_pos same, same, found]
    rfl
  · rw [if_neg same]

/-- No two segments share a page after one of them grew. -/
theorem apart_grown (allocated : Allocated mgr pages chains)
    (found : mgr.m_PageInfo.find key = some value)
    (grown : Grown mgr after pages later (chains key) fresh) {one other : PageKey_t}
    (oneKnown : (mgr.m_PageInfo.find one).isSome) (otherKnown : (mgr.m_PageInfo.find other).isSome)
    {pageno : Nat} (inOne : pageno ∈ Function.update chains key (chains key ++ fresh) one)
    (inOther : pageno ∈ Function.update chains key (chains key ++ fresh) other) : one = other := by
  have known : (mgr.m_PageInfo.find key).isSome := by rw [found]; rfl
  by_cases oneSame : one = key
  · by_cases otherSame : other = key
    · rw [oneSame, otherSame]
    · rw [oneSame, Function.update_self] at inOne
      rw [Function.update_of_ne otherSame] at inOther
      exact absurd inOne (allocated.outside known otherKnown otherSame grown pageno inOther)
  · rw [Function.update_of_ne oneSame] at inOne
    by_cases otherSame : other = key
    · rw [otherSame, Function.update_self] at inOther
      exact absurd inOther (allocated.outside known oneKnown oneSame grown pageno inOne)
    · rw [Function.update_of_ne otherSame] at inOther
      exact allocated.apart one other oneKnown otherKnown pageno inOne inOther

/-- Every page counted is on a chain after one of the segments grew. -/
theorem covered_grown (allocated : Allocated mgr pages chains)
    (found : mgr.m_PageInfo.find key = some value)
    (grown : Grown mgr after pages later (chains key) fresh) {pageno : Nat}
    (bound : pageno ≤ after.m_nPageCnt) :
    ∃ other, (mgr.m_PageInfo.find other).isSome ∧
      pageno ∈ Function.update chains key (chains key ++ fresh) other := by
  rw [grown.countEq] at bound
  by_cases old : pageno ≤ mgr.m_nPageCnt
  · obtain ⟨other, known, member⟩ := allocated.covered pageno old
    refine ⟨other, known, ?_⟩
    by_cases same : other = key
    · rw [same, Function.update_self]
      exact List.mem_append_left _ (by rw [← same]; exact member)
    · rw [Function.update_of_ne same]
      exact member
  · refine ⟨key, by rw [found]; rfl, ?_⟩
    rw [Function.update_self]
    refine List.mem_append_right _ ?_
    rw [grown.freshEq, List.mem_range'_1]
    omega

/-- What a segment does to its own chain keeps the pages of the segments apart. -/
theorem grow (allocated : Allocated mgr pages chains)
    (found : mgr.m_PageInfo.find key = some value)
    (grown : Grown mgr after pages later (chains key) fresh)
    (stores : Stores after.device mgr.m_nPageSize later) :
    Allocated after later (Function.update chains key (chains key ++ fresh)) ∧
      ∃ last, (chains key ++ fresh).getLast? = some last ∧
        ∀ other, after.m_PageInfo.find other =
          if other = key then some { value with nLastPageNo := last }
          else mgr.m_PageInfo.find other := by
  have chainOf := allocated.chainOf key value found
  have isSome := allocated.isSome_grown found grown
  obtain ⟨last, lastEq⟩ : ∃ last, (chains key ++ fresh).getLast? = some last := by
    obtain ⟨front, equal⟩ := chainOf.split
    rw [equal]
    exact ⟨_, List.getLast?_eq_some_getLast (by simp)⟩
  have infoEq := grown.infoEq _ last chainOf.last lastEq
  have findEq := allocated.find_grown found grown lastEq
  refine ⟨⟨?_, ?_, grown.countLt, ?_, ?_, ?_, ?_, ?_, ?_⟩, last, lastEq, findEq⟩
  · rw [grown.sizeEq]
    exact allocated.sizeLt
  · rw [grown.sizeEq]
    exact allocated.room
  · rw [grown.sizeEq]
    exact stores
  · rw [infoEq, PageInfo.Distinct, SMDPageManagement.keys_incLastPageNoIn]
    exact allocated.distinct
  · intro other held known
    rw [findEq] at known
    by_cases same : other = key
    · rw [if_pos same] at known
      rw [same, Function.update_self, ← Option.some.inj known]
      exact grown.chainOf chainOf lastEq
    · rw [if_neg same] at known
      rw [Function.update_of_ne same]
      have apart := allocated.outside (by rw [found]; rfl) (by rw [known]; rfl) same grown
      exact (allocated.chainOf other held known).keep
        (fun pageno member => grown.others pageno (apart pageno member))
        (by rw [grown.countEq]; exact Nat.le_add_right _ _)
  · intro one other oneKnown otherKnown pageno inOne inOther
    rw [isSome] at oneKnown otherKnown
    exact allocated.apart_grown found grown oneKnown otherKnown inOne inOther
  · intro pageno bound
    obtain ⟨other, known, member⟩ := allocated.covered_grown found grown bound
    exact ⟨other, by rw [isSome]; exact known, member⟩
  · obtain ⟨end', known⟩ := allocated.table
    rw [findEq]
    by_cases same : SMDPageManagement.pageTableKey = key
    · rw [same, found] at known
      rw [if_pos same, Option.some.inj known]
      exact ⟨last, rfl⟩
    · rw [if_neg same]
      exact ⟨end', known⟩

end Allocated

/-! ### Growing -/

/-- An operation that needed no new page left everything but the file alone. -/
theorem Grown.eq_of_nil {mgr after : SMDPageManagement Device} {pages later : PageMap}
    {chain : List Nat} {last : Nat} (grown : Grown mgr after pages later chain [])
    (lastEq : chain.getLast? = some last) : after = { mgr with device := after.device } := by
  have infoEq := grown.infoEq last last lastEq (by rw [List.append_nil]; exact lastEq)
  rw [SMDPageManagement.incLastPageNoIn_self] at infoEq
  have sizeEq := grown.sizeEq
  have countEq := grown.countEq
  have attributesEq := grown.attributesEq
  cases after
  simp only [List.length_nil, Nat.add_zero] at infoEq sizeEq countEq attributesEq ⊢
  rw [infoEq, sizeEq, countEq, attributesEq]

/-- Going on from the last page of a chain grows the chain. -/
theorem Extended.grown {mgr after : SMDPageManagement Device} {pages later : PageMap}
    {page : SMDPage} {first : Nat} {fresh : List Nat}
    (extended : Extended mgr after pages later page first fresh) (front : List Nat)
    (linked : Chain pages (front ++ [first])) (apart : first ∉ front)
    (below : ∀ pageno ∈ front, pageno ≤ mgr.m_nPageCnt) :
    Grown mgr after pages later (front ++ [first]) fresh := by
  have joined : front ++ [first] ++ fresh = front ++ first :: fresh := by
    rw [List.append_assoc]
    rfl
  refine ⟨extended.sizeEq, extended.attributesEq, extended.countEq, extended.countLt,
    extended.freshEq, ?_, ?_, ?_, ?_⟩
  · intro old last oldEq lastEq
    rw [List.getLast?_concat] at oldEq
    rw [joined, List.getLast?_append, extended.lastEq, Option.some_or] at lastEq
    rw [← Option.some.inj oldEq, ← Option.some.inj lastEq]
    exact extended.infoEq
  · intro pageno outside
    rw [joined, List.mem_append, not_or] at outside
    exact extended.others pageno outside.2
  · rw [joined]
    refine linked.replace extended.chain fun pageno member => extended.others pageno fun inside => ?_
    rcases List.mem_cons.mp inside with equal | inside
    · exact apart (by rw [← equal]; exact member)
    · rw [extended.freshEq, List.mem_range'_1] at inside
      have := below pageno member
      omega
  · rw [joined]
    exact extended.saves.mono fun pageno member => List.mem_append_right _ member

/-- A chain that grew behind pages that did not change. -/
theorem Grown.prepend {mgr after : SMDPageManagement Device} {pages later : PageMap}
    {chain fresh : List Nat} (grown : Grown mgr after pages later chain fresh) (front : List Nat)
    (linked : Chain pages (front ++ chain)) (some' : chain ≠ [])
    (apart : ∀ pageno ∈ front, pageno ∉ chain) (below : ∀ pageno ∈ front, pageno ≤ mgr.m_nPageCnt) :
    Grown mgr after pages later (front ++ chain) fresh := by
  obtain ⟨pageno, rest, rfl⟩ := List.exists_cons_of_ne_nil some'
  have outside : ∀ number ∈ front, number ∉ pageno :: rest ++ fresh := by
    intro number member inside
    rcases List.mem_append.mp inside with inside | inside
    · exact apart number member inside
    · exact Nat.not_lt_of_le (below number member) (grown.new_page inside).1
  refine ⟨grown.sizeEq, grown.attributesEq, grown.countEq, grown.countLt, grown.freshEq, ?_, ?_,
    ?_, ?_⟩
  · intro first last firstEq lastEq
    refine grown.infoEq first last ?_ ?_
    · rw [List.getLast?_append_of_ne_nil _ some'] at firstEq
      exact firstEq
    · rw [List.append_assoc, List.getLast?_append_of_ne_nil _ (by simp)] at lastEq
      exact lastEq
  · intro number outsideAll
    rw [List.append_assoc, List.mem_append, not_or] at outsideAll
    exact grown.others number outsideAll.2
  · rw [List.append_assoc]
    exact linked.replace grown.linked fun number member =>
      grown.others number (outside number member)
  · rw [List.append_assoc]
    exact grown.saves.mono fun number member => List.mem_append_right _ member

/-- A chain that grew behind a change of its own pages. -/
theorem Grown.of_change {mgr after : SMDPageManagement Device} {device : Device}
    {pages mid later : PageMap} {chain fresh : List Nat}
    (grown : Grown { mgr with device := device } after mid later chain fresh)
    (others : ∀ pageno, pageno ∉ chain → mid pageno = pages pageno)
    (saves : SavedIn mgr.device device chain) : Grown mgr after pages later chain fresh := by
  refine { grown with
    others := fun pageno outside => ?_
    saves := (saves.mono fun pageno member => List.mem_append_left _ member).trans grown.saves }
  rw [grown.others pageno outside, others pageno fun member =>
    outside (List.mem_append_left _ member)]

/-- Rewriting the pages of a chain grows it by nothing. -/
theorem grown_of_rewrite {mgr : SMDPageManagement Device} {device : Device}
    {pages later : PageMap} {chain : List Nat} (countLt : mgr.m_nPageCnt < 0xFFFFFFFF)
    (others : ∀ pageno, pageno ∉ chain → later pageno = pages pageno) (linked : Chain later chain)
    (saves : SavedIn mgr.device device chain) :
    Grown mgr { mgr with device := device } pages later chain [] := by
  refine ⟨rfl, rfl, rfl, countLt, rfl, ?_, ?_, ?_, ?_⟩
  · intro first last firstEq lastEq
    rw [List.append_nil, firstEq] at lastEq
    rw [Option.some.inj lastEq, SMDPageManagement.incLastPageNoIn_self]
  · rw [List.append_nil]
    exact others
  · rw [List.append_nil]
    exact linked
  · rw [List.append_nil]
    exact saves

/-! ### Rewriting a segment -/

namespace SMDPageFile

/-- `clearPage` and then `put`, the way every segment is saved. -/
def rewrite {Device : Type} [PageDevice Device] (file : SMDPageFile)
    (mgr : SMDPageManagement Device) (bytes : Bytes) :
    Except Fault (Int × SMDPageFile × SMDPageManagement Device) := do
  let (_, file, mgr) ← file.clearPage mgr
  file.put mgr ⟨bytes, 0⟩

theorem freed_written (view : PageView) : view.freed.written = [] := by
  simp [PageView.written, PageView.freed, PageView.used]

/-- Rewriting a segment empties its chain and puts the string behind the last page it had. -/
theorem rewrite_spec (file : SMDPageFile) (mgr : SMDPageManagement Device) (pages : PageMap)
    (value : PageNo_t) (chain : List Nat) (bytes : Bytes) (serves : Serves mgr pages file value)
    (chainOf : ChainOf pages mgr.m_nPageCnt value chain)
    (unit : bytes.length + 4 ≤ mgr.m_nPageSize - bodyOffset value.nLastPageNo ∨
      file.minUint + 12 ≤ mgr.m_nPageSize)
    (some' : bytes ≠ []) (short : bytes.length + 4 < 2147483648)
    (count : mgr.m_nPageCnt + 2 + bytes.length < 0xFFFFFFFF) :
    ∃ view page after later fresh,
      pages value.nLastPageNo = some view ∧
      view.freed.space = mgr.m_nPageSize - bodyOffset value.nLastPageNo ∧
      file.rewrite mgr bytes =
        .ok (int (putAddress file.minUint bytes.length mgr.m_nPageSize mgr.m_nPageCnt
          value.nLastPageNo view.freed), { file with page := some page }, after) ∧
      Grown mgr after pages later chain fresh ∧
      Stores after.device mgr.m_nPageSize later ∧ HeldIn later mgr.m_nPageSize (some page) ∧
      page.pageno ∈ chain ++ fresh ∧
      (∀ pageno ∈ chain, pageno ≠ value.nLastPageNo →
        later pageno = (pages pageno).map PageView.freed) ∧
      chainCells later (value.nLastPageNo :: fresh) =
        putCells file.minUint mgr.m_nPageSize view.freed bytes ++ free page.view.space ∧
      (bytes.length + 4 ≤ view.freed.space → fresh = []) := by
  obtain ⟨view, known, last⟩ := chainOf.last_view
  obtain ⟨tail, chainEq⟩ := chainOf.first
  obtain ⟨front, splitEq⟩ := chainOf.split
  obtain ⟨bodyEq, _⟩ := (serves.stores _ _ known).length_body
  have spaceEq : view.freed.space = mgr.m_nPageSize - bodyOffset value.nLastPageNo := by
    show view.body.length = _
    omega
  have distinct := chainOf.distinct
  have linked := chainOf.linked
  have below := chainOf.allocated
  have lastMem := chainOf.last_mem
  obtain ⟨clearedPage, device, clearEq, _, held, stores, saves⟩ := file.clearPage_spec mgr pages value
    tail serves (by rw [← chainEq]; exact linked) (by rw [← chainEq]; exact distinct)
    (by rw [← chainEq]; exact below)
  rw [← chainEq] at held stores saves
  have clearedChain := chain_cleared chain linked fun _ member => member
  have freedKnown := pages.cleared_inside chain _ view lastMem known
  obtain ⟨page, after, later, fresh, putEq, extended, afterStores, cells, fits⟩ :=
    SMDPageFile.put_spec { file with page := some clearedPage } { mgr with device := device }
      (pages.cleared chain) value view.freed bytes 0
      ⟨serves.sizeLt, serves.room, stores, held, serves.found, serves.registered, serves.countLt⟩
      freedKnown last (by rw [spaceEq]; exact unit) some' short count
  rw [splitEq] at distinct
  have apart : value.nLastPageNo ∉ front := fun member =>
    (List.nodup_append.mp distinct).2.2 _ member _ (List.mem_singleton.mpr rfl) rfl
  have frontBelow : ∀ pageno ∈ front, pageno ≤ mgr.m_nPageCnt := fun pageno member =>
    below pageno (by rw [splitEq]; exact List.mem_append_left _ member)
  have grown := extended.grown front (by rw [← splitEq]; exact clearedChain) apart frontBelow
  rw [← splitEq] at grown
  have pageMem : page.pageno ∈ chain ++ fresh := by
    rw [splitEq, List.append_assoc]
    exact List.mem_append_right _ (List.mem_of_getLast? extended.lastEq)
  refine ⟨view, page, after, later, fresh, known, spaceEq, ?_,
    Grown.of_change grown (fun pageno outside => pages.cleared_outside chain pageno outside) saves,
    afterStores, ?_, pageMem, ?_, ?_, fits⟩
  · rw [rewrite, clearEq, ok_bind]
    exact putEq
  · rintro _ equal
    cases equal
    exact ⟨extended.pending.formed, extended.pending.seen⟩
  · intro pageno member different
    obtain ⟨held, heldEq⟩ := linked.known member
    rw [extended.others pageno fun inside => ?_, pages.cleared_inside chain pageno held member heldEq,
      heldEq, Option.map_some]
    rcases List.mem_cons.mp inside with equal | inside
    · exact different equal
    · rw [extended.freshEq, List.mem_range'_1] at inside
      have := below pageno member
      have countEq : ({ mgr with device := device } : SMDPageManagement Device).m_nPageCnt =
        mgr.m_nPageCnt := rfl
      omega
  · rw [cells, freed_written, List.map_nil, List.nil_append]

end SMDPageFile

end LevelDBLib.KvDB
