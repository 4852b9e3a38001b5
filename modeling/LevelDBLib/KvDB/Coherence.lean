/-
This file proves which pages of an open table a load shows as they were last
saved.

Saves go to the file and never to the cache, and the cache takes the number of
pages of the file once, when the table is opened. `Watched` is the table file
with a record of its saves, of the pages that the file held at the start, and of
the pages saved while the cache held them. Along every run of allocations, saves
and loads the file holds what was saved last, and so does every copy in the
cache that no save has passed by; a load is coherent exactly when the page was
below the first number of pages and no outdated copy of it is in the cache.
-/

import LevelDBLib.Library.Runs
import LevelDBLib.KvDB.PageAddresses

namespace LevelDBLib.KvDB

open Agreements Buffers Runs

/-! ### The table file with a record of its saves -/

/-- A table file, the saves made on it with the last one first, and the pages that were saved
while the cache held them and not read since. -/
structure Watched where
  table : TableFile
  saves : List (Nat × Bytes)
  stale : List Nat

namespace Watched

/-- The bytes last saved for a page. -/
def lastSaved (watched : Watched) (pageno : Nat) : Option Bytes := watched.saves.lookup pageno

def copy (watched : Watched) (pageno : Nat) : Option Bytes := watched.table.m_oDevCache.copy pageno

/-- The record after a load: a page that the cache did not hold is read again. -/
def loaded (watched : Watched) (pageno : Nat) (table : TableFile) : Watched where
  table := table
  saves := watched.saves
  stale := if watched.copy pageno = none then watched.stale.filter (· ≠ pageno) else watched.stale

/-- The record after a save that succeeded. -/
def saved (watched : Watched) (pageno : Nat) (bytes : Bytes) (table : TableFile) : Watched where
  table := table
  saves := (pageno, bytes) :: watched.saves
  stale := if watched.copy pageno = none then watched.stale else pageno :: watched.stale

end Watched

instance : PageDevice Watched where
  getPageByNo watched pageno := do
    let (page, table) ← PageDevice.getPageByNo watched.table pageno
    .ok (page, watched.loaded (int pageno).toNat table)
  save watched pageno offset bytes := do
    let (success, table) ← PageDevice.save watched.table pageno offset bytes
    .ok (success,
      if success then watched.saved pageno bytes table else { watched with table := table })

namespace Watched

/-- The record changes nothing of what a load returns. -/
theorem load_table (watched : Watched) (pageno : Nat) :
    (PageDevice.getPageByNo watched pageno).map (fun result => (result.1, result.2.table)) =
      PageDevice.getPageByNo watched.table pageno := by
  show (PageDevice.getPageByNo watched.table pageno >>= _).map _ = _
  cases PageDevice.getPageByNo watched.table pageno with
  | error fault => rfl
  | ok result => rfl

/-- The record changes nothing of what a save does. -/
theorem save_table (watched : Watched) (pageno offset : Nat) (bytes : Bytes) :
    (PageDevice.save watched pageno offset bytes).map (fun result => (result.1, result.2.table)) =
      PageDevice.save watched.table pageno offset bytes := by
  show (PageDevice.save watched.table pageno offset bytes >>= _).map _ = _
  cases PageDevice.save watched.table pageno offset bytes with
  | error fault => rfl
  | ok result =>
    refine congrArg Except.ok (Prod.ext rfl ?_)
    show (if result.1 then _ else _ : Watched).table = result.2
    split <;> rfl

/-- The whole pages of a file as saves. -/
def pagesOf (contents : Bytes) (size : Nat) : List (Nat × Bytes) :=
  (List.range (contents.length / size)).map fun n => (n, slice contents (n * size) size)

/-- A table file whose pages so far are in the record. -/
def start (table : TableFile) (size : Nat) : Watched :=
  ⟨table, pagesOf table.file.contents size, []⟩

/-- Every page saved so far starts at an `int` position. -/
def InReach (watched : Watched) (size : Nat) : Prop :=
  ∀ save ∈ watched.saves, save.1 * size < 2147483648

/-- What holds of an open table, whatever was done with it: the file, and every copy in the cache
that is not stale, hold what was saved last. -/
structure Coherent (size : Nat) (watched : Watched) : Prop where
  alone : watched.table.offset.toInt ≤ 0
  positive : 0 < size
  sound : watched.table.m_oDevCache.Sound
  sized : watched.table.m_oDevCache._nPageSize = size
  written : watched.InReach size → ∀ pageno bytes, watched.lastSaved pageno = some bytes →
    pageno * size + size ≤ watched.table.file.contents.length ∧
      slice watched.table.file.contents (pageno * size) size = bytes
  copied : watched.InReach size → ∀ pageno page bytes, watched.copy pageno = some page →
    pageno ∉ watched.stale → watched.lastSaved pageno = some bytes → slice page 0 size = bytes

theorem lastSaved_saved (watched : Watched) (pageno other : Nat) (bytes : Bytes)
    (table : TableFile) :
    (watched.saved pageno bytes table).lastSaved other =
      if other = pageno then some bytes else watched.lastSaved other := by
  show ((pageno, bytes) :: watched.saves).lookup other = _
  by_cases same : other = pageno
  · rw [if_pos same, same, List.lookup_cons_self]
  · rw [if_neg same, List.lookup_cons, beq_false_of_ne same]
    rfl

/-- Two pages of one size do not overlap. -/
theorem pages_apart {size pageno other : Nat} (different : other ≠ pageno) :
    other * size + size ≤ pageno * size ∨ pageno * size + size ≤ other * size := by
  rw [← Nat.succ_mul, ← Nat.succ_mul]
  rcases Nat.lt_or_gt_of_ne different with below | above
  · exact Or.inl (Nat.mul_le_mul_right size below)
  · exact Or.inr (Nat.mul_le_mul_right size above)

theorem inReach_of_saved {watched : Watched} {size pageno : Nat} {bytes : Bytes} {table : TableFile}
    (reach : (watched.saved pageno bytes table).InReach size) :
    watched.InReach size ∧ pageno * size < 2147483648 :=
  ⟨fun save member => reach save (List.mem_cons_of_mem _ member),
    reach (pageno, bytes) List.mem_cons_self⟩

theorem lt_of_lastSaved {watched : Watched} {size pageno : Nat} {bytes : Bytes}
    (reach : watched.InReach size) (last : watched.lastSaved pageno = some bytes) :
    pageno * size < 2147483648 := by
  unfold lastSaved at last
  rw [List.lookup_eq_some_iff] at last
  obtain ⟨before, after, equal, _⟩ := last
  exact reach (pageno, bytes) (by rw [equal]; simp)

/-! ### Loads -/

/-- The allocator's load, once the cache has answered. -/
theorem getPageByNo_of_cache (watched : Watched) (pageno : Nat) {page : Option Bytes} {rest : FILE}
    {cache : CDevCache} (call : watched.table.m_oDevCache.getPageByNo watched.table.file
      (int pageno) = .ok (page, rest, cache)) :
    PageDevice.getPageByNo watched pageno =
      .ok (page, watched.loaded (int pageno).toNat
        { watched.table with file := rest, m_oDevCache := cache }) := by
  show (PageDevice.getPageByNo watched.table pageno >>= _) = _
  have answer : PageDevice.getPageByNo watched.table pageno =
      .ok (page, TableFile.mk rest watched.table.offset cache) := by
    show (watched.table.m_oDevCache.getPageByNo _ _ >>= _) = _
    rw [call]
    rfl
  rw [answer]
  rfl

variable {watched : Watched} {size : Nat}

/-- Reading a page that the cache does not hold brings in what was saved last. -/
theorem Coherent.read (coherent : Coherent size watched) (pageno : Nat) {page : Bytes}
    (reads : watched.table.m_oDevCache.Reads watched.table.file pageno page) {bytes : Bytes}
    (reach : watched.InReach size) (last : watched.lastSaved pageno = some bytes) :
    slice page 0 size = bytes := by
  obtain ⟨within, same⟩ := coherent.written reach pageno bytes last
  have small := lt_of_lastSaved reach last
  have position := int_mul_of_lt pageno size small coherent.positive
  have number : pageno < 2147483648 :=
    Nat.lt_of_le_of_lt (Nat.le_mul_of_pos_right pageno coherent.positive) small
  have start : watched.table.m_oDevCache.pagePosition pageno = (pageno * size : Nat) := by
    rw [CDevCache.pagePosition, coherent.sized, ← position, int_of_lt pageno number]
  have read := reads.2 (pageno * size) start (by rw [coherent.sized]; exact within)
  rw [coherent.sized, same] at read
  exact read

/-- A load may forget copies, and may read the one page that it asks for. -/
theorem Coherent.loaded (coherent : Coherent size watched) (number : Nat) (table : TableFile)
    (offset : table.offset = watched.table.offset)
    (contents : table.file.contents = watched.table.file.contents)
    (sound : table.m_oDevCache.Sound)
    (sized : table.m_oDevCache._nPageSize = watched.table.m_oDevCache._nPageSize)
    (copies : ∀ other held, table.m_oDevCache.copy other = some held →
      watched.copy other = some held ∨ other = number ∧ watched.copy number = none ∧
        watched.table.m_oDevCache.Reads watched.table.file number held) :
    Coherent size (watched.loaded number table) := by
  refine ⟨?_, coherent.positive, sound, sized.trans coherent.sized, ?_, ?_⟩
  · show table.offset.toInt ≤ 0
    rw [offset]
    exact coherent.alone
  · intro reach pageno bytes last
    show pageno * size + size ≤ table.file.contents.length ∧
      slice table.file.contents (pageno * size) size = bytes
    rw [contents]
    exact coherent.written reach pageno bytes last
  · intro reach other held bytes copy fresh last
    rcases copies other held copy with before | ⟨same, _, reads⟩
    · refine coherent.copied reach other held bytes before (fun member => fresh ?_) last
      show other ∈ if watched.copy number = none then _ else _
      split
      · rename_i missing
        refine List.mem_filter.mpr ⟨member, decide_eq_true fun same => ?_⟩
        rw [← same, before] at missing
        cases missing
      · exact member
    · rw [same] at last
      exact coherent.read number reads reach last

/-- A load keeps the record of saves and the coherence of the copies. -/
theorem Coherent.load (coherent : Coherent size watched) (pageno : Nat) :
    Returns (fun result => Coherent size result.2) (PageDevice.getPageByNo watched pageno) := by
  rintro ⟨page, after⟩ returned
  obtain ⟨⟨_, table⟩, answer, _⟩ := (bind_eq_ok _ _ _).mp returned
  obtain ⟨⟨found, rest, cache⟩, call, _⟩ := (bind_eq_ok _ _ _).mp answer
  rw [getPageByNo_of_cache watched pageno call] at returned
  cases returned
  have sound := coherent.sound
  rcases sound.getPageByNo_cases _ _ _ _ call with ⟨rfl, rfl, rfl, _⟩ | ⟨number, equal, below, inside⟩
  · exact coherent.loaded _ _ rfl rfl sound rfl fun other held copy => Or.inl copy
  · rw [equal] at call ⊢
    rw [Int.toNat_natCast]
    cases held : watched.table.m_oDevCache.copy number with
    | some bytes =>
      obtain ⟨cacheAfter, served, soundAfter, sizeAfter, _, _, same⟩ :=
        sound.getPageByNo_held watched.table.file number bytes below held
      rw [served] at call
      cases call
      refine coherent.loaded _ _ rfl rfl soundAfter sizeAfter fun other held copy => Or.inl ?_
      show watched.table.m_oDevCache.copy other = some held
      rw [← same]
      exact copy
    | none =>
      obtain ⟨bytes, restAfter, cacheAfter, served, soundAfter, sizeAfter, _, _, contents, reads,
        mine, others⟩ := sound.getPageByNo_missing watched.table.file number below inside held
      rw [served] at call
      cases call
      refine coherent.loaded _ _ rfl contents soundAfter sizeAfter fun other copied copy => ?_
      by_cases same : other = number
      · rw [same, mine] at copy
        cases copy
        exact Or.inr ⟨same, held, reads⟩
      · exact Or.inl (others other copied same copy)

/-! ### Saves -/

/-- A save to the place of a page puts its bytes there, and makes the copy of the page stale. -/
theorem Coherent.saved (coherent : Coherent size watched) (pageno : Nat) (bytes : Bytes)
    (length : bytes.length = size) (table : TableFile)
    (offset : table.offset = watched.table.offset)
    (cache : table.m_oDevCache = watched.table.m_oDevCache)
    (contents : pageno * size < 2147483648 → table.file.contents =
      (FILE.fwrite ⟨watched.table.file.contents, pageno * size⟩ bytes).contents) :
    Coherent size (watched.saved pageno bytes table) := by
  have positive := coherent.positive
  have some_bytes : bytes ≠ [] := fun nothing => by
    rw [nothing, List.length_nil] at length
    omega
  refine ⟨?_, positive, ?_, ?_, ?_, ?_⟩
  · show table.offset.toInt ≤ 0
    rw [offset]
    exact coherent.alone
  · show table.m_oDevCache.Sound
    rw [cache]
    exact coherent.sound
  · show table.m_oDevCache._nPageSize = size
    rw [cache]
    exact coherent.sized
  · intro reach other held last
    obtain ⟨reachBefore, small⟩ := inReach_of_saved reach
    show other * size + size ≤ table.file.contents.length ∧
      slice table.file.contents (other * size) size = held
    rw [contents small]
    rw [lastSaved_saved] at last
    by_cases same : other = pageno
    · rw [if_pos same] at last
      cases last
      have bound := FILE.position_le_length_fwrite
        ⟨watched.table.file.contents, pageno * size⟩ bytes some_bytes
      have read := FILE.slice_fwrite_self ⟨watched.table.file.contents, pageno * size⟩ bytes
      rw [length] at bound read
      rw [same]
      exact ⟨bound, read⟩
    · rw [if_neg same] at last
      obtain ⟨within, read⟩ := coherent.written reachBefore other held last
      have kept := FILE.slice_fwrite_disjoint ⟨watched.table.file.contents, pageno * size⟩ bytes
        (other * size) size within (by rw [length]; exact pages_apart same)
      have longer := FILE.le_length_fwrite
        ⟨watched.table.file.contents, pageno * size⟩ bytes
      exact ⟨Nat.le_trans within longer, kept.trans read⟩
  · intro reach other page held copy fresh last
    obtain ⟨reachBefore, _⟩ := inReach_of_saved reach
    have before : watched.copy other = some page := by
      rw [← copy]
      show watched.table.m_oDevCache.copy other = table.m_oDevCache.copy other
      rw [cache]
    rw [lastSaved_saved] at last
    have passed : other ∉ if watched.copy pageno = none then watched.stale
        else pageno :: watched.stale := fresh
    by_cases same : other = pageno
    · rw [← same, before, if_neg (by simp)] at passed
      exact absurd List.mem_cons_self passed
    · rw [if_neg same] at last
      refine coherent.copied reachBefore other page held before (fun member => passed ?_) last
      split
      · exact member
      · exact List.mem_cons_of_mem _ member

/-- A save keeps the coherence, whether it succeeds or not. -/
theorem Coherent.save (coherent : Coherent size watched) (pageno : Nat) (bytes : Bytes)
    (length : bytes.length = size) :
    Returns (fun result => Coherent size result.2)
      (PageDevice.save watched pageno (uint (pageno * size)) bytes) := by
  have place : SMDTable.filePosition watched.table.offset (int (uint (pageno * size))) =
      int (pageno * size) := by
    rw [SMDTable.filePosition, if_neg (by have := coherent.alone; omega), int_uint]
  have answer : PageDevice.save watched pageno (uint (pageno * size)) bytes =
      .ok ((SMDTable.save watched.table bytes (uint (pageno * size))).1,
        if (SMDTable.save watched.table bytes (uint (pageno * size))).1 then
          watched.saved pageno bytes (SMDTable.save watched.table bytes (uint (pageno * size))).2
        else { watched with
          table := (SMDTable.save watched.table bytes (uint (pageno * size))).2 }) := rfl
  rw [answer]
  refine Returns.ok ?_
  dsimp only
  by_cases negative : int (pageno * size) < 0
  · have refused : SMDTable.save watched.table bytes (uint (pageno * size)) =
        (false, watched.table) := by
      rw [SMDTable.save, SMDTable.seekFileTo, place, FILE.fseek, if_pos negative]
      rfl
    rw [refused]
    exact coherent
  · have written : SMDTable.save watched.table bytes (uint (pageno * size)) =
        (true, { watched.table with
          file := FILE.fwrite ⟨watched.table.file.contents, (int (pageno * size)).toNat⟩ bytes }) := by
      rw [SMDTable.save, SMDTable.seekFileTo, place, FILE.fseek, if_neg negative]
      rfl
    rw [written]
    refine coherent.saved pageno bytes length _ rfl rfl fun small => ?_
    rw [← Int.natCast_mul, int_of_lt _ small, Int.toNat_natCast]

theorem steady (size : Nat) : Steady size (Coherent size) :=
  ⟨fun _ pageno coherent => coherent.load pageno,
    fun _ pageno bytes coherent length _ => coherent.save pageno bytes length⟩

/-! ### A table that was just opened -/

theorem lookup_pagesOf {contents bytes : Bytes} {size pageno : Nat} (positive : 0 < size)
    (found : (pagesOf contents size).lookup pageno = some bytes) :
    pageno * size + size ≤ contents.length ∧ slice contents (pageno * size) size = bytes := by
  rw [List.lookup_eq_some_iff] at found
  obtain ⟨before, after, equal, _⟩ := found
  have member : (pageno, bytes) ∈ pagesOf contents size := by
    rw [equal]
    exact List.mem_append_right _ List.mem_cons_self
  obtain ⟨number, inside, same⟩ := List.mem_map.mp member
  cases same
  have whole := (Nat.le_div_iff_mul_le positive).mp (List.mem_range.mp inside)
  rw [Nat.succ_mul] at whole
  exact ⟨whole, rfl⟩

/-- A table that stands alone in its file starts coherent. -/
theorem Coherent.init (newMemory : Nat → Nat → UInt8) (size : Nat) (file rest : FILE)
    (offset : Int32) (alone : offset.toInt ≤ 0) (cache : CDevCache)
    (made : CDevCache.init newMemory size CDevCache.DEFAULT_NUM file = .ok (rest, cache)) :
    Coherent size (start ⟨rest, offset, cache⟩ size) := by
  have positive : size ≠ 0 := by
    intro zero
    rw [CDevCache.init, if_pos zero] at made
    cases made
  obtain ⟨fresh, equal, sound, sizeEq, _, _, nothing⟩ :=
    CDevCache.init_spec newMemory size CDevCache.DEFAULT_NUM file positive (by decide) (by decide)
  rw [equal] at made
  cases made
  refine ⟨alone, Nat.pos_of_ne_zero positive, sound, sizeEq, ?_, ?_⟩
  · intro _ pageno bytes last
    exact lookup_pagesOf (Nat.pos_of_ne_zero positive) last
  · intro _ pageno page bytes copy
    have none_held : (start ⟨{ file with position := 0 }, offset, cache⟩ size).copy pageno = none :=
      nothing pageno
    rw [none_held] at copy
    cases copy

end Watched

/-! ### Runs of the allocator -/

/-- The calls of the claim on an open allocator, with the page objects they are given. -/
inductive PageCall where
  | createPageFile (enumType : SegType) (sTableName : Bytes) (minUnit : Nat)
  | getNextPage (page : Option SMDPage) (pageno : Nat)
  | savePageToFile (page : SMDPage)
  | getPageByPageNo (page : Option SMDPage) (pageno : Nat)
deriving DecidableEq

namespace PageCall

/-- The page objects of the call are objects of the page size. -/
def Fits (size : Nat) : PageCall → Prop
  | createPageFile _ _ _ => True
  | getNextPage page _ => ∀ held ∈ page, held.Fits size
  | savePageToFile page => page.Fits size
  | getPageByPageNo page _ => ∀ held ∈ page, held.Fits size

/-- One call: what it returns, the page object it leaves, and the allocator. -/
def step {Device : Type} [PageDevice Device] (mgr : SMDPageManagement Device) :
    PageCall → Except Fault ((Bool × Option SMDPage) × SMDPageManagement Device)
  | createPageFile enumType sTableName minUnit => do
    let (file, mgr) ← mgr.createPageFile enumType sTableName minUnit
    .ok ((file.isSome, none), mgr)
  | getNextPage page pageno => do
    let (moved, page, mgr) ← mgr.getNextPage page pageno
    .ok ((moved, some page), mgr)
  | savePageToFile page => do
    let (saved, page, mgr) ← mgr.savePageToFile page
    .ok ((saved, some page), mgr)
  | getPageByPageNo page pageno => do
    let (loaded, page, mgr) ← mgr.getPageByPageNo page pageno
    .ok ((loaded, some page), mgr)

/-- Every call keeps the page size and what is steady of the device. -/
theorem step_steady {Device : Type} [PageDevice Device] {size : Nat} {holds : Device → Prop}
    (steady : Steady size holds) {mgr : SMDPageManagement Device} (mounted : Over size holds mgr)
    (call : PageCall) (fits : call.Fits size) :
    Returns (fun result => Over size holds result.2) (step mgr call) := by
  cases call with
  | createPageFile enumType sTableName minUnit =>
    refine Returns.bind (SMDPageManagement.createPageFile_steady steady mounted _ _ _) ?_
    rintro ⟨file, after⟩ overAfter
    exact Returns.ok overAfter
  | getNextPage page pageno =>
    refine Returns.bind (SMDPageManagement.getNextPage_steady steady mounted page fits pageno) ?_
    rintro ⟨moved, held, after⟩ ⟨_, overAfter⟩
    exact Returns.ok overAfter
  | savePageToFile page =>
    refine Returns.bind (SMDPageManagement.savePageToFile_steady steady mounted page fits) ?_
    rintro ⟨saved, held, after⟩ ⟨_, overAfter⟩
    exact Returns.ok overAfter
  | getPageByPageNo page pageno =>
    refine Returns.bind (SMDPageManagement.getPageByPageNo_steady steady mounted page fits pageno) ?_
    rintro ⟨loaded, held, after⟩ ⟨_, overAfter⟩
    exact Returns.ok overAfter

end PageCall

/-- Opening a table whose saves are recorded. -/
def openWatched (newMemory : Nat → Nat → UInt8) (file : FILE) (offset : Int32) (pageSize : Nat)
    (exists' : Bool) : Except Fault (SMDPageManagement Watched) := do
  let (file, cache) ← CDevCache.init newMemory pageSize CDevCache.DEFAULT_NUM file
  SMDPageManagement.new (Watched.start ⟨file, offset, cache⟩ pageSize) exists' pageSize

/-- Every state of every run over a table that stands alone and has the page size of its cache. -/
theorem run_coherent {newMemory : Nat → Nat → UInt8} {file : FILE} {offset : Int32}
    {pageSize : Nat} {exists' : Bool} {opened now : SMDPageManagement Watched}
    {history : History PageCall (Bool × Option SMDPage)}
    (openEq : openWatched newMemory file offset pageSize exists' = .ok opened)
    (alone : offset.toInt ≤ 0) (sized : opened.m_nPageSize = pageSize)
    (run : Run PageCall.step (fun _ _ call => call.Fits pageSize) opened history now) :
    Over pageSize (Watched.Coherent pageSize) now := by
  refine run.invariant (fun _ mgr => Over pageSize (Watched.Coherent pageSize) mgr) ?_ ?_
  · obtain ⟨⟨rest, cache⟩, made, openEq⟩ := (bind_eq_ok _ _ _).mp openEq
    refine ⟨sized, ?_⟩
    exact new_steady (Watched.steady pageSize) _
      (Watched.Coherent.init newMemory pageSize file rest offset alone cache made) exists' opened
      openEq
  · intro _ mgr call reply after mounted fits returned
    exact PageCall.step_steady (Watched.steady pageSize) mounted call fits _ returned

namespace Watched

variable {watched : Watched} {size : Nat}

/-- The cache holds a copy of the page that a later save passed by, and that differs from it. -/
def Outdated (watched : Watched) (size pageno : Nat) (bytes : Bytes) : Prop :=
  pageno ∈ watched.stale ∧ ∃ page, watched.copy pageno = some page ∧ slice page 0 size ≠ bytes

/-- The pages the cache serves: those below the number of pages it was set up with. -/
def Serves (watched : Watched) (pageno : Nat) : Prop :=
  (pageno : Int) < watched.table.m_oDevCache._nMaxPageNum ∧
    pageno < watched.table.m_oDevCache._PageMap._nMaxPageNum

theorem Coherent.shows_iff (coherent : Coherent size watched) (reach : watched.InReach size)
    (pageno : Nat) (bytes : Bytes) (last : watched.lastSaved pageno = some bytes) :
    (∃ shown device, PageDevice.getPageByNo watched pageno = .ok (some shown, device) ∧
        fetch shown 0 size = .ok bytes) ↔
      watched.Serves pageno ∧ ¬ watched.Outdated size pageno bytes := by
  have small := lt_of_lastSaved reach last
  have number : int pageno = pageno :=
    int_of_lt pageno (Nat.lt_of_le_of_lt (Nat.le_mul_of_pos_right pageno coherent.positive) small)
  have sound := coherent.sound
  have fetched : ∀ page : Bytes, page.length = size + 4 →
      (fetch page 0 size = .ok bytes ↔ slice page 0 size = bytes) := by
    intro page length
    rw [fetch_of_le _ _ _ (by omega)]
    exact ⟨fun equal => Except.ok.inj equal, fun equal => congrArg _ equal⟩
  constructor
  · rintro ⟨shown, device, load, shows'⟩
    obtain ⟨⟨_, table⟩, answer, _⟩ := (bind_eq_ok _ _ _).mp load
    obtain ⟨⟨found, rest, cache⟩, call, _⟩ := (bind_eq_ok _ _ _).mp answer
    rw [getPageByNo_of_cache watched pageno call] at load
    cases load
    rw [number] at call
    rcases sound.getPageByNo_cases _ _ _ _ call with ⟨nothing, _⟩ | ⟨same, equal, below, inside⟩
    · cases nothing
    · cases equal
      refine ⟨⟨below, inside⟩, ?_⟩
      rintro ⟨_, page, copy, differs⟩
      obtain ⟨_, served, _⟩ := sound.getPageByNo_held watched.table.file pageno page below copy
      obtain ⟨bufNo, _, buffer⟩ := (CDevCache.copy_eq_some_iff _ pageno page).mp copy
      rw [served] at call
      cases call
      have length := sound.guarded bufNo shown buffer
      rw [coherent.sized] at length
      exact differs ((fetched shown length).mp shows')
  · rintro ⟨⟨below, inside⟩, current⟩
    cases held : watched.table.m_oDevCache.copy pageno with
    | some page =>
      obtain ⟨_, served, _⟩ := sound.getPageByNo_held watched.table.file pageno page below held
      obtain ⟨bufNo, _, buffer⟩ := (CDevCache.copy_eq_some_iff _ pageno page).mp held
      have length := sound.guarded bufNo page buffer
      rw [coherent.sized] at length
      rw [← number] at served
      refine ⟨page, _, getPageByNo_of_cache watched pageno served, (fetched page length).mpr ?_⟩
      by_cases passed : pageno ∈ watched.stale
      · by_contra differs
        exact current ⟨passed, page, held, differs⟩
      · exact coherent.copied reach pageno page bytes held passed last
    | none =>
      obtain ⟨page, _, _, served, _, _, _, _, _, reads, _⟩ :=
        sound.getPageByNo_missing watched.table.file pageno below inside held
      have length := reads.1
      rw [coherent.sized] at length
      rw [← number] at served
      exact ⟨page, _, getPageByNo_of_cache watched pageno served,
        (fetched page length).mpr (coherent.read pageno reads reach last)⟩

end Watched

/-- In every run on a table that stands alone in its file, with its pages at `int` positions: a
load through an object that does not hold the page fills it with the bytes saved last exactly
when the page lies below the number of pages found at the start and the cache has no outdated
copy of it. -/
theorem loads_coherent_iff {newMemory : Nat → Nat → UInt8} {file : FILE} {offset : Int32}
    {pageSize : Nat} {exists' : Bool} {opened now : SMDPageManagement Watched}
    {history : History PageCall (Bool × Option SMDPage)}
    (openEq : openWatched newMemory file offset pageSize exists' = .ok opened)
    (alone : offset.toInt ≤ 0) (sized : opened.m_nPageSize = pageSize)
    (run : Run PageCall.step (fun _ _ call => call.Fits pageSize) opened history now)
    (reach : now.device.InReach pageSize) (page : Option SMDPage)
    (fits : ∀ held ∈ page, held.Fits pageSize) (pageno : Nat) (elsewhere : Elsewhere page pageno)
    (bytes : Bytes) (last : now.device.lastSaved pageno = some bytes) :
    (∃ loaded after, now.getPageByPageNo page pageno = .ok (true, loaded, after) ∧
        loaded.data = bytes) ↔
      SMDPage.headOffset pageno + 12 ≤ pageSize ∧ now.device.Serves pageno ∧
        ¬ now.device.Outdated pageSize pageno bytes := by
  obtain ⟨rfl, coherent⟩ := run_coherent openEq alone sized run
  rw [getPageByPageNo_shows_iff now page fits pageno elsewhere bytes,
    coherent.shows_iff reach pageno bytes last]

/-- What is saved on page 1 of the sample table. -/
def samplePage : Bytes :=
  SMDValue.putInt 0xFFFFFFFF ++ SMDValue.putShort 100 ++ List.replicate 6 0 ++
    List.replicate 16 7 ++ List.replicate 100 0

def sampleCalls : List PageCall :=
  [.createPageFile .SEG_TYPE_DATA [0x61] 4, .getNextPage none 0,
    .savePageToFile ⟨true, 128, 1, samplePage, ⟨100, 0, 0, 0xFFFFFFFF⟩⟩, .getPageByPageNo none 1]

/-- A table file of two pages is opened and gets a segment on page 1 and another page behind its
page table; page 1 is saved once more and then loaded. A later load of page 1 shows what was saved
last. -/
theorem loads_coherent_once :
    ∃ opened replies now,
      openWatched (fun _ _ => 0) ⟨sampleTable ++ List.replicate 128 0, 0⟩ (-1) 128 true =
        .ok opened ∧
      runAll PageCall.step opened sampleCalls = .ok (replies, now) ∧
      replies.map Prod.fst = [true, true, true, true] ∧
      ∃ loaded after, now.getPageByPageNo none 1 = .ok (true, loaded, after) ∧
        loaded.data = samplePage := by
  have seen : (do
      let opened ← openWatched (fun _ _ => 0) ⟨sampleTable ++ List.replicate 128 0, 0⟩ (-1) 128 true
      let (replies, now) ← runAll PageCall.step opened sampleCalls
      .ok (opened.m_nPageSize, replies.map Prod.fst,
        decide (∀ save ∈ now.device.saves, save.1 * 128 < 2147483648),
        decide (now.device.lastSaved 1 = some samplePage ∧ 1 ∉ now.device.stale),
        decide (1 < now.device.table.m_oDevCache._nMaxPageNum ∧
          1 < now.device.table.m_oDevCache._PageMap._nMaxPageNum))) =
      (.ok (128, [true, true, true, true], true, true, true) : Except Fault _) := by
    decide +kernel
  obtain ⟨opened, openEq, seen⟩ := (bind_eq_ok _ _ _).mp seen
  obtain ⟨⟨replies, now⟩, ran, seen⟩ := (bind_eq_ok _ _ _).mp seen
  injection seen with seen
  simp only [Prod.mk.injEq, decide_eq_true_eq] at seen
  obtain ⟨sized, moves, reach, ⟨last, current⟩, below, inside⟩ := seen
  have fits : ∀ call ∈ sampleCalls, call.Fits 128 := by
    simp [sampleCalls, PageCall.Fits, SMDPage.Fits, samplePage, SMDValue.putInt, SMDValue.putShort]
  have run : Run PageCall.step (fun _ _ call => call.Fits 128) opened
      ((sampleCalls.zip replies).reverse ++ []) now :=
    run_of_runAll sampleCalls .start (fun _ _ => fits) ran
  exact ⟨opened, replies, now, openEq, ran, moves,
    (loads_coherent_iff openEq (by decide) sized run reach none (fun _ member => nomatch member)
      1 (by decide) samplePage last).mpr ⟨by decide, ⟨below, inside⟩, fun passed => current passed.1⟩⟩

/-- A new table gets one segment. Its root page 1 has been saved, and a load of it fails; page 0
has been saved with the new page table, and a load shows the page that the file started with. -/
theorem loads_not_coherent :
    (do
      let bytes ← flagPage 128
      let opened ← openWatched (fun _ _ => 0) ⟨bytes, 0⟩ (-1) 128 false
      let now ← PageCall.step opened (.createPageFile .SEG_TYPE_DATA [0x61] 4)
      let root ← now.2.getPageByPageNo none 1
      let table ← now.2.getPageByPageNo none 0
      .ok (now.1.1, (now.2.device.lastSaved 1).isSome, root.1,
        table.1, decide (now.2.device.lastSaved 0 = some table.2.1.data),
        decide (table.2.1.data = bytes))) =
      (.ok (true, true, false, true, false, true) : Except Fault _) := by
  decide +kernel

end LevelDBLib.KvDB
