/-
This file is about what the allocator reports of writes that fail.

`createPageFile` has counted the page and entered the segment into the page table
before it writes anything, and takes neither back. Of its writes it looks at one,
that of the root page. `put` looks at none of them: it returns the offset at which
it meant to write the string. So a caller can trust an offset where no write
failed, neither in that call nor before.
-/

import LevelDBLib.KvDB.Failures
import LevelDBLib.KvDB.Offsets
import LevelDBLib.KvDB.Registration

namespace LevelDBLib.KvDB

open Buffers Tapes Runs Agreements

variable {Device : Type} [CoherentDevice Device]

namespace Segments

/-! ### What is reported -/

/-- `createPageFile` returns NULL only with the counter and the page table as they were, and `put`
returns an offset only if it saved every page that it wrote and a new segment object reads the
string there. -/
def Reported (state : Segments (FaultyFile Device)) (call : Request) (reply : Reply)
    (after : Segments (FaultyFile Device)) : Prop :=
  match call, reply with
  | .createPageFile _ _ _, .created made => made = false →
    after.mgr.m_nPageCnt = state.mgr.m_nPageCnt ∧ after.mgr.m_PageInfo = state.mgr.m_PageInfo
  | .put key bytes, .offset offset => 0 ≤ offset →
    state.mgr.device.AllSaved after.mgr.device ∧
      ∃ last, runAll step after
        [.createPageFile key.segType key.sTableName 0, .get key offset] =
          .ok ([.created true, .bytes true bytes], last)
  | _, _ => True

/-- The write that follows those of the page table, with the new segment in it, does not fail. -/
def RootSaved (state : Segments (FaultyFile Device)) (key : PageKey_t) (minUnit : Nat) : Prop :=
  ∀ mgr, ({ state.mgr with
      m_nPageCnt := uint (state.mgr.m_nPageCnt + 1)
      m_PageInfo := state.mgr.m_PageInfo.insert key
        ⟨0, max minUnit 4, uint (state.mgr.m_nPageCnt + 1), uint (state.mgr.m_nPageCnt + 1)⟩ } :
        SMDPageManagement (FaultyFile Device)).saveInnerInfoToFile = .ok (true, mgr) →
    mgr.device.fails mgr.device.writes = false

end Segments

/-! ### New segments -/

theorem SMDPage.modify_new {size pageno : Nat} {page : SMDPage}
    (made : SMDPage.new size pageno = .ok page) : page.modify = true := by
  unfold SMDPage.new SMDPage.checkFirstPage at made
  split at made
  · obtain ⟨data, _, equal⟩ := (bind_eq_ok _ _ _).mp made
    cases equal
    rfl
  · cases made
    rfl

/-- A page object that was just made is saved exactly when the next write does not fail. -/
theorem savePageToFile_faulty {mgr after : SMDPageManagement (FaultyFile Device)}
    {page held : SMDPage} {saved : Bool} (dirty : page.modify = true)
    (returned : mgr.savePageToFile page = .ok (saved, held, after)) :
    saved = !mgr.device.fails mgr.device.writes := by
  rw [SMDPageManagement.savePageToFile, if_pos dirty] at returned
  simp only [bind_eq_ok] at returned
  obtain ⟨pushed, _, buffer, _, ⟨done, device⟩, save, equal⟩ := returned
  cases equal
  have save : (if mgr.device.fails mgr.device.writes then
      (.ok (false, { mgr.device with
        file := mgr.device.spoiled mgr.device.file pushed.pageno buffer
        writes := mgr.device.writes + 1 }) : Except Fault (Bool × FaultyFile Device))
    else PageDevice.save mgr.device.file pushed.pageno pushed.getFileOffset buffer >>= fun saved =>
      .ok (saved.1, { mgr.device with file := saved.2, writes := mgr.device.writes + 1 })) =
      .ok (done, device) := save
  by_cases fails : mgr.device.fails mgr.device.writes = true
  · rw [if_pos fails] at save
    cases save
    rw [fails]
    rfl
  · obtain ⟨file, saveEq, _⟩ := CoherentDevice.save_coherent mgr.device.file pushed.pageno
      pushed.getFileOffset buffer
    rw [if_neg fails, saveEq, ok_bind] at save
    cases save
    rw [Bool.not_eq_true _ |>.mp fails]
    rfl

namespace Segments

/-- A failed `createPageFile` has always changed the table: what it reports is right exactly when
there was nothing to create, or the write of the root page succeeds. -/
theorem created_reported_iff {state after : Segments (FaultyFile Device)} {key : PageKey_t}
    {minUnit : Nat} {reply : Reply}
    (table : (state.mgr.m_PageInfo.find SMDPageManagement.pageTableKey).isSome)
    (returned : state.step (.createPageFile key.segType key.sTableName minUnit) =
      .ok (reply, after)) :
    Reported state (.createPageFile key.segType key.sTableName minUnit) reply after ↔
      (state.mgr.m_PageInfo.find key).isSome ∨ state.RootSaved key minUnit := by
  have keyEq : (⟨key.segType, key.sTableName⟩ : PageKey_t) = key := rfl
  simp only [step, bind_eq_ok] at returned
  obtain ⟨⟨file, mgr⟩, createEq, equal⟩ := returned
  cases equal
  unfold SMDPageManagement.createPageFile at createEq
  rw [keyEq] at createEq
  cases found : state.mgr.m_PageInfo.find key with
  | some value =>
    rw [found] at createEq
    cases createEq
    exact iff_of_true (fun _ => ⟨rfl, rfl⟩) (Or.inl rfl)
  | none =>
    rw [found] at createEq
    obtain ⟨⟨stored, saved⟩, saveEq, createEq⟩ := (bind_eq_ok _ _ _).mp createEq
    obtain ⟨unitsEq, storedEq⟩ := SMDPageManagement.saveInnerInfoToFile_units _ _ saveEq
    have tableNe : SMDPageManagement.pageTableKey ≠ key := fun same => by
      rw [same, found] at table
      cases table
    have isStored : stored = true := by
      refine storedEq.mpr ?_
      show (PageInfo.find (state.mgr.m_PageInfo.insert key _) _).isSome = true
      rw [PageInfo.find_insert key _ found, if_neg tableNe]
      exact table
    subst isStored
    obtain ⟨page, pageEq, createEq⟩ := (bind_eq_ok _ _ _).mp createEq
    obtain ⟨⟨rootSaved, held, last⟩, rootEq, createEq⟩ := (bind_eq_ok _ _ _).mp createEq
    cases createEq
    have dirty : page.modify = true := SMDPage.modify_new pageEq
    have written := savePageToFile_faulty dirty rootEq
    have rootIff : state.RootSaved key minUnit ↔ rootSaved = true := by
      rw [written, Bool.not_eq_true']
      constructor
      · exact fun holds => holds saved saveEq
      · intro fails other otherEq
        rw [saveEq] at otherEq
        cases otherEq
        exact fails
    have keptUnits := SMDPageManagement.savePageToFile_units saved page _ rootEq
    have registered : (mgr.m_PageInfo.find key).isSome := by
      rw [← PageInfo.isSome_unitOf, show mgr.m_PageInfo.unitOf = _ from keptUnits,
        show saved.m_PageInfo.unitOf = _ from unitsEq, PageInfo.isSome_unitOf,
        PageInfo.find_insert key _ found, if_pos rfl]
      rfl
    cases rootSaved with
    | true =>
      refine iff_of_true (fun failed => ?_) (Or.inr (rootIff.mpr rfl))
      rw [if_pos rfl, SMDPageManagement.getPageFile, keyEq, Option.isSome_map, registered] at failed
      cases failed
    | false =>
      refine iff_of_false (fun reported => ?_) ?_
      · have infoEq : mgr.m_PageInfo = state.mgr.m_PageInfo := (reported rfl).2
        rw [infoEq, found] at registered
        cases registered
      · rintro (known | holds)
        · cases known
        · cases rootIff.mp holds

/-- The segments that a new file starts with stay registered over all calls, whatever fails. -/
theorem run_matched {origin : FaultyFile Device} {pageSize : Nat}
    {mgr : SMDPageManagement (FaultyFile Device)}
    (newEq : SMDPageManagement.new origin false pageSize = .ok mgr)
    {guard : History Request Reply → Segments (FaultyFile Device) → Request → Prop}
    {history : History Request Reply} {state : Segments (FaultyFile Device)}
    (run : Run step guard (opened mgr) history state) :
    Matched state ∧ (state.mgr.m_PageInfo.find SMDPageManagement.pageTableKey).isSome := by
  refine run.invariant (fun _ state =>
    Matched state ∧ (state.mgr.m_PageInfo.find SMDPageManagement.pageTableKey).isSome) ?_ ?_
  · cases newEq
    exact ⟨(fun _ _ equal => by cases equal), rfl⟩
  · rintro _ state call reply after ⟨matched, table⟩ _ returned
    obtain ⟨stays, known⟩ := matched.step call _ returned
    exact ⟨stays, known _ table⟩

/-! ### Reading -/

/-- A string stands at the offset of the segment, with room for the minimal unit behind it. -/
def Finds (state : Segments Device) (key : PageKey_t) (offset : Int) : Prop :=
  state.UpToDate key ∧ 28 < state.mgr.m_nPageSize ∧
    (state.mgr.m_nPageCnt + 1) * state.mgr.m_nPageSize ≤ 2147483648 ∧
    ∃ value front pageno pos rest bytes, state.mgr.m_PageInfo.find key = some value ∧
      OwnedChain state.mgr value (front ++ pageno :: rest) ∧
      Stands (filePages state.mgr) (pageno :: rest) pos bytes ∧ bytes.length < 2147483648 ∧
      offset = (pageno * state.mgr.m_nPageSize + bodyOffset pageno + pos : Nat) ∧
      bodyOffset pageno + pos + max value.nMinUnit 4 ≤ state.mgr.m_nPageSize

/-- The calls that keep the pages of the segments apart, with the reads of what was written. -/
def Tends (state : Segments Device) : Request → Prop
  | .get key offset => state.Finds key offset
  | call => state.KeepsApart call

variable {state : Segments Device} {pages : PageMap} {chains : PageKey_t → List Nat}

/-- A read of a string that stands in the segment leaves the segments sound. -/
theorem Sound.finds (sound : Sound state pages chains) (matched : Matched state) {key : PageKey_t}
    {offset : Int} (finds : state.Finds key offset) {reply : Reply} {after : Segments Device}
    (returned : state.step (.get key offset) = .ok (reply, after)) : Sound after pages chains := by
  obtain ⟨current, room, small, value, front, pageno, pos, rest, bytes, found, owned, stands, short,
    offsetEq, inside⟩ := finds
  cases opened : state.files key with
  | none =>
    simp only [step, opened] at returned
    cases returned
    exact sound
  | some file =>
    have unit := (matched key file opened).2
    rw [PageInfo.unitOf, found] at unit
    have unitEq : value.nMinUnit = file.minUint := Option.some.inj unit
    have chainEq := sound.owned_unique found owned
    have linked := (sound.allocated.chainOf key value found).linked
    rw [← chainEq] at linked
    have seen : chainCells (filePages state.mgr) (pageno :: rest) =
        chainCells pages (pageno :: rest) := by
      refine chainCells_congr fun number member => ?_
      obtain ⟨view, known⟩ := linked.known (List.mem_append_right _ member)
      rw [known, sound.allocated.stores.filePages _ _ known]
    rw [Stands, seen] at stands
    obtain ⟨page, device, getEq, next, _⟩ := sound.get opened (fun table => current table _ opened)
      room small chainEq.symm stands (by omega) (by omega) short
    rw [offsetEq, getEq] at returned
    cases returned
    exact next

/-- One call that tends the segments. -/
theorem Sound.tends (sound : Sound state pages chains) (matched : Matched state) {call : Request}
    (admitted : state.Tends call) {reply : Reply} {after : Segments Device}
    (returned : state.step call = .ok (reply, after)) :
    ∃ later laterChains, Sound after later laterChains := by
  have split : (∃ key offset, call = .get key offset) ∨ state.KeepsApart call := by
    cases call with
    | get key offset => exact Or.inl ⟨key, offset, rfl⟩
    | _ => exact Or.inr admitted
  rcases split with ⟨key, offset, rfl⟩ | apart
  · exact ⟨pages, chains, sound.finds matched admitted returned⟩
  · obtain ⟨later, laterChains, next, _⟩ := sound.keeps call apart returned
    exact ⟨later, laterChains, next⟩

/-- `put` starts the string where `get` finds it, and leaves the file below 2 GiB. -/
def Places (state : Segments Device) (key : PageKey_t) (bytes : Bytes) : Prop :=
  ∀ file value view, state.files key = some file → state.mgr.m_PageInfo.find key = some value →
    filePages state.mgr value.nLastPageNo = some view → 28 < state.mgr.m_nPageSize ∧
      SMDPageFile.Findable file.minUint bytes.length state.mgr.m_nPageSize view ∧
      (state.mgr.m_nPageCnt + pagesNeeded state.mgr.m_nPageSize bytes.length + 2) *
        state.mgr.m_nPageSize ≤ 2147483648

/-- A string that is put where `get` finds it is read by a new segment object. -/
theorem Sound.put_reads (sound : Sound state pages chains) (matched : Matched state)
    {key : PageKey_t} {file : SMDPageFile} (opened : state.files key = some file)
    (current : state.UpToDate key) {bytes : Bytes} (some' : bytes ≠ [])
    (range : state.mgr.InRange bytes.length) (places : state.Places key bytes) {reply : Reply}
    {after : Segments Device} (returned : state.step (.put key bytes) = .ok (reply, after)) :
    ∃ offset reopened last, reply = .offset offset ∧
      after.step (.createPageFile key.segType key.sTableName 0) = .ok (.created true, reopened) ∧
      CoherentDevice.saves reopened.mgr.device = CoherentDevice.saves after.mgr.device ∧
      reopened.step (.get key offset) = .ok (.bytes true bytes, last) ∧
      CoherentDevice.saves last.mgr.device = CoherentDevice.saves reopened.mgr.device := by
  obtain ⟨value, found, serves, chainOf⟩ := sound.opens opened fun table => current table _ opened
  obtain ⟨view, known, last⟩ := chainOf.last_view
  obtain ⟨front, splitEq⟩ := chainOf.split
  obtain ⟨room, findable, small⟩ := places file value view opened found
    (serves.stores.filePages _ _ known)
  obtain ⟨short, count⟩ := range
  have positive := List.length_pos_iff.mpr some'
  have unit : bytes.length + 4 ≤ view.space ∨ file.minUint + 12 ≤ state.mgr.m_nPageSize := by
    obtain ⟨bodyEq, space⟩ := (serves.stores _ _ known).length_body
    have offset := bodyOffset_eq value.nLastPageNo
    exact findable.room (by omega)
  obtain ⟨page, mgr, later, fresh, putEq, grown, next, cells, others, _⟩ := sound.put opened
    (fun table => current table _ opened) bytes some' short count found known unit
  -- the number of new pages, from the count of the cells
  have few : mgr.m_nPageCnt ≤
      state.mgr.m_nPageCnt + pagesNeeded state.mgr.m_nPageSize bytes.length + 1 := by
    have size : (⟨bytes, 0⟩ : SMDMemStream).size = bytes.length :=
      uint_of_lt bytes.length (by omega)
    have below : state.mgr.m_nPageCnt < 2147483648 := by
      have product := Nat.mul_le_mul_left (state.mgr.m_nPageCnt +
        pagesNeeded state.mgr.m_nPageSize bytes.length + 2) (Nat.le_of_lt room)
      omega
    obtain ⟨start, filed, ended, endEq, le⟩ := (SMDPageFile.append_ends_iff serves known last below
      ⟨bytes, 0⟩ (by omega)).mpr (by
        rw [size]
        exact unit.imp_right Or.inl)
    simp only [step, opened, endEq, ok_bind] at putEq
    have same := congrArg (fun result => result.2.mgr) (Except.ok.inj putEq)
    rw [size] at le
    rw [← show ended = mgr from same]
    exact le
  rw [putEq] at returned
  cases returned
  have laterStores := next.allocated.stores
  rw [after_mgr, grown.sizeEq] at laterStores
  obtain ⟨_, _, _, _, pageno, pos, addressEq, pageLe, standsAt⟩ := put_place chainOf grown room
    serves.stores laterStores splitEq known findable others cells
  have inside := standsAt.room
  have fileSmall : (mgr.m_nPageCnt + 1) * state.mgr.m_nPageSize ≤ 2147483648 :=
    Nat.le_trans (Nat.mul_le_mul_right _ (by omega)) small
  have replyEq : int (SMDPageFile.putAddress file.minUint bytes.length state.mgr.m_nPageSize
      state.mgr.m_nPageCnt value.nLastPageNo view : Nat) =
        (pageno * state.mgr.m_nPageSize + bodyOffset pageno + pos : Nat) := by
    rw [addressEq, int_of_lt _ (standsAt.place_lt pageLe fileSmall)]
  obtain ⟨before, number, start, rest, split, offsetEq, header, stands, _⟩ :=
    standsAt.onPage.stands laterStores grown.linked standsAt.reads
  have addresses := Int.natCast_inj.mp offsetEq
  rw [Nat.add_assoc, Nat.add_assoc] at addresses
  have samePage : pageno = number := by
    have quotients := congrArg (· / state.mgr.m_nPageSize) addresses
    simpa only [address_div (Nat.lt_of_lt_of_le (by omega : bodyOffset pageno + pos <
      bodyOffset pageno + pos + max file.minUint 4) inside),
      address_div (by omega : bodyOffset number + start < state.mgr.m_nPageSize)] using quotients
  subst samePage
  have sameStart : pos = start := by omega
  subst sameStart
  -- the new segment object has the unit of the old one
  have matchedAfter := (matched.step (.put key bytes) _ putEq).1
  have unitEq := (matchedAfter key { file with page := some page } (after_files_self ..)).2
  obtain ⟨ended, endedEq, minUnit⟩ := Option.map_eq_some_iff.mp unitEq
  obtain ⟨reopenEq, reopened⟩ := next.reopen endedEq 0
  obtain ⟨read, device, getEq, _, same⟩ := reopened.get (after_files_self ..)
    (fun _ held equal => by cases equal) (by rw [after_mgr, after_mgr, grown.sizeEq]; exact room)
    (by rw [after_mgr, after_mgr, grown.sizeEq]; exact fileSmall)
    (show Function.update chains key (chains key ++ fresh) key = _ by
      rw [Function.update_self]; exact split) stands
    (by rw [after_mgr, after_mgr, grown.sizeEq]; exact header)
    (by
      have endUnit : ended.nMinUnit = file.minUint := minUnit
      rw [after_mgr, after_mgr, grown.sizeEq]
      show bodyOffset pageno + pos + ended.nMinUnit ≤ _
      omega) (by omega)
  rw [after_mgr, after_mgr, grown.sizeEq, ← replyEq] at getEq
  exact ⟨_, _, _, rfl, reopenEq, rfl, getEq, same⟩

/-! ### Runs without a failed write -/

/-- The call returns on a file that never fails, and none of the writes that it makes there
fails. -/
def Spared (state : Segments (FaultyFile Device)) (call : Request) : Prop :=
  ∃ reply after, state.onFile.step call = .ok (reply, after) ∧
    state.mgr.device.Spares after.mgr.device

/-- A call that tends the segments, and none of whose writes fails. -/
def Reliable (state : Segments (FaultyFile Device)) (call : Request) : Prop :=
  Spared state call ∧ state.onFile.Tends call

/-- What a spared call did, it did to the file. -/
theorem Spared.inFile {state after : Segments (FaultyFile Device)} {call : Request} {reply : Reply}
    (spared : Spared state call) (returned : state.step call = .ok (reply, after)) :
    ∃ filed, state.onFile.step call = .ok (reply, filed) ∧
      state.mgr.device.Spares filed.mgr.device ∧ after = filed.onFaulty state.mgr.device := by
  obtain ⟨other, filed, fileEq, spares⟩ := spared
  rw [step_spared fileEq spares] at returned
  cases returned
  exact ⟨filed, fileEq, spares, rfl⟩

theorem run_reliable {origin : FaultyFile Device} {pageSize : Nat}
    {mgr : SMDPageManagement (FaultyFile Device)} (flag : HoldsFlag origin.file pageSize)
    (sizeLt : pageSize < 65536) (newEq : SMDPageManagement.new origin false pageSize = .ok mgr)
    {history : History Request Reply} {state : Segments (FaultyFile Device)}
    (run : Run step (fun _ => Reliable) (opened mgr) history state) :
    ∃ pages chains, Sound state.onFile pages chains := by
  have both : Matched state ∧ ∃ pages chains, Sound state.onFile pages chains := by
    refine run.invariant (fun _ state =>
      Matched state ∧ ∃ pages chains, Sound state.onFile pages chains) ?_ ?_
    · cases newEq
      exact ⟨(fun _ _ equal => by cases equal), _, _, new_sound flag sizeLt rfl⟩
    · rintro _ state call reply after ⟨matched, pages, chains, sound⟩ ⟨spared, tends⟩ returned
      obtain ⟨filed, fileEq, _, rfl⟩ := spared.inFile returned
      exact ⟨(matched.step call _ returned).1, sound.tends matched tends fileEq⟩
  exact both.2

/-- A call that returns on the file and saves nothing does the same on the faulty file. -/
theorem step_quiet {state : Segments (FaultyFile Device)} {call : Request} {reply : Reply}
    {after : Segments Device} (returned : state.onFile.step call = .ok (reply, after))
    (quiet : CoherentDevice.saves after.mgr.device =
      CoherentDevice.saves state.onFile.mgr.device) :
    state.step call = .ok (reply, after.onFaulty state.mgr.device) :=
  step_spared returned (FaultyFile.spares_of_saves_eq quiet)

/-- An offset that a spared `put` returned can be trusted. -/
theorem put_reported {state after : Segments (FaultyFile Device)} (matched : Matched state)
    (sound : Sound state.onFile pages chains) {key : PageKey_t} {bytes : Bytes} {reply : Reply}
    (reliable : Reliable state (.put key bytes)) (places : state.onFile.Places key bytes)
    (returned : state.step (.put key bytes) = .ok (reply, after)) :
    Reported state (.put key bytes) reply after := by
  obtain ⟨filed, fileEq, spares, rfl⟩ := reliable.1.inFile returned
  obtain ⟨current, range⟩ := reliable.2
  cases opened : state.onFile.files key with
  | none =>
    simp only [step, opened] at fileEq
    cases fileEq
    trivial
  | some file =>
    by_cases empty : bytes = []
    · have nothing : file.put state.onFile.mgr ⟨bytes, 0⟩ = .ok (-1, file, state.onFile.mgr) := by
        rw [empty]
        rfl
      simp only [step, opened, nothing, ok_bind] at fileEq
      cases fileEq
      intro nonneg
      cases nonneg
    · obtain ⟨offset, reopened, last, rfl, reopenEq, quiet, getEq, same⟩ :=
        sound.put_reads matched opened current empty range places fileEq
      let fresh := reopened.onFaulty (filed.onFaulty state.mgr.device).mgr.device
      have opens : (filed.onFaulty state.mgr.device).step
          (.createPageFile key.segType key.sTableName 0) = .ok (.created true, fresh) :=
        step_quiet reopenEq quiet
      have reads : fresh.step (.get key offset) =
          .ok (.bytes true bytes, last.onFaulty fresh.mgr.device) := step_quiet getEq same
      refine fun _ => ⟨spares, last.onFaulty fresh.mgr.device, ?_⟩
      simp only [runAll, opens, reads]

/-- Reported failures: in every state that a new file reaches, whatever writes fail,
`createPageFile` reports rightly exactly when the segment exists or the write of its root page
succeeds; and where the calls tend the segments and none of their writes fails, every offset that
`put` returns can be read. -/
theorem failures_reported (origin : FaultyFile Device) (pageSize : Nat)
    (mgr : SMDPageManagement (FaultyFile Device)) (flag : HoldsFlag origin.file pageSize)
    (sizeLt : pageSize < 65536) (newEq : SMDPageManagement.new origin false pageSize = .ok mgr) :
    (∀ history state, Run step (fun _ _ _ => True) (opened mgr) history state →
      ∀ (key : PageKey_t) minUnit reply after,
        state.step (.createPageFile key.segType key.sTableName minUnit) = .ok (reply, after) →
          (Reported state (.createPageFile key.segType key.sTableName minUnit) reply after ↔
            (state.mgr.m_PageInfo.find key).isSome ∨ state.RootSaved key minUnit)) ∧
    ∀ history state, Run step (fun _ => Reliable) (opened mgr) history state →
      ∀ key bytes reply after, Reliable state (.put key bytes) → state.onFile.Places key bytes →
        state.step (.put key bytes) = .ok (reply, after) →
          Reported state (.put key bytes) reply after := by
  constructor
  · intro history state run key minUnit reply after returned
    exact created_reported_iff (run_matched newEq run).2 returned
  · intro history state run key bytes reply after reliable places returned
    obtain ⟨pages, chains, sound⟩ := run_reliable flag sizeLt newEq run
    exact put_reported (run_matched newEq run).1 sound reliable places returned

/-- The two calls of the witness on a file that does not fail, with what it has saved. -/
theorem savedCalls : ∃ (device : PageDisk) (mgr : SMDPageManagement PageDisk) (reply : Reply)
    (first second : Segments PageDisk) (file : SMDPageFile) (value : PageNo_t) (view : PageView),
    HoldsFlag device 96 ∧ SMDPageManagement.new device false 96 = .ok mgr ∧
    device.saved.length = 0 ∧ mgr.device = device ∧
    step (opened mgr) (.createPageFile .SEG_TYPE_DATA [1] 0) = .ok (reply, first) ∧
    step first (.put ⟨.SEG_TYPE_DATA, [1]⟩ [4, 5]) = .ok (.offset 108, second) ∧
    first.mgr.device.saved.length = 3 ∧ second.mgr.device.saved.length = 4 ∧
    first.mgr.m_nPageSize = 96 ∧ first.mgr.m_nPageCnt = 1 ∧
    first.files ⟨.SEG_TYPE_DATA, [1]⟩ = some file ∧ file.minUint = 4 ∧
    first.mgr.m_PageInfo.find ⟨.SEG_TYPE_DATA, [1]⟩ = some value ∧
    filePages first.mgr value.nLastPageNo = some view ∧ view.space = 84 := by
  have evaluated : (PageDisk.create 96 >>= fun disk =>
      SMDPageManagement.new disk false 96 >>= fun mgr =>
      step (opened mgr) (.createPageFile .SEG_TYPE_DATA [1] 0) >>= fun first =>
      step first.2 (.put ⟨.SEG_TYPE_DATA, [1]⟩ [4, 5]) >>= fun second =>
      .ok (second.1, [disk.saved.length, first.2.mgr.device.saved.length,
        second.2.mgr.device.saved.length, first.2.mgr.m_nPageSize, first.2.mgr.m_nPageCnt],
        [(first.2.files ⟨.SEG_TYPE_DATA, [1]⟩).map SMDPageFile.minUint,
          (first.2.mgr.m_PageInfo.find ⟨.SEG_TYPE_DATA, [1]⟩).bind fun value =>
            (filePages first.2.mgr value.nLastPageNo).map PageView.space])) =
      (Except.ok (.offset 108, [0, 3, 4, 96, 1], [some 4, some 84]) :
        Except Fault (Reply × List Nat × List (Option Nat))) := by
    decide +kernel
  simp only [bind_eq_ok] at evaluated
  obtain ⟨device, created, mgr, newEq, ⟨reply, first⟩, createEq, ⟨put, second⟩, putEq, equal⟩ :=
    evaluated
  simp only [Except.ok.injEq, Prod.mk.injEq, List.cons.injEq, and_true] at equal
  obtain ⟨rfl, ⟨unsaved, saved, more, size, count⟩, unit, space⟩ := equal
  obtain ⟨file, opened, unitEq⟩ := Option.map_eq_some_iff.mp unit
  obtain ⟨value, found, spaceEq⟩ := Option.bind_eq_some_iff.mp space
  obtain ⟨view, known, viewSpace⟩ := Option.map_eq_some_iff.mp spaceEq
  exact ⟨device, mgr, reply, first, second, file, value, view, holdsFlag_create created, newEq,
    unsaved, by cases newEq; rfl, createEq, putEq, saved, more, size, count, opened, unitEq, found,
    known, viewSpace⟩

theorem failures_reported_once : ∃ (origin : FaultyFile PageDisk)
    (mgr : SMDPageManagement (FaultyFile PageDisk)) (first second : Segments (FaultyFile PageDisk))
    (reply : Reply), HoldsFlag origin.file 96 ∧ origin.fails 4 = true ∧
    SMDPageManagement.new origin false 96 = .ok mgr ∧
    step (opened mgr) (.createPageFile .SEG_TYPE_DATA [1] 0) = .ok (reply, first) ∧
    first.step (.put ⟨.SEG_TYPE_DATA, [1]⟩ [4, 5]) = .ok (.offset 108, second) ∧
    Reported first (.put ⟨.SEG_TYPE_DATA, [1]⟩ [4, 5]) (.offset 108) second := by
  obtain ⟨device, mgr, reply, first, second, file, value, view, flag, newEq, unsaved, same,
    createEq, putEq, saved, more, size, count, files, unit, found, known, space⟩ := savedCalls
  let origin : FaultyFile PageDisk := ⟨device, fun number => number == 4, fun file _ _ => file, 0⟩
  have start : SMDPageManagement.new origin false 96 = .ok (mgr.onFaulty origin) := by
    cases newEq
    show Except.ok _ = Except.ok _
    rw [SMDPageManagement.onFaulty, origin.holding_self]
    rfl
  have deviceEq : (opened (mgr.onFaulty origin)).mgr.device = origin := by
    show origin.holding mgr.device = origin
    rw [same]
    exact origin.holding_self
  have firstSpared : (opened (mgr.onFaulty origin)).mgr.device.Spares first.mgr.device := by
    rw [deviceEq]
    intro number _ less
    have less : number < 0 + (first.mgr.device.saved.length - device.saved.length) := less
    exact beq_false_of_ne (by omega)
  have created := @step_spared _ _ (opened (mgr.onFaulty origin)) _ _ _ createEq firstSpared
  have unmoved : Run step (fun _ => Reliable) (opened (mgr.onFaulty origin)) []
    (opened (mgr.onFaulty origin)) := .start
  have run := unmoved.step
    ⟨⟨reply, first, createEq, firstSpared⟩, keepsApart_first newEq 0⟩ created
  rw [deviceEq] at created run
  have secondSpared : (origin.holding first.mgr.device).Spares second.mgr.device := by
    intro number _ less
    have less : number < 0 + (first.mgr.device.saved.length - device.saved.length) +
      (second.mgr.device.saved.length - first.mgr.device.saved.length) := less
    exact beq_false_of_ne (by omega)
  have put := @step_spared _ _ (first.onFaulty origin) _ _ _ putEq secondSpared
  have reliable : Reliable (first.onFaulty origin) (.put ⟨.SEG_TYPE_DATA, [1]⟩ [4, 5]) := by
    refine ⟨⟨_, second, putEq, secondSpared⟩, fun table => (by cases table), by decide, ?_⟩
    show first.mgr.m_nPageCnt + 2 + 2 < 0xFFFFFFFF
    rw [count]
    decide
  have places : first.Places ⟨.SEG_TYPE_DATA, [1]⟩ [4, 5] := by
    intro other otherValue otherView otherFile otherFound otherKnown
    rw [files] at otherFile
    cases otherFile
    rw [found] at otherFound
    cases otherFound
    rw [known] at otherKnown
    cases otherKnown
    rw [size, count, unit]
    exact ⟨by decide, SMDPageFile.findable_four (by decide) (by decide), by decide⟩
  exact ⟨origin, mgr.onFaulty origin, _, _, reply, flag, rfl, start, created, put,
    (failures_reported origin 96 _ flag (by decide) start).2 _ _ run _ _ _ _ reliable places put⟩

/-- The third write is that of the root page of the new segment: when it fails, the segment stays
registered and the page stays counted. The fourth one is that of the string: when it fails, its
offset is returned. -/
theorem failures_unreported :
    (∃ (origin : FaultyFile PageDisk) (mgr : SMDPageManagement (FaultyFile PageDisk))
        (reply : Reply) (after : Segments (FaultyFile PageDisk)),
      HoldsFlag origin.file 96 ∧ SMDPageManagement.new origin false 96 = .ok mgr ∧
      step (opened mgr) (.createPageFile .SEG_TYPE_DATA [1] 0) = .ok (reply, after) ∧
      ¬ Reported (opened mgr) (.createPageFile .SEG_TYPE_DATA [1] 0) reply after) ∧
    ∃ (origin : FaultyFile PageDisk) (mgr : SMDPageManagement (FaultyFile PageDisk))
        (reply offset : Reply) (first second : Segments (FaultyFile PageDisk)),
      HoldsFlag origin.file 96 ∧ SMDPageManagement.new origin false 96 = .ok mgr ∧
      step (opened mgr) (.createPageFile .SEG_TYPE_DATA [1] 0) = .ok (reply, first) ∧
      first.step (.put ⟨.SEG_TYPE_DATA, [1]⟩ [4, 5]) = .ok (offset, second) ∧
      ¬ Reported first (.put ⟨.SEG_TYPE_DATA, [1]⟩ [4, 5]) offset second := by
  constructor
  · have evaluated : (PageDisk.create 96 >>= fun disk =>
        SMDPageManagement.new
          (⟨disk, fun number => number == 2, fun file _ _ => file, 0⟩ : FaultyFile PageDisk)
          false 96 >>= fun mgr =>
        step (opened mgr) (.createPageFile .SEG_TYPE_DATA [1] 0) >>= fun result =>
        .ok (result.1, mgr.m_nPageCnt, result.2.mgr.m_nPageCnt)) =
        (Except.ok (.created false, 0, 1) : Except Fault (Reply × Nat × Nat)) := by
      decide +kernel
    simp only [bind_eq_ok] at evaluated
    obtain ⟨device, made, mgr, newEq, ⟨reply, after⟩, createEq, equal⟩ := evaluated
    simp only [Except.ok.injEq, Prod.mk.injEq] at equal
    obtain ⟨rfl, before, behind⟩ := equal
    refine ⟨_, mgr, _, after, holdsFlag_create made, newEq, createEq, fun reported => ?_⟩
    have same : after.mgr.m_nPageCnt = mgr.m_nPageCnt := (reported rfl).1
    rw [before, behind] at same
    cases same
  · have evaluated : (PageDisk.create 96 >>= fun disk =>
        SMDPageManagement.new
          (⟨disk, fun number => number == 3, fun file _ _ => file, 0⟩ : FaultyFile PageDisk)
          false 96 >>= fun mgr =>
        step (opened mgr) (.createPageFile .SEG_TYPE_DATA [1] 0) >>= fun first =>
        step first.2 (.put ⟨.SEG_TYPE_DATA, [1]⟩ [4, 5]) >>= fun second =>
        .ok (second.1, first.2.mgr.device.writes, second.2.mgr.device.writes,
          first.2.mgr.device.fails 3)) =
        (Except.ok (.offset 108, 3, 4, true) : Except Fault (Reply × Nat × Nat × Bool)) := by
      decide +kernel
    simp only [bind_eq_ok] at evaluated
    obtain ⟨device, made, mgr, newEq, ⟨reply, first⟩, createEq, ⟨offset, second⟩, putEq, equal⟩ :=
      evaluated
    simp only [Except.ok.injEq, Prod.mk.injEq] at equal
    obtain ⟨rfl, before, behind, fails⟩ := equal
    refine ⟨_, mgr, reply, _, first, second, holdsFlag_create made, newEq, createEq, putEq,
      fun reported => ?_⟩
    have saved := (reported (by decide)).1 3 (Nat.le_of_eq before) (by rw [behind]; decide)
    rw [fails] at saved
    cases saved

end Segments

end LevelDBLib.KvDB
