/-
This file proves that segments are logs, in every run of appends, overwrites and
reads: `get` at an offset returns what the history says stands there.

Appending is safe on pages of any size, at every fill level of the last page where the
minimal unit of the segment fits behind the string's place; what can go wrong is the
page table, when it outgrows its page while a segment is created. Overwriting needs more: a string whose data starts a page, and a string
with a piece that the code's 16-bit arithmetic puts in the wrong place, are
written elsewhere than where they are read.
-/

import LevelDBLib.KvDB.OwnershipRuns
import LevelDBLib.KvDB.Records

namespace LevelDBLib.KvDB

open Buffers Tapes Runs Logs

variable {Device : Type} [CoherentDevice Device]

/-! ### The invariant -/

/-- The pages up to the counter end below `2 ^ 31`. -/
def SMDPageManagement.FileSmall (mgr : SMDPageManagement Device) : Prop :=
  (mgr.m_nPageCnt + 1) * mgr.m_nPageSize ≤ 2147483648

instance (mgr : SMDPageManagement Device) : Decidable mgr.FileSmall :=
  inferInstanceAs (Decidable (_ ≤ _))

/-- The log of a segment with the cells its strings stand in. -/
def recordsOf (history : History Request Reply) (pageSize : Nat) (chain : List Nat)
    (key : PageKey_t) (offset : Int) : Option (Nat × Bytes) :=
  (contentsOf history key offset).map fun bytes =>
    (tapePos pageSize chain offset.toNat, SMDPageFile.lengthHeader bytes.length ++ bytes)

theorem recordsOf_congr {history later : History Request Reply} {pageSize : Nat} {chain : List Nat}
    {key : PageKey_t} (same : contentsOf later key = contentsOf history key) :
    recordsOf later pageSize chain key = recordsOf history pageSize chain key := by
  funext offset
  rw [recordsOf, recordsOf, same]

/-- The log of a segment behind an append that made its chain longer. -/
theorem recordsOf_put (history : History Request Reply) (pageSize : Nat) (chain fresh : List Nat)
    (key : PageKey_t) (bytes : Bytes) {place : Nat} (placed : ∀ offset held,
      contentsOf history key offset = some held → offset.toNat / pageSize ∈ chain) :
    recordsOf ((.put key bytes, .offset place) :: history) pageSize (chain ++ fresh) key =
      Function.update (recordsOf history pageSize chain key) (place : Int)
        (some (tapePos pageSize (chain ++ fresh) place,
          SMDPageFile.lengthHeader bytes.length ++ bytes)) := by
  funext offset
  rw [recordsOf, contentsOf_put]
  by_cases here : offset = place
  · rw [if_pos here, here, Function.update_self, Option.map_some, Int.toNat_natCast]
  · rw [if_neg here, Function.update_of_ne here, recordsOf]
    cases equal : contentsOf history key offset with
    | none => rfl
    | some held =>
      rw [Option.map_some, Option.map_some, tapePos_append _ _ _ _ (placed offset held equal)]

/-- The log of a segment behind an overwrite. -/
theorem recordsOf_putAt (history : History Request Reply) (pageSize : Nat) (chain : List Nat)
    (key : PageKey_t) (bytes : Bytes) (place offset : Int) :
    recordsOf ((.putAt key bytes place, .offset offset) :: history) pageSize chain key =
      Function.update (recordsOf history pageSize chain key) offset
        (some (tapePos pageSize chain offset.toNat,
          SMDPageFile.lengthHeader bytes.length ++ bytes)) := by
  funext other
  rw [recordsOf, contentsOf_putAt]
  by_cases here : other = offset
  · rw [if_pos here, here, Function.update_self, Option.map_some]
  · rw [if_neg here, Function.update_of_ne here, recordsOf]

namespace Segments

/-- The state holds the logs of its segments. -/
structure Recorded (history : History Request Reply) (state : Segments Device) (pages : PageMap)
    (chains : PageKey_t → List Nat) : Prop where
  sound : Sound state pages chains
  noTable : state.files SMDPageManagement.pageTableKey = none
  units : ∀ key file offset bytes, state.files key = some file →
    contentsOf history key offset = some bytes →
    offset.toNat % state.mgr.m_nPageSize + file.minUint ≤ state.mgr.m_nPageSize
  table : state.mgr.m_PageInfo.find SMDPageManagement.pageTableKey = some ⟨0, 0, 0, 0⟩
  room : ∀ key, (state.files key).isSome → 28 < state.mgr.m_nPageSize
  placed : ∀ key offset bytes, contentsOf history key offset = some bytes →
    (state.files key).isSome ∧ bytes.length < 2147483648 ∧
      OnPage state.mgr.m_nPageSize (chains key) offset
  kept : ∀ key, (state.files key).isSome → Kept (chainCells pages (chains key))
    (recordsOf history state.mgr.m_nPageSize (chains key) key)

variable {history : History Request Reply} {state : Segments Device} {pages : PageMap}
  {chains : PageKey_t → List Nat}

theorem Recorded.notTable (recorded : Recorded history state pages chains) {key : PageKey_t}
    {file : SMDPageFile} (opened : state.files key = some file) :
    key ≠ SMDPageManagement.pageTableKey := fun same => by
  rw [same, recorded.noTable] at opened
  cases opened

/-- A string of the log, on the chain of its segment. -/
theorem Recorded.split (recorded : Recorded history state pages chains) {key : PageKey_t}
    {offset : Int} {bytes : Bytes} (known : contentsOf history key offset = some bytes) :
    ∃ front pageno pos rest, chains key = front ++ pageno :: rest ∧
      offset = (pageno * state.mgr.m_nPageSize + bodyOffset pageno + pos : Nat) ∧
      bodyOffset pageno + pos + 4 ≤ state.mgr.m_nPageSize ∧
      Stands pages (pageno :: rest) pos bytes ∧
      tapePos state.mgr.m_nPageSize (chains key) offset.toNat =
        (chainCells pages front).length + pos := by
  obtain ⟨isOpen, _, onPage⟩ := recorded.placed key offset bytes known
  obtain ⟨file, opened⟩ := Option.isSome_iff_exists.mp isOpen
  obtain ⟨value, found⟩ := Option.isSome_iff_exists.mp (recorded.sound.named key file opened).2
  have linked := (recorded.sound.allocated.chainOf key value found).linked
  refine onPage.stands recorded.sound.allocated.stores linked ?_
  exact (recorded.kept key isOpen).stands offset _ _ (by rw [recordsOf, known, Option.map_some])

/-- The log of another segment behind a call that grew the chain of one segment. -/
theorem Recorded.other (recorded : Recorded history state pages chains) {key other : PageKey_t}
    {after : SMDPageManagement Device} {later : PageMap} {fresh : List Nat}
    (known : (state.mgr.m_PageInfo.find key).isSome) (isOpen : (state.files other).isSome)
    (different : other ≠ key)
    (grown : Grown state.mgr after pages later (chains key) fresh) :
    Kept (chainCells later (chains other))
      (recordsOf history state.mgr.m_nPageSize (chains other) other) := by
  obtain ⟨file, opened⟩ := Option.isSome_iff_exists.mp isOpen
  rw [chainCells_congr fun pageno member => grown.others pageno
    (recorded.sound.allocated.outside known (recorded.sound.named other file opened).2 different grown
      pageno member)]
  exact recorded.kept other isOpen

theorem new_recorded {device : Device} {pageSize : Nat} {mgr : SMDPageManagement Device}
    (flag : HoldsFlag device pageSize) (sizeLt : pageSize < 65536)
    (newEq : SMDPageManagement.new device false pageSize = .ok mgr) :
    Recorded [] (opened mgr) (newPages pageSize) fun _ => [0] :=
  ⟨new_sound flag sizeLt newEq, rfl, (fun _ _ _ _ equal => by cases equal), by cases newEq; rfl,
    (fun _ isOpen => by cases isOpen), (fun _ _ _ equal => by cases equal),
    (fun _ isOpen => by cases isOpen)⟩

/-! ### Appending -/

/-- A string of `count` bytes put to the segment starts where `get` finds it: the minimal unit of the
segment fits behind the place in its page. -/
def Findable (state : Segments Device) (key : PageKey_t) (count : Nat) : Prop :=
  ∀ file ∈ state.files key, ∀ value ∈ state.mgr.m_PageInfo.find key,
    ∀ view ∈ filePages state.mgr value.nLastPageNo,
      SMDPageFile.Findable file.minUint count state.mgr.m_nPageSize view

instance (state : Segments Device) (key : PageKey_t) (count : Nat) :
    Decidable (state.Findable key count) :=
  inferInstanceAs (Decidable (∀ file ∈ state.files key, ∀ value ∈ state.mgr.m_PageInfo.find key,
    ∀ view ∈ filePages state.mgr value.nLastPageNo,
      SMDPageFile.Findable file.minUint count state.mgr.m_nPageSize view))

/-- The segments have the minimal unit that holds a length header. -/
def Plain (state : Segments Device) : Prop :=
  ∀ key, ∀ file ∈ state.files key, file.minUint = 4

theorem Plain.findable (plain : state.Plain) (recorded : Recorded history state pages chains)
    (key : PageKey_t) {count : Nat} (positive : 0 < count) : state.Findable key count := by
  intro file opened value _ view _
  rw [plain key file opened]
  exact SMDPageFile.findable_four positive
    (recorded.room key (by rw [Option.mem_def.mp opened]; rfl))

omit [CoherentDevice Device] in
theorem Plain.after (plain : state.Plain) {key : PageKey_t} {next : SMDPageFile}
    (unit : next.minUint = 4) (mgr : SMDPageManagement Device) : (state.after key next mgr).Plain := by
  intro other file opened
  by_cases same : other = key
  · rw [same, after_files_self] at opened
    cases opened
    exact unit
  · rw [after_files_other _ _ _ _ _ same] at opened
    exact plain other file opened

/-- What an append leaves of a segment: its chain goes on over the pages of the list `fresh`, up to
`page`, and the tape of the chain over the cells of the string. -/
structure Lengthened (minUint : Nat) (state after : Segments Device) (pages later : PageMap)
    (chain fresh : List Nat) (last : Nat) (view : PageView) (bytes : Bytes) (page : SMDPage) :
    Prop where
  splitEq : ∃ front, chain = front ++ [last]
  known : pages last = some view
  grown : Grown state.mgr after.mgr pages later chain fresh
  cells : chainCells later (last :: fresh) = view.written.map some ++
    SMDPageFile.putCells minUint state.mgr.m_nPageSize view bytes ++ free page.view.space
  others : ∀ pageno, pageno ∉ last :: fresh → later pageno = pages pageno
  ended : (last :: fresh).getLast? = some page.pageno
  used : 0 < page.view.used
  seen : later page.pageno = some page.view

/-- No string of the log starts behind the written part of its tape. -/
theorem Recorded.free (recorded : Recorded history state pages chains) {key : PageKey_t}
    (isOpen : (state.files key).isSome) {written : Tape UInt8} {count place : Nat} (fresh : List Nat)
    (tape : chainCells pages (chains key) = written ++ Tapes.free count)
    (behind : written.length ≤ tapePos state.mgr.m_nPageSize (chains key ++ fresh) place) :
    contentsOf history key place = none := by
  cases already : contentsOf history key place with
  | none => rfl
  | some held =>
    have logged : recordsOf history state.mgr.m_nPageSize (chains key) key (place : Int) =
        some (tapePos state.mgr.m_nPageSize (chains key) (place : Int).toNat,
          SMDPageFile.lengthHeader held.length ++ held) := by
      rw [recordsOf, already, Option.map_some]
    have kept := recorded.kept key isOpen
    rw [tape] at kept
    have within := kept.within logged
    rw [Int.toNat_natCast, List.length_append, SMDPageFile.length_lengthHeader] at within
    have onChain := (recorded.placed key place held already).2.2.2.1
    rw [Int.toNat_natCast] at onChain
    rw [tapePos_append _ _ _ _ onChain] at behind
    omega

/-- The log behind an append that left its string in free cells at the end of the chain. -/
theorem Recorded.append (recorded : Recorded history state pages chains) {key : PageKey_t}
    {file : SMDPageFile} (opened : state.files key = some file) {bytes : Bytes} (some' : bytes ≠ [])
    (short : bytes.length + 4 < 2147483648) {page : SMDPage} {mgr : SMDPageManagement Device}
    {later : PageMap} {fresh : List Nat} {written rest : Tape UInt8} {count pageno pos : Nat}
    (next : Sound (state.after key { file with page := some page } mgr) later
      (Function.update chains key (chains key ++ fresh)))
    (grown : Grown state.mgr mgr pages later (chains key) fresh)
    (table : mgr.m_PageInfo.find SMDPageManagement.pageTableKey = some ⟨0, 0, 0, 0⟩)
    (before : chainCells pages (chains key) = written ++ Tapes.free count)
    (behind : chainCells later (chains key ++ fresh) = written ++ rest)
    (standsAt : StandsAt state.mgr.m_nPageSize file.minUint later (chains key ++ fresh)
      written.length bytes pageno pos) :
    Recorded ((.put key bytes,
        .offset (pageno * state.mgr.m_nPageSize + bodyOffset pageno + pos : Nat)) :: history)
      (state.after key { file with page := some page } mgr) later
      (Function.update chains key (chains key ++ fresh)) := by
  obtain ⟨place, placeEq⟩ : ∃ place, place =
      pageno * state.mgr.m_nPageSize + bodyOffset pageno + pos := ⟨_, rfl⟩
  have notTable := recorded.notTable opened
  have isOpen : (state.files key).isSome := by rw [opened]; rfl
  have placeUnit : place % state.mgr.m_nPageSize + file.minUint ≤ state.mgr.m_nPageSize := by
    have inside := standsAt.room
    rw [placeEq, place_mod (by omega)]
    omega
  obtain ⟨_, onPage, startLe, reads⟩ := standsAt
  rw [← placeEq] at onPage startLe reads ⊢
  refine ⟨next, ?_, ?_, table, ?_, ?_, ?_⟩
  case refine_1 =>
    rw [after_files_other _ _ _ _ _ notTable.symm]
    exact recorded.noTable
  case refine_2 =>
    intro other held offset held' equal known
    rw [after_mgr, grown.sizeEq]
    by_cases same : other = key
    · rw [same, after_files_self] at equal
      cases equal
      rw [same, contentsOf_put] at known
      by_cases here : offset = place
      · rw [here]
        exact placeUnit
      · rw [if_neg here] at known
        exact recorded.units key file offset held' opened known
    · rw [after_files_other _ _ _ _ _ same] at equal
      rw [contentsOf_other _ _ _ key other offset rfl same] at known
      exact recorded.units other held offset held' equal known
  case refine_3 =>
    intro _ _
    rw [after_mgr, grown.sizeEq]
    exact recorded.room key isOpen
  case refine_4 =>
    intro other offset held equal
    rw [after_mgr, grown.sizeEq]
    by_cases same : other = key
    · rw [same, contentsOf_put] at equal
      rw [same, after_files_self, Function.update_self]
      by_cases here : offset = place
      · rw [if_pos here] at equal
        cases equal
        rw [here]
        exact ⟨rfl, by omega, onPage⟩
      · rw [if_neg here] at equal
        obtain ⟨_, small, old⟩ := recorded.placed key offset held equal
        exact ⟨rfl, small, old.append fresh⟩
    · rw [contentsOf_other _ _ _ key other offset rfl same] at equal
      rw [after_files_other _ _ _ _ _ same, Function.update_of_ne same]
      exact recorded.placed other offset held equal
  case refine_5 =>
    intro other isOpen'
    rw [after_mgr, grown.sizeEq]
    by_cases same : other = key
    · rw [same, Function.update_self, recordsOf_put _ _ _ _ _ _ fun offset held known =>
        (recorded.placed key offset held known).2.2.2.1, behind]
      rw [behind] at reads
      have kept := recorded.kept key isOpen
      rw [before] at kept
      exact kept.add _ _ _ _ (List.append_ne_nil_of_right_ne_nil _ some') reads startLe
    · rw [after_files_other _ _ _ _ _ same] at isOpen'
      rw [Function.update_of_ne same, recordsOf_congr (funext fun offset =>
        contentsOf_other _ _ _ key other offset rfl same)]
      exact recorded.other (recorded.sound.named key file opened).2 isOpen' same grown

/-- An appended string joins the log of its segment, under an offset that was free. -/
theorem Recorded.put (recorded : Recorded history state pages chains) {key : PageKey_t}
    {file : SMDPageFile} (opened : state.files key = some file) (bytes : Bytes)
    (some' : bytes ≠ []) (short : bytes.length + 4 < 2147483648)
    (findable : state.Findable key bytes.length) (fileSmall : state.mgr.FileSmall) {reply : Reply}
    {after : Segments Device} (returned : state.step (.put key bytes) = .ok (reply, after))
    (afterSmall : after.mgr.FileSmall) :
    ∃ offset page later fresh last view, reply = .offset offset ∧
      contentsOf history key offset = none ∧
      after = state.after key { file with page := some page } after.mgr ∧
      Recorded ((.put key bytes, reply) :: history) after later
        (Function.update chains key (chains key ++ fresh)) ∧
      Lengthened file.minUint state after pages later (chains key) fresh last view bytes page := by
  have notTable := recorded.notTable opened
  have isOpen : (state.files key).isSome := by rw [opened]; rfl
  have room := recorded.room key isOpen
  obtain ⟨value, found, serves, chainOf⟩ := recorded.sound.opens opened fun same =>
    absurd same notTable
  obtain ⟨view, known, last⟩ := chainOf.last_view
  obtain ⟨front, splitEq⟩ := chainOf.split
  have findable := findable file opened value found view (serves.stores.filePages _ _ known)
  have unit : bytes.length + 4 ≤ view.space ∨ file.minUint + 12 ≤ state.mgr.m_nPageSize := by
    obtain ⟨bodyEq, space⟩ := (serves.stores _ _ known).length_body
    have offset := bodyOffset_eq value.nLastPageNo
    exact findable.room (by omega)
  have count : state.mgr.m_nPageCnt + 2 + bytes.length < 0xFFFFFFFF := by
    have product := Nat.mul_le_mul_left (state.mgr.m_nPageCnt + 1) (Nat.le_of_lt room)
    have bound := Nat.le_trans product fileSmall
    omega
  obtain ⟨page, mgr, later, fresh, putEq, grown, next, cells, others, _, ended, used⟩ :=
    recorded.sound.put opened (fun same => absurd same notTable) bytes some' short count found known
      unit
  rw [putEq] at returned
  cases returned
  have laterStores := next.allocated.stores
  rw [after_mgr, grown.sizeEq] at laterStores
  obtain ⟨_, _, _, findEq⟩ := recorded.sound.allocated.grow found grown laterStores
  obtain ⟨written, rest, before, behind, pageno, pos, addressEq, pageLe, standsAt⟩ :=
    put_place chainOf grown room serves.stores laterStores splitEq known findable others cells
  rw [after_mgr, SMDPageManagement.FileSmall, grown.sizeEq] at afterSmall
  rw [addressEq, int_of_lt _ (standsAt.place_lt pageLe afterSmall)]
  have seen : later page.pageno = some page.view :=
    (next.held key _ page (after_files_self ..) rfl).2.2 notTable
  have table : mgr.m_PageInfo.find SMDPageManagement.pageTableKey = some ⟨0, 0, 0, 0⟩ := by
    rw [findEq, if_neg notTable.symm]
    exact recorded.table
  exact ⟨_, page, later, fresh, value.nLastPageNo, view, rfl,
    recorded.free isOpen fresh before standsAt.behind, rfl,
    recorded.append opened some' short next grown table before behind standsAt,
    ⟨front, splitEq⟩, known, grown, cells, others, ended, used, seen⟩

/-! ### Reading -/

/-- A segment object that was turned to another page. -/
theorem Recorded.turned (recorded : Recorded history state pages chains) {key : PageKey_t}
    {file turned : SMDPageFile} (opened : state.files key = some file)
    {device : Device}
    (next : Sound (state.after key turned { state.mgr with device := device }) pages chains)
    (unit : turned.minUint = file.minUint) :
    Recorded history (state.after key turned { state.mgr with device := device }) pages chains := by
  have isOpen : (state.files key).isSome := by rw [opened]; rfl
  have filesSome : ∀ other, ((state.after key turned
      { state.mgr with device := device }).files other).isSome = (state.files other).isSome := by
    intro other
    by_cases same : other = key
    · rw [same, after_files_self, isOpen]
      rfl
    · rw [after_files_other _ _ _ _ _ same]
  refine ⟨next, ?_, ?_, recorded.table, ?_, ?_, ?_⟩
  · rw [after_files_other _ _ _ _ _ (recorded.notTable opened).symm]
    exact recorded.noTable
  · intro other held offset bytes equal written
    by_cases same : other = key
    · rw [same, after_files_self] at equal
      cases equal
      rw [same] at written
      rw [unit]
      exact recorded.units key file offset bytes opened written
    · rw [after_files_other _ _ _ _ _ same] at equal
      exact recorded.units other held offset bytes equal written
  · exact fun other now => recorded.room other (by rwa [filesSome] at now)
  · intro other place held equal
    rw [filesSome]
    exact recorded.placed other place held equal
  · exact fun other now => recorded.kept other (by rwa [filesSome] at now)

/-- Turning a segment object to the last page of its segment. -/
theorem Recorded.toLast (recorded : Recorded history state pages chains) {key : PageKey_t}
    {file : SMDPageFile} (opened : state.files key = some file) :
    ∃ page device, file.setToLastPageFile state.mgr =
        .ok (true, { file with page := some page }, { state.mgr with device := device }) ∧
      Recorded history (state.after key { file with page := some page }
        { state.mgr with device := device }) pages chains := by
  have notTable := recorded.notTable opened
  obtain ⟨value, found, serves, chainOf⟩ := recorded.sound.opens opened fun same =>
    absurd same notTable
  obtain ⟨view, known, _⟩ := chainOf.last_view
  have countLt := serves.countLt
  have bound := chainOf.allocated _ chainOf.last_mem
  obtain ⟨page, device, loaded, number, _, pending, stores, same⟩ :=
    state.mgr.getPageByPageNo_spec pages file.page value.nLastPageNo view serves.sizeLt serves.room
      serves.stores serves.held known (by omega)
  have lastEq : uint (state.mgr.getLastPageNo file.key) = value.nLastPageNo := by
    rw [SMDPageManagement.getLastPageNo, serves.found]
    simp only
    rw [uint_int, uint_of_lt _ (by omega)]
  refine ⟨page, device, ?_, recorded.turned opened (recorded.sound.load opened pending.formed
    (by rw [number]; exact chainOf.last_mem) pending.seen stores same) rfl⟩
  rw [SMDPageFile.setToLastPageFile, lastEq, loaded]
  rfl

/-- A call that changes no log. -/
theorem Recorded.quiet (recorded : Recorded history state pages chains)
    {later : History Request Reply} (same : contentsOf later = contentsOf history) :
    Recorded later state pages chains := by
  refine ⟨recorded.sound, recorded.noTable, ?_, recorded.table, recorded.room, ?_, ?_⟩
  · rw [same]
    exact recorded.units
  · rw [same]
    exact recorded.placed
  · intro other isOpen
    rw [recordsOf_congr (congrFun same other)]
    exact recorded.kept other isOpen

/-- Reading at an offset of the log returns the string, and changes nothing that was written. -/
theorem Recorded.get (recorded : Recorded history state pages chains) {key : PageKey_t}
    {offset : Int} {bytes : Bytes} (fileSmall : state.mgr.FileSmall)
    (known : contentsOf history key offset = some bytes) :
    ∃ after, state.step (.get key offset) = .ok (.bytes true bytes, after) ∧
      (state.Plain → after.Plain) ∧
      Recorded ((.get key offset, .bytes true bytes) :: history) after pages chains := by
  obtain ⟨isOpen, small, onPage⟩ := recorded.placed key offset bytes known
  obtain ⟨file, opened⟩ := Option.isSome_iff_exists.mp isOpen
  have notTable := recorded.notTable opened
  obtain ⟨front, pageno, pos, rest, split, offsetEq, inside, stands, _⟩ := recorded.split known
  have unit := recorded.units key file offset bytes opened known
  rw [offsetEq, Int.toNat_natCast, place_mod (by omega)] at unit
  obtain ⟨page, device, getEq, next, _⟩ := recorded.sound.get opened
    (fun same => absurd same notTable) (recorded.room key isOpen) fileSmall split stands
    inside unit small
  rw [← offsetEq] at getEq
  exact ⟨_, getEq, fun plain => @Plain.after _ _ plain key { file with page := some page }
      (plain key file opened) _,
    (recorded.turned opened next rfl).quiet
    (contentsOf_quiet (.get key offset) (.bytes true bytes) history fun _ equal => by cases equal)⟩

/-! ### A new segment -/

/-- A new segment starts with an empty log. -/
theorem Recorded.create (recorded : Recorded history state pages chains) {key : PageKey_t}
    (minUnit : Nat) (fresh : state.mgr.m_PageInfo.find key = none)
    (fits : (state.mgr.enrolled key (max minUnit 4)).TableFits) (fileSmall : state.mgr.FileSmall)
    {reply : Reply} {after : Segments Device}
    (returned : state.step (.createPageFile key.segType key.sTableName minUnit) =
      .ok (reply, after)) :
    ∃ later, Recorded ((.createPageFile key.segType key.sTableName minUnit, reply) :: history) after
        later (Function.update chains key [state.mgr.m_nPageCnt + 1]) ∧
      after = state.after key ⟨key.segType, key.sTableName, max minUnit 4, none⟩ after.mgr ∧
      after.mgr.m_nPageSize = state.mgr.m_nPageSize ∧
      later (state.mgr.m_nPageCnt + 1) = some (PageView.blank (state.mgr.m_nPageSize - 12)) ∧
      ∀ other, (state.files other).isSome → ∀ pageno ∈ chains other,
        later pageno = pages pageno := by
  have notTable : SMDPageManagement.pageTableKey ≠ key := fun same => by
    rw [← same, recorded.table] at fresh
    cases fresh
  have findEq := PageInfo.find_insert key
    ⟨0, max minUnit 4, state.mgr.m_nPageCnt + 1, state.mgr.m_nPageCnt + 1⟩ fresh
  have enrolledTable : (state.mgr.enrolled key (max minUnit 4)).m_PageInfo.find
      SMDPageManagement.pageTableKey = some ⟨0, 0, 0, 0⟩ := by
    show (state.mgr.m_PageInfo.insert key _).find SMDPageManagement.pageTableKey = _
    rw [findEq, if_neg notTable, recorded.table]
  have small := fits _ enrolledTable
  rw [show (state.mgr.enrolled key (max minUnit 4)).m_nPageSize = state.mgr.m_nPageSize from rfl]
    at small
  have offsetEq : bodyOffset 0 = 28 := bodyOffset_zero
  have sizeLt := recorded.sound.allocated.sizeLt
  have room : 28 < state.mgr.m_nPageSize := by
    simp only [offsetEq] at small
    omega
  have count : state.mgr.m_nPageCnt + 3 +
      (state.mgr.enrolled key (max minUnit 4)).tableBytes.length < 0xFFFFFFFF := by
    have product := Nat.mul_le_mul_left (state.mgr.m_nPageCnt + 1) (Nat.le_of_lt room)
    have bound := Nat.le_trans product fileSmall
    simp only [offsetEq] at small
    omega
  obtain ⟨device, later, createEq, next, others, blank, _⟩ := recorded.sound.create fresh minUnit
    recorded.table small count
  rw [createEq] at returned
  cases returned
  have noFile : ∀ {other : PageKey_t}, (state.files other).isSome → other ≠ key := by
    intro other isOpen same
    obtain ⟨file, opened⟩ := Option.isSome_iff_exists.mp isOpen
    have known := (recorded.sound.named other file opened).2
    rw [same, fresh] at known
    cases known
  have same := contentsOf_quiet (.createPageFile key.segType key.sTableName minUnit)
    (.created true) history fun _ equal => by cases equal
  have unchanged : ∀ other, (state.files other).isSome → ∀ pageno ∈ chains other,
      later pageno = pages pageno := by
    intro other isOpen pageno member
    obtain ⟨file, opened⟩ := Option.isSome_iff_exists.mp isOpen
    have known := (recorded.sound.named other file opened).2
    obtain ⟨value, found⟩ := Option.isSome_iff_exists.mp known
    have below := (recorded.sound.allocated.chainOf other value found).allocated pageno member
    refine others pageno (fun inTable => ?_) (by omega)
    exact recorded.notTable opened (recorded.sound.allocated.apart other _ known
      (by rw [recorded.table]; rfl) pageno member inTable)
  refine ⟨later, ⟨next, ?_, ?_, enrolledTable, fun _ _ => room, ?_, ?_⟩, rfl, rfl, blank, unchanged⟩
  · rw [after_files_other _ _ _ _ _ notTable]
    exact recorded.noTable
  · intro other held offset bytes equal written
    rw [same] at written
    have different := noFile (recorded.placed other offset bytes written).1
    rw [after_files_other _ _ _ _ _ different] at equal
    exact recorded.units other held offset bytes equal written
  · intro other offset held equal
    rw [same] at equal
    obtain ⟨isOpen, rest⟩ := recorded.placed other offset held equal
    have different := noFile isOpen
    rw [after_files_other _ _ _ _ _ different, Function.update_of_ne different]
    exact ⟨isOpen, rest⟩
  · intro other isOpen
    by_cases here : other = key
    · refine kept_nothing _ fun offset => ?_
      rw [recordsOf, same]
      cases equal : contentsOf history other offset with
      | none => rfl
      | some held => exact absurd here (noFile (recorded.placed other offset held equal).1)
    · rw [after_files_other _ _ _ _ _ here] at isOpen
      rw [Function.update_of_ne here, chainCells_congr (unchanged other isOpen)]
      rw [recordsOf_congr (congrFun same other)]
      exact recorded.kept other isOpen

/-! ### Overwriting -/

/-- A string of `count` bytes at the offset does not start its data on a new page, and every piece
of it is written where it is read. -/
def Aligned (state : Segments Device) (key : PageKey_t) (offset : Int) (count : Nat) : Prop :=
  (offset.toNat + 4) % state.mgr.m_nPageSize ≠ 0 ∧
    SMDPageFile.Aimed state.mgr.m_nPageSize offset.toNat ∧
    SMDPageFile.Aimed state.mgr.m_nPageSize (offset.toNat + 4) ∧
    ∀ value front rest, state.mgr.m_PageInfo.find key = some value →
      OwnedChain state.mgr value (front ++ offset.toNat / state.mgr.m_nPageSize :: rest) →
      ∀ pageno ∈ SMDPageFile.reached state.mgr.m_nPageSize rest
          (count - (state.mgr.m_nPageSize - (offset.toNat % state.mgr.m_nPageSize + 4))),
        SMDPageFile.Aimed state.mgr.m_nPageSize (pageno * state.mgr.m_nPageSize + bodyOffset pageno)

/-- `put` at the offset of a string of the log splices the new string into the tape of the chain. -/
theorem Recorded.putAt (recorded : Recorded history state pages chains) {key : PageKey_t}
    {file : SMDPageFile} (opened : state.files key = some file) {offset : Int} {old bytes : Bytes}
    (fileSmall : state.mgr.FileSmall) (known : contentsOf history key offset = some old)
    (some' : bytes ≠ []) (lengths : bytes.length = old.length)
    (aligned : state.Aligned key offset bytes.length) :
    ∃ page device later,
      state.step (.putAt key bytes offset) = .ok (.offset offset,
        state.after key { file with page := some page } { state.mgr with device := device }) ∧
      Sound (state.after key { file with page := some page } { state.mgr with device := device })
        later chains ∧
      Grown state.mgr { state.mgr with device := device } pages later (chains key) [] ∧
      chainCells later (chains key) = splice (chainCells pages (chains key))
        (tapePos state.mgr.m_nPageSize (chains key) offset.toNat)
        ((SMDPageFile.lengthHeader bytes.length ++ bytes).map some) := by
  obtain ⟨isOpen, small, onPage⟩ := recorded.placed key offset old known
  obtain ⟨value, found, serves, chainOf⟩ := recorded.sound.opens opened fun same =>
    absurd same (recorded.notTable opened)
  obtain ⟨front, pageno, pos, rest, split, offsetEq, inside, stands, posEq⟩ := recorded.split known
  have placeEq : offset.toNat = pageno * state.mgr.m_nPageSize + bodyOffset pageno + pos := by
    rw [offsetEq, Int.toNat_natCast]
  obtain ⟨notBorder, headAimed, dataAimed, aimed⟩ := aligned
  have header : bodyOffset pageno + pos + 4 < state.mgr.m_nPageSize := by
    refine Nat.lt_of_le_of_ne inside fun border => notBorder ?_
    rw [placeEq, Nat.add_assoc, Nat.add_assoc, ← Nat.add_assoc (bodyOffset pageno), border,
      ← Nat.succ_mul, Nat.mul_mod_left]
  have quotient : offset.toNat / state.mgr.m_nPageSize = pageno := by
    rw [placeEq, place_div (by omega)]
  have owned := recorded.sound.allocated.pageOwnership.owned key value found
  rw [split, ← quotient] at owned
  have laterAimed := aimed value front rest found owned
  rw [placeEq, place_mod (by omega)] at laterAimed
  have linked := chainOf.linked
  have distinct := chainOf.distinct
  have allocated := chainOf.allocated
  rw [split] at linked distinct allocated
  have apart := List.nodup_append.mp distinct
  obtain ⟨last, device, later, putEq, member, held, stores, rewritten, cells, saves⟩ :=
    file.putAt_spec state.mgr pages value pageno pos offset.toNat rest bytes old serves
      (recorded.room key isOpen) fileSmall (linked.suffix (List.cons_ne_nil _ _)) apart.2.1
      (fun number inTail => allocated number (List.mem_append_right _ inTail)) stands lengths.symm
      some' (by rw [lengths]; exact small) placeEq header headAimed dataAimed laterAimed
  rw [Int.toNat_of_nonneg onPage.1] at putEq
  have inChain : ∀ number ∈ pageno :: rest, number ∈ chains key := fun number inTail => by
    rw [split]
    exact List.mem_append_right _ inTail
  have wholeLinked := rewritten.linked linked
  rw [← split] at wholeLinked
  have grown : Grown state.mgr { state.mgr with device := device } pages later (chains key) [] :=
    grown_of_rewrite recorded.sound.allocated.countLt
      (fun number outside => rewritten.others number fun inTail => outside (inChain number inTail))
      wholeLinked (saves.mono inChain)
  have next := recorded.sound.grow found grown stores
    (state.after key { file with page := some last } { state.mgr with device := device }).files
    (fun other different => state.after_files_other _ _ _ _ different) (by
      intro now equal
      rw [after_files_self] at equal
      cases equal
      refine ⟨(recorded.sound.named key file opened).1, ?_⟩
      rintro _ equal
      cases equal
      refine ⟨(held last rfl).1, ?_, fun _ => (held last rfl).2⟩
      rw [List.append_nil]
      exact inChain _ member)
  rw [List.append_nil, Function.update_eq_self] at next
  have frontCells : chainCells later front = chainCells pages front :=
    chainCells_congr fun number inFront => rewritten.others number fun inTail =>
      apart.2.2 number inFront number inTail rfl
  refine ⟨last, device, later, by simp only [step, opened, putEq, ok_bind], next, grown, ?_⟩
  rw [posEq, split, chainCells_append, chainCells_append, frontCells, cells, splice_append_right]

/-- Overwriting a string of the log by one of the same length replaces it, and nothing else. -/
theorem Recorded.overwrite (recorded : Recorded history state pages chains) {key : PageKey_t}
    {offset : Int} {old bytes : Bytes} (fileSmall : state.mgr.FileSmall)
    (known : contentsOf history key offset = some old) (some' : bytes ≠ [])
    (lengths : bytes.length = old.length) (aligned : state.Aligned key offset bytes.length) :
    ∃ after later, state.step (.putAt key bytes offset) = .ok (.offset offset, after) ∧
      Recorded ((.putAt key bytes offset, .offset offset) :: history) after later chains := by
  obtain ⟨isOpen, small, onPage⟩ := recorded.placed key offset old known
  obtain ⟨file, opened⟩ := Option.isSome_iff_exists.mp isOpen
  obtain ⟨page, device, later, putEq, next, grown, whole⟩ :=
    recorded.putAt opened fileSmall known some' lengths aligned
  refine ⟨_, later, putEq, next, ?_, ?_, recorded.table, fun _ _ => recorded.room key isOpen, ?_, ?_⟩
  · rw [after_files_other _ _ _ _ _ (recorded.notTable opened).symm]
    exact recorded.noTable
  · intro other now place bytes' equal written
    by_cases same : other = key
    · rw [same, after_files_self] at equal
      cases equal
      rw [same, contentsOf_putAt] at written
      by_cases here : place = offset
      · rw [here]
        exact recorded.units key file offset old opened known
      · rw [if_neg here] at written
        exact recorded.units key file place bytes' opened written
    · rw [after_files_other _ _ _ _ _ same] at equal
      rw [contentsOf_other _ _ _ key other place rfl same] at written
      exact recorded.units other now place bytes' equal written
  · intro other place bytes' equal
    by_cases same : other = key
    · rw [same, contentsOf_putAt] at equal
      rw [same, after_files_self]
      by_cases here : place = offset
      · rw [if_pos here] at equal
        cases equal
        rw [here]
        exact ⟨rfl, by rw [lengths]; exact small, onPage⟩
      · rw [if_neg here] at equal
        exact ⟨rfl, (recorded.placed key place bytes' equal).2⟩
    · rw [contentsOf_other _ _ _ key other place rfl same] at equal
      rw [after_files_other _ _ _ _ _ same]
      exact recorded.placed other place bytes' equal
  · intro other now
    by_cases same : other = key
    · rw [same, whole, recordsOf_putAt]
      exact (recorded.kept key isOpen).overwrite offset _ _
        (SMDPageFile.lengthHeader bytes.length ++ bytes) (by rw [recordsOf, known, Option.map_some])
        (by rw [List.length_append, List.length_append, lengths])
    · rw [after_files_other _ _ _ _ _ same] at now
      rw [recordsOf_congr (funext fun place => contentsOf_other _ _ _ key other place rfl same)]
      exact recorded.other (recorded.sound.named key file opened).2 now same grown

/-! ### Runs -/

/-- The calls on logs: new segments while the page table fits on its page, appends where `get` finds
them, overwrites of strings of the log by aligned strings of the same length, and reads of strings of
the log. -/
def KeepsLogs (history : History Request Reply) (state : Segments Device) (call : Request) : Prop :=
  state.mgr.FileSmall ∧
    match call with
    | .createPageFile enumType sTableName minUnit =>
      state.mgr.m_PageInfo.find ⟨enumType, sTableName⟩ = none ∧
        (state.mgr.enrolled ⟨enumType, sTableName⟩ (max minUnit 4)).TableFits
    | .put key bytes => bytes ≠ [] ∧ bytes.length + 4 < 2147483648 ∧
        state.Findable key bytes.length
    | .putAt key bytes offset => ∃ old, contentsOf history key offset = some old ∧
        bytes ≠ [] ∧ bytes.length = old.length ∧ state.Aligned key offset bytes.length
    | .get key offset => (contentsOf history key offset).isSome
    | .clearPage _ => False
    | .save => False

/-- One admitted call. -/
theorem Recorded.step (recorded : Recorded history state pages chains) (call : Request)
    (admitted : KeepsLogs history state call) {reply : Reply} {after : Segments Device}
    (returned : state.step call = .ok (reply, after)) (afterSmall : after.mgr.FileSmall) :
    ∃ later laterChains, Recorded ((call, reply) :: history) after later laterChains := by
  obtain ⟨fileSmall, admitted⟩ := admitted
  cases call with
  | createPageFile enumType sTableName minUnit =>
    obtain ⟨fresh, fits⟩ := admitted
    obtain ⟨later, next, _⟩ := recorded.create minUnit fresh fits fileSmall returned
    exact ⟨later, _, next⟩
  | put key bytes =>
    obtain ⟨some', short, findable⟩ := admitted
    cases opened : state.files key with
    | none =>
      simp only [Segments.step, opened] at returned
      cases returned
      exact ⟨pages, chains, recorded.quiet
        (contentsOf_quiet (.put key bytes) .noFile history fun _ equal => by cases equal)⟩
    | some file =>
      obtain ⟨_, _, later, _, _, _, _, _, _, next, _⟩ :=
        recorded.put opened bytes some' short findable fileSmall returned afterSmall
      exact ⟨later, _, next⟩
  | putAt key bytes offset =>
    obtain ⟨old, known, some', lengths, aligned⟩ := admitted
    obtain ⟨_, later, putEq, next⟩ := recorded.overwrite fileSmall known some' lengths aligned
    rw [putEq] at returned
    cases returned
    exact ⟨later, chains, next⟩
  | get key offset =>
    obtain ⟨bytes, known⟩ := Option.isSome_iff_exists.mp admitted
    obtain ⟨_, getEq, _, next⟩ := recorded.get fileSmall known
    rw [getEq] at returned
    cases returned
    exact ⟨pages, chains, next⟩
  | clearPage key => exact absurd admitted id
  | save => exact absurd admitted id

theorem run_recorded {device : Device} {pageSize : Nat} {mgr : SMDPageManagement Device}
    (flag : HoldsFlag device pageSize) (sizeLt : pageSize < 65536)
    (newEq : SMDPageManagement.new device false pageSize = .ok mgr)
    (run : Run Segments.step KeepsLogs (opened mgr) history state)
    (fileSmall : state.mgr.FileSmall) : ∃ pages chains, Recorded history state pages chains := by
  refine run.invariant (fun history state => state.mgr.FileSmall →
    ∃ pages chains, Recorded history state pages chains)
    (fun _ => ⟨_, _, new_recorded flag sizeLt newEq⟩) ?_ fileSmall
  intro history state call reply after invariant admitted returned afterSmall
  obtain ⟨pages, chains, recorded⟩ := invariant admitted.1
  exact recorded.step call admitted returned afterSmall

end Segments

end LevelDBLib.KvDB
