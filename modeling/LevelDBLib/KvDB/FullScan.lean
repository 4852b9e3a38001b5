/-
This file proves when the full scan of a table is complete: in every run of calls
on a data segment, over any tables, `readALL` returns the records that were appended
to the table, in the order of the appends, as long as no append ended with the last
byte of a page where the walk loses its place, and the last page is neither empty nor
full.

The walk knows the end of the table only by the free bytes of the last page. It
reads the first string of an empty table, and behind a full last page it makes a
new page and reads there.
-/

import LevelDBLib.KvDB.DataSegment
import LevelDBLib.KvDB.ReadAfterWrite
import LevelDBLib.KvDB.RecordGroups
import LevelDBLib.KvDB.Walk

namespace LevelDBLib.KvDB

open Buffers Tapes Runs Logs

variable {Device : Type}

/-! ### The conditions -/

/-- The records in a string of a table, as the two scans decode them. -/
def DataFeature.decode [FloatingPoint] (tableStruct : Schema.TableDef) (bytes : Bytes) :
    Except Fault (List (Option Record)) :=
  if tableStruct.IsSaveByGroup then do
    let records ← getOGRecordsFromStream tableStruct.table ⟨bytes, 0⟩
    .ok (records.map some)
  else do
    let record ← getRecord tableStruct.table ⟨bytes, 0⟩
    .ok [record]

/-- The string holds the records: decoded on its own, it gives the values of all their fields. -/
def Encodes [FloatingPoint] (tableStruct : Schema.TableDef) (bytes : Bytes)
    (records : List Record) : Prop :=
  ∃ results, DataFeature.decode tableStruct bytes = .ok results ∧
    results.map (Option.map Record.stored) = records.map fun record => some record.stored

section Encoding

variable [FloatingPoint]

/-- A record whose fields hold values, of a table with columns and no VAR_INT. -/
theorem encodes_record {definition : Schema.TableDef} {record : Record} {values : List Value}
    (plain : definition.IsSaveByGroup = false) (columns : definition.table.FieldSet ≠ [])
    (readable : definition.table.Readable) (holds : record.Holds definition.table values)
    (small : (rowImage values).length < 4294967296) :
    record.write (SMDMemStream.new 0) = .ok ⟨rowImage values, (rowImage values).length⟩ ∧
      Encodes definition (rowImage values) [record] := by
  have written := holds.write [] (by decide)
  rw [SMDMemStream.appended_of_lt _ _ (by rw [List.length_nil]; omega), List.nil_append,
    List.length_nil, Nat.zero_add] at written
  have held : SMDMemStream.Holds ⟨rowImage values, 0⟩ (rowImage values ++ []) :=
    ⟨small, Nat.zero_le _, (List.append_nil _).symm⟩
  obtain ⟨result, next, read, _, _, resultHolds⟩ := Record.read_holds readable holds _ []
    (size_ne_zero columns holds.fields [] held) held
  refine ⟨written, [some result], ?_, ?_⟩
  · rw [DataFeature.decode, plain, if_neg Bool.false_ne_true, DataFeature.getRecord, read]
    rfl
  · show [some result.stored] = [some record.stored]
    rw [Record.stored, Record.stored, resultHolds.fields.stored, holds.fields.stored]

/-- A group that meets the condition of the group codec. -/
theorem encodes_group {definition : Schema.TableDef} {records : List Record}
    {rows : List (List Value)} (byGroup : definition.IsSaveByGroup = true) (nonempty : records ≠ [])
    (grouped : ∀ column ∈ definition.table.FieldSet, column.isGrouped = true)
    (holds : HoldRows definition.table records rows) (kept : GroupKept definition.table rows) :
    DataFeature.groupStream records =
        .ok (some ⟨groupImage rows, (groupImage rows).length⟩) ∧
      Encodes definition (groupImage rows) records := by
  have sent := sent_of_readable grouped kept.readable
  obtain ⟨sends, _⟩ := groupStream_sends nonempty sent holds
  obtain ⟨middle, counts, results, readRows, resultsHold⟩ :=
    getOGRecords_holds nonempty sent holds kept.texts kept.small
  have counted := kept.counted
  have exactly : (BitVec.ofNat 32 rows.length).toInt.toNat = rows.length := by
    rw [BitVec.toInt_eq_toNat_cond, BitVec.toNat_ofNat, Nat.mod_eq_of_lt (by omega),
      if_pos (by omega), Int.toNat_natCast]
  have equal : rows.take 1 ++ rows.tail.map (List.map Value.left) = rows := by
    cases rows with
    | nil => rfl
    | cons first rows =>
      have same : rows.map (List.map Value.left) = rows.map id := List.map_congr_left kept.fixed
      rw [List.map_id] at same
      exact congrArg (List.cons first) same
  rw [equal] at resultsHold
  refine ⟨?_, results.map some, ?_, ?_⟩
  · rw [sends kept.texts, SMDMemStream.appended_of_lt _ _ (by
        rw [List.length_nil, Nat.zero_add]
        exact kept.small), ok_bind, List.nil_append, List.length_nil, Nat.zero_add]
  · rw [DataFeature.decode, if_pos byGroup, counts, exactly, readRows]
    rfl
  · rw [List.map_map, show Option.map Record.stored ∘ some = some ∘ Record.stored from rfl,
      ← List.map_map, stored_rows resultsHold, ← stored_rows holds, List.map_map]
    rfl

end Encoding

namespace SMDDataSegment

variable [CoherentDevice Device]

/-- A string of `count` bytes behind the last page of a segment ends with the last byte of a page two
or more behind the one where it starts. -/
def EndsFar (mgr : SMDPageManagement Device) (nLastPageNo : Nat) (view : PageView) (count : Nat) :
    Prop :=
  let room := mgr.m_nPageSize - 12
  -- a string that turns the page first starts on a new page, and all its pages are new
  if view.space < 4 then (4 + count) % room = 0 ∧ 3 ≤ (4 + count) / room
  else (view.used + 4 + count) % room = 0 ∧ 2 ≤ (view.used + 4 + count) / room ∧
    nLastPageNo + 3 ≤ mgr.m_nPageCnt + (view.used + 4 + count) / room

instance (mgr : SMDPageManagement Device) (nLastPageNo : Nat) (view : PageView) (count : Nat) :
    Decidable (EndsFar mgr nLastPageNo view count) :=
  by unfold EndsFar; infer_instance

/-- The last page of the segment of the table is of this kind. -/
def LastPage (segment : SMDDataSegment Device) (tableName : Bytes) (kind : Nat → PageView → Prop) :
    Prop :=
  ∃ value ∈ segment.pPageManagement.m_PageInfo.find (dataKey tableName),
    ∃ view ∈ filePages segment.pPageManagement value.nLastPageNo, kind value.nLastPageNo view

instance (segment : SMDDataSegment Device) (tableName : Bytes) (kind : Nat → PageView → Prop)
    [∀ nLastPageNo view, Decidable (kind nLastPageNo view)] :
    Decidable (segment.LastPage tableName kind) :=
  inferInstanceAs (Decidable (∃ value ∈ _, ∃ view ∈ _, _))

/-- A string of `count` bytes, appended to the segment of the table, ends far from its start. -/
def FillsFarPage (segment : SMDDataSegment Device) (tableName : Bytes) (count : Nat) : Prop :=
  segment.LastPage tableName fun nLastPageNo view =>
    EndsFar segment.pPageManagement nLastPageNo view count

instance (segment : SMDDataSegment Device) (tableName : Bytes) (count : Nat) :
    Decidable (segment.FillsFarPage tableName count) :=
  inferInstanceAs (Decidable (segment.LastPage tableName _))

/-- The last page of the segment of the table has no free byte. -/
def LastPageFull (segment : SMDDataSegment Device) (tableName : Bytes) : Prop :=
  segment.LastPage tableName fun _ view => view.space = 0

instance (segment : SMDDataSegment Device) (tableName : Bytes) :
    Decidable (segment.LastPageFull tableName) :=
  inferInstanceAs (Decidable (segment.LastPage tableName _))

variable [FloatingPoint]

/-- A string may be appended: it is one that `put` takes, and if it is for a table of the scans,
it holds the records in the form of the table and does not lead the walk astray. -/
def Appendable (segment : SMDDataSegment Device) (scanned : Bytes → Prop) (tableName : Bytes)
    (byGroup : Bool) (records : List Record) (bytes : Bytes) : Prop :=
  bytes ≠ [] ∧ bytes.length + 4 < 2147483648 ∧
    (scanned tableName → ¬ segment.FillsFarPage tableName bytes.length ∧
      ∀ definition ∈ segment.tableSegment, definition.tableName = tableName →
        definition.IsSaveByGroup = byGroup ∧ Encodes definition bytes records)

/-- The scan of the table ends where its strings do: there is one, its last page has a free byte,
and the walk may make as many turns. -/
def ScanEnds (history : History DataRequest (Option Int)) (segment : SMDDataSegment Device)
    (tableName : Bytes) (fuel : Nat) : Prop :=
  (segment.pPageManagement.m_nPageCnt + 1) * segment.pPageManagement.m_nPageSize < 2147483648 ∧
    appended tableName history ≠ [] ∧ ¬ segment.LastPageFull tableName ∧
    (appended tableName history).length ≤ fuel

/-- The calls in front of a scan of the tables `scanned`. A scan among them ends where the strings of
its table do, or nothing defines its table. -/
def BeforeScan (scanned : Bytes → Prop) (history : History DataRequest (Option Int))
    (segment : SMDDataSegment Device) (call : DataRequest) : Prop :=
  segment.pPageManagement.FileSmall ∧
    match call with
    | .addTableStruct p => segment.pPageManagement.m_PageInfo.find (dataKey p.tableName) = none ∧
        (segment.pPageManagement.enrolled (dataKey p.tableName) 4).TableFits
    | .addRecord none _ => True
    | .addRecord (some record) tableName =>
        ∀ stream, record.write (SMDMemStream.new 0) = .ok stream →
          segment.Appendable scanned tableName false [record] stream.data
    | .addOneGroupRecords records tableName =>
        ∀ stream, DataFeature.groupStream records = .ok (some stream) →
          segment.Appendable scanned tableName true records stream.data
    | .getRecordALL fuel tableName =>
        (∀ definition ∈ segment.tableSegment, definition.tableName ≠ tableName) ∨
          scanned tableName ∧ ScanEnds history segment tableName fuel

/-! ### What a run leaves -/

/-- The strings of the appends to a table stand in a line, each with its records, and the walk does
not lose its place behind any of them. -/
structure Scannable (tableName : Bytes) (history : History DataRequest (Option Int))
    (segment : SMDDataSegment Device) (pageSize : Nat) (pages : PageMap)
    (chains : PageKey_t → List Nat) (strings : List Bytes) : Prop where
  table : ∀ definition ∈ segment.tableSegment, definition.tableName = tableName →
    Lines pageSize pages (chains (dataKey tableName)) strings ∧
      Segments.Walkable (pageSize - 12) (chains (dataKey tableName)) 0 strings ∧
      List.Forall₂ (Encodes definition) strings (appended tableName history)
  absent : (∀ definition ∈ segment.tableSegment, definition.tableName ≠ tableName) →
    appended tableName history = []

/-- The state holds the tables of the scans. -/
structure Holds (scanned : Bytes → Prop) (history : History DataRequest (Option Int))
    (segment : SMDDataSegment Device) (log : History Request Reply) (state : Segments Device)
    (pages : PageMap) (chains : PageKey_t → List Nat) : Prop where
  recorded : Segments.Recorded log state pages chains
  plain : state.Plain
  aligned : segment.Over state
  each : ∀ tableName, scanned tableName → ∃ strings,
    Scannable tableName history segment state.mgr.m_nPageSize pages chains strings

variable {scanned : Bytes → Prop} {history : History DataRequest (Option Int)}
  {segment : SMDDataSegment Device} {log : History Request Reply} {state : Segments Device}
  {pages : PageMap} {chains : PageKey_t → List Nat} {strings : List Bytes}

omit [CoherentDevice Device] in
/-- A call that appends nothing to the table, and leaves its pages as they are. -/
theorem Scannable.keep {tableName : Bytes} {pageSize : Nat}
    (scannable : Scannable tableName history segment pageSize pages chains strings)
    {call : DataRequest} {reply : Option Int} (nothing : appendedBy tableName call reply = [])
    {after : SMDDataSegment Device} {later : PageMap} {laterChains : PageKey_t → List Nat}
    (definitions : ∀ definition, definition.tableName = tableName →
      (definition ∈ after.tableSegment ↔ definition ∈ segment.tableSegment))
    (chain : (∃ definition ∈ segment.tableSegment, definition.tableName = tableName) →
      laterChains (dataKey tableName) = chains (dataKey tableName) ∧
        ∀ pageno ∈ chains (dataKey tableName), later pageno = pages pageno) :
    Scannable tableName ((call, reply) :: history) after pageSize later laterChains strings := by
  have same : appended tableName ((call, reply) :: history) = appended tableName history := by
    rw [appended, nothing, List.append_nil]
  refine ⟨fun definition member name => ?_, fun missing => ?_⟩
  · have old := (definitions definition name).mp member
    obtain ⟨lines, walkable, encoded⟩ := scannable.table definition old name
    obtain ⟨chainEq, pagesEq⟩ := chain ⟨definition, old, name⟩
    rw [chainEq, same]
    exact ⟨lines.congr pagesEq, walkable, encoded⟩
  · rw [same]
    exact scannable.absent fun definition member name =>
      missing definition ((definitions definition name).mpr member) name

theorem new_holds {device : Device} {pageSize : Nat} {mgr : SMDPageManagement Device}
    (flag : HoldsFlag device pageSize) (sizeLt : pageSize < 65536)
    (newEq : SMDPageManagement.new device false pageSize = .ok mgr) (scanned : Bytes → Prop) :
    Holds scanned [] (opened mgr) [] (Segments.opened mgr) (newPages pageSize) fun _ => [0] :=
  ⟨Segments.new_recorded flag sizeLt newEq, (fun _ _ opened => by cases opened),
    ⟨rfl, rfl, (fun _ _ known => by cases known), (fun _ _ _ _ known => by cases known)⟩,
    fun _ _ => ⟨[], (fun _ member => by cases member), fun _ => rfl⟩⟩

/-- A new table. -/
theorem Holds.addTableStruct (holds : Holds scanned history segment log state pages chains)
    {p : Schema.TableDef} (fileSmall : state.mgr.FileSmall)
    (fresh : state.mgr.m_PageInfo.find (dataKey p.tableName) = none)
    (fits : (state.mgr.enrolled (dataKey p.tableName) 4).TableFits)
    {after : SMDDataSegment Device} (returned : segment.addTableStruct p = .ok after) :
    ∃ laterLog next later laterChains, Holds scanned ((.addTableStruct p, none) :: history)
      after laterLog next later laterChains := by
  rw [SMDDataSegment.addTableStruct, DataFeature.new, bind_eq_ok] at returned
  obtain ⟨⟨feature, mgr⟩, newEq, equal⟩ := returned
  rw [bind_eq_ok] at newEq
  obtain ⟨⟨made, mgr'⟩, created, equal'⟩ := newEq
  cases equal'
  cases equal
  rw [holds.aligned.mgr] at created
  have stepEq : state.step (.createPageFile .SEG_TYPE_DATA p.tableName 0) =
      .ok (.created made.isSome,
        { mgr := mgr, files := Function.update state.files (dataKey p.tableName) made }) := by
    rw [Segments.step, created, ok_bind]
    rfl
  obtain ⟨later, recorded, afterEq, size, blank, unchanged⟩ :=
    holds.recorded.create 0 fresh fits fileSmall stepEq
  have madeEq : made = some ⟨.SEG_TYPE_DATA, p.tableName, 4, none⟩ := by
    have at' := congrArg (fun next : Segments Device => next.files (dataKey p.tableName)) afterEq
    simp only [Function.update_self, Segments.after_files_self] at at'
    exact at'
  cases madeEq
  have start : later (state.mgr.m_nPageCnt + 1) = some (PageView.blank (mgr.m_nPageSize - 12)) := by
    rw [show mgr.m_nPageSize = state.mgr.m_nPageSize from size]
    exact blank
  have freshName : ∀ definition ∈ segment.tableSegment, definition.tableName ≠ p.tableName := by
    intro definition member same
    obtain ⟨file, opened⟩ := holds.aligned.opens ⟨definition, member, rfl⟩
    have named := (holds.recorded.sound.named _ file opened).2
    rw [same, fresh] at named
    cases named
  have aligned := holds.aligned.added ⟨.SEG_TYPE_DATA, p.tableName, 4, none⟩ mgr freshName
  rw [afterEq] at recorded
  refine ⟨_, _, later, _, recorded, holds.plain.after rfl _, aligned, fun tableName member => ?_⟩
  obtain ⟨strings, scannable⟩ := holds.each tableName member
  rw [Segments.after_mgr, show mgr.m_nPageSize = state.mgr.m_nPageSize from size]
  by_cases here : p.tableName = tableName
  · have empty := scannable.absent fun definition member same =>
      freshName definition member (same.trans here.symm)
    have same : appended tableName ((.addTableStruct p, none) :: history) = [] := by
      rw [appended, empty]
      rfl
    refine ⟨[], fun definition _ name => ?_, fun missing => same⟩
    rw [same, ← here, Function.update_self]
    rw [show mgr.m_nPageSize = state.mgr.m_nPageSize from size] at start
    exact ⟨lines_blank (Nat.succ_ne_zero _) start, trivial, .nil⟩
  · refine ⟨strings, scannable.keep rfl (fun definition name => ?_) fun present => ?_⟩
    · rw [List.mem_append, List.mem_singleton]
      exact or_iff_left fun equal => here (by rw [← equal]; exact name)
    · obtain ⟨file, opened⟩ := holds.aligned.opens present
      rw [Function.update_of_ne fun equal => here (congrArg PageKey_t.sTableName equal).symm]
      exact ⟨rfl, unchanged _ (by rw [opened]; rfl)⟩

/-- An appended string is clear of the pages where the walk loses its place. -/
theorem Holds.clearEnd (holds : Holds scanned history segment log state pages chains)
    {tableName : Bytes} {file : SMDPageFile} (opened : state.files (dataKey tableName) = some file)
    {count : Nat} (notFar : ¬ segment.FillsFarPage tableName count)
    (lines : Lines state.mgr.m_nPageSize pages (chains (dataKey tableName)) strings) (length : Nat) :
    Segments.ClearEnd (state.mgr.m_nPageSize - 12)
      (chains (dataKey tableName) ++ List.range' (state.mgr.m_nPageCnt + 1) length)
      (lineStart (state.mgr.m_nPageSize - 12) (lineEnd (state.mgr.m_nPageSize - 12) 0 strings))
      count := by
  have room := holds.recorded.room _ (by rw [opened]; rfl)
  have notTable := holds.recorded.notTable opened
  obtain ⟨value, found, serves, chainOf⟩ := holds.recorded.sound.opens opened fun same =>
    absurd same notTable
  obtain ⟨front, last, view, split, known, endEq, _⟩ := lines.ended
  have lastEq := chainOf.last
  rw [split, List.getLast?_concat] at lastEq
  cases lastEq
  obtain ⟨bodyEq, space⟩ := (serves.stores _ view known).length_body
  rw [bodyOffset_pos _ (lines.data _ (by rw [split]; simp))] at bodyEq
  have usedEq : view.used = view.body.length - view.space := rfl
  have seen : filePages segment.pPageManagement value.nLastPageNo = some view := by
    rw [holds.aligned.mgr]
    exact serves.stores.filePages _ _ known
  rw [split, endEq]
  refine Segments.clearEnd_append (by omega) (by omega) fun far => notFar ?_
  refine ⟨value, by rw [holds.aligned.mgr]; exact found, view, seen, ?_⟩
  rw [holds.aligned.mgr]
  rwa [show state.mgr.m_nPageSize - 12 - view.used = view.space by omega] at far

/-- A string put to the segment of a table joins its line. -/
theorem Holds.append (holds : Holds scanned history segment log state pages chains)
    {tableName : Bytes} {index : Nat} {definition : Schema.TableDef} {file : SMDPageFile}
    (serving : Serving segment state tableName index definition file)
    (fileSmall : state.mgr.FileSmall) {page : SMDPage} {device : Device}
    (recorded : Segments.Recorded log (state.after (dataKey tableName)
      { file with page := some page } { state.mgr with device := device }) pages chains)
    {stream : SMDMemStream} {byGroup : Bool} {records : List Record}
    (appendable : segment.Appendable scanned tableName byGroup records stream.data)
    {offset : Int} {fileNext : SMDPageFile} {mgrNext : SMDPageManagement Device}
    (putEq : ({ file with page := some page } : SMDPageFile).put { state.mgr with device := device }
      stream = .ok (offset, fileNext, mgrNext))
    (afterSmall : mgrNext.FileSmall) {call : DataRequest}
    (callEq : ∀ name, appendedBy name call (some offset) =
      if tableName = name ∧ offset ≠ -1 then [records] else []) :
    ∃ laterLog later laterChains,
      Holds scanned ((call, some offset) :: history) { segment with
          Features := segment.Features.set index ⟨definition, some fileNext⟩
          pPageManagement := mgrNext } laterLog (state.after (dataKey tableName) fileNext mgrNext)
        later laterChains := by
  obtain ⟨some', short, table⟩ := appendable
  have opened := serving.opened
  have stepEq : (state.after (dataKey tableName) { file with page := some page }
        { state.mgr with device := device }).step (.put (dataKey tableName) stream.data) =
      .ok (.offset offset, state.after (dataKey tableName) fileNext mgrNext) := by
    have put : ({ file with page := some page } : SMDPageFile).put
        { state.mgr with device := device } ⟨stream.data, 0⟩ =
      .ok (offset, fileNext, mgrNext) := putEq
    simp only [Segments.step, Segments.after_files_self, Segments.after_mgr, put, ok_bind,
      Segments.after_after]
  have unit : file.minUint = 4 := holds.plain _ file opened
  have plain := @Segments.Plain.after _ _ holds.plain (dataKey tableName)
    { file with page := some page } unit { state.mgr with device := device }
  obtain ⟨place, turned, later, fresh, last, view, replyEq, _, afterEq, next, longer⟩ :=
    recorded.put (Segments.after_files_self ..) stream.data some' short
      (plain.findable recorded _ (List.length_pos_iff.mpr some')) fileSmall stepEq afterSmall
  cases replyEq
  simp only [unit] at longer
  have plain : (state.after (dataKey tableName) fileNext mgrNext).Plain := by
    rw [afterEq]
    refine plain.after ?_ _
    exact unit
  have aligned := holds.aligned.turned serving fileNext mgrNext
  have size : mgrNext.m_nPageSize = state.mgr.m_nPageSize := longer.grown.sizeEq
  refine ⟨_, later, _, next, plain, aligned, fun name member => ?_⟩
  obtain ⟨strings, scannable⟩ := holds.each name member
  rw [Segments.after_mgr, size]
  by_cases here : tableName = name
  · subst here
    obtain ⟨notFar, encoded⟩ := table member
    have positive : offset ≠ -1 := by
      obtain ⟨_, _, start, _⟩ := next.placed (dataKey tableName) offset stream.data
        (by rw [contentsOf_put, if_pos rfl])
      omega
    have grows : appended tableName ((call, some offset) :: history) =
        appended tableName history ++ [records] := by
      rw [appended, callEq, if_pos ⟨rfl, positive⟩]
    refine ⟨strings ++ [stream.data], fun other member name => ?_, fun missing =>
      absurd serving.name (missing definition (List.mem_of_getElem? serving.known))⟩
    obtain ⟨lines, walkable, encodes⟩ := scannable.table other member name
    obtain ⟨value, found, serves, chainOf⟩ := holds.recorded.sound.opens opened fun same =>
      absurd same (holds.recorded.notTable opened)
    have room := holds.recorded.room _ (by rw [opened]; rfl)
    have laterStores := next.sound.allocated.stores
    rw [Segments.after_mgr, size] at laterStores
    rw [Function.update_self]
    refine ⟨lines.put longer rfl room recorded.sound.allocated.stores laterStores chainOf.distinct
      chainOf.allocated chainOf.linked some' short, ?_, ?_⟩
    · rw [Segments.walkable_append]
      refine ⟨walkable.extend fresh ?_, ?_, trivial⟩
      · exact lines.within serves.stores
      · have clear := holds.clearEnd opened notFar lines fresh.length
        have freshEq : fresh = List.range' (state.mgr.m_nPageCnt + 1) fresh.length :=
          longer.grown.freshEq
        rwa [← freshEq] at clear
    · rw [grows]
      exact List.rel_append encodes (.cons (encoded other member name).2 .nil)
  · refine ⟨strings, scannable.keep ?_ (fun _ _ => Iff.rfl) fun present => ?_⟩
    · rw [callEq, if_neg fun both => here both.1]
    · obtain ⟨file', opened'⟩ := holds.aligned.opens present
      have different : dataKey name ≠ dataKey tableName := fun equal =>
        here (congrArg PageKey_t.sTableName equal).symm
      refine ⟨Function.update_of_ne different .., fun pageno inChain => ?_⟩
      exact longer.grown.others pageno (recorded.sound.allocated.outside
        (holds.recorded.sound.named _ file opened).2
        (holds.recorded.sound.named _ file' opened').2 different longer.grown pageno inChain)

/-- A call that changes nothing. -/
theorem Holds.idle (holds : Holds scanned history segment log state pages chains)
    {call : DataRequest} {reply : Option Int} (nothing : ∀ name, appendedBy name call reply = [])
    {after : SMDDataSegment Device} (aligned : after.Over state)
    (tables : after.tableSegment = segment.tableSegment) :
    Holds scanned ((call, reply) :: history) after log state pages chains := by
  refine ⟨holds.recorded, holds.plain, aligned, fun name member => ?_⟩
  obtain ⟨strings, scannable⟩ := holds.each name member
  exact ⟨strings, scannable.keep (nothing name) (fun _ _ => by rw [tables])
    fun _ => ⟨rfl, fun _ _ => rfl⟩⟩

/-- A call that goes to the feature of a table and appends a string there. -/
theorem Holds.call (holds : Holds scanned history segment log state pages chains)
    (fileSmall : state.mgr.FileSmall) {tableName : Bytes} {call : DataRequest}
    {goes : DataFeature → SMDPageManagement Device →
      Except Fault (Int × DataFeature × SMDPageManagement Device)}
    {byGroup : Bool} {records : List Record} {write : Except Fault SMDMemStream}
    (appendable : ∀ stream, write = .ok stream →
      segment.Appendable scanned tableName byGroup records stream.data)
    (goesEq : ∀ feature mgr, goes feature mgr = do
      let file ← DataFeature.pageFile feature
      let (set, file, mgr) ← file.setToLastPageFile mgr
      if set then do
        let stream ← write
        let (offset, file, mgr) ← file.put mgr stream
        .ok (offset, feature.turned file, mgr)
      else .ok (-1, feature.turned file, mgr))
    (callEq : ∀ offset name, appendedBy name call (some offset) =
      if tableName = name ∧ offset ≠ -1 then [records] else [])
    {offset : Int} {after : SMDDataSegment Device}
    (returned : segment.onTable tableName (-1) goes = .ok (offset, after))
    (afterSmall : after.pPageManagement.FileSmall) :
    ∃ laterLog next later laterChains, Holds scanned ((call, some offset) :: history) after
      laterLog next later laterChains := by
  rcases holds.aligned.lookup tableName with unknown | ⟨index, definition, file, serving⟩
  · rw [SMDDataSegment.onTable, unknown] at returned
    cases returned
    exact ⟨_, _, _, _, holds.idle (fun name => by rw [callEq, if_neg fun both => both.2 rfl])
      holds.aligned rfl⟩
  · obtain ⟨page, device, lastEq, recorded⟩ := holds.recorded.toLast serving.opened
    have fileEq : DataFeature.pageFile ⟨definition, some file⟩ = .ok file := rfl
    rw [serving.goes, goesEq, fileEq, ok_bind, holds.aligned.mgr, lastEq, ok_bind] at returned
    simp only [if_true] at returned
    rw [bind_eq_ok] at returned
    obtain ⟨_, put, equal⟩ := returned
    rw [bind_eq_ok] at put
    obtain ⟨stream, written, put⟩ := put
    rw [bind_eq_ok] at put
    obtain ⟨⟨offset', fileNext, mgrNext⟩, putEq, ended⟩ := put
    cases ended
    cases equal
    obtain ⟨laterLog, later, laterChains, next⟩ := holds.append serving fileSmall recorded
      (appendable stream written) putEq afterSmall (callEq offset')
    exact ⟨laterLog, _, later, laterChains, next⟩

/-! ### The scan -/

/-- The entry of a string, for strings that can be decoded. -/
def entryOf (tableStruct : Schema.TableDef) (bytes : Bytes) : List (Option Record) :=
  match DataFeature.decode tableStruct bytes with
  | .ok results => results
  | .error _ => []

/-- A state in front of a scan. -/
theorem Holds.reading (holds : Holds scanned history segment log state pages chains)
    {tableName : Bytes} {file : SMDPageFile} (opened : state.files (dataKey tableName) = some file)
    (small : (state.mgr.m_nPageCnt + 1) * state.mgr.m_nPageSize < 2147483648)
    (lines : Lines state.mgr.m_nPageSize pages (chains (dataKey tableName)) strings) :
    Segments.Reading state pages chains (dataKey tableName) file state.mgr := by
  refine ⟨?_, holds.recorded.notTable opened, holds.plain _ file opened,
    holds.recorded.room _ (by rw [opened]; rfl), small, lines.data, rfl, rfl⟩
  rw [Segments.after_self _ _ _ opened]
  exact holds.recorded.sound

/-- The values of the entries of strings are those of the records they hold. -/
theorem stored_entries {tableStruct : Schema.TableDef} {strings : List Bytes}
    {appended : List (List Record)}
    (encodes : List.Forall₂ (Encodes tableStruct) strings appended) :
    (strings.flatMap (entryOf tableStruct)).map (Option.map Record.stored) =
      appended.flatten.map fun record => some record.stored := by
  induction encodes with
  | nil => rfl
  | cons first _ inductionHypothesis =>
    obtain ⟨results, decoded, same⟩ := first
    rw [List.flatMap_cons, List.map_append, inductionHypothesis, List.flatten_cons, List.map_append,
      entryOf, decoded, same]

/-- The member that reads the records of one string of a table. -/
def entryMember (tableStruct : Schema.TableDef) : DataFeature → SMDPageManagement Device → Nat →
    Except Fault (List (Option Record) × DataFeature × SMDPageManagement Device) :=
  if tableStruct.IsSaveByGroup then DataFeature.groupEntry else DataFeature.recordEntry

theorem readALL_eq (fuel : Nat) (feature : DataFeature) (mgr : SMDPageManagement Device) :
    feature.readALL fuel mgr =
      DataFeature.readAllBy (entryMember feature.tableStruct) fuel feature mgr := by
  rw [DataFeature.readALL, entryMember]
  split <;> rfl

/-- The walk fetches the entry of each string. -/
theorem fetches_entry {definition : Schema.TableDef} {key : PageKey_t}
    {appended : List (List Record)} (encodes : List.Forall₂ (Encodes definition) strings appended)
    (short : ∀ bytes ∈ strings, bytes ≠ [] ∧ bytes.length + 4 < 2147483648) {bytes : Bytes}
    (member : bytes ∈ strings) :
    Segments.Fetches state pages chains key definition (entryMember definition) bytes
      (entryOf definition bytes) := by
  obtain ⟨some', small⟩ := short bytes member
  obtain ⟨results, decoded⟩ : ∃ results, DataFeature.decode definition bytes = .ok results := by
    clear short some' small
    induction encodes with
    | nil => cases member
    | cons first _ inductionHypothesis =>
      rcases List.mem_cons.mp member with equal | later
      · obtain ⟨results, decoded, _⟩ := first
        exact ⟨results, by rw [equal]; exact decoded⟩
      · exact inductionHypothesis later
  have entryEq : entryOf definition bytes = results := by rw [entryOf, decoded]
  rw [entryEq, entryMember]
  rw [DataFeature.decode] at decoded
  split at decoded
  · rename_i byGroup
    rw [if_pos byGroup]
    rw [bind_eq_ok] at decoded
    obtain ⟨records, readEq, equal⟩ := decoded
    cases equal
    exact Segments.fetches_group some' (by omega) readEq
  · rename_i single
    rw [if_neg single]
    rw [bind_eq_ok] at decoded
    obtain ⟨record, readEq, equal⟩ := decoded
    cases equal
    exact Segments.fetches_record (by omega) readEq

/-- A scan that ends where the strings of the table do returns the records, and leaves all pages as
they are. -/
theorem Holds.scan (holds : Holds scanned history segment log state pages chains)
    {tableName : Bytes} (scans : scanned tableName) {fuel : Nat}
    (ends : ScanEnds history segment tableName fuel) :
    ∃ records after device, segment.getRecordALL fuel tableName = .ok (records, after) ∧
      records.map (Option.map Record.stored) =
        (appended tableName history).flatten.map (fun record => some record.stored) ∧
      after.pPageManagement = { segment.pPageManagement with device := device } ∧
      CoherentDevice.saves device = CoherentDevice.saves segment.pPageManagement.device ∧
      after.tableSegment = segment.tableSegment ∧
      ∃ next, Holds scanned history after log next pages chains := by
  obtain ⟨small, some', notFull, enough⟩ := ends
  obtain ⟨strings, scannable⟩ := holds.each tableName scans
  rcases holds.aligned.lookup tableName with unknown | ⟨index, definition, file, serving⟩
  · exact absurd (scannable.absent (missing_of_unknown unknown)) some'
  · have member := List.mem_of_getElem? serving.known
    obtain ⟨lines, walkable, encodes⟩ := scannable.table definition member serving.name
    rw [holds.aligned.mgr] at small
    have reading := holds.reading serving.opened small lines
    have lengths := encodes.length_eq
    have isOpen : Segments.EndsOpen pages (chains (dataKey tableName)) := by
      intro front last view split known space
      obtain ⟨value, found, serves, chainOf⟩ := reading.opens
      have lastEq := chainOf.last
      rw [split, List.getLast?_concat] at lastEq
      cases lastEq
      refine notFull ⟨value, by rw [holds.aligned.mgr]; exact found, view, ?_, space⟩
      rw [holds.aligned.mgr]
      exact serves.stores.filePages _ _ known
    have nonempty : strings ≠ [] := fun empty => by
      rw [empty] at encodes
      exact some' (List.forall₂_nil_left_iff.mp encodes)
    obtain ⟨last, mgr, readEq, readingLast⟩ := reading.readAllBy lines nonempty isOpen walkable
      (fun bytes inStrings => fetches_entry encodes (fun other member => (lines.short other member))
        inStrings) fuel (by omega)
    have mgrEq : mgr = { state.mgr with device := mgr.device } := by
      rw [← readingLast.same]
    have unit : last.minUint = file.minUint :=
      readingLast.unit.trans (holds.plain _ file serving.opened).symm
    have sound := readingLast.sound
    have same := readingLast.saves
    rw [mgrEq] at sound
    have recorded := holds.recorded.turned serving.opened sound unit
    rw [← mgrEq] at recorded
    have aligned := holds.aligned.turned serving last mgr
    have whole : segment.getRecordALL fuel tableName = .ok (strings.flatMap (entryOf definition),
        { segment with
          Features := segment.Features.set index ⟨definition, some last⟩
          pPageManagement := mgr }) := by
      rw [getRecordALL, serving.goes, holds.aligned.mgr, readALL_eq, readEq, ok_bind]
    refine ⟨_, _, mgr.device, whole, stored_entries encodes, ?_, ?_, rfl, _, recorded,
      holds.plain.after readingLast.unit _, aligned, ?_⟩
    · rw [holds.aligned.mgr]
      exact mgrEq
    · rw [holds.aligned.mgr]
      exact same
    · rw [Segments.after_mgr, mgrEq]
      exact fun name member => (holds.each name member).imp fun _ held => ⟨held.table, held.absent⟩

/-- The stream of a group that is not empty. -/
def groupWrite (first : Record) (others : List Record) : Except Fault SMDMemStream := do
  let stream ← (SMDMemStream.new 0).writeInt (BitVec.ofNat 32 (first :: others).length)
  let stream ← first.write stream
  DataFeature.writeDifferences first others stream

theorem groupStream_cons (first : Record) (others : List Record) :
    DataFeature.groupStream (first :: others) = (groupWrite first others).map some := by
  rw [DataFeature.groupStream, groupWrite]
  cases (SMDMemStream.new 0).writeInt (BitVec.ofNat 32 (first :: others).length) with
  | error fault => rfl
  | ok stream =>
    rw [ok_bind, ok_bind]
    cases first.write stream with
    | error fault => rfl
    | ok stream =>
      rw [ok_bind, ok_bind]
      cases DataFeature.writeDifferences first others stream <;> rfl

/-- One admitted call. -/
theorem Holds.step (holds : Holds scanned history segment log state pages chains)
    {call : DataRequest} (admitted : BeforeScan scanned history segment call) {reply : Option Int}
    {after : SMDDataSegment Device} (returned : segment.step call = .ok (reply, after))
    (afterSmall : after.pPageManagement.FileSmall) :
    ∃ laterLog next later laterChains, Holds scanned ((call, reply) :: history) after
      laterLog next later laterChains := by
  obtain ⟨fileSmall, admitted⟩ := admitted
  rw [holds.aligned.mgr] at fileSmall
  cases call with
  | addTableStruct p =>
    rw [SMDDataSegment.step, bind_eq_ok] at returned
    obtain ⟨_, added, equal⟩ := returned
    cases equal
    obtain ⟨fresh, fits⟩ := admitted
    rw [holds.aligned.mgr] at fresh fits
    exact holds.addTableStruct fileSmall fresh fits added
  | addRecord r tableName =>
    rw [SMDDataSegment.step, bind_eq_ok] at returned
    obtain ⟨⟨offset, _⟩, called, equal⟩ := returned
    cases equal
    rw [SMDDataSegment.addRecord] at called
    cases r with
    | none =>
      rcases holds.aligned.lookup tableName with unknown | ⟨index, definition, file, serving⟩
      · rw [onTable, unknown] at called
        cases called
        exact ⟨_, _, _, _, holds.idle (fun _ => rfl) holds.aligned rfl⟩
      · rw [serving.goes] at called
        cases called
        exact ⟨_, _, _, _, holds.idle (fun _ => rfl) (holds.aligned.unmoved serving) rfl⟩
    | some record =>
      exact holds.call fileSmall admitted (fun _ _ => rfl) (fun _ _ => rfl) called afterSmall
  | addOneGroupRecords records tableName =>
    rw [SMDDataSegment.step, bind_eq_ok] at returned
    obtain ⟨⟨offset, _⟩, called, equal⟩ := returned
    cases equal
    rw [SMDDataSegment.addOneGroupRecords] at called
    cases records with
    | nil =>
      have nothing : ∀ name, appendedBy name (.addOneGroupRecords [] tableName) (some (-1)) = [] :=
        fun _ => if_neg fun both => both.2 rfl
      rcases holds.aligned.lookup tableName with unknown | ⟨index, definition, file, serving⟩
      · rw [onTable, unknown] at called
        cases called
        exact ⟨_, _, _, _, holds.idle nothing holds.aligned rfl⟩
      · rw [serving.goes] at called
        cases called
        exact ⟨_, _, _, _, holds.idle nothing (holds.aligned.unmoved serving) rfl⟩
    | cons first others =>
      have appendable : ∀ stream, groupWrite first others = .ok stream →
          segment.Appendable scanned tableName true (first :: others) stream.data :=
        fun stream written => admitted stream (by rw [groupStream_cons, written]; rfl)
      refine holds.call fileSmall appendable (fun feature mgr => ?_) (fun _ _ => rfl) called
        afterSmall
      rw [DataFeature.addOneGroupRecords, if_neg (List.cons_ne_nil _ _), groupStream_cons]
      cases DataFeature.pageFile feature with
      | error fault => rfl
      | ok file =>
        rw [ok_bind, ok_bind]
        cases file.setToLastPageFile mgr with
        | error fault => rfl
        | ok turned => cases groupWrite first others <;> rfl
  | getRecordALL fuel tableName =>
    rw [SMDDataSegment.step, bind_eq_ok] at returned
    obtain ⟨⟨_, _⟩, called, equal⟩ := returned
    cases equal
    rcases admitted with missing | ⟨scans, ends⟩
    · rcases holds.aligned.lookup tableName with unknown | ⟨index, definition, file, serving⟩
      · rw [getRecordALL, onTable, unknown] at called
        cases called
        exact ⟨_, _, _, _, holds.idle (fun _ => rfl) holds.aligned rfl⟩
      · exact absurd serving.name (missing definition (List.mem_of_getElem? serving.known))
    · obtain ⟨_, _, _, scanEq, _, _, _, _, next, kept⟩ := holds.scan scans ends
      rw [scanEq] at called
      cases called
      exact ⟨_, next, _, _, kept.idle (fun _ => rfl) kept.aligned rfl⟩

theorem run_holds {device : Device} {pageSize : Nat} {mgr : SMDPageManagement Device}
    (flag : HoldsFlag device pageSize) (sizeLt : pageSize < 65536)
    (newEq : SMDPageManagement.new device false pageSize = .ok mgr)
    (run : Run SMDDataSegment.step (BeforeScan scanned) (opened mgr) history segment)
    (fileSmall : segment.pPageManagement.FileSmall) :
    ∃ log state pages chains, Holds scanned history segment log state pages chains := by
  refine run.invariant (fun history segment => segment.pPageManagement.FileSmall →
    ∃ log state pages chains, Holds scanned history segment log state pages chains)
    (fun _ => ⟨_, _, _, _, new_holds flag sizeLt newEq scanned⟩) ?_ fileSmall
  intro history segment call reply after invariant admitted returned afterSmall
  obtain ⟨_, _, _, _, holds⟩ := invariant admitted.1
  exact holds.step admitted returned afterSmall

/-- Full scan: in every state that a new file reaches over new tables, appends and scans that meet
the conditions, a scan of a table that ends where its strings do returns the appended records, in
the order of the appends, and leaves the page counter, the page table and every page of the file as
they are. -/
theorem full_scan (device : Device) (pageSize : Nat) (mgr : SMDPageManagement Device)
    (flag : HoldsFlag device pageSize) (sizeLt : pageSize < 65536)
    (newEq : SMDPageManagement.new device false pageSize = .ok mgr) (scanned : Bytes → Prop)
    (history : History DataRequest (Option Int)) (segment : SMDDataSegment Device)
    (run : Run SMDDataSegment.step (BeforeScan scanned) (opened mgr) history segment)
    (tableName : Bytes) (scans : scanned tableName) (fuel : Nat)
    (ends : ScanEnds history segment tableName fuel) :
    ∃ records after, segment.getRecordALL fuel tableName = .ok (records, after) ∧
      records.map (Option.map Record.stored) =
        (appended tableName history).flatten.map (fun record => some record.stored) ∧
      after.pPageManagement.m_nPageCnt = segment.pPageManagement.m_nPageCnt ∧
      after.pPageManagement.m_PageInfo = segment.pPageManagement.m_PageInfo ∧
      CoherentDevice.saves after.pPageManagement.device =
        CoherentDevice.saves segment.pPageManagement.device := by
  obtain ⟨_, _, _, _, holds⟩ := run_holds flag sizeLt newEq run (Nat.le_of_lt ends.1)
  obtain ⟨records, after, _, scanEq, values, mgrEq, same, _⟩ := holds.scan scans ends
  refine ⟨records, after, scanEq, values, ?_, ?_, ?_⟩ <;> rw [mgrEq]
  exact same

end SMDDataSegment

namespace SMDDataSegment

/-- A table of names, one by one. -/
def namesTable : Schema.TableDef :=
  ⟨[1], .BTREE, false, [some ⟨.varText 255, [2], [], false, false, none, .empty⟩]⟩

def sampleName (name : Bytes) : Record :=
  ⟨namesTable.table, [.varText ⟨name.length, name.length, some ⟨name.length, name⟩⟩]⟩

/-- A table of numbers, in groups. -/
def numbersTable : Schema.TableDef :=
  ⟨[2], .BTREE, true, [some ⟨.int, [2], [], false, false, none, .empty⟩]⟩

def sampleInt (value : BitVec 32) : Record := ⟨numbersTable.table, [.int value]⟩

/-- The conditions of a new table. -/
def mayAdd (segment : SMDDataSegment PageDisk) (tableName : Bytes) : Bool :=
  decide (segment.pPageManagement.FileSmall ∧
    segment.pPageManagement.m_PageInfo.find (dataKey tableName) = none ∧
    (segment.pPageManagement.enrolled (dataKey tableName) 4).TableFits)

/-- The conditions of an append of `count` bytes to one of the two tables, and of a scan of it. -/
def mayPut (segment : SMDDataSegment PageDisk) (tableName : Bytes) (count : Nat) : Bool :=
  decide ((segment.pPageManagement.m_nPageCnt + 1) * segment.pPageManagement.m_nPageSize <
      2147483648 ∧
    segment.tableSegment = [namesTable, numbersTable] ∧
    ¬ segment.FillsFarPage tableName count ∧ ¬ segment.LastPageFull tableName)

theorem length_image_name (name : Bytes) : (rowImage [.bytes name]).length = 4 + name.length := by
  rw [rowImage_cons, show rowImage [] = [] from rfl, List.append_nil, Value.image,
    SMDMemStream.stringBytes, List.length_append, SMDValue.length_putInt]

theorem sampleName_kept (name : Bytes) (short : name.length < 2147483640) :
    (sampleName name).write (SMDMemStream.new 0) =
        .ok ⟨rowImage [.bytes name], (rowImage [.bytes name]).length⟩ ∧
      @Encodes zeroAndOne namesTable (rowImage [.bytes name]) [sampleName name] := by
  have loaded : load (some ⟨name.length, name⟩) name.length = .ok name := by
    unfold load
    split
    · next empty => rw [List.length_eq_zero_iff.mp (Int.natCast_eq_zero.mp empty)]
    · dsimp only
      rw [if_neg (by omega), if_neg (by omega), Int.toNat_natCast, List.take_length]
  exact @encodes_record zeroAndOne namesTable (sampleName name) [.bytes name] rfl (by decide)
    (by decide) ⟨rfl, .cons (.varText ⟨rfl, loaded⟩ (by omega)) .nil⟩
    (by rw [length_image_name]; omega)

theorem sampleInts_kept :
    @DataFeature.groupStream zeroAndOne [sampleInt 7, sampleInt 9] =
        .ok (some ⟨groupImage [[.int 7], [.int 9]], (groupImage [[.int 7], [.int 9]]).length⟩) ∧
      @Encodes zeroAndOne numbersTable (groupImage [[.int 7], [.int 9]])
        [sampleInt 7, sampleInt 9] := by
  refine @encodes_group zeroAndOne numbersTable [sampleInt 7, sampleInt 9] [[.int 7], [.int 9]] rfl
    (List.cons_ne_nil _ _) (by decide)
    (.cons ⟨rfl, .cons .int .nil⟩ (.cons ⟨rfl, .cons .int .nil⟩ .nil))
    ⟨by decide, by decide, by decide, by decide, fun row member => ?_⟩
  rw [List.mem_singleton.mp member]
  exact .cons trivial .nil

/-- A name that takes two pages. -/
def longName : Bytes := List.replicate 200 65

theorem mayAdd_before {scanned : Bytes → Prop} {history : History DataRequest (Option Int)}
    {segment : SMDDataSegment PageDisk} {p : Schema.TableDef}
    (may : segment.mayAdd p.tableName = true) :
    @BeforeScan _ _ zeroAndOne scanned history segment (.addTableStruct p) := by
  obtain ⟨small, fresh, fits⟩ := of_decide_eq_true may
  exact And.intro small ⟨fresh, fits⟩

/-- A stream that a sample record or group is written to may be appended. -/
theorem mayPut_appendable {segment : SMDDataSegment PageDisk} {tableName : Bytes} {bytes : Bytes}
    (may : segment.mayPut tableName bytes.length = true) (some' : bytes ≠ [])
    (short : bytes.length + 4 < 2147483648) {byGroup : Bool} {records : List Record}
    (encodes : ∀ definition ∈ [namesTable, numbersTable], definition.tableName = tableName →
      definition.IsSaveByGroup = byGroup ∧ @Encodes zeroAndOne definition bytes records) :
    segment.pPageManagement.FileSmall ∧
      @Appendable _ _ zeroAndOne segment (fun _ => True) tableName byGroup records bytes := by
  obtain ⟨small, tables, clear, -⟩ := of_decide_eq_true may
  exact ⟨Nat.le_of_lt small, some', short, fun _ => ⟨clear, tables ▸ encodes⟩⟩

theorem mayPut_ends {segment : SMDDataSegment PageDisk} {tableName : Bytes} {count : Nat}
    (may : segment.mayPut tableName count = true) {history : History DataRequest (Option Int)}
    {records : List (List Record)} (holds : appended tableName history = records)
    (nonempty : records ≠ []) {fuel : Nat} (enough : records.length ≤ fuel) :
    ScanEnds history segment tableName fuel := by
  obtain ⟨small, -, -, notFull⟩ := of_decide_eq_true may
  exact ⟨small, holds ▸ nonempty, notFull, holds ▸ enough⟩

theorem addName_before {history : History DataRequest (Option Int)}
    {segment : SMDDataSegment PageDisk} {name : Bytes} (short : name.length < 2147483640)
    (may : segment.mayPut [1] (4 + name.length) = true) :
    @BeforeScan _ _ zeroAndOne (fun _ => True) history segment
      (.addRecord (some (sampleName name)) [1]) := by
  obtain ⟨writes, encodes⟩ := sampleName_kept name short
  have length := length_image_name name
  obtain ⟨small, appendable⟩ := @mayPut_appendable segment [1] (rowImage [.bytes name])
    (length ▸ may) (List.ne_nil_of_length_pos (by omega)) (by omega) false [sampleName name] (by
      intro definition member tableName
      rcases List.mem_cons.mp member with rfl | member
      · exact ⟨rfl, encodes⟩
      · rw [List.mem_singleton.mp member] at tableName
        exact absurd tableName (by decide))
  refine And.intro small fun stream written => ?_
  rw [writes] at written
  cases written
  exact appendable

theorem addNumbers_before {history : History DataRequest (Option Int)}
    {segment : SMDDataSegment PageDisk} (may : segment.mayPut [2] 12 = true) :
    @BeforeScan _ _ zeroAndOne (fun _ => True) history segment
      (.addOneGroupRecords [sampleInt 7, sampleInt 9] [2]) := by
  obtain ⟨writes, encodes⟩ := sampleInts_kept
  obtain ⟨small, appendable⟩ := @mayPut_appendable segment [2] (groupImage [[.int 7], [.int 9]])
    may (by decide) (by decide) true [sampleInt 7, sampleInt 9] (by
      intro definition member tableName
      rcases List.mem_cons.mp member with rfl | member
      · exact absurd tableName (by decide)
      · rw [List.mem_singleton.mp member]
        exact ⟨rfl, encodes⟩)
  refine And.intro small fun stream written => ?_
  rw [writes] at written
  cases written
  exact appendable

/-- A name and a group of numbers, in two new tables. -/
def sampleHistory : History DataRequest (Option Int) :=
  [(.addOneGroupRecords [sampleInt 7, sampleInt 9] [2], some 332),
    (.addRecord (some (sampleName longName)) [1], some 172), (.addTableStruct numbersTable, none),
    (.addTableStruct namesTable, none)]

/-- Behind these, the names are scanned, and one more is appended. -/
theorem sample_run : ∃ (device : PageDisk) (mgr : SMDPageManagement PageDisk)
    (segment : SMDDataSegment PageDisk),
    HoldsFlag device 160 ∧ SMDPageManagement.new device false 160 = .ok mgr ∧
    Run (@step _ _ zeroAndOne) (@BeforeScan _ _ zeroAndOne fun _ => True) (opened mgr)
      ((.addRecord (some (sampleName [66])) [1], some 552) :: (.getRecordALL 1 [1], none) ::
        sampleHistory) segment ∧
    segment.mayPut [1] 0 = true := by
  have evaluated : (do
      let disk ← PageDisk.create 160
      let mgr ← SMDPageManagement.new disk false 160
      let (r1, s1) ← @step _ _ zeroAndOne (opened mgr) (.addTableStruct namesTable)
      let (r2, s2) ← @step _ _ zeroAndOne s1 (.addTableStruct numbersTable)
      let (r3, s3) ← @step _ _ zeroAndOne s2 (.addRecord (some (sampleName longName)) [1])
      let (r4, s4) ← @step _ _ zeroAndOne s3 (.addOneGroupRecords [sampleInt 7, sampleInt 9] [2])
      let (r5, s5) ← @step _ _ zeroAndOne s4 (.getRecordALL 1 [1])
      let (r6, s6) ← @step _ _ zeroAndOne s5 (.addRecord (some (sampleName [66])) [1])
      .ok ([r1, r2, r3, r4, r5, r6], [(opened mgr).mayAdd [1], s1.mayAdd [2], s2.mayPut [1] 204,
        s3.mayPut [2] 12, s4.mayPut [1] 0, s5.mayPut [1] 5, s6.mayPut [1] 0])) =
      (Except.ok ([none, none, some 172, some 332, none, some 552],
        [true, true, true, true, true, true, true]) :
        Except Fault (List (Option Int) × List Bool)) := by
    decide +kernel
  simp only [bind_eq_ok] at evaluated
  obtain ⟨device, created, mgr, newEq, ⟨r1, s1⟩, step1, ⟨r2, s2⟩, step2, ⟨r3, s3⟩, step3, ⟨r4, s4⟩,
    step4, ⟨r5, s5⟩, step5, ⟨r6, s6⟩, step6, equal⟩ := evaluated
  obtain ⟨replies, may⟩ := Prod.mk.inj (Except.ok.inj equal)
  simp only [List.cons.injEq, and_true] at replies may
  obtain ⟨rfl, rfl, rfl, rfl, rfl, rfl⟩ := replies
  obtain ⟨may0, may1, may2, may3, may4, may5, may6⟩ := may
  have empty : Run (@step _ _ zeroAndOne) (@BeforeScan _ _ zeroAndOne fun _ => True) (opened mgr) []
    (opened mgr) := .start
  have named := ((empty.step (mayAdd_before may0) step1).step (mayAdd_before may1) step2).step
    (addName_before (by rw [longName, List.length_replicate]; decide)
      (by rw [longName, List.length_replicate]; exact may2)) step3
  have filled : Run _ _ _ sampleHistory s4 := named.step (addNumbers_before may3) step4
  have ends : ScanEnds sampleHistory s4 [1] 1 :=
    @mayPut_ends s4 [1] 0 may4 sampleHistory [[sampleName longName]] rfl (List.cons_ne_nil _ _) 1
      (Nat.le_refl _)
  have scans : @BeforeScan _ _ zeroAndOne (fun _ => True) sampleHistory s4 (.getRecordALL 1 [1]) :=
    And.intro (Nat.le_of_lt ends.1) (.inr ⟨trivial, ends⟩)
  exact ⟨device, mgr, s6, Segments.holdsFlag_create created, newEq,
    (filled.step scans step5).step (addName_before (by decide) may5) step6, may6⟩

/-- The second scan of the names finds both, and leaves the file as it is. -/
theorem full_scan_once : ∃ (segment : SMDDataSegment PageDisk) (records : List (Option Record))
    (after : SMDDataSegment PageDisk),
    @getRecordALL _ _ zeroAndOne segment 2 [1] = .ok (records, after) ∧
      records.map (Option.map Record.stored) =
        [some (sampleName longName).stored, some (sampleName [66]).stored] ∧
      after.pPageManagement.m_nPageCnt = segment.pPageManagement.m_nPageCnt ∧
      after.pPageManagement.m_PageInfo = segment.pPageManagement.m_PageInfo ∧
      CoherentDevice.saves after.pPageManagement.device =
        CoherentDevice.saves segment.pPageManagement.device := by
  obtain ⟨device, mgr, segment, flag, newEq, run, may⟩ := sample_run
  refine ⟨segment, @full_scan _ _ zeroAndOne device 160 mgr flag (by decide) newEq (fun _ => True) _
    segment run [1] trivial 2 ?_⟩
  exact @mayPut_ends segment [1] 0 may _ [[sampleName longName], [sampleName [66]]] rfl
    (List.cons_ne_nil _ _) 2 (Nat.le_refl _)

end SMDDataSegment

end LevelDBLib.KvDB
