/-
This file is the data segment at work: the calls that add a table, append to a
table and scan one, what a run of them appended to each table, and which segment
object a call goes to.
-/

import LevelDBLib.KvDB.DataFeature
import LevelDBLib.KvDB.Segments

namespace LevelDBLib.KvDB

open Runs

variable {Device : Type}

/-! ### Calls on a data segment -/

/-- A call on a data segment. -/
inductive DataRequest where
  | addTableStruct (p : Schema.TableDef)
  | addRecord (r : Option Record) (tableName : Bytes)
  | addOneGroupRecords (records : List Record) (tableName : Bytes)
  | getRecordALL (fuel : Nat) (tableName : Bytes)

namespace SMDDataSegment

/-- A data segment without tables. -/
def opened (mgr : SMDPageManagement Device) : SMDDataSegment Device := ⟨[], [], mgr⟩

/-- One call, with the offset that an append returns. -/
def step [PageDevice Device] [FloatingPoint] (segment : SMDDataSegment Device) :
    DataRequest → Except Fault (Option Int × SMDDataSegment Device)
  | .addTableStruct p => do
    let after ← segment.addTableStruct p
    .ok (none, after)
  | .addRecord r tableName => do
    let (offset, after) ← segment.addRecord r tableName
    .ok (some offset, after)
  | .addOneGroupRecords records tableName => do
    let (offset, after) ← segment.addOneGroupRecords records tableName
    .ok (some offset, after)
  | .getRecordALL fuel tableName => do
    let (_, after) ← segment.getRecordALL fuel tableName
    .ok (none, after)

/-- What a call appends to a table, one list for each offset it returns. -/
def appendedBy (tableName : Bytes) : DataRequest → Option Int → List (List Record)
  | .addRecord (some record) name, some offset =>
    if name = tableName ∧ offset ≠ -1 then [[record]] else []
  | .addOneGroupRecords records name, some offset =>
    if name = tableName ∧ offset ≠ -1 then [records] else []
  | _, _ => []

/-- What a run appended to a table, in the order of the appends. -/
def appended (tableName : Bytes) : History DataRequest (Option Int) → List (List Record)
  | [] => []
  | (call, reply) :: rest => appended tableName rest ++ appendedBy tableName call reply

/-- The segment of a table. -/
def dataKey (tableName : Bytes) : PageKey_t := ⟨.SEG_TYPE_DATA, tableName⟩

end SMDDataSegment

namespace SMDDataSegment

/-! ### The segment objects of the features -/

/-- The features of a data segment are those of its definitions, in their order, over the segment
objects of a state. -/
structure Over (segment : SMDDataSegment Device) (state : Segments Device) : Prop where
  mgr : segment.pPageManagement = state.mgr
  lengths : segment.Features.length = segment.tableSegment.length
  each : ∀ (index : Nat) (definition : Schema.TableDef),
    segment.tableSegment[index]? = some definition →
    ∃ file, segment.Features[index]? = some ⟨definition, some file⟩ ∧
      state.files (dataKey definition.tableName) = some file
  distinct : ∀ (index other : Nat) (first second : Schema.TableDef),
    segment.tableSegment[index]? = some first → segment.tableSegment[other]? = some second →
    first.tableName = second.tableName → index = other

variable {segment : SMDDataSegment Device} {state : Segments Device}

/-- The definition of a name, with the segment object of its feature. -/
structure Serving (segment : SMDDataSegment Device) (state : Segments Device) (tableName : Bytes)
    (index : Nat) (definition : Schema.TableDef) (file : SMDPageFile) : Prop where
  place : segment.tableSegment.findIdx? (fun other => other.tableName = tableName) = some index
  known : segment.tableSegment[index]? = some definition
  name : definition.tableName = tableName
  feature : segment.Features[index]? = some ⟨definition, some file⟩
  opened : state.files (dataKey tableName) = some file

/-- A table that no definition names, or the feature that serves it. -/
theorem Over.lookup (aligned : Over segment state) (tableName : Bytes) :
    segment.tableSegment.findIdx? (fun other => other.tableName = tableName) = none ∨
    ∃ index definition file, Serving segment state tableName index definition file := by
  cases place : segment.tableSegment.findIdx? (fun other => other.tableName = tableName) with
  | none => exact Or.inl rfl
  | some index =>
    obtain ⟨inside, named, _⟩ := List.findIdx?_eq_some_iff_getElem.mp place
    have name := of_decide_eq_true named
    have known := List.getElem?_eq_getElem inside
    obtain ⟨file, feature, opened⟩ := aligned.each index _ known
    rw [name] at opened
    exact Or.inr ⟨index, _, file, place, known, name, feature, opened⟩

theorem missing_of_unknown {tableName : Bytes}
    (unknown : segment.tableSegment.findIdx? (fun other => other.tableName = tableName) = none) :
    ∀ definition ∈ segment.tableSegment, definition.tableName ≠ tableName := by
  intro definition member name
  have none' := List.findIdx?_eq_none_iff.mp unknown definition member
  rw [name] at none'
  simp at none'

/-- A call that goes to the feature of a table. -/
theorem Serving.goes {Result : Type} {tableName : Bytes} {index : Nat}
    {definition : Schema.TableDef} {file : SMDPageFile}
    (serving : Serving segment state tableName index definition file) (otherwise : Result)
    (call : DataFeature → SMDPageManagement Device →
      Except Fault (Result × DataFeature × SMDPageManagement Device)) :
    segment.onTable tableName otherwise call = (do
      let (result, feature, mgr) ← call ⟨definition, some file⟩ segment.pPageManagement
      .ok (result, { segment with
        Features := segment.Features.set index feature, pPageManagement := mgr })) := by
  unfold onTable
  rw [serving.place]
  simp only
  rw [serving.feature]

/-- The data segment behind a call that turned the segment object of one table. -/
theorem Over.turned (aligned : Over segment state) {tableName : Bytes} {index : Nat}
    {definition : Schema.TableDef} {file : SMDPageFile}
    (serving : Serving segment state tableName index definition file) (next : SMDPageFile)
    (mgr : SMDPageManagement Device) :
    Over { segment with
        Features := segment.Features.set index ⟨definition, some next⟩
        pPageManagement := mgr } (state.after (dataKey tableName) next mgr) := by
  refine ⟨rfl, by rw [List.length_set]; exact aligned.lengths, fun place other known => ?_,
    aligned.distinct⟩
  by_cases here : index = place
  · rw [← here] at known
    rw [serving.known] at known
    cases known
    refine ⟨next, ?_, by rw [serving.name]; exact Segments.after_files_self ..⟩
    rw [← here, List.getElem?_set_self (List.getElem?_eq_some_iff.mp serving.feature).1]
  · obtain ⟨held, feature, opened⟩ := aligned.each place other known
    refine ⟨held, by rw [List.getElem?_set_ne here]; exact feature, ?_⟩
    rw [Segments.after_files_other]
    · exact opened
    · intro same
      refine here (aligned.distinct index place _ _ serving.known known ?_)
      rw [serving.name]
      exact (congrArg PageKey_t.sTableName same).symm

/-- The data segment with one more table. -/
theorem Over.added (aligned : Over segment state) {p : Schema.TableDef} (file : SMDPageFile)
    (mgr : SMDPageManagement Device)
    (fresh : ∀ definition ∈ segment.tableSegment, definition.tableName ≠ p.tableName) :
    Over ⟨segment.tableSegment ++ [p], segment.Features ++ [⟨p, some file⟩], mgr⟩
      (state.after (dataKey p.tableName) file mgr) := by
  have cases' : ∀ {index definition}, (segment.tableSegment ++ [p])[index]? = some definition →
      segment.tableSegment[index]? = some definition ∨
        index = segment.tableSegment.length ∧ definition = p := by
    intro index definition known
    by_cases inside : index < segment.tableSegment.length
    · rw [List.getElem?_append_left inside] at known
      exact Or.inl known
    · rw [List.getElem?_append_right (by omega), List.getElem?_singleton] at known
      split at known
      · cases known
        exact Or.inr ⟨by omega, rfl⟩
      · cases known
  refine ⟨rfl, by rw [List.length_append, List.length_append, aligned.lengths]; rfl, ?_, ?_⟩
  · intro index definition known
    rcases cases' known with old | ⟨rfl, rfl⟩
    · obtain ⟨held, feature, opened⟩ := aligned.each index definition old
      refine ⟨held, ?_, ?_⟩
      · rw [List.getElem?_append_left (List.getElem?_eq_some_iff.mp feature).1, feature]
      · rw [Segments.after_files_other]
        · exact opened
        · exact fun same => fresh definition (List.mem_of_getElem? old)
            (congrArg PageKey_t.sTableName same)
    · refine ⟨file, ?_, Segments.after_files_self ..⟩
      rw [← aligned.lengths]
      exact List.getElem?_concat_length
  · intro index other first second firstAt secondAt same
    rcases cases' firstAt with old | ⟨rfl, rfl⟩ <;> rcases cases' secondAt with old' | ⟨rfl, rfl⟩
    · exact aligned.distinct index other first second old old' same
    · exact absurd same (fresh first (List.mem_of_getElem? old))
    · exact absurd same.symm (fresh second (List.mem_of_getElem? old'))
    · rfl

/-- The segment object of a table that is defined. -/
theorem Over.opens (aligned : Over segment state) {tableName : Bytes}
    (present : ∃ definition ∈ segment.tableSegment, definition.tableName = tableName) :
    ∃ file, state.files (dataKey tableName) = some file := by
  obtain ⟨definition, member, rfl⟩ := present
  obtain ⟨index, known⟩ := List.mem_iff_getElem?.mp member
  obtain ⟨file, _, opened⟩ := aligned.each index definition known
  exact ⟨file, opened⟩

/-- A call that a feature answers without its segment. -/
theorem Over.unmoved {segment : SMDDataSegment Device} {state : Segments Device}
    (aligned : segment.Over state) {tableName : Bytes} {index : Nat} {definition : Schema.TableDef}
    {file : SMDPageFile} (serving : Serving segment state tableName index definition file) :
    Over { segment with Features := segment.Features.set index ⟨definition, some file⟩ } state := by
  have turned := aligned.turned serving file state.mgr
  rw [Segments.after_self _ _ _ serving.opened, ← aligned.mgr] at turned
  exact turned

end SMDDataSegment

end LevelDBLib.KvDB
