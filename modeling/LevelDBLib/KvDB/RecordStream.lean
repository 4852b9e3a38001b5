/-
This file settles the codec of records. A record comes from its constructor through
any calls of its setters; once every field was set, it holds a row of values, unless
the size of a text did not fit an `int`. A list of such records written one behind the
other is read back into fresh records, value by value and to the last byte of the
stream, exactly when the table has columns and none of them is a VAR_INT, whose reader
locks the record that is being read a second time.
-/

import Mathlib.Algebra.GroupWithZero.Nat
import LevelDBLib.Library.Runs
import LevelDBLib.KvDB.RecordCodec

namespace LevelDBLib.KvDB

open Runs

/-- A setter of `Record` with its arguments. -/
inductive Setter where
  | setFieldShort (value : BitVec 16)
  | setFieldInteger (value : BitVec 32) (flag : Bool)
  | setFieldLong (value : BitVec 64) (flag : Bool)
  | setFieldFloat (value : BitVec 32)
  | setFieldDouble (value : BitVec 64)
  | setFieldFLDouble (value : BitVec 64)
  | setFieldBinary (buffer : Bytes) (size : BitVec 32)
  | setFieldString (str : Bytes)
deriving DecidableEq, Repr

section Setters

variable [FloatingPoint]

def Field.set (field : Field) (column : FieldType) : Setter → Except Fault (Bool × Field)
  | .setFieldShort value => .ok (field.setFieldShort value)
  | .setFieldInteger value flag => .ok (field.setFieldInteger column value flag)
  | .setFieldLong value flag => .ok (field.setFieldLong column value flag)
  | .setFieldFloat value => .ok (field.setFieldFloat value)
  | .setFieldDouble value => .ok (field.setFieldDouble value)
  | .setFieldFLDouble value => .ok (field.setFieldFLDouble value)
  | .setFieldBinary buffer size => field.setFieldBinary buffer size
  | .setFieldString str => field.setFieldString str

/-- A setter at an index, after the check of `IsOverFlow`. -/
def Record.set (record : Record) (call : Int × Setter) : Except Fault (Bool × Record) :=
  if call.1 < 0 then .ok (false, record)
  else match record.tableStruct.FieldSet[call.1.toNat]?, record.Fields[call.1.toNat]? with
    | some column, some field => do
      let (returned, field) ← field.set column call.2
      .ok (returned, { record with Fields := record.Fields.set call.1.toNat field })
    | _, _ => .ok (false, record)

end Setters

def FieldType.isText : FieldType → Bool
  | .text _ | .varText => true
  | _ => false

/-- A text has no NUL within its size. -/
def Setter.Plain (column : FieldType) : Setter → Prop
  | .setFieldString str => column.isText → 0 ∉ str
  | .setFieldBinary buffer size => column.isText → 0 ∉ buffer.take size.toInt.toNat
  | _ => True

/-! ### What a setter leaves behind -/

/-- A text whose size did not fit an `int`. -/
def Field.Negative : Field → Prop
  | .text stored => stored.nLength < 0
  | _ => False

instance (field : Field) : Decidable field.Negative :=
  match field with
  | .text stored => inferInstanceAs (Decidable (stored.nLength < 0))
  | .varText _ | .binary _ | .varBinary _ | .float _ | .double _ | .flDouble _ _ | .varInt _ _
  | .short _ | .int _ | .long _ => isFalse id

/-- A field of a column after a setter that returned true. -/
def Field.IsSet (column : FieldType) (field : Field) : Prop :=
  (∃ value, Field.Holds column field value) ∨ field.Negative

theorem copyString_ne_nil {n : Int} {source copied : Bytes} (some : n ≠ 0)
    (copy : copyString n source = .ok copied) : copied ≠ [] := by
  cases source with
  | nil =>
    rw [copyString, if_neg some] at copy
    cases copy
  | cons char rest =>
    rw [copyString, if_neg some] at copy
    split at copy
    · cases copy
      exact List.cons_ne_nil _ _
    · obtain ⟨_, _, equal⟩ := (bind_eq_ok _ _ _).mp copy
      cases equal
      exact List.cons_ne_nil _ _

/-- The copy reaches every character in front of the first NUL. -/
theorem copyString_prefix {n : Int} {source copied : Bytes} (count : Nat)
    (bound : (count : Int) ≤ n) (plain : 0 ∉ source.take count)
    (copy : copyString n source = .ok copied) :
    count ≤ copied.length ∧ copied.take count = source.take count := by
  induction source generalizing n count copied with
  | nil =>
    cases count with
    | zero => exact ⟨Nat.zero_le _, rfl⟩
    | succ count =>
      rw [copyString, if_neg (by omega)] at copy
      cases copy
  | cons char rest hypothesis =>
    cases count with
    | zero => exact ⟨Nat.zero_le _, rfl⟩
    | succ count =>
      rw [copyString, if_neg (by omega)] at copy
      rw [List.take_succ_cons, List.mem_cons, not_or] at plain
      rw [if_neg (Ne.symm plain.1)] at copy
      obtain ⟨others, later, equal⟩ := (bind_eq_ok _ _ _).mp copy
      cases equal
      obtain ⟨long, same⟩ := hypothesis count (by omega) plain.2 later
      rw [List.length_cons, List.take_succ_cons, List.take_succ_cons]
      exact ⟨by omega, by rw [same]⟩

theorem given_eq {buffer bytes : Bytes} {count : Int} (taken : given buffer count = .ok bytes) :
    (bytes.length : Int) = count := by
  unfold given fetch at taken
  split at taken
  · cases taken
  · split at taken
    · cases taken
      rw [Buffers.length_slice _ _ _ (by omega)]
      omega
    · cases taken

theorem setVarInt_holds (head : Option (BitVec 32)) {data : Bytes} (five : data.length = 5)
    (value : BitVec 32) : Field.Fits (.varInt head) (Field.setVarInt data value) ∧
      ∃ held, Field.Holds (.varInt head) (Field.setVarInt data value) held := by
  have written := length_varIntWrite value
  refine ⟨.varInt ?_, .varInt value, .varInt⟩
  rw [List.length_append, List.length_drop]
  omega

theorem setFieldBinary_sets {column : FieldType} {field : Field} {buffer : Bytes}
    {size : BitVec 32} {outcome : Bool × Field} (fits : Field.Fits column field)
    (returned : field.setFieldBinary buffer size = .ok outcome) :
    Field.Fits column outcome.2 ∧ (outcome.1 = true →
      (column.isText → 0 ∉ buffer.take size.toInt.toNat) → Field.IsSet column outcome.2) := by
  have bound := @BitVec.toInt_lt 32 size
  cases fits with
  | @text length stored fieldSize room =>
    obtain ⟨copied, copy, rest⟩ := (bind_eq_ok _ _ _).mp returned
    obtain ⟨block, storeEq, equal⟩ := (bind_eq_ok _ _ _).mp rest
    cases equal
    refine ⟨.text fieldSize (store_ofRoom room storeEq), fun _ plain => ?_⟩
    have possible : 0 ≤ length.toInt := by
      by_contra negative
      rw [OfRoom, if_pos (by omega), Option.map_eq_none_iff] at room
      have some := copyString_ne_nil (by omega) copy
      rw [room] at storeEq
      cases copied with
      | nil => exact some rfl
      | cons _ _ => cases storeEq
    by_cases nonneg : 0 ≤ size.toInt
    swap
    · refine .inr ?_
      show (if size.toInt < stored.nFieldSize then size.toInt else stored.nFieldSize) < 0
      split <;> omega
    obtain ⟨count, countEq⟩ : ∃ count : Nat, (if size.toInt < stored.nFieldSize then size.toInt
        else stored.nFieldSize) = count := Int.eq_ofNat_of_zero_le (by split <;> omega)
    have within : (count : Int) ≤ stored.nFieldSize ∧ (count : Int) ≤ size.toInt := by
      rw [← countEq]
      split <;> omega
    have clean : 0 ∉ buffer.take count := by
      have shorter := List.take_take (l := buffer) (i := count) (j := size.toInt.toNat)
      rw [Nat.min_eq_left (by omega)] at shorter
      rw [← shorter]
      exact fun member => plain rfl (List.mem_of_mem_take member)
    obtain ⟨long, same⟩ := copyString_prefix count within.1 clean copy
    have loaded := load_store storeEq count long
    have lengthEq : (copied.take count).length = count := by rw [List.length_take]; omega
    refine .inl ⟨.bytes (copied.take count), .text ⟨?_, ?_⟩ (by omega)⟩
    · rw [lengthEq]
      exact countEq
    · rw [lengthEq]
      exact loaded
  | varText =>
    obtain ⟨copied, copy, rest⟩ := (bind_eq_ok _ _ _).mp returned
    obtain ⟨block, storeEq, equal⟩ := (bind_eq_ok _ _ _).mp rest
    cases equal
    refine ⟨.varText, fun _ plain => ?_⟩
    have nonneg : 0 ≤ size.toInt := by
      by_contra negative
      have some := copyString_ne_nil (by omega) copy
      rw [malloc, if_pos (by omega)] at storeEq
      cases copied with
      | nil => exact some rfl
      | cons _ _ => cases storeEq
    obtain ⟨long, same⟩ := copyString_prefix size.toInt.toNat (by omega) (plain rfl) copy
    have loaded := load_store storeEq size.toInt.toNat long
    have lengthEq : (copied.take size.toInt.toNat).length = size.toInt.toNat := by
      rw [List.length_take]
      omega
    refine .inl ⟨.bytes (copied.take size.toInt.toNat), .varText ⟨?_, ?_⟩ (by omega)⟩
    · rw [lengthEq, Int.toNat_of_nonneg nonneg]
    · rw [lengthEq]
      exact loaded
  | @binary length stored fieldSize room =>
    obtain ⟨block, clearEq, rest⟩ := (bind_eq_ok _ _ _).mp returned
    obtain ⟨copied, taken, rest⟩ := (bind_eq_ok _ _ _).mp rest
    obtain ⟨next, storeEq, equal⟩ := (bind_eq_ok _ _ _).mp rest
    cases equal
    refine ⟨.binary fieldSize (store_ofRoom (clear_ofRoom room clearEq) storeEq),
      fun _ _ => .inl ⟨.bytes copied, .binary ⟨(given_eq taken).symm, load_stored storeEq⟩ ?_⟩⟩
    rw [given_eq taken]
    split <;> omega
  | varBinary =>
    obtain ⟨copied, taken, rest⟩ := (bind_eq_ok _ _ _).mp returned
    obtain ⟨next, storeEq, equal⟩ := (bind_eq_ok _ _ _).mp rest
    cases equal
    have lengthEq := given_eq taken
    exact ⟨.varBinary, fun _ _ => .inl ⟨.bytes copied,
      .varBinary ⟨lengthEq.symm, load_stored storeEq⟩ (by omega)⟩⟩
  | float | double | flDouble | varInt _ | short | int | long =>
    cases returned
    exact ⟨by constructor <;> assumption, fun impossible => by cases impossible⟩

section Runs

variable [FloatingPoint]

theorem setFieldInteger_sets {column : FieldType} {field : Field} (fits : Field.Fits column field)
    (value : BitVec 32) (flag : Bool) :
    Field.Fits column (field.setFieldInteger column value flag).2 ∧
      ((field.setFieldInteger column value flag).1 = true →
        ∃ held, Field.Holds column (field.setFieldInteger column value flag).2 held) := by
  cases fits with
  | @varInt head nCount data five =>
    cases head with
    | none => exact ⟨(setVarInt_holds none five _).1, fun _ => (setVarInt_holds none five _).2⟩
    | some head =>
      rw [Field.setFieldInteger]
      split
      · exact ⟨(setVarInt_holds _ five _).1, fun _ => (setVarInt_holds _ five _).2⟩
      · exact ⟨(setVarInt_holds _ five _).1, fun _ => (setVarInt_holds _ five _).2⟩
  | int => exact ⟨.int, fun _ => ⟨_, .int⟩⟩
  | _ => exact ⟨by constructor <;> assumption, fun impossible => by cases impossible⟩

theorem setFieldLong_sets {column : FieldType} {field : Field} (fits : Field.Fits column field)
    (value : BitVec 64) (flag : Bool) :
    Field.Fits column (field.setFieldLong column value flag).2 ∧
      ((field.setFieldLong column value flag).1 = true →
        ∃ held, Field.Holds column (field.setFieldLong column value flag).2 held) := by
  cases fits with
  | @varInt head nCount data five =>
    cases head with
    | none => exact ⟨(setVarInt_holds none five _).1, fun _ => (setVarInt_holds none five _).2⟩
    | some head =>
      rw [Field.setFieldLong]
      split
      · exact ⟨(setVarInt_holds _ five _).1, fun _ => (setVarInt_holds _ five _).2⟩
      · exact ⟨(setVarInt_holds _ five _).1, fun _ => (setVarInt_holds _ five _).2⟩
  | long => exact ⟨.long, fun _ => ⟨_, .long⟩⟩
  | _ => exact ⟨by constructor <;> assumption, fun impossible => by cases impossible⟩

/-- Every setter keeps the memory of the field in shape, and one that returns true leaves a
value. -/
theorem Field.Fits.set {column : FieldType} {field : Field} (fits : Field.Fits column field)
    (setter : Setter) {outcome : Bool × Field} (returned : field.set column setter = .ok outcome) :
    Field.Fits column outcome.2 ∧ (outcome.1 = true → setter.Plain column →
      Field.IsSet column outcome.2) := by
  cases setter with
  | setFieldBinary buffer size => exact setFieldBinary_sets fits returned
  | setFieldString str =>
    have sets := setFieldBinary_sets fits returned
    refine ⟨sets.1, fun done plain => sets.2 done fun text => ?_⟩
    have within : (BitVec.ofNat 32 str.length).toInt.toNat ≤ str.length := by
      have wrapped := Nat.mod_le str.length (2 ^ 32)
      rw [BitVec.toInt_eq_toNat_cond, BitVec.toNat_ofNat]
      split <;> omega
    rw [List.take_append_of_le_length within]
    exact fun member => plain text (List.mem_of_mem_take member)
  | setFieldInteger value flag =>
    cases returned
    have sets := setFieldInteger_sets fits value flag
    exact ⟨sets.1, fun done _ => .inl (sets.2 done)⟩
  | setFieldLong value flag =>
    cases returned
    have sets := setFieldLong_sets fits value flag
    exact ⟨sets.1, fun done _ => .inl (sets.2 done)⟩
  | setFieldShort value | setFieldFloat value | setFieldDouble value | setFieldFLDouble value =>
    cases returned
    cases fits <;>
      first
      | exact ⟨by constructor <;> assumption, fun _ _ => .inl ⟨_, by constructor⟩⟩
      | exact ⟨by constructor <;> assumption, fun impossible => by cases impossible⟩

theorem Field.set_refused {column : FieldType} {field next : Field} {setter : Setter}
    (returned : field.set column setter = .ok (false, next)) : next = field := by
  cases setter with
  | setFieldShort value | setFieldFloat value | setFieldDouble value | setFieldFLDouble value =>
    cases field <;> cases returned <;> rfl
  | setFieldInteger value flag =>
    change Except.ok (field.setFieldInteger column value flag) = Except.ok (false, next) at returned
    unfold Field.setFieldInteger at returned
    split at returned
    · cases returned
    · cases flag <;> cases returned
    · cases returned
    · cases returned
      rfl
  | setFieldLong value flag =>
    change Except.ok (field.setFieldLong column value flag) = Except.ok (false, next) at returned
    unfold Field.setFieldLong at returned
    split at returned
    · cases returned
    · cases flag <;> cases returned
    · cases returned
    · cases returned
      rfl
  | setFieldBinary buffer size | setFieldString str =>
    cases field with
    | text stored | varText stored | varBinary stored =>
      obtain ⟨_, _, rest⟩ := (bind_eq_ok _ _ _).mp returned
      obtain ⟨_, _, equal⟩ := (bind_eq_ok _ _ _).mp rest
      cases equal
    | binary stored =>
      obtain ⟨_, _, rest⟩ := (bind_eq_ok _ _ _).mp returned
      obtain ⟨_, _, rest⟩ := (bind_eq_ok _ _ _).mp rest
      obtain ⟨_, _, equal⟩ := (bind_eq_ok _ _ _).mp rest
      cases equal
    | _ =>
      cases returned
      rfl

/-- A setter call counts in a run of a record when its arguments are plain for its column. -/
def PlainCall (_ : History (Int × Setter) Bool) (record : Record) (call : Int × Setter) : Prop :=
  ∀ column, record.tableStruct.FieldSet[call.1.toNat]? = some column → call.2.Plain column

/-- A record of a table that went through calls of its setters, every field having been set. -/
def AllSet (tableStruct : TableDef) (record : Record) : Prop :=
  ∃ history, Run Record.set PlainCall (Record.new tableStruct) history record ∧
    ∀ index < tableStruct.FieldSet.length, ∃ setter, (((index : Int), setter), true) ∈ history

/-- What a run of setters keeps: every field fits its column, and those set are so. -/
structure Setting (tableStruct : TableDef) (history : History (Int × Setter) Bool)
    (record : Record) : Prop where
  table : record.tableStruct = tableStruct
  count : record.Fields.length = tableStruct.FieldSet.length
  each : ∀ (index : Nat) (column : FieldType) (field : Field), tableStruct.FieldSet[index]? = some column →
      record.Fields[index]? = some field → Field.Fits column field ∧
      ((∃ setter, (((index : Int), setter), true) ∈ history) → Field.IsSet column field)

omit [FloatingPoint] in
theorem Setting.new (tableStruct : TableDef) : Setting tableStruct [] (Record.new tableStruct) where
  table := rfl
  count := List.length_map _
  each := by
    intro index column field columnAt fieldAt
    rw [Record.new, List.getElem?_map, columnAt] at fieldAt
    cases fieldAt
    refine ⟨Field.init_fits column, ?_⟩
    rintro ⟨_, member⟩
    cases member

theorem Setting.step {tableStruct : TableDef} {history : History (Int × Setter) Bool}
    {record after : Record} {call : Int × Setter} {returned : Bool}
    (setting : Setting tableStruct history record) (plain : PlainCall history record call)
    (set : record.set call = .ok (returned, after)) :
    Setting tableStruct ((call, returned) :: history) after := by
  have unchanged (field : Field) (column : FieldType) (index : Nat)
      (columnAt : tableStruct.FieldSet[index]? = some column)
      (fieldAt : record.Fields[index]? = some field)
      (other : returned = true → call.1 ≠ index) : Field.Fits column field ∧
        ((∃ setter, (((index : Int), setter), true) ∈ (call, returned) :: history) →
          Field.IsSet column field) := by
    have before := setting.each index column field columnAt fieldAt
    refine ⟨before.1, fun ⟨setter, member⟩ => ?_⟩
    rcases List.mem_cons.mp member with equal | earlier
    · exact absurd (congrArg (fun entry => entry.1.1) equal).symm
        (other (congrArg (fun entry => entry.2) equal).symm)
    · exact before.2 ⟨setter, earlier⟩
  unfold Record.set at set
  split at set
  · cases set
    exact ⟨setting.table, setting.count, fun index column field columnAt fieldAt =>
      unchanged field column index columnAt fieldAt (fun impossible => by cases impossible)⟩
  · rename_i nonneg
    rw [setting.table] at set
    split at set
    · rename_i column field columnAt fieldAt
      obtain ⟨⟨done, next⟩, setField, equal⟩ := (bind_eq_ok _ _ _).mp set
      cases equal
      refine ⟨rfl, by rw [List.length_set]; exact setting.count, ?_⟩
      intro index other held otherAt heldAt
      by_cases same : index = call.1.toNat
      · subst same
        have inside : call.1.toNat < record.Fields.length := (List.getElem?_eq_some_iff.mp fieldAt).1
        rw [List.getElem?_set_self inside] at heldAt
        cases heldAt
        rw [columnAt] at otherAt
        cases otherAt
        have sets := (setting.each _ _ _ columnAt fieldAt).1.set call.2 setField
        refine ⟨sets.1, fun set => ?_⟩
        cases returned with
        | true => exact sets.2 rfl (plain column (by rw [setting.table]; exact columnAt))
        | false =>
          rw [Field.set_refused setField]
          exact (unchanged field column _ columnAt fieldAt (fun impossible => by cases impossible)).2
            set
      · rw [List.getElem?_set_ne (Ne.symm same)] at heldAt
        exact unchanged held other index otherAt heldAt (fun _ => by omega)
    · cases set
      exact ⟨setting.table, setting.count, fun index column field columnAt fieldAt =>
        unchanged field column index columnAt fieldAt (fun impossible => by cases impossible)⟩

omit [FloatingPoint] in
theorem holdAll_of_each {columns : List FieldType} {fields : List Field}
    (count : fields.length = columns.length)
    (each : ∀ (index : Nat) (column : FieldType) (field : Field), columns[index]? = some column →
      fields[index]? = some field → ∃ value, Field.Holds column field value) :
    ∃ values, HoldAll columns fields values := by
  induction columns generalizing fields with
  | nil =>
    rw [List.length_eq_zero_iff.mp count]
    exact ⟨[], .nil⟩
  | cons column columns hypothesis =>
    cases fields with
    | nil => cases count
    | cons field fields =>
      obtain ⟨value, first⟩ := each 0 column field rfl rfl
      obtain ⟨values, others⟩ := hypothesis (Nat.succ.inj count)
        fun index column field columnAt fieldAt => each (index + 1) column field columnAt fieldAt
      exact ⟨value :: values, .cons first others⟩

/-- Every field set, the record holds a row of values if no text has a negative length. -/
theorem AllSet.holds {tableStruct : TableDef} {record : Record} (set : AllSet tableStruct record)
    (counted : ∀ field ∈ record.Fields, ¬ field.Negative) :
    ∃ values, record.Holds tableStruct values := by
  obtain ⟨history, run, complete⟩ := set
  have setting := run.invariant (Setting tableStruct) (Setting.new tableStruct)
    fun _ _ _ _ _ setting plain returned => setting.step plain returned
  obtain ⟨values, holds⟩ := holdAll_of_each setting.count
    fun index column field columnAt fieldAt =>
      ((setting.each index column field columnAt fieldAt).2
        (complete index (List.getElem?_eq_some_iff.mp columnAt).1)).resolve_right
          (counted field (List.mem_of_getElem? fieldAt))
  exact ⟨values, setting.table, holds⟩

/-! ### Records one behind the other -/

end Runs

/-- The records written one after another. -/
def writeRecords : List Record → SMDMemStream → Except Fault SMDMemStream
  | [], stream => .ok stream
  | record :: records, stream => do
    let stream ← record.write stream
    writeRecords records stream

/-- `count` fresh records of a table read one after another, with what `read` returned. -/
def readRecords (tableStruct : TableDef) :
    Nat → SMDMemStream → Except Fault (List (Bool × Record) × SMDMemStream)
  | 0, stream => .ok ([], stream)
  | count + 1, stream => do
    let (returned, record, stream) ← (Record.new tableStruct).read stream
    let (others, stream) ← readRecords tableStruct count stream
    .ok ((returned, record) :: others, stream)

/-- The value of every field of a record. -/
def Record.stored (record : Record) : Except Fault (List Value) := record.Fields.mapM Field.stored

/-- The bytes a field takes in a stream. -/
def Field.imageSize : Field → Nat
  | .text stored | .varText stored | .binary stored | .varBinary stored =>
    4 + stored.nLength.toNat
  | .float _ | .int _ => 4
  | .double _ | .flDouble _ _ | .long _ => 8
  | .varInt nCount _ => nCount
  | .short _ => 2

def Record.imageSize (record : Record) : Nat := (record.Fields.map Field.imageSize).sum

theorem Field.Holds.imageSize {column : FieldType} {field : Field} {value : Value}
    (holds : Field.Holds column field value) : field.imageSize = value.image.length := by
  cases holds with
  | text held _ | varText held _ | binary held _ | varBinary held _ =>
    rw [Field.imageSize, held.1, Int.toNat_natCast, Value.image, SMDMemStream.stringBytes,
      List.length_append, SMDValue.length_putInt]
  | _ => rfl

theorem HoldAll.imageSize {columns : List FieldType} {fields : List Field} {values : List Value}
    (holds : HoldAll columns fields values) :
    (fields.map Field.imageSize).sum = (rowImage values).length := by
  induction holds with
  | nil => rfl
  | cons first _ hypothesis =>
    rw [List.map_cons, List.sum_cons, rowImage_cons, List.length_append, first.imageSize, hypothesis]

/-- Records with the rows they hold. -/
def HoldRows (tableStruct : TableDef) (records : List Record) (rows : List (List Value)) : Prop :=
  List.Forall₂ (Record.Holds tableStruct) records rows

theorem writeRecords_appends {tableStruct : TableDef} {records : List Record}
    {rows : List (List Value)} (holds : HoldRows tableStruct records rows) :
    SMDMemStream.Appends (writeRecords records) (rows.flatMap rowImage) := by
  induction holds with
  | nil => exact SMDMemStream.Appends.none
  | cons first _ hypothesis =>
    rw [List.flatMap_cons]
    exact first.write.bind hypothesis

theorem HoldAll.empty {columns : List FieldType} {fields : List Field} {values : List Value}
    (holds : HoldAll columns fields values) (none : columns = []) : values = [] := by
  cases holds with
  | nil => rfl
  | cons => cases none

theorem HoldRows.empty {tableStruct : TableDef} {records : List Record} {rows : List (List Value)}
    (holds : HoldRows tableStruct records rows) (columns : tableStruct.FieldSet = []) :
    rows.flatMap rowImage = [] := by
  induction holds with
  | nil => rfl
  | cons first _ hypothesis =>
    have row := first.fields.empty columns
    rw [List.flatMap_cons, hypothesis, row]
    rfl

theorem imageSize_rows {tableStruct : TableDef} {records : List Record}
    {rows : List (List Value)} (holds : HoldRows tableStruct records rows) :
    (records.map Record.imageSize).sum = (rows.flatMap rowImage).length := by
  induction holds with
  | nil => rfl
  | cons first _ hypothesis =>
    rw [List.map_cons, List.sum_cons, List.flatMap_cons, List.length_append, hypothesis,
      Record.imageSize, first.fields.imageSize]

theorem stored_rows {tableStruct : TableDef} {records : List Record} {rows : List (List Value)}
    (holds : HoldRows tableStruct records rows) :
    records.map Record.stored = rows.map Except.ok := by
  induction holds with
  | nil => rfl
  | cons first _ hypothesis =>
    rw [List.map_cons, List.map_cons, hypothesis, Record.stored, first.fields.stored]

/-- A row of a table with columns is never empty, so a stream that holds one is not either. -/
theorem size_ne_zero {stream : SMDMemStream} {columns : List FieldType} {fields : List Field}
    {values : List Value} (some : columns ≠ []) (holds : HoldAll columns fields values)
    (rest : Bytes) (held : stream.Holds (rowImage values ++ rest)) : stream.size ≠ 0 := by
  refine SMDMemStream.size_ne_zero_of_holds ?_ held
  cases holds with
  | nil => exact absurd rfl some
  | @cons _ _ value _ _ values _ _ =>
    rw [rowImage_cons]
    exact List.append_ne_nil_of_left_ne_nil value.image_ne_nil _

theorem readRecords_holds {tableStruct : TableDef} {records : List Record}
    {rows : List (List Value)} (columns : tableStruct.FieldSet ≠ [])
    (readable : tableStruct.Readable)
    (holds : HoldRows tableStruct records rows) (stream : SMDMemStream) (rest : Bytes)
    (held : stream.Holds (rows.flatMap rowImage ++ rest)) :
    ∃ results next, readRecords tableStruct records.length stream =
        .ok (results.map (fun result => (true, result)), next) ∧ next.Holds rest ∧
      next.data = stream.data ∧ HoldRows tableStruct results rows := by
  induction holds generalizing stream with
  | nil => exact ⟨[], stream, rfl, held, rfl, .nil⟩
  | cons first _ hypothesis =>
    rw [List.flatMap_cons, List.append_assoc] at held
    obtain ⟨result, middle, read, middleHolds, middleData, resultHolds⟩ :=
      Record.read_holds readable first stream _ (size_ne_zero columns first.fields _ held) held
    obtain ⟨results, next, later, nextHolds, nextData, resultsHold⟩ :=
      hypothesis middle middleHolds
    refine ⟨result :: results, next, ?_, nextHolds, by rw [nextData, middleData],
      .cons resultHolds resultsHold⟩
    rw [List.length_cons, readRecords, read, ok_bind]
    simp only [later, ok_bind, List.map_cons]

/-- A text of a negative length is not written. -/
theorem writeFields_negative {fields : List Field} {field : Field} (member : field ∈ fields)
    (negative : field.Negative) (stream : SMDMemStream) :
    ∃ fault, writeFields fields stream = .error fault := by
  have written (stream : SMDMemStream) : ∃ fault, field.write stream = .error fault := by
    cases field with
    | text stored =>
      have loaded : ∃ fault, load stored.buffer stored.nLength = .error fault := by
        have below : stored.nLength < 0 := negative
        unfold load
        rw [if_neg (by omega)]
        cases stored.buffer with
        | none => exact ⟨_, rfl⟩
        | some block => exact ⟨.outOfBounds, if_pos (.inl below)⟩
      obtain ⟨fault, failed⟩ := loaded
      rw [Field.write]
      cases stream.writeInt (BitVec.ofInt 32 stored.nLength) with
      | error fault => exact ⟨fault, rfl⟩
      | ok next => exact ⟨fault, by rw [ok_bind, failed]; rfl⟩
    | _ => exact negative.elim
  induction fields generalizing stream with
  | nil => cases member
  | cons first fields hypothesis =>
    rw [writeFields]
    rcases List.mem_cons.mp member with equal | later
    · obtain ⟨fault, failed⟩ := written stream
      exact ⟨fault, by rw [← equal, failed]; rfl⟩
    · cases first.write stream with
      | error fault => exact ⟨fault, rfl⟩
      | ok next =>
        rw [ok_bind]
        exact hypothesis later next

theorem writeRecords_negative {records : List Record} {record : Record} (member : record ∈ records)
    {field : Field} (inside : field ∈ record.Fields) (negative : field.Negative)
    (stream : SMDMemStream) : ∃ fault, writeRecords records stream = .error fault := by
  induction records generalizing stream with
  | nil => cases member
  | cons first records hypothesis =>
    rw [writeRecords]
    rcases List.mem_cons.mp member with equal | later
    · obtain ⟨fault, failed⟩ := writeFields_negative inside negative stream
      exact ⟨fault, by rw [← equal, Record.write, failed]; rfl⟩
    · cases first.write stream with
      | error fault => exact ⟨fault, rfl⟩
      | ok next =>
        rw [ok_bind]
        exact hypothesis later next

/-- The records that are read back: there are columns, none of them a VAR_INT, the lengths of the
texts are no negative `int`, and the stream holds what is written. -/
def ReadBack (tableStruct : TableDef) (records : List Record) : Prop :=
  records = [] ∨ tableStruct.FieldSet ≠ [] ∧ tableStruct.Readable ∧
    (∀ record ∈ records, ∀ field ∈ record.Fields, ¬ field.Negative) ∧
    (records.map Record.imageSize).sum < 4294967296

instance (tableStruct : TableDef) (records : List Record) : Decidable (ReadBack tableStruct records) :=
  inferInstanceAs (Decidable (_ ∨ _))

/-- The records are written one behind the other and read back: each `read` returns true, the stream
is used up, and every field holds the value it held. -/
def RoundTrip (tableStruct : TableDef) (records : List Record) : Prop :=
  ∃ (stream : SMDMemStream) (results : List Record) (rows : List (List Value)),
    writeRecords records (SMDMemStream.new 0) = .ok stream ∧
    readRecords tableStruct records.length ⟨stream.data, 0⟩ =
      .ok (results.map (fun result => (true, result)), ⟨stream.data, stream.data.length⟩) ∧
    records.map Record.stored = rows.map Except.ok ∧
    results.map Record.stored = rows.map Except.ok

theorem holdRows_of_set [FloatingPoint] {tableStruct : TableDef} {records : List Record}
    (set : ∀ record ∈ records, AllSet tableStruct record)
    (counted : ∀ record ∈ records, ∀ field ∈ record.Fields, ¬ field.Negative) :
    ∃ rows, HoldRows tableStruct records rows := by
  induction records with
  | nil => exact ⟨[], .nil⟩
  | cons record records hypothesis =>
    obtain ⟨values, first⟩ :=
      (set record List.mem_cons_self).holds (counted record List.mem_cons_self)
    obtain ⟨rows, others⟩ := hypothesis (fun other member => set other (List.mem_cons_of_mem _ member))
      (fun other member => counted other (List.mem_cons_of_mem _ member))
    exact ⟨values :: rows, .cons first others⟩

/-- Rows that fit the stream are read back where `read` does not lock twice. -/
theorem HoldRows.roundTrip {tableStruct : TableDef} {records : List Record}
    {rows : List (List Value)} (holds : HoldRows tableStruct records rows)
    (columns : tableStruct.FieldSet ≠ []) (readable : tableStruct.Readable)
    (small : (records.map Record.imageSize).sum < 4294967296) : RoundTrip tableStruct records := by
  have size := imageSize_rows holds
  have written := writeRecords_appends holds [] (by decide)
  rw [SMDMemStream.appended_of_lt _ _ (by rw [List.length_nil]; omega), List.nil_append,
    List.length_nil, Nat.zero_add] at written
  have held : SMDMemStream.Holds ⟨rows.flatMap rowImage, 0⟩ (rows.flatMap rowImage ++ []) :=
    ⟨by dsimp only; omega, Nat.zero_le _, (List.append_nil _).symm⟩
  obtain ⟨results, next, read, ⟨_, inside, after⟩, nextData, resultsHold⟩ :=
    readRecords_holds columns readable holds _ [] held
  obtain ⟨data, pos⟩ := next
  dsimp only at inside after nextData
  subst nextData
  have last : pos = (rows.flatMap rowImage).length :=
    Nat.le_antisymm inside (List.drop_eq_nil_iff.mp after)
  rw [last] at read
  exact ⟨_, results, rows, written, read, stored_rows holds, stored_rows resultsHold⟩

/-- The first of some records is read from a stream that is not empty, and not locked twice. -/
theorem read_of_readRecords {tableStruct : TableDef} {count : Nat} {stream next : SMDMemStream}
    {results : List Record} (read : readRecords tableStruct (count + 1) stream =
      .ok (results.map (fun result => (true, result)), next)) :
    stream.size ≠ 0 ∧ tableStruct.Readable := by
  have some : stream.size ≠ 0 := by
    intro empty
    rw [readRecords, Record.read_eq, if_pos empty, ok_bind] at read
    obtain ⟨_, _, equal⟩ := (bind_eq_ok _ _ _).mp read
    cases results with
    | nil => cases equal
    | cons result results => cases equal
  refine ⟨some, by_contra fun unreadable => ?_⟩
  obtain ⟨fault, failed⟩ := Record.read_locked unreadable some
  rw [readRecords, failed] at read
  cases read

/-- Records of a table, every field set, are read back exactly under the condition. -/
theorem records_read_back [FloatingPoint] (tableStruct : TableDef) (records : List Record)
    (set : ∀ record ∈ records, AllSet tableStruct record) :
    RoundTrip tableStruct records ↔ ReadBack tableStruct records := by
  constructor
  · rintro ⟨stream, results, _, written, read, -, -⟩
    have counted : ∀ record ∈ records, ∀ field ∈ record.Fields, ¬ field.Negative := by
      intro record member field inside negative
      obtain ⟨fault, failed⟩ := writeRecords_negative member inside negative (SMDMemStream.new 0)
      rw [failed] at written
      cases written
    obtain ⟨rows, holds⟩ := holdRows_of_set set counted
    cases records with
    | nil => exact .inl rfl
    | cons record records =>
      obtain ⟨some, readable⟩ := read_of_readRecords read
      have appends := (writeRecords_appends holds [] (by decide)).symm.trans written
      rw [SMDMemStream.appended, List.length_nil, Nat.zero_add, List.nil_append] at appends
      split at appends
      · rename_i small
        cases appends
        refine .inr ⟨fun none => some ?_, readable, counted, by rw [imageSize_rows holds]; exact small⟩
        rw [holds.empty none]
        rfl
      · cases appends
  · rintro (none | ⟨columns, readable, counted, small⟩)
    · subst none
      exact ⟨SMDMemStream.new 0, [], [], rfl, rfl, rfl, rfl⟩
    · obtain ⟨rows, holds⟩ := holdRows_of_set set counted
      exact holds.roundTrip columns readable small

/-! ### Where reading back ends -/

/-- The doubles 0.0 and 1.0 and their integers; a platform without other numbers. -/
@[reducible] def zeroAndOne : FloatingPoint where
  addFloat first second := if first = 0 then second else first
  subFloat first second := if second = 0 then first else 0
  addDouble first second := if first = 0 then second else first
  subDouble first second := if second = 0 then first else 0
  toFixed value _ := if value = 0x3FF0000000000000 then 1 else 0
  ofFixed stored _ := if stored = 1 then 0x3FF0000000000000 else 0
  relative value _ := value.setWidth 32
  absolute value _ := value

/-- A record of a text, a LONG and an FLDOUBLE after one call of each setter. -/
def sampleRecord : Record :=
  ⟨⟨[.text 3, .long, .flDouble 0], false⟩,
    [.text ⟨3, 2, some ⟨3, [65, 66, 0]⟩⟩, .long (-300), .flDouble 0 1]⟩

theorem sampleRecord_set : @AllSet zeroAndOne sampleRecord.tableStruct sampleRecord := by
  have text : @Record.set zeroAndOne (Record.new sampleRecord.tableStruct)
      (0, .setFieldString [65, 66]) = .ok (true, ⟨sampleRecord.tableStruct,
        [.text ⟨3, 2, some ⟨3, [65, 66, 0]⟩⟩, .long 0, .flDouble 0 0]⟩) := by
    decide
  have long : @Record.set zeroAndOne ⟨sampleRecord.tableStruct,
        [.text ⟨3, 2, some ⟨3, [65, 66, 0]⟩⟩, .long 0, .flDouble 0 0]⟩
      (1, .setFieldLong (-300) true) = .ok (true, ⟨sampleRecord.tableStruct,
        [.text ⟨3, 2, some ⟨3, [65, 66, 0]⟩⟩, .long (-300), .flDouble 0 0]⟩) := by
    decide
  have flDouble : @Record.set zeroAndOne ⟨sampleRecord.tableStruct,
        [.text ⟨3, 2, some ⟨3, [65, 66, 0]⟩⟩, .long (-300), .flDouble 0 0]⟩
      (2, .setFieldFLDouble 0x3FF0000000000000) = .ok (true, sampleRecord) := by
    decide
  refine ⟨_, ((Run.start.step ?_ text).step ?_ long).step ?_ flDouble, ?_⟩
  · intro column columnAt
    cases columnAt
    exact fun _ => by decide
  · exact fun _ _ => trivial
  · exact fun _ _ => trivial
  · intro index inside
    match index, inside with
    | 0, _ => exact ⟨_, List.mem_cons_of_mem _ (List.mem_cons_of_mem _ List.mem_cons_self)⟩
    | 1, _ => exact ⟨_, List.mem_cons_of_mem _ List.mem_cons_self⟩
    | 2, _ => exact ⟨_, List.mem_cons_self⟩

theorem records_read_back_once :
    RoundTrip sampleRecord.tableStruct [sampleRecord, sampleRecord] :=
  (@records_read_back zeroAndOne sampleRecord.tableStruct [sampleRecord, sampleRecord]
    (fun record member => by
      have equal : record = sampleRecord := by simpa using member
      rw [equal]
      exact sampleRecord_set)).mpr (by decide)

/-- A VAR_INT is set and written; reading it locks the fresh record twice. -/
theorem records_not_read_back :
    @AllSet zeroAndOne ⟨[.varInt none], false⟩ ⟨⟨[.varInt none], false⟩, [.varInt 1 [10, 0, 0, 0, 0]]⟩ ∧
      writeRecords [⟨⟨[.varInt none], false⟩, [.varInt 1 [10, 0, 0, 0, 0]]⟩] (SMDMemStream.new 0) =
        .ok ⟨[10], 1⟩ ∧
      readRecords ⟨[.varInt none], false⟩ 1 ⟨[10], 0⟩ = .error .deadlock := by
  have set : @Record.set zeroAndOne (Record.new ⟨[.varInt none], false⟩) (0, .setFieldInteger 5 true) =
      .ok (true, ⟨⟨[.varInt none], false⟩, [.varInt 1 [10, 0, 0, 0, 0]]⟩) := by
    decide
  have plain : PlainCall [] (Record.new ⟨[.varInt none], false⟩) (0, .setFieldInteger 5 true) :=
    fun _ _ => trivial
  refine ⟨⟨_, Run.start.step plain set, ?_⟩, by decide, by decide⟩
  intro index inside
  match index, inside with
  | 0, _ => exact ⟨_, List.mem_cons_self⟩

end LevelDBLib.KvDB
