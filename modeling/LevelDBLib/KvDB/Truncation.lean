/-
This file is about records that are read from a stream cut short. `Record::read`
asks once whether the stream has any bytes and looks at no result of the reads
behind that, so every stream but the empty one counts as a record. Fields that
the stream does not reach read as the empty string or zero, the same as if they
had been written so. In a table with a VAR_INT every record ends where the reader
of that field locks the record a second time.
-/

import LevelDBLib.KvDB.RecordCodec

namespace LevelDBLib.KvDB

/-- `DataFeature::getRecord`, on the stream that `get` has filled: NULL where `read` returns
false. -/
def DataFeature.getRecord (tableStruct : TableDef) (stream : SMDMemStream) :
    Except Fault (Option Record) := do
  let (complete, record, _) ← (Record.new tableStruct).read stream
  .ok (if complete then some record else none)

/-! ### Reads behind the end of the stream -/

namespace SMDMemStream

/-- The stream stands at its end, and not so close to 2^32 that a number behind it wraps around. -/
def Ended (stream : SMDMemStream) : Prop :=
  stream.pos = stream.data.length ∧ stream.data.length + 8 < 4294967296

variable {stream : SMDMemStream}

theorem Ended.readBytes (ended : stream.Ended) (sz : Nat) (some : 0 < sz) (few : sz ≤ 8) :
    stream.readBytes sz = .ok (none, stream) := by
  obtain ⟨last, small⟩ := ended
  have size : stream.size = stream.data.length := uint_of_lt _ (by omega)
  rw [SMDMemStream.readBytes, size, uint_add_of_lt _ _ (by omega), if_pos (by omega)]

theorem Ended.readNothing (ended : stream.Ended) :
    stream.readBytes 0 = .ok (some [], stream) := by
  obtain ⟨last, small⟩ := ended
  have size : stream.size = stream.data.length := uint_of_lt _ (by omega)
  rw [SMDMemStream.readBytes, size, uint_add_of_lt _ _ (by omega), if_neg (by omega),
    fetch_of_le _ _ _ (by omega), Buffers.slice_zero]
  rfl

theorem Ended.readShort (ended : stream.Ended) : stream.readShort = .ok (none, stream) := by
  rw [SMDMemStream.readShort, ended.readBytes 2 (by decide) (by decide)]
  rfl

theorem Ended.readInt (ended : stream.Ended) : stream.readInt = .ok (none, stream) := by
  rw [SMDMemStream.readInt, ended.readBytes 4 (by decide) (by decide)]
  rfl

theorem Ended.readLong (ended : stream.Ended) : stream.readLong = .ok (none, stream) := by
  rw [SMDMemStream.readLong, ended.readBytes 8 (by decide) (by decide)]
  rfl

theorem Ended.readStr (ended : stream.Ended) : readStr stream = .ok ([], stream) := by
  rw [KvDB.readStr, readString, ended.readInt]
  simp only [ok_bind]
  rfl

end SMDMemStream

/-- What a field of the column holds after a read that found nothing. -/
def FieldType.blank : FieldType → Value
  | .text _ | .varText | .binary _ | .varBinary => .bytes []
  | .float => .float 0
  | .double => .double 0
  | .flDouble _ => .fixed 0
  | .varInt _ => .varInt 0
  | .short => .short 0
  | .int => .int 0
  | .long => .long 0

theorem clear_malloc (length : BitVec 32) (possible : 0 ≤ length.toInt) :
    clear (malloc length.toInt) length.toInt =
      .ok (some ⟨length.toInt.toNat, List.replicate length.toInt.toNat 0⟩) := by
  have count : length.toInt = (length.toInt.toNat : Int) := by omega
  rw [malloc, if_neg (by omega)]
  conv => lhs; rw [count]
  rw [Int.toNat_natCast, clear_eq, List.drop_nil, List.append_nil]

/-- A field of a column that can hold a value, read behind the end of the stream. -/
theorem Field.read_ended {column : FieldType} {field : Field} {value : Value}
    (holds : Field.Holds column field value) {stream : SMDMemStream} (ended : stream.Ended)
    (single : column.isVarInt = false) :
    ∃ result, (Field.init column).read .taken stream = .ok (result, stream) ∧
      Field.Holds column result column.blank := by
  have short (length : Int) (possible : 0 ≤ length) : (if 0 < length then 0 else length) = 0 := by
    split <;> omega
  cases holds with
  | @text length stored value held inside =>
    have possible : 0 ≤ length.toInt := by omega
    refine ⟨.text ⟨length.toInt, 0,
      some ⟨length.toInt.toNat, List.replicate length.toInt.toNat 0⟩⟩, ?_, .text ⟨rfl, rfl⟩ possible⟩
    simp only [Field.init, Field.read, clear_malloc length possible, ok_bind, ended.readStr,
      List.length_nil, Int.natCast_zero, short _ possible, List.take_nil, store]
  | varText held small => exact ⟨.varText ⟨0, 0, some ⟨0, []⟩⟩,
      by simp only [Field.init, Field.read, ended.readStr, ok_bind]; rfl,
      .varText ⟨rfl, rfl⟩ (by decide)⟩
  | @binary length stored value held inside =>
    have possible : 0 ≤ length.toInt := by omega
    refine ⟨.binary ⟨length.toInt, 0,
      some ⟨length.toInt.toNat, List.replicate length.toInt.toNat 0⟩⟩, ?_,
      .binary ⟨rfl, rfl⟩ possible⟩
    have read : stream.readBytes (uint (if 0 < length.toInt then 0 else length.toInt)) =
        .ok (some [], stream) := by
      rw [short _ possible]
      exact ended.readNothing
    rw [Field.init, Field.read, clear_malloc length possible, ok_bind, ended.readInt, ok_bind]
    refine (congrArg (· >>= _) read).trans ?_
    show Except.ok (Field.binary ⟨_, if 0 < length.toInt then 0 else length.toInt, _⟩, stream) = _
    rw [short _ possible]
  | varBinary held small =>
    refine ⟨.varBinary ⟨0, 0, some ⟨0, []⟩⟩, ?_, .varBinary ⟨rfl, rfl⟩ (by decide)⟩
    simp only [Field.init, Field.read, ended.readInt, ok_bind, Option.elim_none]
    rw [show uint 0 = 0 from rfl, ended.readNothing]
    rfl
  | float => exact ⟨.float 0, by simp only [Field.init, Field.read, ended.readInt, ok_bind,
      Option.getD_none], .float⟩
  | double => exact ⟨.double 0, by simp only [Field.init, Field.read, ended.readLong, ok_bind,
      Option.getD_none], .double⟩
  | @flDouble scale _ => exact ⟨.flDouble scale.toInt 0, by simp only [Field.init, Field.read,
      ended.readLong, ok_bind, Option.getD_none], .flDouble⟩
  | varInt => cases single
  | short => exact ⟨.short 0, by simp only [Field.init, Field.read, ended.readShort, ok_bind,
      Option.getD_none], .short⟩
  | int => exact ⟨.int 0, by simp only [Field.init, Field.read, ended.readInt, ok_bind,
      Option.getD_none], .int⟩
  | long => exact ⟨.long 0, by simp only [Field.init, Field.read, ended.readLong, ok_bind,
      Option.getD_none], .long⟩

/-- The fields behind the end of the stream. -/
theorem readFields_ended {columns : List FieldType} {fields : List Field} {values : List Value}
    (holds : HoldAll columns fields values) {stream : SMDMemStream} (ended : stream.Ended)
    (readable : ∀ column ∈ columns, column.isVarInt = false) :
    ∃ results, readFields .taken (columns.map Field.init) stream = .ok (results, stream) ∧
      HoldAll columns results (columns.map FieldType.blank) := by
  induction holds with
  | nil => exact ⟨[], rfl, .nil⟩
  | cons first _ hypothesis =>
    obtain ⟨result, read, resultHolds⟩ :=
      Field.read_ended first ended (readable _ List.mem_cons_self)
    obtain ⟨results, readOthers, resultsHold⟩ :=
      hypothesis fun column member => readable column (List.mem_cons_of_mem _ member)
    refine ⟨result :: results, ?_, .cons resultHolds resultsHold⟩
    rw [List.map_cons, readFields, read, ok_bind]
    simp only [readOthers, ok_bind]

/-! ### Records cut short -/

theorem readFields_append {front back fields others : List Field}
    {stream middle next : SMDMemStream} {m_lock : NaviLock}
    (read : readFields m_lock front stream = .ok (fields, middle))
    (behind : readFields m_lock back middle = .ok (others, next)) :
    readFields m_lock (front ++ back) stream = .ok (fields ++ others, next) := by
  induction front generalizing stream fields with
  | nil =>
    cases read
    exact behind
  | cons field front hypothesis =>
    obtain ⟨⟨result, after⟩, first, rest⟩ := (bind_eq_ok _ _ _).mp read
    obtain ⟨⟨results, last⟩, second, equal⟩ := (bind_eq_ok _ _ _).mp rest
    cases equal
    rw [List.cons_append, readFields, first, ok_bind]
    simp only [hypothesis second, ok_bind, List.cons_append]

theorem HoldAll.append {columns others : List FieldType} {fields rest : List Field}
    {values more : List Value} (front : HoldAll columns fields values)
    (back : HoldAll others rest more) :
    HoldAll (columns ++ others) (fields ++ rest) (values ++ more) := by
  induction front with
  | nil => exact back
  | cons first _ hypothesis => exact .cons first hypothesis

/-- A row cut between two fields is read as the row with blanks in the place of the others. -/
theorem Record.read_cut {front back : List FieldType} {fields others : List Field}
    {values more : List Value} (byGroup : Bool)
    (readable : TableDef.Readable ⟨front ++ back, byGroup⟩) (held : HoldAll front fields values)
    (lost : HoldAll back others more) (some : front ≠ [])
    (small : (rowImage values).length + 8 < 4294967296) :
    ∃ record next, (Record.new ⟨front ++ back, byGroup⟩).read ⟨rowImage values, 0⟩ =
        .ok (true, record, next) ∧
      record.Holds ⟨front ++ back, byGroup⟩ (values ++ back.map FieldType.blank) := by
  have start : SMDMemStream.Holds ⟨rowImage values, 0⟩ (rowImage values ++ []) :=
    ⟨by dsimp only; omega, Nat.zero_le _, (List.append_nil _).symm⟩
  obtain ⟨results, next, read, ⟨_, inside, after⟩, _, resultsHold⟩ := @readFields_holds .taken _ _ _ _
    (List.forall₂_map_right_iff.mpr (List.forall₂_same.mpr fun column _ => Field.init_fits column))
    held (fun column member varInt => absurd varInt
      (by simp [readable column (List.mem_append_left _ member)])) _ [] start
  have same := data_readFields read
  obtain ⟨data, pos⟩ := next
  dsimp only at same inside after
  subst same
  have last : pos = (rowImage values).length :=
    Nat.le_antisymm inside (List.drop_eq_nil_iff.mp after)
  have ended : SMDMemStream.Ended ⟨rowImage values, pos⟩ := ⟨last, small⟩
  obtain ⟨blanks, readBlanks, blanksHold⟩ :=
    readFields_ended lost ended fun column member => readable column (List.mem_append_right _ member)
  refine ⟨⟨⟨front ++ back, byGroup⟩, results ++ blanks⟩, ⟨rowImage values, pos⟩, ?_, rfl,
    resultsHold.append blanksHold⟩
  have filled : (SMDMemStream.size ⟨rowImage values, 0⟩) ≠ 0 := by
    have image : rowImage values ≠ [] := by
      cases held with
      | nil => exact absurd rfl some
      | @cons _ _ value _ _ values _ _ =>
        rw [rowImage_cons]
        exact List.append_ne_nil_of_left_ne_nil value.image_ne_nil _
    exact SMDMemStream.size_ne_zero_of_holds image start
  rw [Record.read_eq, if_neg filled, Record.new, List.map_append, readFields_append read readBlanks,
    ok_bind]

theorem HoldAll.split {columns : List FieldType} {fields : List Field} {values : List Value}
    (holds : HoldAll columns fields values) (count : Nat) :
    HoldAll (columns.take count) (fields.take count) (values.take count) ∧
      HoldAll (columns.drop count) (fields.drop count) (values.drop count) := by
  induction holds generalizing count with
  | nil => simp only [List.take_nil, List.drop_nil, and_self, HoldAll.nil]
  | cons first others hypothesis =>
    cases count with
    | zero => exact ⟨.nil, .cons first others⟩
    | succ count => exact ⟨.cons first (hypothesis count).1, (hypothesis count).2⟩

/-- `read` returns false, if it returns, for the empty stream only. -/
theorem Record.read_rejects_iff (record : Record) (cut : Bytes) (small : cut.length < 4294967296) :
    (∃ result next, record.read ⟨cut, 0⟩ = .ok (false, result, next)) ↔ cut = [] := by
  have size : SMDMemStream.size ⟨cut, 0⟩ = cut.length := uint_of_lt _ small
  constructor
  · rintro ⟨result, next, read⟩
    rw [Record.read_eq, size] at read
    split at read
    · rename_i empty
      exact List.length_eq_zero_iff.mp empty
    · obtain ⟨_, _, equal⟩ := (bind_eq_ok _ _ _).mp read
      cases equal
  · intro empty
    subst empty
    exact ⟨record, ⟨[], 0⟩, rfl⟩

/-- `getRecord` returns NULL for the empty stream only. -/
theorem DataFeature.getRecord_null_iff (tableStruct : TableDef) (cut : Bytes)
    (small : cut.length < 4294967296) :
    DataFeature.getRecord tableStruct ⟨cut, 0⟩ = .ok none ↔ cut = [] := by
  rw [← Record.read_rejects_iff (Record.new tableStruct) cut small]
  constructor
  · intro null
    obtain ⟨⟨complete, record, next⟩, read, equal⟩ := (bind_eq_ok _ _ _).mp null
    cases complete with
    | true => cases equal
    | false => exact ⟨record, next, read⟩
  · rintro ⟨record, next, read⟩
    rw [DataFeature.getRecord, read, ok_bind]
    rfl

/-- Truncated records: of all byte strings that a stream can hold, the cut encodings among them,
`read` rejects the empty one only, and only there does `getRecord` return NULL. Without a VAR_INT an
encoding that is cut between two fields makes a record with blanks in the place of the missing
values; with one, nothing but the empty string is ever answered. -/
theorem truncated_rejected_iff (tableStruct : TableDef) (cut : Bytes)
    (small : cut.length < 4294967296) :
    ((∃ record next, (Record.new tableStruct).read ⟨cut, 0⟩ = .ok (false, record, next)) ↔
      cut = []) ∧
    (DataFeature.getRecord tableStruct ⟨cut, 0⟩ = .ok none ↔ cut = []) ∧
    (tableStruct.Readable → ∀ (record : Record) (values : List Value) (count : Nat),
      record.Holds tableStruct values → 0 < count → count < tableStruct.FieldSet.length →
      cut = rowImage (values.take count) → cut.length + 8 < 4294967296 →
      ∃ result, DataFeature.getRecord tableStruct ⟨cut, 0⟩ = .ok (some result) ∧
        result.Holds tableStruct
          (values.take count ++ (tableStruct.FieldSet.drop count).map FieldType.blank)) ∧
    (¬ tableStruct.Readable → cut ≠ [] →
      ∃ fault, DataFeature.getRecord tableStruct ⟨cut, 0⟩ = .error fault) := by
  refine ⟨Record.read_rejects_iff _ cut small, DataFeature.getRecord_null_iff _ cut small, ?_, ?_⟩
  · intro readable record values count holds positive inside cutEq plain
    obtain ⟨front, back⟩ := holds.fields.split count
    have some' : tableStruct.FieldSet.take count ≠ [] := by
      rw [← List.length_pos_iff, List.length_take]
      omega
    have readable' : TableDef.Readable ⟨tableStruct.FieldSet.take count ++
        tableStruct.FieldSet.drop count, tableStruct.IsSaveByGroup⟩ := by
      rw [List.take_append_drop]
      exact readable
    obtain ⟨result, next, read, resultHolds⟩ := Record.read_cut tableStruct.IsSaveByGroup readable'
      front back some' (by rw [← cutEq]; exact plain)
    rw [List.take_append_drop, ← cutEq] at read
    rw [List.take_append_drop] at resultHolds
    refine ⟨result, ?_, resultHolds⟩
    rw [DataFeature.getRecord, show Record.new tableStruct = Record.new ⟨tableStruct.FieldSet,
      tableStruct.IsSaveByGroup⟩ from rfl, read, ok_bind]
    rfl
  · intro unreadable some
    have size : SMDMemStream.size ⟨cut, 0⟩ = cut.length := uint_of_lt _ small
    have filled : SMDMemStream.size ⟨cut, 0⟩ ≠ 0 := by
      rw [size]
      exact fun empty => some (List.length_eq_zero_iff.mp empty)
    obtain ⟨fault, failed⟩ := Record.read_locked unreadable filled
    exact ⟨fault, by rw [DataFeature.getRecord, failed]; rfl⟩

/-- A record of an INT and a SHORT, cut behind the INT. -/
theorem truncated_rejected_once :
    (DataFeature.getRecord ⟨[.int, .short], false⟩ ⟨[0, 0, 1, 2], 0⟩ = .ok none ↔
      ([0, 0, 1, 2] : Bytes) = []) ∧
    ∃ result, DataFeature.getRecord ⟨[.int, .short], false⟩ ⟨[0, 0, 1, 2], 0⟩ = .ok (some result) ∧
      result.Holds ⟨[.int, .short], false⟩ [.int 258, .short 0] := by
  have rejected := truncated_rejected_iff ⟨[.int, .short], false⟩ [0, 0, 1, 2] (by decide)
  exact ⟨rejected.2.1, rejected.2.2.1 (by decide) ⟨⟨[.int, .short], false⟩, [.int 258, .short 7]⟩
    [.int 258, .short 7] 1 ⟨rfl, .cons .int (.cons .short .nil)⟩ (by decide) (by decide) (by decide)
    (by decide)⟩

/-- One byte of the four that an INT of 258 is written as makes a record, with the INT as it was
before. -/
theorem truncated_accepted :
    Record.write ⟨⟨[.int], false⟩, [.int 258]⟩ (SMDMemStream.new 0) =
      .ok ⟨[0] ++ [0, 1, 2], 4⟩ ∧
    (Record.new ⟨[.int], false⟩).read ⟨[0], 0⟩ =
      .ok (true, ⟨⟨[.int], false⟩, [.int 0]⟩, ⟨[0], 0⟩) ∧
    DataFeature.getRecord ⟨[.int], false⟩ ⟨[0], 0⟩ =
      .ok (some ⟨⟨[.int], false⟩, [.int 0]⟩) := by
  decide

end LevelDBLib.KvDB
