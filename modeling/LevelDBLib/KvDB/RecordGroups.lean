/-
This file settles the codec of groups. A group is sent as its first record whole and
every later one as the difference to the record before it; the reader adds the
differences up. Integers come back whatever they overflow, since both sides count
modulo the width of the type. Three kinds of value do not: an FLDOUBLE, which neither
`subRecord` nor `addRecord` stores, comes back as zero, a text with a NUL in front
of its last byte leaves memory in the difference that nobody wrote, and the members
that read and compare a VAR_INT lock their record twice.
-/

import LevelDBLib.KvDB.RecordStream

namespace LevelDBLib.KvDB

open Runs

/-! ### Copying a text -/

/-- A text up to its first NUL. -/
def cut : Bytes → Bytes
  | [] => []
  | char :: rest => if char = 0 then [0] else char :: cut rest

theorem copyString_all (text rest : Bytes) :
    copyString text.length (text ++ rest) = .ok (cut text) := by
  induction text with
  | nil => cases rest <;> rfl
  | cons char text hypothesis =>
    rw [List.length_cons, List.cons_append, copyString, if_neg (by omega), cut]
    split
    · rfl
    · rw [Int.natCast_succ, Int.add_sub_cancel, hypothesis, ok_bind]

/-- With room to spare the terminator is copied as well. -/
theorem copyString_terminated (text : Bytes) (n : Int) (room : (text.length : Int) < n) :
    copyString n (text ++ [0]) = .ok (cut (text ++ [0])) := by
  induction text generalizing n with
  | nil => rw [List.nil_append, copyString, if_neg (by rw [List.length_nil] at room; omega)]; rfl
  | cons char text hypothesis =>
    rw [List.length_cons] at room
    rw [List.cons_append, copyString, if_neg (by omega), cut]
    split
    · rfl
    · rw [hypothesis (n - 1) (by omega), ok_bind]

theorem cut_of_clean {text : Bytes} (clean : 0 ∉ text.dropLast) : cut text = text := by
  induction text with
  | nil => rfl
  | cons char text hypothesis =>
    cases text with
    | nil =>
      rw [cut]
      split
      · rename_i zero
        rw [zero]
      · rfl
    | cons next text =>
      rw [List.dropLast_cons_cons, List.mem_cons, not_or] at clean
      rw [cut, if_neg (Ne.symm clean.1), hypothesis clean.2]

theorem length_cut_le (text : Bytes) : (cut text).length ≤ text.length := by
  induction text with
  | nil => exact Nat.le_refl _
  | cons char text hypothesis =>
    rw [cut]
    split
    · exact Nat.succ_le_succ (Nat.zero_le _)
    · exact Nat.succ_le_succ hypothesis

theorem length_cut_lt {text : Bytes} (nul : 0 ∈ text.dropLast) :
    (cut text).length < text.length := by
  induction text with
  | nil => exact absurd nul List.not_mem_nil
  | cons char text hypothesis =>
    cases text with
    | nil => exact absurd nul List.not_mem_nil
    | cons next text =>
      rw [List.dropLast_cons_cons, List.mem_cons] at nul
      rw [cut]
      split
      · simp
      · rename_i some
        exact Nat.succ_lt_succ (hypothesis (nul.resolve_left (Ne.symm some)))

theorem cut_append_of_mem {text : Bytes} (nul : 0 ∈ text) (rest : Bytes) :
    cut (text ++ rest) = cut text := by
  induction text with
  | nil => exact absurd nul List.not_mem_nil
  | cons char text hypothesis =>
    rw [List.cons_append, cut, cut]
    split
    · rfl
    · rename_i some
      rw [hypothesis ((List.mem_cons.mp nul).resolve_left (Ne.symm some))]

theorem cut_append_of_notMem {text : Bytes} (clean : 0 ∉ text) (rest : Bytes) :
    cut (text ++ rest) = text ++ cut rest := by
  induction text with
  | nil => rfl
  | cons char text hypothesis =>
    rw [List.mem_cons, not_or] at clean
    rw [List.cons_append, cut, if_neg (Ne.symm clean.1), hypothesis clean.2, List.cons_append]

/-- The text that `getFieldAsString` hands to `setFieldString`: cut, and padded with NULs. -/
def resent (value : Bytes) : Bytes :=
  cut value ++ List.replicate (value.length - (cut value).length) 0

theorem length_resent (value : Bytes) : (resent value).length = value.length := by
  have shorter := length_cut_le value
  rw [resent, List.length_append, List.length_replicate]
  omega

theorem resent_of_clean {value : Bytes} (clean : 0 ∉ value.dropLast) : resent value = value := by
  rw [resent, cut_of_clean clean, Nat.sub_self, List.replicate_zero, List.append_nil]

theorem cut_cut (text : Bytes) : cut (cut text) = cut text := by
  induction text with
  | nil => rfl
  | cons char text hypothesis =>
    rw [cut]
    split
    · rfl
    · rename_i some
      rw [cut, if_neg some, hypothesis]

theorem mem_cut {text : Bytes} (nul : 0 ∈ text) : 0 ∈ cut text := by
  induction text with
  | nil => exact absurd nul List.not_mem_nil
  | cons char text hypothesis =>
    rw [cut]
    split
    · exact List.mem_singleton_self 0
    · rename_i some
      exact List.mem_cons_of_mem _
        (hypothesis ((List.mem_cons.mp nul).resolve_left (Ne.symm some)))

/-- What `setFieldString` copies of a text that was read: all of it, or less than its length when
there was a NUL in front of its last byte. -/
theorem copyString_resent (value : Bytes) (n : Int) (room : (value.length : Int) ≤ n) :
    ∃ copied, copyString n (resent value ++ [0]) = .ok copied ∧ (copied.length : Int) ≤ n ∧
      (0 ∉ value.dropLast → value.length ≤ copied.length ∧
        copied.take value.length = value) ∧
      (0 ∈ value.dropLast → copied.length < value.length) := by
  have lengths := length_resent value
  have recut (nul : 0 ∈ value.dropLast) (rest : Bytes) : cut (resent value ++ rest) = cut value := by
    have inside : 0 ∈ cut value := mem_cut (List.dropLast_subset value nul)
    rw [resent, List.append_assoc, cut_append_of_mem inside, cut_cut]
  by_cases full : (value.length : Int) = n
  · have all := copyString_all (resent value) [0]
    rw [lengths, full] at all
    refine ⟨_, all, ?_, fun clean => ?_, fun nul => ?_⟩
    · have shorter := length_cut_le (resent value)
      omega
    · rw [resent_of_clean clean, cut_of_clean clean, List.take_length]
      exact ⟨Nat.le_refl _, rfl⟩
    · have same := recut nul []
      rw [List.append_nil] at same
      rw [same]
      exact length_cut_lt nul
  · refine ⟨_, copyString_terminated (resent value) n (by omega), ?_, fun clean => ?_,
      fun nul => ?_⟩
    · have shorter := length_cut_le (resent value ++ [0])
      rw [List.length_append, List.length_singleton] at shorter
      omega
    · rw [resent_of_clean clean]
      by_cases last : 0 ∈ value
      · rw [cut_append_of_mem last, cut_of_clean clean, List.take_length]
        exact ⟨Nat.le_refl _, rfl⟩
      · rw [cut_append_of_notMem last, List.length_append, List.take_left]
        exact ⟨Nat.le_add_right _ _, rfl⟩
    · rw [recut nul]
      exact length_cut_lt nul

/-! ### Differences -/

/-- The columns the group codec is meant for. -/
def FieldType.isGrouped : FieldType → Bool
  | .float | .double | .varInt (some _) => false
  | _ => true

/-- Those of them whose values reach the reader. -/
def FieldType.isSent : FieldType → Bool
  | .float | .double | .varInt _ => false
  | _ => true

/-- The value that `subRecord` sends for a value and the one before it. -/
def Value.difference : Value → Value → Value
  | .short mine, .short theirs => .short (mine - theirs)
  | .int mine, .int theirs => .int (mine - theirs)
  | .long mine, .long theirs => .long (mine - theirs)
  | .fixed _, _ => .fixed 0
  | mine, _ => mine

/-- The value that `addRecord` makes of a difference and the value before it. -/
def Value.sum : Value → Value → Value
  | .short mine, .short theirs => .short (mine + theirs)
  | .int mine, .int theirs => .int (mine + theirs)
  | .long mine, .long theirs => .long (mine + theirs)
  | mine, _ => mine

/-- What is left of a value: the integer of an FLDOUBLE is not. -/
def Value.left : Value → Value
  | .fixed _ => .fixed 0
  | value => value

/-- A text that `subRecord` can send: no NUL in front of its last byte. -/
def Value.Sendable (column : FieldType) : Value → Prop
  | .bytes value => column.isText → 0 ∉ value.dropLast
  | _ => True

instance (column : FieldType) (value : Value) : Decidable (value.Sendable column) := by
  cases value <;> unfold Value.Sendable <;> infer_instance

/-- A write that fails wherever the stream ends. -/
def Fails (write : SMDMemStream → Except Fault SMDMemStream) : Prop :=
  ∀ data : Bytes, data.length < 4294967296 → ∃ fault, write ⟨data, data.length⟩ = .error fault

theorem Fails.bind {first second : SMDMemStream → Except Fault SMDMemStream}
    (fails : Fails first) : Fails (fun stream => first stream >>= second) := by
  intro data small
  obtain ⟨fault, failed⟩ := fails data small
  exact ⟨fault, by dsimp only; rw [failed, error_bind]⟩

theorem bind_fails {first second : SMDMemStream → Except Fault SMDMemStream} {image : Bytes}
    (appends : SMDMemStream.Appends first image) (fails : Fails second) :
    Fails (fun stream => first stream >>= second) := by
  intro data small
  dsimp only
  rw [appends data small]
  by_cases fits : data.length + image.length < 4294967296
  · rw [SMDMemStream.appended_of_lt _ _ fits, ok_bind, ← List.length_append]
    exact fails _ (by rwa [List.length_append])
  · exact ⟨.outOfBounds, by rw [SMDMemStream.appended, if_neg fits, error_bind]⟩

/-- A text whose memory was not written up to its length. -/
theorem write_unwritten {stored : TextAndBinary} {count room : Nat} {written : Bytes}
    (nLength : stored.nLength = count) (buffer : stored.buffer = some ⟨room, written⟩)
    (inside : count ≤ room) (short : written.length < count) :
    Fails (fun stream => stream.writeInt (BitVec.ofInt 32 stored.nLength) >>=
      fun stream => load stored.buffer stored.nLength >>= fun bytes => stream.writeBytes bytes) := by
  have loaded : load stored.buffer stored.nLength = .error .uninitialised := by
    rw [nLength, buffer, load, if_neg (by omega)]
    simp only
    rw [if_neg (by omega), if_pos (by omega)]
  refine bind_fails (SMDMemStream.writeInt_appends _) fun data _ => ?_
  exact ⟨.uninitialised, by rw [loaded, error_bind]⟩

theorem textString_holds {stored : TextAndBinary} {value : Bytes} (held : stored.Holds value) :
    Field.textString stored = .ok (resent value) := by
  obtain ⟨nLength, loaded⟩ := held
  have copied (block : Block) (buffer : stored.buffer = some block) :
      copyString value.length block.written = .ok (cut value) := by
    cases value with
    | nil => cases block.written <;> rfl
    | cons char value =>
      rw [buffer, load, if_neg (by rw [List.length_cons]; omega)] at loaded
      split at loaded
      · cases loaded
      · split at loaded
        · cases loaded
        · have front := Except.ok.inj loaded
          rw [Int.toNat_natCast] at front
          have split := (List.take_append_drop (char :: value).length block.written).symm
          rw [front] at split
          rw [split]
          exact copyString_all _ _
  unfold Field.textString
  rw [if_neg (by omega), nLength]
  cases buffer : stored.buffer with
  | none =>
    rw [buffer] at loaded
    cases value with
    | nil => rfl
    | cons char value => cases loaded
  | some block =>
    simp only [copied block buffer, ok_bind, Int.toNat_natCast]
    rfl

theorem given_terminated (value : Bytes) : given (value ++ [0]) value.length = .ok value := by
  rw [given, if_neg (by omega), Int.toNat_natCast,
    fetch_of_le _ _ _ (by rw [List.length_append]; omega), Buffers.slice, List.drop_zero,
    List.take_left]

/-- A buffer into which a text was copied: whole, or cut at a NUL. -/
theorem copied_text {stored : TextAndBinary} {value copied : Bytes} {room : Nat}
    (nLength : stored.nLength = value.length)
    (stores : store (some ⟨room, []⟩) copied = .ok stored.buffer) (inside : value.length ≤ room)
    (clean : 0 ∉ value.dropLast → value.length ≤ copied.length ∧ copied.take value.length = value)
    (short : 0 ∈ value.dropLast → copied.length < value.length) :
    (0 ∉ value.dropLast → stored.Holds value) ∧
      (0 ∈ value.dropLast →
        Fails (fun stream => stream.writeInt (BitVec.ofInt 32 stored.nLength) >>=
          fun stream => load stored.buffer stored.nLength >>=
            fun bytes => stream.writeBytes bytes)) := by
  refine ⟨fun whole => ⟨nLength, ?_⟩, fun nul => ?_⟩
  · rw [load_store stores _ (clean whole).1, (clean whole).2]
  · have less := short nul
    rw [store_eq (by omega), List.drop_nil, List.append_nil] at stores
    exact write_unwritten nLength (Except.ok.inj stores).symm inside less

section Arithmetic

variable [FloatingPoint]

/-- What `subRecord` makes of a field: the difference of the values, or a text that cannot be
written. -/
theorem subField_sends {column : FieldType} {mine theirs : Field} {value before : Value}
    (sent : column.isSent = true) (holds : Field.Holds column mine value)
    (previous : Field.Holds column theirs before) :
    ∃ result, subField column mine theirs = .ok result ∧
      (value.Sendable column → Field.Holds column result (value.difference before)) ∧
      (¬ value.Sendable column → Fails result.write) := by
  cases holds with
  | @text length stored value held inside =>
    have bound := @BitVec.toInt_lt 32 length
    have size := toInt_ofNat_of_lt (show value.length < 2147483648 by omega)
    obtain ⟨copied, copyEq, room, clean, short⟩ := copyString_resent value length.toInt inside
    have storeEq := @store_eq length.toInt.toNat [] copied (by omega)
    have allocated : malloc length.toInt = some ⟨length.toInt.toNat, []⟩ := if_neg (by omega)
    have nLength : (if (value.length : Int) < length.toInt then (value.length : Int)
        else length.toInt) = value.length := by
      split <;> omega
    have outcome := @copied_text ⟨length.toInt, value.length, _⟩ value copied length.toInt.toNat rfl
      storeEq (by omega) clean short
    refine ⟨_, ?_, fun sendable => .text (outcome.1 (sendable rfl)) inside, fun nul => ?_⟩
    · rw [subField, Field.getFieldAsString, textString_holds held, ok_bind, Field.init,
        Field.setFieldString, Field.setFieldBinary]
      simp only [copyEq, allocated, storeEq, ok_bind, length_resent, size, nLength]
    · by_contra written
      exact nul fun _ member => written (outcome.2 member)
  | @varText stored value held small =>
    have size := toInt_ofNat_of_lt small
    obtain ⟨copied, copyEq, room, clean, short⟩ :=
      copyString_resent value value.length (Int.le_refl _)
    have storeEq := @store_eq value.length [] copied (by omega)
    have allocated : malloc value.length = some ⟨value.length, []⟩ := if_neg (by omega)
    have outcome := @copied_text ⟨value.length, value.length, _⟩ value copied value.length rfl
      storeEq (Nat.le_refl _) clean short
    refine ⟨_, ?_, fun sendable => .varText (outcome.1 (sendable rfl)) small, fun nul => ?_⟩
    · rw [subField, Field.getFieldAsString, textString_holds held, ok_bind, Field.init,
        Field.setFieldString, Field.setFieldBinary]
      simp only [length_resent, size, copyEq, allocated, storeEq, ok_bind]
    · by_contra written
      exact nul fun _ member => written (outcome.2 member)
  | @binary length stored value held inside =>
    have bound := @BitVec.toInt_lt 32 length
    have size := toInt_ofNat_of_lt (show value.length < 2147483648 by omega)
    obtain ⟨cleared, block, clearEq, storeEq, _⟩ := @store_cleared
      ⟨length.toInt, length.toInt, malloc length.toInt⟩ length value rfl (malloc_ofRoom _) inside
    have nLength : (if (value.length : Int) < length.toInt then (value.length : Int)
        else length.toInt) = value.length := by
      split <;> omega
    dsimp only at clearEq
    refine ⟨.binary ⟨length.toInt, value.length, block⟩, ?_,
      fun _ => .binary ⟨rfl, load_stored storeEq⟩ inside,
      fun impossible => absurd (fun text => by cases text) impossible⟩
    have string : Field.binaryString stored = .ok value := by
      rw [Field.binaryString, if_neg (by rw [held.1]; omega), held.load]
    rw [subField, Field.getFieldAsString, string, ok_bind, Field.init, Field.setFieldBinary]
    simp only [size, nLength, clearEq, given_terminated, storeEq, ok_bind]
  | @varBinary stored value held small =>
    have size := toInt_ofNat_of_lt small
    refine ⟨.varBinary ⟨0, value.length, some ⟨value.length, value⟩⟩, ?_,
      fun _ => .varBinary ⟨rfl, load_stored (store_malloc value)⟩ small,
      fun impossible => absurd (fun text => by cases text) impossible⟩
    have string : Field.binaryString stored = .ok value := by
      rw [Field.binaryString, if_neg (by rw [held.1]; omega), held.load]
    rw [subField, Field.getFieldAsString, string, ok_bind, Field.init, Field.setFieldBinary]
    simp only [size, given_terminated, store_malloc, ok_bind]
  | flDouble =>
    cases previous with
    | flDouble => exact ⟨_, rfl, fun _ => .flDouble, fun impossible => absurd trivial impossible⟩
  | varInt => cases sent
  | short =>
    cases previous with
    | short => exact ⟨_, rfl, fun _ => .short, fun impossible => absurd trivial impossible⟩
  | int =>
    cases previous with
    | int => exact ⟨_, rfl, fun _ => .int, fun impossible => absurd trivial impossible⟩
  | long =>
    cases previous with
    | long => exact ⟨_, rfl, fun _ => .long, fun impossible => absurd trivial impossible⟩
  | float => cases sent
  | double => cases sent

/-- What `addRecord` makes of a field. -/
theorem addField_holds {column : FieldType} {mine theirs : Field} {value before : Value}
    (sent : column.isSent = true) (holds : Field.Holds column mine value)
    (previous : Field.Holds column theirs before) :
    ∃ result, addField column mine theirs = .ok result ∧
      Field.Holds column result (value.sum before) := by
  cases holds with
  | text held inside => exact ⟨_, rfl, .text held inside⟩
  | varText held small => exact ⟨_, rfl, .varText held small⟩
  | binary held inside => exact ⟨_, rfl, .binary held inside⟩
  | varBinary held small => exact ⟨_, rfl, .varBinary held small⟩
  | flDouble =>
    cases previous with
    | flDouble => exact ⟨_, rfl, .flDouble⟩
  | varInt => cases sent
  | short =>
    cases previous with
    | short => exact ⟨_, rfl, .short⟩
  | int =>
    cases previous with
    | int => exact ⟨_, rfl, .int⟩
  | long =>
    cases previous with
    | long => exact ⟨_, rfl, .long⟩
  | float => cases sent
  | double => cases sent

omit [FloatingPoint] in
/-- A difference added to what is left of the value before it leaves what is left of the value. -/
theorem sum_difference {column : FieldType} {mine theirs found : Field}
    {value before held : Value} (sent : column.isSent = true)
    (holds : Field.Holds column mine value) (previous : Field.Holds column theirs before)
    (decoded : Field.Holds column found held) (same : held.left = before.left) :
    (value.difference before).sum held = value.left := by
  cases holds with
  | short =>
    cases previous
    cases decoded
    cases same
    exact congrArg Value.short (BitVec.sub_add_cancel _ _)
  | int =>
    cases previous
    cases decoded
    cases same
    exact congrArg Value.int (BitVec.sub_add_cancel _ _)
  | long =>
    cases previous
    cases decoded
    cases same
    exact congrArg Value.long (BitVec.sub_add_cancel _ _)
  | flDouble => rfl
  | float => cases sent
  | double => cases sent
  | _ => rfl

/-! ### Rows -/

/-- Every text of a row can be sent. -/
def SendableRow (columns : List FieldType) (row : List Value) : Prop :=
  List.Forall₂ (fun column value => Value.Sendable column value) columns row

theorem subFields_sends {columns : List FieldType} {fields others : List Field}
    {row before : List Value} (sent : ∀ column ∈ columns, column.isSent = true)
    (holds : HoldAll columns fields row) (previous : HoldAll columns others before) :
    ∃ results, subFields columns fields others = .ok results ∧
      (SendableRow columns row → HoldAll columns results (row.zipWith Value.difference before)) ∧
      (¬ SendableRow columns row → Fails (writeFields results)) := by
  induction holds generalizing others before with
  | nil => exact ⟨[], rfl, fun _ => .nil, fun impossible => absurd .nil impossible⟩
  | @cons column field value columns fields row first _ hypothesis =>
    cases previous with
    | @cons _ other earlier _ others before firstBefore othersBefore =>
      obtain ⟨result, made, whole, broken⟩ :=
        subField_sends (sent column List.mem_cons_self) first firstBefore
      obtain ⟨results, madeOthers, wholeOthers, brokenOthers⟩ :=
        hypothesis (fun column member => sent column (List.mem_cons_of_mem _ member))
          othersBefore
      refine ⟨result :: results, by rw [subFields, made, ok_bind, madeOthers, ok_bind],
        fun sendable => ?_, fun nul => ?_⟩
      · cases sendable with
        | cons sendable sendables => exact .cons (whole sendable) (wholeOthers sendables)
      · by_cases sendable : value.Sendable column
        · exact bind_fails (whole sendable).write
            (brokenOthers fun sendables => nul (.cons sendable sendables))
        · exact (broken sendable).bind

theorem addFields_holds {columns : List FieldType} {fields others : List Field}
    {row before : List Value} (sent : ∀ column ∈ columns, column.isSent = true)
    (holds : HoldAll columns fields row) (previous : HoldAll columns others before) :
    ∃ results, addFields columns fields others = .ok results ∧
      HoldAll columns results (row.zipWith Value.sum before) := by
  induction holds generalizing others before with
  | nil => exact ⟨[], rfl, .nil⟩
  | @cons column field value columns fields row first _ hypothesis =>
    cases previous with
    | cons firstBefore othersBefore =>
      obtain ⟨result, added, held⟩ :=
        addField_holds (sent column List.mem_cons_self) first firstBefore
      obtain ⟨results, addedOthers, heldOthers⟩ :=
        hypothesis (fun column member => sent column (List.mem_cons_of_mem _ member))
          othersBefore
      exact ⟨result :: results, by rw [addFields, added, ok_bind, addedOthers, ok_bind],
        .cons held heldOthers⟩

omit [FloatingPoint] in
theorem sum_differences {columns : List FieldType} {mine theirs found : List Field}
    {row before held : List Value} (sent : ∀ column ∈ columns, column.isSent = true)
    (holds : HoldAll columns mine row) (previous : HoldAll columns theirs before)
    (decoded : HoldAll columns found held) (same : held.map Value.left = before.map Value.left) :
    (row.zipWith Value.difference before).zipWith Value.sum held = row.map Value.left := by
  induction holds generalizing theirs found before held with
  | nil => rfl
  | @cons column field value columns fields row first _ hypothesis =>
    cases previous with
    | cons firstBefore othersBefore =>
      cases decoded with
      | cons firstDecoded othersDecoded =>
        rw [List.map_cons, List.map_cons, List.cons_eq_cons] at same
        rw [List.zipWith_cons_cons, List.zipWith_cons_cons, List.map_cons,
          sum_difference (sent column List.mem_cons_self) first firstBefore firstDecoded same.1,
          hypothesis (fun column member => sent column (List.mem_cons_of_mem _ member))
            othersBefore othersDecoded same.2]

/-! ### Groups -/

/-- The rows that a group sends behind its first one. -/
def differences (before : List Value) : List (List Value) → List (List Value)
  | [] => []
  | row :: rows => row.zipWith Value.difference before :: differences row rows

/-- The bytes of a group: the number of records, the first row, the differences. -/
def groupImage (rows : List (List Value)) : Bytes :=
  match rows with
  | [] => []
  | first :: others =>
    SMDValue.putInt (BitVec.ofNat 32 rows.length) ++
      (rowImage first ++ (differences first others).flatMap rowImage)

theorem writeDifferences_sends {tableStruct : TableDef} {previous : Record} {before : List Value}
    {records : List Record} {rows : List (List Value)}
    (sent : ∀ column ∈ tableStruct.FieldSet, column.isSent = true)
    (first : previous.Holds tableStruct before) (holds : HoldRows tableStruct records rows) :
    ((∀ row ∈ rows, SendableRow tableStruct.FieldSet row) →
      SMDMemStream.Appends (DataFeature.writeDifferences previous records)
        ((differences before rows).flatMap rowImage)) ∧
    ((¬ ∀ row ∈ rows, SendableRow tableStruct.FieldSet row) →
      Fails (DataFeature.writeDifferences previous records)) := by
  induction holds generalizing previous before with
  | nil => exact ⟨fun _ => SMDMemStream.Appends.none, fun impossible => absurd (by simp) impossible⟩
  | @cons record row records rows holds _ hypothesis =>
    obtain ⟨fields, made, whole, broken⟩ := subFields_sends sent holds.fields first.fields
    obtain ⟨others, othersBroken⟩ := hypothesis holds
    have step : DataFeature.writeDifferences previous (record :: records) =
        fun stream => writeFields fields stream >>= DataFeature.writeDifferences record records := by
      funext stream
      rw [DataFeature.writeDifferences, Record.subRecord, holds.table, made, ok_bind, ok_bind]
      rfl
    rw [step]
    refine ⟨fun sendable => ?_, fun nul => ?_⟩
    · rw [differences, List.flatMap_cons]
      exact (whole (sendable row List.mem_cons_self)).write.bind
        (others fun row member => sendable row (List.mem_cons_of_mem _ member))
    · by_cases sendable : SendableRow tableStruct.FieldSet row
      · refine bind_fails (whole sendable).write (othersBroken fun sendables => nul ?_)
        intro other member
        rcases List.mem_cons.mp member with equal | later
        · rw [equal]
          exact sendable
        · exact sendables other later
      · exact (broken sendable).bind

theorem length_readGroup {tableStruct : TableDef} {r_f : Option Record} {stream : SMDMemStream}
    {left : Nat} {results : List Record}
    (read : DataFeature.readGroup tableStruct r_f stream left = .ok results) :
    results.length = left := by
  induction left generalizing r_f stream results with
  | zero =>
    cases read
    rfl
  | succ left hypothesis =>
    obtain ⟨⟨returned, record, next⟩, _, rest⟩ := (bind_eq_ok _ _ _).mp read
    obtain ⟨_, _, rest⟩ := (bind_eq_ok _ _ _).mp rest
    obtain ⟨others, later, equal⟩ := (bind_eq_ok _ _ _).mp rest
    cases equal
    rw [List.length_cons, hypothesis later]

omit [FloatingPoint] in
theorem size_of_holds {stream : SMDMemStream} {rest : Bytes} (held : stream.Holds rest)
    (nonempty : stream.data ≠ []) : stream.size ≠ 0 := by
  have length := List.length_pos_iff.mpr nonempty
  rw [SMDMemStream.size, uint_of_lt _ held.1]
  omega

omit [FloatingPoint] in
theorem readable_of_sent {tableStruct : TableDef}
    (sent : ∀ column ∈ tableStruct.FieldSet, column.isSent = true) : tableStruct.Readable := by
  intro column member
  have isSent := sent column member
  cases column with
  | varInt head => cases isSent
  | _ => rfl

/-- The loop of the reader adds every difference to the record before: what is left of each row
comes back. -/
theorem readGroup_holds {tableStruct : TableDef} {origin previous : Record}
    {before held : List Value} {records : List Record} {rows : List (List Value)}
    (sent : ∀ column ∈ tableStruct.FieldSet, column.isSent = true)
    (first : origin.Holds tableStruct before) (decoded : previous.Holds tableStruct held)
    (same : held.map Value.left = before.map Value.left)
    (holds : HoldRows tableStruct records rows)
    (sendable : ∀ row ∈ rows, SendableRow tableStruct.FieldSet row) (stream : SMDMemStream)
    (nonempty : stream.data ≠ []) (rest : Bytes)
    (remains : stream.Holds ((differences before rows).flatMap rowImage ++ rest)) :
    ∃ results, DataFeature.readGroup tableStruct (some previous) stream records.length =
      .ok results ∧ HoldRows tableStruct results (rows.map (List.map Value.left)) := by
  induction holds generalizing origin previous before held stream with
  | nil => exact ⟨[], rfl, .nil⟩
  | @cons record row records rows holds _ hypothesis =>
    rw [differences, List.flatMap_cons, List.append_assoc] at remains
    obtain ⟨fields, _, whole, _⟩ := subFields_sends sent holds.fields first.fields
    have whole : Record.Holds tableStruct ⟨tableStruct, fields⟩
        (row.zipWith Value.difference before) :=
      ⟨rfl, whole (sendable row List.mem_cons_self)⟩
    obtain ⟨result, next, read, nextHolds, data, resultHolds⟩ :=
      Record.read_holds (readable_of_sent sent) whole stream _ (size_of_holds remains nonempty)
        remains
    obtain ⟨sums, added, sumHolds⟩ := addFields_holds sent resultHolds.fields decoded.fields
    rw [sum_differences sent holds.fields first.fields decoded.fields same] at sumHolds
    have addEq : result.addRecord previous = .ok { result with Fields := sums } := by
      rw [Record.addRecord, resultHolds.table, added]
      rfl
    have sum : ({ result with Fields := sums } : Record).Holds tableStruct (row.map Value.left) :=
      ⟨resultHolds.table, sumHolds⟩
    have idempotent : (row.map Value.left).map Value.left = row.map Value.left := by
      rw [List.map_map]
      refine List.map_congr_left fun value _ => ?_
      cases value <;> rfl
    obtain ⟨results, readOthers, othersHold⟩ := hypothesis holds sum idempotent
      (fun row member => sendable row (List.mem_cons_of_mem _ member)) next
      (by rw [data]; exact nonempty) nextHolds
    refine ⟨{ result with Fields := sums } :: results, ?_, .cons sum othersHold⟩
    rw [List.length_cons, DataFeature.readGroup, read, ok_bind]
    simp only [Option.elim_some, addEq, readOthers, ok_bind]

/-- The values of a group that come back: every FLDOUBLE behind the first record is zero. -/
def KeptRow (row : List Value) : Prop := row.map Value.left = row

instance (row : List Value) : Decidable (KeptRow row) := inferInstanceAs (Decidable (_ = _))

/-- The condition under which a group is read back: no VAR_INT, as many records as an `int` counts
and as many bytes as a stream holds, and behind the first record no FLDOUBLE but zero and no text
with a NUL in front of its last byte. -/
structure GroupKept (tableStruct : TableDef) (rows : List (List Value)) : Prop where
  readable : tableStruct.Readable
  counted : rows.length < 2147483648
  small : (groupImage rows).length < 4294967296
  fixed : ∀ row ∈ rows.tail, KeptRow row
  texts : ∀ row ∈ rows.tail, SendableRow tableStruct.FieldSet row

/-- The stream of a group whose texts can be sent, and the failure of one that cannot. -/
theorem groupStream_sends {tableStruct : TableDef} {records : List Record}
    {rows : List (List Value)} (nonempty : records ≠ [])
    (sent : ∀ column ∈ tableStruct.FieldSet, column.isSent = true)
    (holds : HoldRows tableStruct records rows) :
    ((∀ row ∈ rows.tail, SendableRow tableStruct.FieldSet row) →
      DataFeature.groupStream records =
        (SMDMemStream.appended [] (groupImage rows) >>= fun stream => .ok (some stream))) ∧
    ((¬ ∀ row ∈ rows.tail, SendableRow tableStruct.FieldSet row) →
      ∃ fault, DataFeature.groupStream records = .error fault) := by
  cases holds with
  | nil => exact absurd rfl nonempty
  | @cons first row others rows firstHolds othersHold =>
    have lengths : (first :: others).length = (row :: rows).length := by
      rw [List.length_cons, List.length_cons, othersHold.length_eq]
    obtain ⟨sends, broken⟩ := writeDifferences_sends sent firstHolds othersHold
    have written : DataFeature.groupStream (first :: others) =
        (((⟨[], ([] : Bytes).length⟩ : SMDMemStream).writeInt
          (BitVec.ofNat 32 (row :: rows).length) >>= fun stream => first.write stream >>=
            DataFeature.writeDifferences first others) >>= fun stream => .ok (some stream)) := by
      rw [DataFeature.groupStream, lengths, bind_assoc]
      simp only [bind_assoc]
      rfl
    have counts := SMDMemStream.writeInt_appends (BitVec.ofNat 32 (row :: rows).length)
    refine ⟨fun sendable => ?_, fun nul => ?_⟩
    · have all := (counts.bind (firstHolds.write.bind (sends sendable))) [] (by decide)
      rw [written, groupImage, ← all]
    · obtain ⟨fault, failed⟩ :=
        bind_fails counts (bind_fails firstHolds.write (broken nul)) [] (by decide)
      dsimp only at failed
      exact ⟨fault, by rw [written, failed, error_bind]⟩

/-- A group whose texts can be sent is decoded to what is left of its rows. -/
theorem getOGRecords_holds {tableStruct : TableDef} {records : List Record}
    {rows : List (List Value)} (nonempty : records ≠ [])
    (sent : ∀ column ∈ tableStruct.FieldSet, column.isSent = true)
    (holds : HoldRows tableStruct records rows)
    (sendable : ∀ row ∈ rows.tail, SendableRow tableStruct.FieldSet row)
    (small : (groupImage rows).length < 4294967296) :
    ∃ middle : SMDMemStream,
      DataFeature.getOGRecordsFromStream tableStruct ⟨groupImage rows, 0⟩ =
        DataFeature.readGroup tableStruct none middle
          (BitVec.ofNat 32 rows.length).toInt.toNat ∧
      ∃ results, DataFeature.readGroup tableStruct none middle rows.length = .ok results ∧
        HoldRows tableStruct results (rows.take 1 ++ rows.tail.map (List.map Value.left)) := by
  cases holds with
  | nil => exact absurd rfl nonempty
  | @cons first row others rows firstHolds othersHold =>
    have held : SMDMemStream.Holds ⟨groupImage (row :: rows), 0⟩
        (SMDValue.putInt (BitVec.ofNat 32 (row :: rows).length) ++
          (rowImage row ++ ((differences row rows).flatMap rowImage ++ []))) := by
      refine ⟨small, Nat.zero_le _, ?_⟩
      rw [List.append_nil]
      rfl
    obtain ⟨middle, counted, middleHolds⟩ := SMDMemStream.readInt_holds _ _ _ held
    have data := SMDMemStream.data_readInt counted
    have some : middle.data ≠ [] := by
      rw [data]
      exact List.cons_ne_nil _ _
    obtain ⟨result, next, read, nextHolds, nextData, resultHolds⟩ :=
      Record.read_holds (readable_of_sent sent) firstHolds middle _ (size_of_holds middleHolds some) middleHolds
    obtain ⟨results, readOthers, resultsHold⟩ := readGroup_holds sent firstHolds resultHolds rfl
      othersHold sendable next (by rw [nextData]; exact some) [] nextHolds
    refine ⟨middle, ?_, result :: results, ?_, .cons resultHolds resultsHold⟩
    · rw [DataFeature.getOGRecordsFromStream, counted]
      rfl
    · rw [List.length_cons, DataFeature.readGroup, read, ok_bind, ← othersHold.length_eq]
      simp only [Option.elim_none, readOthers, ok_bind]

omit [FloatingPoint] in
theorem sent_of_readable {tableStruct : TableDef}
    (grouped : ∀ column ∈ tableStruct.FieldSet, column.isGrouped = true)
    (readable : tableStruct.Readable) : ∀ column ∈ tableStruct.FieldSet, column.isSent = true := by
  intro column member
  have isGrouped := grouped column member
  have single := readable column member
  cases column with
  | varInt head => cases single
  | float | double => cases isGrouped
  | _ => rfl

/-- With a VAR_INT the reader returns no record, if it returns. -/
theorem getOGRecords_locked {tableStruct : TableDef} (unreadable : ¬ tableStruct.Readable)
    {data : Bytes} {results : List Record}
    (read : DataFeature.getOGRecordsFromStream tableStruct ⟨data, 0⟩ = .ok results) :
    results = [] := by
  obtain ⟨⟨nSize, next⟩, counted, rest⟩ := (bind_eq_ok _ _ _).mp read
  dsimp only at rest
  cases count : (nSize.elim 0 BitVec.toInt).toNat with
  | zero =>
    rw [count] at rest
    cases rest
    rfl
  | succ left =>
    have some : next.size ≠ 0 := by
      intro empty
      have same := SMDMemStream.data_readInt counted
      have start : SMDMemStream.size ⟨data, 0⟩ = 0 := by
        rw [SMDMemStream.size, same] at empty
        exact empty
      have nothing : SMDMemStream.readInt ⟨data, 0⟩ = .ok (none, ⟨data, 0⟩) := by
        rw [SMDMemStream.readInt, SMDMemStream.readBytes, start]
        rfl
      rw [nothing] at counted
      cases counted
      cases count
    obtain ⟨fault, failed⟩ := Record.read_locked unreadable some
    rw [count, DataFeature.readGroup, failed] at rest
    cases rest

/-- A group comes back from its stream record for record and value for value exactly when it meets
the condition. -/
theorem group_read_back (tableStruct : TableDef) (records : List Record)
    (rows : List (List Value)) (nonempty : records ≠ [])
    (grouped : ∀ column ∈ tableStruct.FieldSet, column.isGrouped = true)
    (holds : HoldRows tableStruct records rows) :
    (∃ stream results, DataFeature.groupStream records = .ok (some stream) ∧
      DataFeature.getOGRecordsFromStream tableStruct ⟨stream.data, 0⟩ = .ok results ∧
      results.map Record.stored = records.map Record.stored) ↔ GroupKept tableStruct rows := by
  by_cases readable : tableStruct.Readable
  swap
  · refine iff_of_false ?_ fun kept => readable kept.readable
    rintro ⟨stream, results, _, read, same⟩
    have none := getOGRecords_locked readable read
    rw [none] at same
    exact nonempty (List.map_eq_nil_iff.mp same.symm)
  have sent := sent_of_readable grouped readable
  obtain ⟨sends, broken⟩ := groupStream_sends nonempty sent holds
  have lengths := holds.length_eq
  have stored := stored_rows holds
  constructor
  · rintro ⟨stream, results, written, read, same⟩
    have sendable : ∀ row ∈ rows.tail, SendableRow tableStruct.FieldSet row := by
      by_contra nul
      obtain ⟨fault, failed⟩ := broken nul
      rw [failed] at written
      cases written
    rw [sends sendable] at written
    have small : (groupImage rows).length < 4294967296 := by
      by_contra large
      rw [SMDMemStream.appended, List.length_nil, if_neg (by omega), error_bind] at written
      cases written
    rw [SMDMemStream.appended_of_lt _ _ (by rw [List.length_nil]; omega), ok_bind] at written
    cases written
    obtain ⟨middle, counts, others, readRows, othersHold⟩ :=
      getOGRecords_holds nonempty sent holds sendable small
    rw [List.nil_append, counts] at read
    have count := length_readGroup read
    have resultCount := congrArg List.length same
    rw [List.length_map, List.length_map] at resultCount
    have bound := @BitVec.toInt_lt 32 (BitVec.ofNat 32 rows.length)
    have counted : rows.length < 2147483648 := by omega
    have exactly : (BitVec.ofNat 32 rows.length).toInt.toNat = rows.length := by omega
    rw [exactly, readRows] at read
    cases read
    have equal : rows.take 1 ++ rows.tail.map (List.map Value.left) = rows := by
      have images := stored_rows othersHold
      rw [same, stored] at images
      exact (List.map_injective_iff.mpr (fun _ _ => Except.ok.inj) images).symm
    refine ⟨readable, counted, small, fun row member => ?_, sendable⟩
    cases rows with
    | nil => cases member
    | cons first rows =>
      have kept : rows.map (List.map Value.left) = rows.map id := by
        rw [List.map_id]
        exact (List.cons.inj equal).2
      exact List.map_inj_left.mp kept row member
  · rintro ⟨-, counted, small, fixed, sendable⟩
    obtain ⟨middle, counts, results, readRows, resultsHold⟩ :=
      getOGRecords_holds nonempty sent holds sendable small
    have exactly : (BitVec.ofNat 32 rows.length).toInt.toNat = rows.length := by
      rw [BitVec.toInt_eq_toNat_cond, BitVec.toNat_ofNat, Nat.mod_eq_of_lt (by omega),
        if_pos (by omega), Int.toNat_natCast]
    have equal : rows.take 1 ++ rows.tail.map (List.map Value.left) = rows := by
      cases rows with
      | nil => rfl
      | cons first rows =>
        have kept : rows.map (List.map Value.left) = rows.map id := List.map_congr_left fixed
        rw [List.map_id] at kept
        exact congrArg (List.cons first) kept
    rw [equal] at resultsHold
    refine ⟨⟨groupImage rows, (groupImage rows).length⟩, results, ?_, ?_, ?_⟩
    · rw [sends sendable, SMDMemStream.appended_of_lt _ _ (by rw [List.length_nil]; omega), ok_bind,
        List.nil_append, List.length_nil, Nat.zero_add]
    · rw [counts, exactly, readRows]
    · rw [stored_rows resultsHold, stored]

end Arithmetic

/-- An INT that falls from its largest to its smallest value, beside a text and a SHORT. -/
theorem group_read_back_once :
    ∃ stream results,
      @DataFeature.groupStream zeroAndOne
        [⟨⟨[.varText, .short, .int], true⟩, [.varText ⟨2, 2, some ⟨2, [65, 66]⟩⟩,
          .short (-300), .int 0x7FFFFFFF]⟩,
        ⟨⟨[.varText, .short, .int], true⟩, [.varText ⟨1, 1, some ⟨1, [67]⟩⟩,
          .short (-1), .int 0x80000000]⟩] = .ok (some stream) ∧
      @DataFeature.getOGRecordsFromStream zeroAndOne ⟨[.varText, .short, .int], true⟩
        ⟨stream.data, 0⟩ = .ok results ∧
      results.map Record.stored = [.ok [.bytes [65, 66], .short (-300), .int 0x7FFFFFFF],
        .ok [.bytes [67], .short (-1), .int 0x80000000]] := by
  refine (@group_read_back zeroAndOne ⟨[.varText, .short, .int], true⟩ _
    [[.bytes [65, 66], .short (-300), .int 0x7FFFFFFF],
      [.bytes [67], .short (-1), .int 0x80000000]] (List.cons_ne_nil _ _) (by decide)
    (.cons ⟨rfl, .cons (.varText ⟨rfl, rfl⟩ (by decide)) (.cons .short (.cons .int .nil))⟩
      (.cons ⟨rfl, .cons (.varText ⟨rfl, rfl⟩ (by decide)) (.cons .short (.cons .int .nil))⟩
        .nil))).mpr ⟨by decide, by decide, by decide, by decide, ?_⟩
  intro row member
  rw [List.mem_singleton.mp member]
  exact .cons (by decide) (.cons trivial (.cons trivial .nil))

/-- The FLDOUBLE of the second record of a group comes back as zero, and a group with a VAR_INT does
not come back at all. -/
theorem group_not_read_back :
    @AllSet zeroAndOne ⟨[.flDouble 0], true⟩ ⟨⟨[.flDouble 0], true⟩, [.flDouble 0 1]⟩ ∧
    ∃ stream results,
      @DataFeature.groupStream zeroAndOne [⟨⟨[.flDouble 0], true⟩, [.flDouble 0 1]⟩,
        ⟨⟨[.flDouble 0], true⟩, [.flDouble 0 1]⟩] = .ok (some stream) ∧
      @DataFeature.getOGRecordsFromStream zeroAndOne ⟨[.flDouble 0], true⟩ ⟨stream.data, 0⟩ =
        .ok results ∧
      results.map Record.stored = [.ok [.fixed 1], .ok [.fixed 0]] ∧
      @DataFeature.groupStream zeroAndOne [⟨⟨[.varInt none], true⟩, [.varInt 1 [10, 0, 0, 0, 0]]⟩] =
        .ok (some ⟨[0, 0, 0, 1, 10], 5⟩) ∧
      @DataFeature.getOGRecordsFromStream zeroAndOne ⟨[.varInt none], true⟩ ⟨[0, 0, 0, 1, 10], 0⟩ =
        .error .deadlock := by
  have set : @Record.set zeroAndOne (Record.new ⟨[.flDouble 0], true⟩)
      (0, .setFieldFLDouble 0x3FF0000000000000) =
        .ok (true, ⟨⟨[.flDouble 0], true⟩, [.flDouble 0 1]⟩) := by
    decide
  refine ⟨⟨_, Run.start.step ?_ set, ?_⟩, ⟨[0, 0, 0, 2, 0, 0, 0, 0, 0, 0, 0, 1,
    0, 0, 0, 0, 0, 0, 0, 0], 20⟩, [⟨⟨[.flDouble 0], true⟩, [.flDouble 0 1]⟩,
    ⟨⟨[.flDouble 0], true⟩, [.flDouble 0 0]⟩], by decide, by decide, by decide, by decide,
    by decide⟩
  · exact fun _ _ => trivial
  · intro index inside
    match index, inside with
    | 0, _ => exact ⟨_, List.mem_cons_self⟩

end LevelDBLib.KvDB
