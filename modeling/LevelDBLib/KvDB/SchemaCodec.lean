/-
This file settles the codec of table definitions. Writing a definition appends its
image and reading takes that image off again, attribute by attribute. One attribute
does not survive: a field comes back with the alias that the factory gave it, the
empty one, since `FieldType::read` hands `setAlias` the member instead of the string
it has just read.
-/

import LevelDBLib.KvDB.Schema

namespace LevelDBLib.KvDB.Schema

open KvDB SMDMemStream

/-! ### Images -/

def FieldHead.image : FieldHead → Bytes
  | .bare headtype => SMDValue.putShort headtype
  | .double head_double => SMDValue.putShort 1 ++ SMDValue.putLong head_double
  | .int head_int => SMDValue.putShort 2 ++ SMDValue.putInt head_int
  | .binary _ _ => SMDValue.putShort 3

/-- A head as `setFieldHead` makes them: a double or an integer. -/
def FieldHead.Numeric : FieldHead → Prop
  | .double _ | .int _ => True
  | _ => False

def entriesImage (entries : List (Bytes × Bytes)) : Bytes :=
  entries.flatMap fun entry => stringBytes entry.1 ++ stringBytes entry.2

def ExternFields.image (fields : ExternFields) : Bytes :=
  SMDValue.putInt (BitVec.ofNat 32 fields.entries.length) ++ entriesImage fields.entries

def DataType.image : DataType → Bytes
  | .text length | .varText length | .binary length | .varBinary length => SMDValue.putInt length
  | .float scale | .double scale | .flDouble scale => SMDValue.putShort scale
  | .varInt | .short | .int | .long => []

def headImage : Option FieldHead → Bytes
  | none => []
  | some fhead => fhead.image

/-- The attributes of a field behind its tag. -/
def FieldType.body (field : FieldType) : Bytes :=
  stringBytes field.FieldName ++ (stringBytes field.Alias ++
    (SMDValue.putShort (boolShort field.ReadOnly) ++
      (SMDValue.putShort (boolShort field.IsAllowNULL) ++
        (SMDValue.putShort (boolShort field.fhead.isSome) ++
          (headImage field.fhead ++ (field.externFields.image ++ field.DataType.image))))))

def FieldType.image (field : FieldType) : Bytes :=
  SMDValue.putShort field.DataType.code ++ field.body

/-! ### Writing -/

theorem writeShort_appends (sval : BitVec 16) :
    Appends (fun stream => stream.writeShort sval) (SMDValue.putShort sval) :=
  writeBytes_appends _

theorem writeHead_appends (fhead : Option FieldHead) (numeric : ∀ held ∈ fhead, held.Numeric) :
    Appends (writeHead fhead) (headImage fhead) := by
  cases fhead with
  | none => exact Appends.none
  | some fhead =>
    cases fhead with
    | double head_double => exact (writeShort_appends _).bind (writeBytes_appends _)
    | int head_int => exact (writeShort_appends _).bind (writeBytes_appends _)
    | bare headtype => exact absurd (numeric _ rfl) id
    | binary nLength content => exact absurd (numeric _ rfl) id

theorem writeEntries_appends (entries : List (Bytes × Bytes)) :
    Appends (writeEntries entries) (entriesImage entries) := by
  induction entries with
  | nil => exact Appends.none
  | cons entry rest hypothesis =>
    rw [entriesImage, List.flatMap_cons, List.append_assoc]
    exact (writeString_appends _).bind ((writeString_appends _).bind hypothesis)

theorem writeExternFields_appends (fields : ExternFields) :
    Appends (writeExternFields fields) fields.image :=
  (writeInt_appends _).bind (writeEntries_appends _)

theorem save_appends (type : DataType) : Appends type.save type.image := by
  cases type with
  | varInt | short | int | long => exact Appends.none
  | _ => exact writeBytes_appends _

theorem FieldType.write_appends (field : FieldType)
    (numeric : ∀ held ∈ field.fhead, held.Numeric) : Appends field.write field.image :=
  (writeShort_appends _).bind ((writeString_appends _).bind ((writeString_appends _).bind
    ((writeShort_appends _).bind ((writeShort_appends _).bind ((writeShort_appends _).bind
      ((writeHead_appends _ numeric).bind ((writeExternFields_appends _).bind
        (save_appends _))))))))

/-! ### Reading -/

theorem readStr_takes (strVal : Bytes) (small : strVal.length < 2147483648) :
    Takes readStr (stringBytes strVal) strVal := by
  intro stream rest holds
  obtain ⟨next, read, after, data⟩ := readString_takes strVal small stream rest holds
  exact ⟨next, by rw [readStr, read]; rfl, after, data⟩

theorem readStr_throws (strVal : Bytes) (large : ¬ strVal.length < 2147483648) :
    Throws readStr (stringBytes strVal) := by
  intro stream rest holds
  obtain ⟨fault, failed⟩ := readString_throws strVal large stream rest holds
  exact ⟨fault, by rw [readStr, failed, error_bind]⟩

theorem readShortLocal_takes (sval : BitVec 16) :
    Takes readShortLocal (SMDValue.putShort sval) sval :=
  (readShort_takes sval).map fun _ => rfl

theorem readFieldHead_takes (fhead : FieldHead) (numeric : fhead.Numeric) :
    Takes readFieldHead fhead.image fhead := by
  cases fhead with
  | double head_double =>
    exact (readShortLocal_takes 1).bind ((readLong_takes head_double).map fun _ => rfl)
  | int head_int =>
    exact (readShortLocal_takes 2).bind ((readInt_takes head_int).map fun _ => rfl)
  | bare headtype => exact absurd numeric id
  | binary nLength content => exact absurd numeric id

theorem readHead_takes (fhead : Option FieldHead) (numeric : ∀ held ∈ fhead, held.Numeric) :
    Takes (readHead (boolShort fhead.isSome)) (headImage fhead) fhead := by
  cases fhead with
  | none => exact Takes.pure none
  | some fhead => exact (readFieldHead_takes fhead (numeric fhead rfl)).map fun _ => rfl

/-- Every string is one that its length, an `int`, can count. -/
def EntriesShort (entries : List (Bytes × Bytes)) : Prop :=
  ∀ entry ∈ entries, entry.1.length < 2147483648 ∧ entry.2.length < 2147483648

theorem EntriesShort.cons {entry : Bytes × Bytes} {rest : List (Bytes × Bytes)}
    (short : EntriesShort rest) (key : entry.1.length < 2147483648)
    (val : entry.2.length < 2147483648) : EntriesShort (entry :: rest) :=
  List.forall_mem_cons.mpr ⟨⟨key, val⟩, short⟩

theorem insertEntry_last {key val : Bytes} {entries : List (Bytes × Bytes)}
    (last : ∀ entry ∈ entries, entry.1 < key) :
    insertEntry key val entries = entries ++ [(key, val)] := by
  induction entries with
  | nil => rfl
  | cons entry rest hypothesis =>
    have less := last entry List.mem_cons_self
    have different : ¬ key = entry.1 := by
      intro equal
      rw [equal] at less
      exact List.lt_irrefl _ less
    rw [insertEntry, if_neg (List.lt_asymm less), if_neg different, List.cons_append,
      hypothesis fun later member => last later (List.mem_cons_of_mem _ member)]

/-- Entries that come in the order of their keys are the map. -/
theorem readEntries_takes (fields : ExternFields) (entries : List (Bytes × Bytes))
    (sorted : (fields.entries ++ entries).Pairwise fun first second => first.1 < second.1)
    (short : EntriesShort entries) :
    Takes (readEntries fields entries.length) (entriesImage entries)
      ⟨fields.entries ++ entries, sorted⟩ := by
  induction entries generalizing fields with
  | nil =>
    have same : fields = ⟨fields.entries ++ [], sorted⟩ := by
      obtain ⟨held, _⟩ := fields
      simp only [List.append_nil]
    conv => arg 3; rw [← same]
    exact Takes.pure fields
  | cons entry rest hypothesis =>
    have last : (fields.insert entry.1 entry.2).entries = fields.entries ++ [entry] :=
      insertEntry_last fun held member =>
        (List.pairwise_append.mp sorted).2.2 held member entry List.mem_cons_self
    have sorted' : ((fields.insert entry.1 entry.2).entries ++ rest).Pairwise
        fun first second => first.1 < second.1 := by
      rw [last, List.append_assoc]
      exact sorted
    have same : (⟨(fields.insert entry.1 entry.2).entries ++ rest, sorted'⟩ : ExternFields) =
        ⟨fields.entries ++ entry :: rest, sorted⟩ := by
      simp only [last, List.append_assoc, List.singleton_append]
    rw [entriesImage, List.flatMap_cons, List.append_assoc, ← same]
    have lengths := short entry List.mem_cons_self
    exact (readStr_takes _ lengths.1).bind ((readStr_takes _ lengths.2).bind
      (hypothesis _ sorted' fun later member => short later (List.mem_cons_of_mem _ member)))

theorem readEntries_throws (fields : ExternFields) (entries : List (Bytes × Bytes))
    (long : ¬ EntriesShort entries) :
    Throws (readEntries fields entries.length) (entriesImage entries) := by
  induction entries generalizing fields with
  | nil => exact absurd (fun _ member => absurd member List.not_mem_nil) long
  | cons entry rest hypothesis =>
    rw [entriesImage, List.flatMap_cons, List.append_assoc]
    by_cases key : entry.1.length < 2147483648
    · by_cases val : entry.2.length < 2147483648
      · exact (readStr_takes _ key).throws ((readStr_takes _ val).throws
          (hypothesis _ fun short => long (short.cons key val)))
      · exact (readStr_takes _ key).throws ((readStr_throws _ val).bind _)
    · exact (readStr_throws _ key).bind _

theorem length_entriesImage (entries : List (Bytes × Bytes)) :
    8 * entries.length ≤ (entriesImage entries).length := by
  induction entries with
  | nil => exact Nat.le_refl _
  | cons entry rest hypothesis =>
    simp only [entriesImage, List.flatMap_cons, List.length_append, List.length_cons, stringBytes,
      SMDValue.length_putInt] at hypothesis ⊢
    omega

/-- A count that an `int` can hold. -/
theorem toNat_count {count : Nat} (small : count < 2147483648) :
    (BitVec.ofNat 32 count).toInt.toNat = count := by
  rw [toInt_ofNat_of_lt small, Int.toNat_natCast]

theorem length_image (fields : ExternFields) :
    8 * fields.entries.length ≤ fields.image.length := by
  have entries := length_entriesImage fields.entries
  rw [ExternFields.image, List.length_append]
  omega

theorem readExternFields_takes (fields : ExternFields) (short : EntriesShort fields.entries) :
    Takes (readExternFields .empty) fields.image fields := by
  refine takes_of_length fun small => (readInt_takes _).bind ?_
  have length := length_image fields
  show Takes (readEntries .empty (BitVec.ofNat 32 fields.entries.length).toInt.toNat) _ _
  rw [toNat_count (by omega)]
  exact readEntries_takes .empty fields.entries fields.sorted short

theorem readExternFields_throws (fields : ExternFields) (long : ¬ EntriesShort fields.entries) :
    Throws (readExternFields .empty) fields.image := by
  refine throws_of_length fun small => (readInt_takes _).throws ?_
  have length := length_image fields
  show Throws (readEntries .empty (BitVec.ofNat 32 fields.entries.length).toInt.toNat) _
  rw [toNat_count (by omega)]
  exact readEntries_throws .empty fields.entries long

/-- The members that the factory gives a class are overwritten by those that were saved. -/
theorem readArr_takes (type fresh : Schema.DataType)
    (made : FieldTypeFactory.dataType type.code = some fresh) :
    Takes fresh.readArr type.image type := by
  cases type with
  | text length | varText length | binary length | varBinary length =>
    cases made
    exact (readInt_takes length).map fun _ => rfl
  | float scale | double scale | flDouble scale =>
    cases made
    exact (readShort_takes scale).map fun _ => rfl
  | varInt | short | int | long =>
    cases made
    exact Takes.pure _

/-! ### Fields -/

/-- Every string of the field is one that an `int` can count. -/
def FieldType.Short (field : FieldType) : Prop :=
  field.FieldName.length < 2147483648 ∧ field.Alias.length < 2147483648 ∧
    EntriesShort field.externFields.entries

/-- The field that is read back: its alias is the one the factory gave. -/
def FieldType.restored (field : FieldType) : FieldType := { field with Alias := [] }

theorem boolShort_ne (flag : Bool) : decide (boolShort flag ≠ 0) = flag := by
  cases flag <;> rfl

theorem FieldType.body_ne_nil (field : FieldType) : field.body ≠ [] := by
  intro empty
  have length := congrArg List.length empty
  rw [FieldType.body, List.length_append, stringBytes, List.length_append,
    SMDValue.length_putInt, List.length_nil] at length
  omega

theorem FieldType.read_takes (field : FieldType) (fresh : Schema.DataType)
    (made : FieldTypeFactory.dataType field.DataType.code = some fresh)
    (numeric : ∀ held ∈ field.fhead, held.Numeric) (short : field.Short) :
    Takes (FieldType.read ⟨fresh, [], [], false, true, none, .empty⟩) field.body
      field.restored := by
  refine takes_guarded field.body_ne_nil ?_
  refine (readStr_takes _ short.1).bind ((readStr_takes _ short.2.1).bind
    ((readShortLocal_takes _).bind ((readShortLocal_takes _).bind ((readShortLocal_takes _).bind
      ((readHead_takes _ numeric).bind ((readExternFields_takes _ short.2.2).bind
        ((readArr_takes _ _ made).map fun stream => ?_)))))))
  dsimp only
  rw [boolShort_ne, boolShort_ne]
  rfl

theorem FieldType.read_throws (field : FieldType) (fresh : Schema.DataType)
    (numeric : ∀ held ∈ field.fhead, held.Numeric) (long : ¬ field.Short) :
    Throws (FieldType.read ⟨fresh, [], [], false, true, none, .empty⟩) field.body := by
  refine throws_guarded field.body_ne_nil ?_
  by_cases name : field.FieldName.length < 2147483648
  · refine (readStr_takes _ name).throws ?_
    by_cases aliased : field.Alias.length < 2147483648
    · refine (readStr_takes _ aliased).throws ((readShortLocal_takes _).throws
        ((readShortLocal_takes _).throws ((readShortLocal_takes _).throws
          ((readHead_takes _ numeric).throws ((readExternFields_throws _ ?_).bind _)))))
      exact fun short => long ⟨name, aliased, short⟩
    · exact (readStr_throws _ aliased).bind _
  · exact (readStr_throws _ name).bind _

/-- The factory knows the tag of every class. -/
theorem dataType_code (type : Schema.DataType) :
    ∃ fresh, FieldTypeFactory.dataType type.code = some fresh := by
  cases type <;> exact ⟨_, rfl⟩

theorem createField_eq {code : BitVec 16} {fresh : Schema.DataType}
    (made : FieldTypeFactory.dataType code = some fresh) :
    FieldTypeFactory.createField code [] = some ⟨fresh, [], [], false, true, none, .empty⟩ := by
  rw [FieldTypeFactory.createField, made]
  rfl

theorem createFieldByStream_takes (field : FieldType)
    (numeric : ∀ held ∈ field.fhead, held.Numeric) (short : field.Short) :
    Takes FieldTypeFactory.createFieldByStream field.image (some field.restored) := by
  obtain ⟨fresh, made⟩ := dataType_code field.DataType
  refine (readShortLocal_takes _).bind ?_
  simp only [createField_eq made]
  exact (field.read_takes fresh made numeric short).map fun _ => rfl

theorem createFieldByStream_throws (field : FieldType)
    (numeric : ∀ held ∈ field.fhead, held.Numeric) (long : ¬ field.Short) :
    Throws FieldTypeFactory.createFieldByStream field.image := by
  obtain ⟨fresh, made⟩ := dataType_code field.DataType
  refine (readShortLocal_takes _).throws ?_
  simp only [createField_eq made]
  exact (field.read_throws fresh numeric long).map

end LevelDBLib.KvDB.Schema
