/-
This file follows table definitions through a stream, as many as are written one behind
the other. They all come back, with the stream used up, exactly when the stream can hold
them, every string is one that an `int` can count, and no field has an alias.
-/

import LevelDBLib.KvDB.SchemaCodec

namespace LevelDBLib.KvDB.Schema

open KvDB SMDMemStream

/-! ### Lists of fields -/

/-- No null pointer, and heads as `setFieldHead` makes them. -/
def WholeSet (fields : List (Option FieldType)) : Prop :=
  ∀ field ∈ fields, ∃ held, field = some held ∧ ∀ head ∈ held.fhead, head.Numeric

def ShortSet (fields : List (Option FieldType)) : Prop :=
  ∀ field ∈ fields, ∀ held ∈ field, held.Short

def fieldSetImage (fields : List (Option FieldType)) : Bytes :=
  fields.flatMap fun field => field.elim [] FieldType.image

theorem writeFieldSet_appends (fields : List (Option FieldType)) (whole : WholeSet fields) :
    Appends (writeFieldSet fields) (fieldSetImage fields) := by
  induction fields with
  | nil => exact Appends.none
  | cons field fields hypothesis =>
    obtain ⟨held, rfl, numeric⟩ := whole field List.mem_cons_self
    rw [fieldSetImage, List.flatMap_cons]
    exact (held.write_appends numeric).bind
      (hypothesis fun other member => whole other (List.mem_cons_of_mem _ member))

theorem readFieldSet_takes (fields : List (Option FieldType)) (whole : WholeSet fields)
    (short : ShortSet fields) :
    Takes (readFieldSet fields.length) (fieldSetImage fields)
      (fields.map (Option.map FieldType.restored)) := by
  induction fields with
  | nil => exact Takes.pure []
  | cons field fields hypothesis =>
    obtain ⟨held, rfl, numeric⟩ := whole field List.mem_cons_self
    rw [fieldSetImage, List.flatMap_cons]
    refine (createFieldByStream_takes held numeric (short _ List.mem_cons_self held rfl)).bind ?_
    exact (hypothesis (fun other member => whole other (List.mem_cons_of_mem _ member))
      fun other member => short other (List.mem_cons_of_mem _ member)).map fun _ => rfl

theorem readFieldSet_throws (fields : List (Option FieldType)) (whole : WholeSet fields)
    (long : ¬ ShortSet fields) :
    Throws (readFieldSet fields.length) (fieldSetImage fields) := by
  induction fields with
  | nil => exact absurd (fun _ member => absurd member List.not_mem_nil) long
  | cons field fields hypothesis =>
    obtain ⟨held, rfl, numeric⟩ := whole field List.mem_cons_self
    rw [fieldSetImage, List.flatMap_cons]
    by_cases first : held.Short
    · refine (createFieldByStream_takes held numeric first).throws ((hypothesis
        (fun other member => whole other (List.mem_cons_of_mem _ member)) ?_).map)
      intro others
      refine long fun other member => ?_
      rcases List.mem_cons.mp member with equal | later
      · rw [equal]
        rintro _ ⟨⟩
        exact first
      · exact others other later
    · exact (createFieldByStream_throws held numeric first).bind _

theorem FieldType.length_image (field : FieldType) : 20 ≤ field.image.length := by
  simp only [FieldType.image, FieldType.body, ExternFields.image, stringBytes, List.length_append,
    SMDValue.length_putShort, SMDValue.length_putInt]
  omega

theorem length_fieldSetImage (fields : List (Option FieldType)) (whole : WholeSet fields) :
    20 * fields.length ≤ (fieldSetImage fields).length := by
  induction fields with
  | nil => exact Nat.le_refl _
  | cons field fields hypothesis =>
    obtain ⟨held, rfl, _⟩ := whole field List.mem_cons_self
    have first := held.length_image
    have others := hypothesis fun other member => whole other (List.mem_cons_of_mem _ member)
    rw [fieldSetImage, List.flatMap_cons, List.length_append, List.length_cons, Option.elim_some,
      ← fieldSetImage]
    omega

/-! ### Tables -/

/-- Every string of the definition is one that an `int` can count. -/
def TableDef.Short (table : TableDef) : Prop :=
  table.tableName.length < 2147483648 ∧ ShortSet table.FieldSet

def TableDef.image (table : TableDef) : Bytes :=
  stringBytes table.tableName ++ (SMDValue.putShort table.m_enumIndexType.code ++
    (SMDValue.putShort (boolShort table.IsSaveByGroup) ++
      (SMDValue.putInt (BitVec.ofNat 32 table.FieldSet.length) ++ fieldSetImage table.FieldSet)))

/-- The definition that is read back. -/
def TableDef.restored (table : TableDef) : TableDef :=
  { table with FieldSet := table.FieldSet.map (Option.map FieldType.restored) }

theorem getIndexTypeFromShort_code (type : SMD_INDEX_INDEXTYPE) :
    getIndexTypeFromShort type.code = type := by
  cases type <;> rfl

theorem TableDef.write_appends (table : TableDef) (whole : WholeSet table.FieldSet) :
    Appends table.write table.image :=
  (writeString_appends _).bind ((writeShort_appends _).bind ((writeShort_appends _).bind
    ((writeInt_appends _).bind (writeFieldSet_appends _ whole))))

theorem TableDef.image_ne_nil (table : TableDef) : table.image ≠ [] := by
  intro empty
  have length := congrArg List.length empty
  rw [TableDef.image, List.length_append, stringBytes, List.length_append,
    SMDValue.length_putInt, List.length_nil] at length
  omega

/-- The number of fields comes back as it was. -/
theorem TableDef.toNat_fields (table : TableDef) (whole : WholeSet table.FieldSet)
    (small : table.image.length < 4294967296) :
    (BitVec.ofNat 32 table.FieldSet.length).toInt.toNat = table.FieldSet.length := by
  have fields := length_fieldSetImage table.FieldSet whole
  simp only [TableDef.image, List.length_append] at small
  exact toNat_count (by omega)

theorem TableDef.read_takes (table : TableDef) (whole : WholeSet table.FieldSet)
    (short : table.Short) : Takes TableDef.read table.image (true, table.restored) := by
  refine takes_of_length fun small => takes_guarded table.image_ne_nil ?_
  refine (readStr_takes _ short.1).bind ((readShortLocal_takes _).bind
    ((readShortLocal_takes _).bind ((readInt_takes _).bind ?_)))
  simp only [table.toNat_fields whole small]
  refine (readFieldSet_takes _ whole short.2).map fun stream => ?_
  dsimp only
  rw [boolShort_ne, getIndexTypeFromShort_code]
  rfl

theorem TableDef.read_throws (table : TableDef) (whole : WholeSet table.FieldSet)
    (long : ¬ table.Short) : Throws TableDef.read table.image := by
  refine throws_of_length fun small => throws_guarded table.image_ne_nil ?_
  by_cases name : table.tableName.length < 2147483648
  · refine (readStr_takes _ name).throws ((readShortLocal_takes _).throws
      ((readShortLocal_takes _).throws ((readInt_takes _).throws ?_)))
    simp only [table.toNat_fields whole small]
    exact (readFieldSet_throws _ whole fun fields => long ⟨name, fields⟩).map
  · exact (readStr_throws _ name).bind _

/-! ### Streams of tables -/

def writeTables : List TableDef → SMDMemStream → Except Fault SMDMemStream
  | [], stream => .ok stream
  | table :: tables, stream => do
    let stream ← table.write stream
    writeTables tables stream

def readTables : Nat → SMDMemStream → Except Fault (List (Bool × TableDef) × SMDMemStream)
  | 0, stream => .ok ([], stream)
  | left + 1, stream => do
    let (table, stream) ← TableDef.read stream
    let (tables, stream) ← readTables left stream
    .ok (table :: tables, stream)

theorem writeTables_appends (tables : List TableDef)
    (whole : ∀ table ∈ tables, WholeSet table.FieldSet) :
    Appends (writeTables tables) (tables.flatMap TableDef.image) := by
  induction tables with
  | nil => exact Appends.none
  | cons table tables hypothesis =>
    exact (table.write_appends (whole table List.mem_cons_self)).bind
      (hypothesis fun other member => whole other (List.mem_cons_of_mem _ member))

theorem readTables_takes (tables : List TableDef)
    (whole : ∀ table ∈ tables, WholeSet table.FieldSet) (short : ∀ table ∈ tables, table.Short) :
    Takes (readTables tables.length) (tables.flatMap TableDef.image)
      (tables.map fun table => (true, table.restored)) := by
  induction tables with
  | nil => exact Takes.pure []
  | cons table tables hypothesis =>
    refine (table.read_takes (whole table List.mem_cons_self)
      (short table List.mem_cons_self)).bind ?_
    exact (hypothesis (fun other member => whole other (List.mem_cons_of_mem _ member))
      fun other member => short other (List.mem_cons_of_mem _ member)).map fun _ => rfl

theorem readTables_throws (tables : List TableDef)
    (whole : ∀ table ∈ tables, WholeSet table.FieldSet)
    (long : ¬ ∀ table ∈ tables, table.Short) :
    Throws (readTables tables.length) (tables.flatMap TableDef.image) := by
  induction tables with
  | nil => exact absurd (fun _ member => absurd member List.not_mem_nil) long
  | cons table tables hypothesis =>
    have wholeFirst := whole table List.mem_cons_self
    by_cases first : table.Short
    · refine (table.read_takes wholeFirst first).throws ((hypothesis
        (fun other member => whole other (List.mem_cons_of_mem _ member)) ?_).map)
      intro others
      refine long fun other member => ?_
      rcases List.mem_cons.mp member with equal | later
      · rw [equal]
        exact first
      · exact others other later
    · exact (table.read_throws wholeFirst first).bind _

/-! ### What the definitions take and keep -/

/-- The bytes behind the type of a head. -/
def headSize : Option FieldHead → Nat
  | some (.double _) => 10
  | some (.int _) => 6
  | some _ => 2
  | none => 0

def DataType.size : DataType → Nat
  | .text _ | .varText _ | .binary _ | .varBinary _ => 4
  | .float _ | .double _ | .flDouble _ => 2
  | .varInt | .short | .int | .long => 0

/-- The bytes that a field takes in a stream. -/
def FieldType.size (field : FieldType) : Nat :=
  20 + field.FieldName.length + field.Alias.length + headSize field.fhead +
    (field.externFields.entries.map fun entry => 8 + entry.1.length + entry.2.length).sum +
    field.DataType.size

/-- The bytes that a definition takes in a stream. -/
def TableDef.size (table : TableDef) : Nat :=
  12 + table.tableName.length + (table.FieldSet.map fun field => field.elim 0 FieldType.size).sum

theorem length_flatMap_eq {Item : Type} (items : List Item) (image : Item → Bytes)
    (size : Item → Nat) (each : ∀ item ∈ items, (image item).length = size item) :
    (items.flatMap image).length = (items.map size).sum := by
  rw [List.length_flatMap]
  exact congrArg List.sum (List.map_congr_left each)

theorem FieldType.length_image_eq (field : FieldType) : field.image.length = field.size := by
  have entries := length_flatMap_eq field.externFields.entries
    (fun entry => stringBytes entry.1 ++ stringBytes entry.2)
    (fun entry => 8 + entry.1.length + entry.2.length) fun entry _ => by
      simp only [stringBytes, List.length_append, SMDValue.length_putInt]
      omega
  have head : (headImage field.fhead).length = headSize field.fhead := by
    generalize field.fhead = fhead
    rcases fhead with _ | ⟨_⟩ | ⟨_⟩ | ⟨_⟩ | ⟨_⟩ <;> rfl
  have type : field.DataType.image.length = field.DataType.size := by
    generalize field.DataType = type
    cases type <;> rfl
  simp only [FieldType.image, FieldType.body, ExternFields.image, entriesImage, stringBytes,
    List.length_append, SMDValue.length_putShort, SMDValue.length_putInt, head, type, FieldType.size]
    at entries ⊢
  omega

theorem TableDef.length_image (table : TableDef) (whole : WholeSet table.FieldSet) :
    table.image.length = table.size := by
  have fields := length_flatMap_eq table.FieldSet (fun field => field.elim [] FieldType.image)
    (fun field => field.elim 0 FieldType.size) fun field member => by
      obtain ⟨held, rfl, _⟩ := whole field member
      exact held.length_image_eq
  rw [TableDef.image, fieldSetImage]
  simp only [stringBytes, List.length_append, SMDValue.length_putShort, SMDValue.length_putInt,
    fields, TableDef.size]
  omega

/-- No field has an alias. -/
def TableDef.Unaliased (table : TableDef) : Prop :=
  ∀ field ∈ table.FieldSet, ∀ held ∈ field, held.Alias = []

theorem FieldType.restored_eq_self (field : FieldType) :
    field.restored = field ↔ field.Alias = [] := by
  constructor
  · intro equal
    exact (congrArg FieldType.Alias equal).symm
  · intro empty
    rw [FieldType.restored, ← empty]

theorem TableDef.restored_eq_self (table : TableDef) :
    table.restored = table ↔ table.Unaliased := by
  constructor
  · intro equal field member held heldEq
    have mapped : table.FieldSet.map (Option.map FieldType.restored) = table.FieldSet.map id :=
      (congrArg TableDef.FieldSet equal).trans (List.map_id _).symm
    have same := List.map_inj_left.mp mapped field member
    rw [heldEq] at same
    exact held.restored_eq_self.mp (Option.some.inj same)
  · intro unaliased
    have mapped : table.FieldSet.map (Option.map FieldType.restored) = table.FieldSet := by
      refine (List.map_congr_left fun field member => ?_).trans (List.map_id _)
      cases field with
      | none => rfl
      | some held => exact congrArg some (held.restored_eq_self.mpr (unaliased _ member held rfl))
    rw [TableDef.restored, mapped]

/-- Records see the same columns in the definition that comes back. -/
theorem TableDef.table_restored (table : TableDef) : table.restored.table = table.table := by
  unfold TableDef.table TableDef.restored
  rw [List.filterMap_map]
  have same : (fun field : Option FieldType => field.map FieldType.column) ∘
      Option.map FieldType.restored = fun field => field.map FieldType.column := by
    funext field
    cases field <;> rfl
  rw [same]

/-! ### Reading definitions back -/

/-- Every definition comes back, equal in every attribute, with the stream used up, exactly when
the definitions take less than 4 GiB, their strings less than 2 GiB each, and no field has an
alias. -/
theorem tables_read_back (tables : List TableDef)
    (whole : ∀ table ∈ tables, WholeSet table.FieldSet) :
    (∃ stream, writeTables tables (SMDMemStream.new 0) = .ok stream ∧
      readTables tables.length ⟨stream.data, 0⟩ =
        .ok (tables.map fun table => (true, table), ⟨stream.data, stream.data.length⟩)) ↔
    (tables.map TableDef.size).sum < 4294967296 ∧
      ∀ table ∈ tables, table.Short ∧ table.Unaliased := by
  have size := length_flatMap_eq tables TableDef.image TableDef.size fun table member =>
    table.length_image (whole table member)
  have written := writeTables_appends tables whole [] (by decide)
  rw [appended, List.length_nil, Nat.zero_add, List.nil_append] at written
  rw [← size]
  by_cases small : (tables.flatMap TableDef.image).length < 4294967296
  · rw [if_pos small] at written
    by_cases short : ∀ table ∈ tables, table.Short
    · have read := (readTables_takes tables whole short).all small
      constructor
      · rintro ⟨stream, writtenEq, readEq⟩
        cases written.symm.trans writtenEq
        have equal := congrArg Prod.fst (Except.ok.inj (read.symm.trans readEq))
        refine ⟨small, fun table member => ⟨short table member, ?_⟩⟩
        exact table.restored_eq_self.mp
          (congrArg Prod.snd (List.map_inj_left.mp equal table member))
      · rintro ⟨_, kept⟩
        refine ⟨_, written, read.trans ?_⟩
        rw [List.map_congr_left fun table member =>
          congrArg (Prod.mk true) (table.restored_eq_self.mpr (kept table member).2)]
    · obtain ⟨fault, failed⟩ := (readTables_throws tables whole short).all small
      constructor
      · rintro ⟨stream, writtenEq, readEq⟩
        cases written.symm.trans writtenEq
        cases failed.symm.trans readEq
      · rintro ⟨_, kept⟩
        exact absurd (fun table member => (kept table member).1) short
  · rw [if_neg small] at written
    constructor
    · rintro ⟨stream, writtenEq, _⟩
      cases written.symm.trans writtenEq
    · rintro ⟨fits, _⟩
      exact absurd fits small

/-- A table `T` with a nullable integer column, whose head is an integer and which carries an
extension; the column has neither a name nor an alias. -/
def unnamed : TableDef :=
  ⟨[84], .BPTREE, true, [some ⟨.int, [], [], false, true, some (.int 7), .insert .empty [75] [86]⟩]⟩

theorem unnamed_whole : WholeSet unnamed.FieldSet := by
  intro field member
  exact ⟨_, List.mem_singleton.mp member, fun head headEq => by cases headEq; trivial⟩

theorem tables_read_back_once :
    (∃ stream, writeTables [unnamed, unnamed] (SMDMemStream.new 0) = .ok stream ∧
      readTables 2 ⟨stream.data, 0⟩ =
        .ok ([(true, unnamed), (true, unnamed)], ⟨stream.data, stream.data.length⟩)) ↔
    ([unnamed, unnamed].map TableDef.size).sum < 4294967296 ∧
      ∀ table ∈ [unnamed, unnamed], table.Short ∧ table.Unaliased :=
  tables_read_back [unnamed, unnamed] fun table member => by
    have equal : table = unnamed := by simpa using member
    rw [equal]
    exact unnamed_whole

/-- The column `A` as the factory makes it, its name its alias as well. -/
def named : TableDef :=
  ⟨[84], .BPTREE, true, [some ⟨.int, [65], [65], false, true, none, .empty⟩]⟩

theorem tables_not_read_back :
    FieldTypeFactory.createField 10 [65] = some ⟨.int, [65], [65], false, true, none, .empty⟩ ∧
      ∃ stream, named.write (SMDMemStream.new 0) = .ok stream ∧
        TableDef.read ⟨stream.data, 0⟩ =
          .ok ((true, ⟨[84], .BPTREE, true,
            [some ⟨.int, [65], [], false, true, none, .empty⟩]⟩),
            ⟨stream.data, stream.data.length⟩) ∧
        (⟨[84], .BPTREE, true, [some ⟨.int, [65], [], false, true, none, .empty⟩]⟩ : TableDef) ≠
          named := by
  refine ⟨rfl, ⟨named.image, 35⟩, ?_, ?_, by decide⟩
  · rfl
  · rfl

end LevelDBLib.KvDB.Schema
