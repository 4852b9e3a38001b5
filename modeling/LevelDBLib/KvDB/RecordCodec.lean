/-
This file states what the codec of records is for. A field of a column holds a
value; the image of a value is the byte string that stands for it in a stream.
Writing a field appends the image of its value, and reading a field of the same
column off a stream that goes on with that image gives a field that holds the
value, whatever comes behind: the images delimit themselves. A VAR_INT is read only
where the lock can be taken once more, which inside `Record::read` it cannot.
-/

import Mathlib.Data.List.Forall2
import LevelDBLib.KvDB.VarInt

namespace LevelDBLib.KvDB

/-- What a field holds. -/
inductive Value where
  | bytes (value : Bytes)
  | float (bits : BitVec 32)
  | double (bits : BitVec 64)
  | fixed (stored : BitVec 64)
  | varInt (value : BitVec 32)
  | short (value : BitVec 16)
  | int (value : BitVec 32)
  | long (value : BitVec 64)
deriving DecidableEq, Repr

/-- The bytes that stand for a value in a stream. -/
def Value.image : Value → Bytes
  | .bytes value => SMDMemStream.stringBytes value
  | .float bits => SMDValue.putInt bits
  | .double bits => SMDValue.putLong bits
  | .fixed stored => SMDValue.putLong stored
  | .varInt value => varIntWrite value
  | .short value => SMDValue.putShort value
  | .int value => SMDValue.putInt value
  | .long value => SMDValue.putLong value

theorem Value.image_ne_nil (value : Value) : value.image ≠ [] := by
  cases value with
  | varInt value => exact List.length_pos_iff.mp (length_varIntWrite value).1
  | _ => exact List.cons_ne_nil _ _

/-- The value of a field, as far as its bytes were ever written. -/
def Field.stored : Field → Except Fault Value
  | .text stored | .varText stored | .binary stored | .varBinary stored => do
    let bytes ← load stored.buffer stored.nLength
    .ok (.bytes bytes)
  | .float bits => .ok (.float bits)
  | .double bits => .ok (.double bits)
  | .flDouble _ FLDouble => .ok (.fixed FLDouble)
  | .varInt nCount data => .ok (.varInt (varIntValue nCount data))
  | .short value => .ok (.short value)
  | .int value => .ok (.int value)
  | .long value => .ok (.long value)

/-! ### Memory -/

/-- Behind the pointer lie `room` cells, or there is none when `malloc` cannot give them. -/
def OfRoom (buffer : Option Block) (room : Int) : Prop :=
  buffer.map Block.room = if room < 0 then none else some room.toNat

theorem malloc_ofRoom (room : Int) : OfRoom (malloc room) room := by
  unfold OfRoom malloc
  split
  · rfl
  · rfl

theorem OfRoom.some {buffer : Option Block} {room : Int} (ofRoom : OfRoom buffer room)
    (possible : 0 ≤ room) : ∃ written, buffer = some ⟨room.toNat, written⟩ := by
  rw [OfRoom, if_neg (by omega)] at ofRoom
  obtain ⟨block, equal, room⟩ := Option.map_eq_some_iff.mp ofRoom
  obtain ⟨size, written⟩ := block
  exact ⟨written, by rw [equal, ← room]⟩

theorem store_eq {room : Nat} {written source : Bytes} (fits : source.length ≤ room) :
    store (some ⟨room, written⟩) source =
      .ok (some ⟨room, source ++ written.drop source.length⟩) := by
  cases source with
  | nil => rfl
  | cons byte source =>
    simp only [store]
    exact if_pos fits

theorem store_ofRoom {buffer next : Option Block} {room : Int} {source : Bytes}
    (ofRoom : OfRoom buffer room) (stored : store buffer source = .ok next) :
    OfRoom next room := by
  unfold store at stored
  split at stored
  · cases stored
    exact ofRoom
  · cases stored
  · split at stored
    · cases stored
      exact ofRoom
    · cases stored

/-- What was copied to a buffer is its first bytes. -/
theorem load_store {buffer next : Option Block} {source : Bytes}
    (stored : store buffer source = .ok next) (count : Nat) (within : count ≤ source.length) :
    load next count = .ok (source.take count) := by
  unfold store at stored
  split at stored
  · obtain rfl : count = 0 := by simpa using within
    rfl
  · cases stored
  · rename_i byte source block
    split at stored
    · rename_i fits
      cases stored
      by_cases none : (count : Int) = 0
      · obtain rfl : count = 0 := by omega
        rfl
      · rw [load, if_neg none]
        simp only
        rw [if_neg (by omega), if_neg (by rw [List.length_append]; omega), Int.toNat_natCast,
          List.take_append_of_le_length within]
    · cases stored

theorem clear_eq {room : Nat} {written : Bytes} :
    clear (some ⟨room, written⟩) room =
      .ok (some ⟨room, List.replicate room 0 ++ written.drop room⟩) := by
  rw [clear, if_neg (by omega), Int.toNat_natCast, store_eq (Nat.le_of_eq List.length_replicate),
    List.length_replicate]

theorem clear_ofRoom {buffer next : Option Block} {room count : Int} (ofRoom : OfRoom buffer room)
    (cleared : clear buffer count = .ok next) : OfRoom next room := by
  unfold clear at cleared
  split at cleared
  · cases cleared
  · exact store_ofRoom ofRoom cleared

/-! ### Fields that hold a value -/

/-- The buffer holds `value` as its first `nLength` bytes. -/
def TextAndBinary.Holds (stored : TextAndBinary) (value : Bytes) : Prop :=
  stored.nLength = value.length ∧ load stored.buffer value.length = .ok value

/-- The memory of a field fits its column. -/
inductive Field.Fits : FieldType → Field → Prop
  | text {length : BitVec 32} {stored : TextAndBinary} (size : stored.nFieldSize = length.toInt)
      (room : OfRoom stored.buffer length.toInt) : Fits (.text length) (.text stored)
  | varText {stored : TextAndBinary} : Fits .varText (.varText stored)
  | binary {length : BitVec 32} {stored : TextAndBinary} (size : stored.nFieldSize = length.toInt)
      (room : OfRoom stored.buffer length.toInt) : Fits (.binary length) (.binary stored)
  | varBinary {stored : TextAndBinary} : Fits .varBinary (.varBinary stored)
  | float {bits : BitVec 32} : Fits .float (.float bits)
  | double {bits : BitVec 64} : Fits .double (.double bits)
  | flDouble {scale : BitVec 16} {FLDouble : BitVec 64} :
      Fits (.flDouble scale) (.flDouble scale.toInt FLDouble)
  | varInt {head : Option (BitVec 32)} {nCount : Nat} {data : Bytes} (five : data.length = 5) :
      Fits (.varInt head) (.varInt nCount data)
  | short {value : BitVec 16} : Fits .short (.short value)
  | int {value : BitVec 32} : Fits .int (.int value)
  | long {value : BitVec 64} : Fits .long (.long value)

/-- A field of a column holds a value. -/
inductive Field.Holds : FieldType → Field → Value → Prop
  | text {length : BitVec 32} {stored : TextAndBinary} {value : Bytes}
      (held : stored.Holds value) (inside : (value.length : Int) ≤ length.toInt) :
      Holds (.text length) (.text stored) (.bytes value)
  | varText {stored : TextAndBinary} {value : Bytes} (held : stored.Holds value)
      (small : value.length < 2147483648) : Holds .varText (.varText stored) (.bytes value)
  | binary {length : BitVec 32} {stored : TextAndBinary} {value : Bytes}
      (held : stored.Holds value) (inside : (value.length : Int) ≤ length.toInt) :
      Holds (.binary length) (.binary stored) (.bytes value)
  | varBinary {stored : TextAndBinary} {value : Bytes} (held : stored.Holds value)
      (small : value.length < 2147483648) : Holds .varBinary (.varBinary stored) (.bytes value)
  | float {bits : BitVec 32} : Holds .float (.float bits) (.float bits)
  | double {bits : BitVec 64} : Holds .double (.double bits) (.double bits)
  | flDouble {scale : BitVec 16} {FLDouble : BitVec 64} :
      Holds (.flDouble scale) (.flDouble scale.toInt FLDouble) (.fixed FLDouble)
  | varInt {head : Option (BitVec 32)} {value : BitVec 32} {rest : Bytes} :
      Holds (.varInt head) (.varInt (varIntWrite value).length (varIntWrite value ++ rest))
        (.varInt value)
  | short {value : BitVec 16} : Holds .short (.short value) (.short value)
  | int {value : BitVec 32} : Holds .int (.int value) (.int value)
  | long {value : BitVec 64} : Holds .long (.long value) (.long value)

theorem Field.init_fits (column : FieldType) : Field.Fits column (Field.init column) := by
  cases column with
  | text length => exact .text rfl (malloc_ofRoom _)
  | binary length => exact .binary rfl (malloc_ofRoom _)
  | varInt head => exact .varInt rfl
  | varText => exact .varText
  | varBinary => exact .varBinary
  | float => exact .float
  | double => exact .double
  | flDouble scale => exact .flDouble
  | short => exact .short
  | int => exact .int
  | long => exact .long

theorem TextAndBinary.Holds.load {stored : TextAndBinary} {value : Bytes}
    (held : stored.Holds value) : KvDB.load stored.buffer stored.nLength = .ok value := by
  rw [held.1]
  exact held.2

theorem Field.Holds.stored {column : FieldType} {field : Field} {value : Value}
    (holds : Field.Holds column field value) : field.stored = .ok value := by
  cases holds with
  | text held _ | varText held _ | binary held _ | varBinary held _ =>
    rw [Field.stored, held.load, ok_bind]
  | varInt => rw [Field.stored, varIntValue_varIntWrite]
  | _ => rfl

/-! ### Writing a field -/

theorem write_bytes {stored : TextAndBinary} {value : Bytes} (held : stored.Holds value) :
    SMDMemStream.Appends (fun stream => stream.writeInt (BitVec.ofInt 32 stored.nLength) >>=
      fun stream => load stored.buffer stored.nLength >>= fun bytes => stream.writeBytes bytes)
      (SMDMemStream.stringBytes value) := by
  have length : BitVec.ofInt 32 stored.nLength = BitVec.ofNat 32 value.length := by
    rw [held.1, BitVec.ofInt_natCast]
  simp only [held.load, ok_bind, length]
  exact SMDMemStream.writeString_appends value

/-- Writing a field appends the image of its value. -/
theorem Field.Holds.write {column : FieldType} {field : Field} {value : Value}
    (holds : Field.Holds column field value) : SMDMemStream.Appends field.write value.image := by
  cases holds with
  | text held _ | varText held _ | binary held _ | varBinary held _ => exact write_bytes held
  | @varInt _ value rest =>
    have fetched : fetch (varIntWrite value ++ rest) 0 (varIntWrite value).length =
        .ok (varIntWrite value) := by
      rw [fetch_of_le _ _ _ (by rw [List.length_append]; omega), Buffers.slice, List.drop_zero,
        List.take_left]
    unfold Field.write
    simp only [fetched, ok_bind]
    exact SMDMemStream.writeBytes_appends _
  | _ => exact SMDMemStream.writeBytes_appends _

/-! ### Reading a field -/

/-- The length in front of a string, then its bytes. -/
theorem readBytes_counted (stream : SMDMemStream) (value rest : Bytes)
    (small : value.length < 2147483648)
    (holds : stream.Holds (SMDMemStream.stringBytes value ++ rest)) :
    ∃ middle next, stream.readInt = .ok (some (BitVec.ofNat 32 value.length), middle) ∧
      (BitVec.ofNat 32 value.length).toInt = value.length ∧
      middle.readBytes (uint value.length) = .ok (some value, next) ∧ next.Holds rest := by
  rw [SMDMemStream.stringBytes, List.append_assoc] at holds
  obtain ⟨middle, counted, middleHolds⟩ := SMDMemStream.readInt_holds stream _ _ holds
  obtain ⟨next, read, after⟩ := SMDMemStream.readBytes_holds middle value rest middleHolds
  refine ⟨middle, next, counted, ?_, ?_, after⟩
  · rw [BitVec.toInt_eq_toNat_cond, BitVec.toNat_ofNat, Nat.mod_eq_of_lt (by omega),
      if_pos (by omega)]
  · rw [uint_of_lt _ (by omega)]
    exact read

theorem store_malloc (value : Bytes) :
    store (malloc value.length) value = .ok (some ⟨value.length, value⟩) := by
  rw [malloc, if_neg (by omega), Int.toNat_natCast, store_eq (Nat.le_refl _), List.drop_nil,
    List.append_nil]

theorem load_stored {buffer next : Option Block} {value : Bytes}
    (stored : store buffer value = .ok next) : load next value.length = .ok value := by
  rw [load_store stored value.length (Nat.le_refl _), List.take_length]

/-- A value that fits its column fits the cleared buffer. -/
theorem store_cleared {stored : TextAndBinary} {length : BitVec 32} {value : Bytes}
    (size : stored.nFieldSize = length.toInt) (room : OfRoom stored.buffer length.toInt)
    (inside : (value.length : Int) ≤ length.toInt) :
    ∃ cleared next, clear stored.buffer stored.nFieldSize = .ok cleared ∧
      store cleared value = .ok next ∧ OfRoom next length.toInt := by
  obtain ⟨written, buffer⟩ := room.some (by omega)
  have count : stored.nFieldSize = (length.toInt.toNat : Int) := by omega
  refine ⟨_, _, by rw [buffer, count, clear_eq], store_eq (by omega), ?_⟩
  rw [OfRoom, if_neg (by omega)]
  rfl

def FieldType.isVarInt : FieldType → Bool
  | .varInt _ => true
  | _ => false

/-- Reading a field off a stream that goes on with the image of a value of its column. -/
theorem Field.Fits.read {m_lock : NaviLock} {column : FieldType} {target field : Field}
    {value : Value} (fits : Field.Fits column target) (holds : Field.Holds column field value)
    (isOpen : column.isVarInt = true → m_lock.Open) (stream : SMDMemStream) (rest : Bytes)
    (held : stream.Holds (value.image ++ rest)) :
    ∃ result next, target.read m_lock stream = .ok (result, next) ∧ next.Holds rest ∧
      Field.Fits column result ∧ Field.Holds column result value := by
  cases fits with
  | @text length target size room =>
    cases holds with
    | @text _ _ value _ inside =>
      have bound := @BitVec.toInt_lt 32 length
      obtain ⟨cleared, block, clearEq, storeEq, after⟩ := store_cleared size room inside
      obtain ⟨next, read, nextHolds⟩ := readStr_holds stream value rest (by omega) held
      have whole : (min target.nFieldSize (value.length : Int)).toNat = value.length := by omega
      have nLength : (if (value.length : Int) < target.nFieldSize then (value.length : Int)
          else target.nFieldSize) = value.length := by
        split <;> omega
      refine ⟨.text { target with nLength := value.length, buffer := block }, next, ?_, nextHolds,
        .text size after, .text ⟨rfl, load_stored storeEq⟩ inside⟩
      simp only [Field.read, clearEq, ok_bind, read, whole, List.take_length, storeEq, nLength]
  | varText =>
    cases holds with
    | @varText _ value _ small =>
      obtain ⟨next, read, nextHolds⟩ := readStr_holds stream value rest small held
      refine ⟨.varText ⟨value.length, value.length, some ⟨value.length, value⟩⟩, next, ?_,
        nextHolds, .varText, .varText ⟨rfl, load_stored (store_malloc value)⟩ small⟩
      simp only [Field.read, read, ok_bind, store_malloc]
  | @binary length target size room =>
    cases holds with
    | @binary _ _ value _ inside =>
      have bound := @BitVec.toInt_lt 32 length
      obtain ⟨cleared, block, clearEq, storeEq, after⟩ := store_cleared size room inside
      obtain ⟨middle, next, counted, count, read, nextHolds⟩ :=
        readBytes_counted stream value rest (by omega) held
      have nLength : (if (value.length : Int) < target.nFieldSize then (value.length : Int)
          else target.nFieldSize) = value.length := by
        split <;> omega
      refine ⟨.binary { target with nLength := value.length, buffer := block }, next, ?_, nextHolds,
        .binary size after, .binary ⟨rfl, load_stored storeEq⟩ inside⟩
      simp only [Field.read, clearEq, ok_bind, counted, Option.elim_some, count, nLength, read,
        Option.getD_some, storeEq]
  | varBinary =>
    cases holds with
    | @varBinary _ value _ small =>
      obtain ⟨middle, next, counted, count, read, nextHolds⟩ :=
        readBytes_counted stream value rest small held
      refine ⟨.varBinary ⟨value.length, value.length, some ⟨value.length, value⟩⟩, next, ?_,
        nextHolds, .varBinary, .varBinary ⟨rfl, load_stored (store_malloc value)⟩ small⟩
      simp only [Field.read, counted, ok_bind, Option.elim_some, count, read, Option.getD_some,
        store_malloc]
  | float =>
    cases holds with
    | float =>
      obtain ⟨next, read, nextHolds⟩ := SMDMemStream.readInt_holds stream _ rest held
      exact ⟨_, next, by simp only [Field.read, read, ok_bind, Option.getD_some], nextHolds, .float,
        .float⟩
  | double =>
    cases holds with
    | double =>
      obtain ⟨next, read, nextHolds⟩ := SMDMemStream.readLong_holds stream _ rest held
      exact ⟨_, next, by simp only [Field.read, read, ok_bind, Option.getD_some], nextHolds, .double,
        .double⟩
  | flDouble =>
    cases holds with
    | flDouble =>
      obtain ⟨next, read, nextHolds⟩ := SMDMemStream.readLong_holds stream _ rest held
      exact ⟨_, next, by simp only [Field.read, read, ok_bind, Option.getD_some], nextHolds,
        .flDouble, .flDouble⟩
  | @varInt head nCount data five =>
    cases holds with
    | @varInt _ value behind =>
      obtain ⟨next, read, nextHolds⟩ :=
        readVarInt_varIntWrite nCount data rest value stream five (isOpen rfl) held
      have written := length_varIntWrite value
      refine ⟨_, next, read, nextHolds, .varInt ?_, .varInt⟩
      rw [List.length_append, List.length_drop]
      omega
  | short =>
    cases holds with
    | short =>
      obtain ⟨next, read, nextHolds⟩ := SMDMemStream.readShort_holds stream _ rest held
      exact ⟨_, next, by simp only [Field.read, read, ok_bind, Option.getD_some], nextHolds, .short,
        .short⟩
  | int =>
    cases holds with
    | int =>
      obtain ⟨next, read, nextHolds⟩ := SMDMemStream.readInt_holds stream _ rest held
      exact ⟨_, next, by simp only [Field.read, read, ok_bind, Option.getD_some], nextHolds, .int,
        .int⟩
  | long =>
    cases holds with
    | long =>
      obtain ⟨next, read, nextHolds⟩ := SMDMemStream.readLong_holds stream _ rest held
      exact ⟨_, next, by simp only [Field.read, read, ok_bind, Option.getD_some], nextHolds, .long,
        .long⟩

/-! ### Reading changes the position only -/

theorem data_readStr {stream next : SMDMemStream} {str : Bytes}
    (read : readStr stream = .ok (str, next)) : next.data = stream.data := by
  obtain ⟨⟨string, middle⟩, taken, rest⟩ := (bind_eq_ok _ _ _).mp read
  rw [← SMDMemStream.data_readString taken]
  cases string with
  | some string =>
    cases rest
    rfl
  | none =>
    obtain ⟨_, _, equal⟩ := (bind_eq_ok _ _ _).mp rest
    cases equal
    rfl

theorem data_varIntLoop {nCount : Nat} {data : Bytes} {i left : Nat} {stream next : SMDMemStream}
    {field : Field} (read : varIntLoop nCount data i stream left = .ok (field, next)) :
    next.data = stream.data := by
  induction left generalizing i data stream with
  | zero =>
    cases read
    rfl
  | succ left hypothesis =>
    obtain ⟨⟨byte, middle⟩, taken, rest⟩ := (bind_eq_ok _ _ _).mp read
    rw [← SMDMemStream.data_readBytes taken]
    dsimp only at rest
    split at rest
    · cases rest
      rfl
    · exact hypothesis rest

theorem Field.data_read {m_lock : NaviLock} {field result : Field} {stream next : SMDMemStream}
    (read : field.read m_lock stream = .ok (result, next)) : next.data = stream.data := by
  cases field with
  | text stored =>
    obtain ⟨_, _, rest⟩ := (bind_eq_ok _ _ _).mp read
    obtain ⟨_, taken, rest⟩ := (bind_eq_ok _ _ _).mp rest
    obtain ⟨_, _, equal⟩ := (bind_eq_ok _ _ _).mp rest
    cases equal
    exact data_readStr taken
  | varText stored =>
    obtain ⟨_, taken, rest⟩ := (bind_eq_ok _ _ _).mp read
    obtain ⟨_, _, equal⟩ := (bind_eq_ok _ _ _).mp rest
    cases equal
    exact data_readStr taken
  | binary stored =>
    obtain ⟨_, _, rest⟩ := (bind_eq_ok _ _ _).mp read
    obtain ⟨_, counted, rest⟩ := (bind_eq_ok _ _ _).mp rest
    obtain ⟨_, taken, rest⟩ := (bind_eq_ok _ _ _).mp rest
    obtain ⟨_, _, equal⟩ := (bind_eq_ok _ _ _).mp rest
    cases equal
    rw [SMDMemStream.data_readBytes taken, SMDMemStream.data_readInt counted]
  | varBinary stored =>
    obtain ⟨_, counted, rest⟩ := (bind_eq_ok _ _ _).mp read
    obtain ⟨_, taken, rest⟩ := (bind_eq_ok _ _ _).mp rest
    obtain ⟨_, _, equal⟩ := (bind_eq_ok _ _ _).mp rest
    cases equal
    rw [SMDMemStream.data_readBytes taken, SMDMemStream.data_readInt counted]
  | varInt nCount data =>
    by_cases isOpen : m_lock.Open
    · rw [Field.read, readVarInt, NaviGuard_open isOpen] at read
      exact data_varIntLoop read
    · rw [Field.read, readVarInt, NaviGuard_taken isOpen] at read
      cases read
  | float bits | int value =>
    obtain ⟨_, taken, equal⟩ := (bind_eq_ok _ _ _).mp read
    cases equal
    exact SMDMemStream.data_readInt taken
  | double bits | flDouble nLength bits | long value =>
    obtain ⟨_, taken, equal⟩ := (bind_eq_ok _ _ _).mp read
    cases equal
    exact SMDMemStream.data_readLong taken
  | short value =>
    obtain ⟨_, taken, equal⟩ := (bind_eq_ok _ _ _).mp read
    cases equal
    exact SMDMemStream.data_readShort taken

theorem data_readFields {m_lock : NaviLock} {fields results : List Field}
    {stream next : SMDMemStream} (read : readFields m_lock fields stream = .ok (results, next)) :
    next.data = stream.data := by
  induction fields generalizing stream results with
  | nil =>
    cases read
    rfl
  | cons field fields hypothesis =>
    obtain ⟨⟨result, middle⟩, first, rest⟩ := (bind_eq_ok _ _ _).mp read
    obtain ⟨⟨others, last⟩, later, equal⟩ := (bind_eq_ok _ _ _).mp rest
    cases equal
    rw [hypothesis later, Field.data_read first]

/-! ### Records -/

/-- The fields of a row hold the values of a row, column by column. -/
inductive HoldAll : List FieldType → List Field → List Value → Prop
  | nil : HoldAll [] [] []
  | cons {column : FieldType} {field : Field} {value : Value} {columns : List FieldType}
      {fields : List Field} {values : List Value} (first : Field.Holds column field value)
      (others : HoldAll columns fields values) :
      HoldAll (column :: columns) (field :: fields) (value :: values)

/-- The image of a row: the images of its values without separators. -/
def rowImage (values : List Value) : Bytes := values.flatMap Value.image

theorem rowImage_cons (value : Value) (values : List Value) :
    rowImage (value :: values) = value.image ++ rowImage values := List.flatMap_cons

theorem HoldAll.stored {columns : List FieldType} {fields : List Field} {values : List Value}
    (holds : HoldAll columns fields values) : fields.mapM Field.stored = .ok values := by
  induction holds with
  | nil => rfl
  | cons first _ hypothesis =>
    rw [List.mapM_cons, first.stored, ok_bind, hypothesis, ok_bind]
    rfl

theorem HoldAll.write {columns : List FieldType} {fields : List Field} {values : List Value}
    (holds : HoldAll columns fields values) :
    SMDMemStream.Appends (writeFields fields) (rowImage values) := by
  induction holds with
  | nil => exact SMDMemStream.Appends.none
  | cons first _ hypothesis =>
    rw [rowImage_cons]
    exact first.write.bind hypothesis

theorem readFields_holds {m_lock : NaviLock} {columns : List FieldType}
    {targets fields : List Field} {values : List Value}
    (fits : List.Forall₂ Field.Fits columns targets) (holds : HoldAll columns fields values)
    (isOpen : ∀ column ∈ columns, column.isVarInt = true → m_lock.Open) (stream : SMDMemStream)
    (rest : Bytes) (held : stream.Holds (rowImage values ++ rest)) :
    ∃ results next, readFields m_lock targets stream = .ok (results, next) ∧ next.Holds rest ∧
      List.Forall₂ Field.Fits columns results ∧ HoldAll columns results values := by
  induction holds generalizing targets stream with
  | nil =>
    cases fits
    exact ⟨[], stream, rfl, held, .nil, .nil⟩
  | @cons column field value columns fields values first others hypothesis =>
    cases fits with
    | cons fitsFirst fitsOthers =>
      rw [rowImage_cons, List.append_assoc] at held
      obtain ⟨result, middle, read, middleHolds, resultFits, resultHolds⟩ :=
        fitsFirst.read first (isOpen column List.mem_cons_self) stream _ held
      obtain ⟨results, next, readOthers, nextHolds, resultsFit, resultsHold⟩ :=
        hypothesis fitsOthers (fun column member => isOpen column (List.mem_cons_of_mem _ member))
          middle middleHolds
      refine ⟨result :: results, next, ?_, nextHolds, .cons resultFits resultsFit,
        .cons resultHolds resultsHold⟩
      rw [readFields, read, ok_bind]
      simp only [readOthers, ok_bind]

/-- A record of a table holds a row of values. -/
structure Record.Holds (tableStruct : TableDef) (record : Record) (values : List Value) :
    Prop where
  table : record.tableStruct = tableStruct
  fields : HoldAll tableStruct.FieldSet record.Fields values

theorem Record.new_fits (tableStruct : TableDef) :
    List.Forall₂ Field.Fits tableStruct.FieldSet (Record.new tableStruct).Fields := by
  exact List.forall₂_map_right_iff.mpr (List.forall₂_same.mpr fun column _ => Field.init_fits column)

theorem Record.read_eq (record : Record) (stream : SMDMemStream) :
    record.read stream = if stream.size = 0 then .ok (false, record, stream)
      else (do
        let (fields, stream) ← readFields .taken record.Fields stream
        .ok (true, { record with Fields := fields }, stream)) := rfl

theorem Record.Holds.write {tableStruct : TableDef} {record : Record} {values : List Value}
    (holds : record.Holds tableStruct values) :
    SMDMemStream.Appends record.write (rowImage values) := holds.fields.write

/-- The columns that `Record::read` reads without locking `m_lock` a second time. -/
def TableDef.Readable (tableStruct : TableDef) : Prop :=
  ∀ column ∈ tableStruct.FieldSet, column.isVarInt = false

instance (tableStruct : TableDef) : Decidable tableStruct.Readable :=
  inferInstanceAs (Decidable (∀ _ ∈ _, _))

/-- A fresh record reads a row off a stream that goes on with it. -/
theorem Record.read_holds {tableStruct : TableDef} {record : Record} {values : List Value}
    (readable : tableStruct.Readable) (holds : record.Holds tableStruct values)
    (stream : SMDMemStream) (rest : Bytes)
    (some : stream.size ≠ 0) (held : stream.Holds (rowImage values ++ rest)) :
    ∃ result next, (Record.new tableStruct).read stream = .ok (true, result, next) ∧
      next.Holds rest ∧ next.data = stream.data ∧ result.Holds tableStruct values := by
  obtain ⟨results, next, read, nextHolds, _, resultsHold⟩ :=
    @readFields_holds .taken _ _ _ _ (Record.new_fits tableStruct) holds.fields
      (fun column member isVarInt => absurd isVarInt (by simp [readable column member])) stream
      rest held
  refine ⟨⟨tableStruct, results⟩, next, ?_, nextHolds, data_readFields read, rfl, resultsHold⟩
  rw [Record.read_eq, if_neg some, read, ok_bind]
  rfl

/-! ### The second lock -/

/-- A VAR_INT among the fields keeps `read` waiting, if no field before it fails. -/
theorem readFields_locked {fields : List Field} {nCount : Nat} {data : Bytes}
    (varInt : .varInt nCount data ∈ fields) (stream : SMDMemStream) :
    ∃ fault, readFields .taken fields stream = .error fault := by
  induction fields generalizing stream with
  | nil => cases varInt
  | cons field fields hypothesis =>
    rw [readFields]
    rcases List.mem_cons.mp varInt with equal | later
    · rw [← equal, Field.read, readVarInt, NaviGuard_taken NaviLock.not_open_taken]
      exact ⟨_, rfl⟩
    · cases first : field.read .taken stream with
      | error fault => exact ⟨fault, rfl⟩
      | ok outcome =>
        obtain ⟨fault, failed⟩ := hypothesis later outcome.2
        exact ⟨fault, by rw [ok_bind]; simp only [failed]; rfl⟩

/-- A record with a VAR_INT is not read from any stream but the empty one. -/
theorem Record.read_locked {tableStruct : TableDef} (unreadable : ¬ tableStruct.Readable)
    {stream : SMDMemStream} (some : stream.size ≠ 0) :
    ∃ fault, (Record.new tableStruct).read stream = .error fault := by
  obtain ⟨head, varInt⟩ : ∃ head, .varInt head ∈ tableStruct.FieldSet := by
    by_contra none
    refine unreadable fun column member => ?_
    cases column with
    | varInt head => exact absurd ⟨head, member⟩ none
    | _ => rfl
  obtain ⟨fault, failed⟩ := @readFields_locked (tableStruct.FieldSet.map Field.init) 0
    [0, 0, 0, 0, 0] (List.mem_map_of_mem varInt) stream
  exact ⟨fault, by rw [Record.read_eq, if_neg some, Record.new, failed]; rfl⟩

end LevelDBLib.KvDB
