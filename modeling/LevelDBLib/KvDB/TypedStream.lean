/-
This file is about lists of typed values in a memory stream: what the typed writes put over the
bytes from a position on, the matching reads from that position hand out again.

A write in the middle of the contents replaces as many bytes as it has and leaves the others alone;
at the end the contents grow. Signed and unsigned numbers of one width share their bytes, and the
floating-point numbers are their bit patterns.
-/

import LevelDBLib.KvDB.StreamBounds

namespace LevelDBLib.KvDB

open Buffers

/-! ### The codec of numbers -/

namespace SMDValue

/-- `(unsigned char)(value >> shift)`. -/
def byteOf {width : Nat} (value : BitVec width) (shift : Nat) : UInt8 :=
  ⟨(value.sshiftRight shift).setWidth 8⟩

theorem byteOf_eq {width : Nat} (value : BitVec width) (shift : Nat) (inside : shift + 8 ≤ width) :
    byteOf value shift = ⟨value.extractLsb' shift 8⟩ := by
  refine congrArg UInt8.ofBitVec ?_
  ext index bound
  rw [BitVec.getElem_setWidth, BitVec.getLsbD_sshiftRight, BitVec.getElem_extractLsb',
    if_pos (by omega), decide_eq_false (by omega), Bool.not_false, Bool.true_and]

theorem extractLsb'_signExtend {width : Nat} (value : BitVec width) (wide start : Nat)
    (inside : start + 8 ≤ width) (wider : width ≤ wide) :
    (value.signExtend wide).extractLsb' start 8 = value.extractLsb' start 8 := by
  ext index bound
  rw [BitVec.getElem_extractLsb', BitVec.getElem_extractLsb', BitVec.getLsbD_signExtend,
    if_pos (by omega), decide_eq_true (by omega), Bool.true_and]

/-- The bytes are those of the shifted numbers; a `short` is an `int` when it is shifted. -/
theorem putShort_eq (shortValue : BitVec 16) :
    putShort shortValue =
      [byteOf (shortValue.signExtend 32) 8, byteOf (shortValue.signExtend 32) 0] := by
  rw [byteOf_eq _ 8 (by decide), byteOf_eq _ 0 (by decide),
    extractLsb'_signExtend _ 32 8 (by decide) (by decide),
    extractLsb'_signExtend _ 32 0 (by decide) (by decide)]
  rfl

theorem putInt_eq (intValue : BitVec 32) :
    putInt intValue = [24, 16, 8, 0].map (byteOf intValue) := by
  simp [putInt, byteOf_eq]

theorem putLong_eq (longValue : BitVec 64) :
    putLong longValue = [56, 48, 40, 32, 24, 16, 8, 0].map (byteOf longValue) := by
  simp [putLong, byteOf_eq]

/-- Patterns side by side are a shift and an or. -/
theorem setWidth_append {high low : Nat} (front : BitVec high) (back : BitVec low) (width : Nat) :
    (front ++ back).setWidth width = (front.setWidth width <<< low) ||| back.setWidth width := by
  ext index bound
  rw [BitVec.getElem_setWidth, BitVec.getLsbD_append, BitVec.getElem_or, BitVec.getElem_shiftLeft,
    BitVec.getElem_setWidth]
  by_cases inBack : index < low
  · simp [inBack]
  · simp [inBack, BitVec.getLsbD_of_ge back index (by omega)]

theorem getShort_eq (buf : Bytes) :
    getShort buf =
      (((byteAt buf 0).setWidth 32 <<< 8) ||| (byteAt buf 1).setWidth 32).setWidth 16 := by
  rw [← setWidth_append, BitVec.setWidth_setWidth_of_le _ (by decide), BitVec.setWidth_eq]
  rfl

theorem getInt_eq (buf : Bytes) :
    getInt buf = ((byteAt buf 0).setWidth 32 <<< 24) ||| ((byteAt buf 1).setWidth 32 <<< 16) |||
      ((byteAt buf 2).setWidth 32 <<< 8) ||| (byteAt buf 3).setWidth 32 := by
  rw [← BitVec.setWidth_eq (getInt buf), getInt]
  simp only [setWidth_append, BitVec.shiftLeft_or_distrib, ← BitVec.shiftLeft_add]

theorem getLong_eq (buf : Bytes) :
    getLong buf = ((byteAt buf 0).setWidth 64 <<< 56) ||| ((byteAt buf 1).setWidth 64 <<< 48) |||
      ((byteAt buf 2).setWidth 64 <<< 40) ||| ((byteAt buf 3).setWidth 64 <<< 32) |||
      ((byteAt buf 4).setWidth 64 <<< 24) ||| ((byteAt buf 5).setWidth 64 <<< 16) |||
      ((byteAt buf 6).setWidth 64 <<< 8) ||| (byteAt buf 7).setWidth 64 := by
  rw [← BitVec.setWidth_eq (getLong buf), getLong]
  simp only [setWidth_append, BitVec.shiftLeft_or_distrib, ← BitVec.shiftLeft_add]

/-- A `float` goes through an `int` with the same bits. -/
def putFloat (floatValue : BitVec 32) : Bytes := putInt floatValue

def getFloat (buf : Bytes) : BitVec 32 := getInt buf

/-- A `double` goes through a `long long` with the same bits. -/
def putDouble (doubleValue : BitVec 64) : Bytes := putLong doubleValue

def getDouble (buf : Bytes) : BitVec 64 := getLong buf

end SMDValue

/-! ### Typed values -/

/-- A value that `SMDStream` has a write for; `bytes` are written without their length. -/
inductive TypedValue where
  | short (sval : Int16)
  | ushort (sval : UInt16)
  | int (ival : Int32)
  | uint (ival : UInt32)
  | long (lval : Int64)
  | float (fval : BitVec 32)
  | double (dval : BitVec 64)
  | string (strVal : Bytes)
  | bytes (buffer : Bytes)
deriving DecidableEq, Repr

/-- What a reader has to know of a value; only of bytes it has to know how many they are. -/
inductive ValueType where
  | short
  | ushort
  | int
  | uint
  | long
  | float
  | double
  | string
  | bytes (sz : Nat)
deriving DecidableEq, Repr

def TypedValue.type : TypedValue → ValueType
  | .short _ => .short
  | .ushort _ => .ushort
  | .int _ => .int
  | .uint _ => .uint
  | .long _ => .long
  | .float _ => .float
  | .double _ => .double
  | .string _ => .string
  | .bytes buffer => .bytes buffer.length

namespace SMDMemStream

/-! ### The typed writes and reads -/

def writeUShort (stream : SMDMemStream) (sval : UInt16) : Except Fault SMDMemStream :=
  stream.writeBytes (SMDValue.putShort sval.toBitVec)

def writeUInt (stream : SMDMemStream) (ival : UInt32) : Except Fault SMDMemStream :=
  stream.writeBytes (SMDValue.putInt ival.toBitVec)

def writeFloat (stream : SMDMemStream) (fval : BitVec 32) : Except Fault SMDMemStream :=
  stream.writeBytes (SMDValue.putFloat fval)

def writeDouble (stream : SMDMemStream) (dval : BitVec 64) : Except Fault SMDMemStream :=
  stream.writeBytes (SMDValue.putDouble dval)

/-- A typed read of a fixed width, which leaves its target alone when it fails. -/
def readFixed {Value : Type} (stream : SMDMemStream) (sz : Nat) (get : Bytes → Value) :
    Except Fault (Option Value × SMDMemStream) := do
  let (bytes, stream) ← stream.readBytes sz
  .ok (bytes.map get, stream)

def readUShort (stream : SMDMemStream) : Except Fault (Option UInt16 × SMDMemStream) :=
  stream.readFixed 2 fun buffer => .ofBitVec (SMDValue.getShort buffer)

def readUInt (stream : SMDMemStream) : Except Fault (Option UInt32 × SMDMemStream) :=
  stream.readFixed 4 fun buffer => .ofBitVec (SMDValue.getInt buffer)

def readFloat (stream : SMDMemStream) : Except Fault (Option (BitVec 32) × SMDMemStream) :=
  stream.readFixed 4 SMDValue.getFloat

def readDouble (stream : SMDMemStream) : Except Fault (Option (BitVec 64) × SMDMemStream) :=
  stream.readFixed 8 SMDValue.getDouble

def write (stream : SMDMemStream) : TypedValue → Except Fault SMDMemStream
  | .short sval => stream.writeShort sval.toBitVec
  | .ushort sval => stream.writeUShort sval
  | .int ival => stream.writeInt ival.toBitVec
  | .uint ival => stream.writeUInt ival
  | .long lval => stream.writeLong lval.toBitVec
  | .float fval => stream.writeFloat fval
  | .double dval => stream.writeDouble dval
  | .string strVal => stream.writeString strVal
  | .bytes buffer => stream.writeBytes buffer

/-- A read with its result as a typed value. -/
def typed {Value : Type} (value : Value → TypedValue)
    (read : SMDMemStream → Except Fault (Option Value × SMDMemStream)) (stream : SMDMemStream) :
    Except Fault (Option TypedValue × SMDMemStream) := do
  let (result, stream) ← read stream
  .ok (result.map value, stream)

def read (stream : SMDMemStream) : ValueType → Except Fault (Option TypedValue × SMDMemStream)
  | .short => typed (fun sval => .short (.ofBitVec sval)) readShort stream
  | .ushort => typed .ushort readUShort stream
  | .int => typed (fun ival => .int (.ofBitVec ival)) readInt stream
  | .uint => typed .uint readUInt stream
  | .long => typed (fun lval => .long (.ofBitVec lval)) readLong stream
  | .float => typed .float readFloat stream
  | .double => typed .double readDouble stream
  | .string => typed .string readString stream
  | .bytes sz => typed .bytes (fun stream => stream.readBytes sz) stream

def writeAll (stream : SMDMemStream) : List TypedValue → Except Fault SMDMemStream
  | [] => .ok stream
  | value :: values => do
    let stream ← stream.write value
    stream.writeAll values

def readAll (stream : SMDMemStream) :
    List ValueType → Except Fault (List (Option TypedValue) × SMDMemStream)
  | [] => .ok ([], stream)
  | type :: types => do
    let (value, stream) ← stream.read type
    let (values, stream) ← stream.readAll types
    .ok (value :: values, stream)

/-! ### Writing from a position on -/

/-- The write puts `image` over the bytes from the position on and moves behind it. -/
def Overwrites (write : SMDMemStream → Except Fault SMDMemStream) (image : Bytes) : Prop :=
  ∀ stream : SMDMemStream, stream.Inside → stream.pos + image.length < 4294967296 →
    write stream = .ok ⟨splice stream.data stream.pos image, stream.pos + image.length⟩

theorem Inside.overwritten {stream : SMDMemStream} (inside : stream.Inside) {image : Bytes}
    (small : stream.pos + image.length < 4294967296) :
    Inside ⟨splice stream.data stream.pos image, stream.pos + image.length⟩ := by
  have length := length_splice_max stream.data stream.pos image inside.pos_le
  refine ⟨?_, ?_⟩
  · exact Nat.le_trans (Nat.le_max_right _ _) (Nat.le_of_eq length.symm)
  · exact length ▸ Nat.max_lt.mpr ⟨inside.small, small⟩

theorem writeBytes_overwrites (buffer : Bytes) :
    Overwrites (fun stream => stream.writeBytes buffer) buffer := by
  intro stream inside small
  have stop : uint (↑stream.pos + ↑buffer.length) = stream.pos + buffer.length :=
    uint_add_of_lt _ _ small
  simp only [writeBytes, stop, inside.size_eq]
  by_cases grows : stream.data.length < stream.pos + buffer.length
  · obtain ⟨extra, total⟩ := Nat.exists_eq_add_of_lt grows
    have resize : resized stream.data (stream.pos + buffer.length) =
        stream.data ++ List.replicate (extra + 1) 0 := by
      rw [total, Nat.add_assoc, resized_extend]
    rw [if_pos grows, resize, memcpy_of_le, splice_append_covered, ok_bind]
    · exact inside.pos_le
    · refine Nat.le_of_eq ?_
      rw [List.length_replicate, total, Nat.add_assoc]
    · refine Nat.le_of_eq ?_
      rw [List.length_append, List.length_replicate, total, Nat.add_assoc]
  · rw [if_neg grows, memcpy_of_le _ _ _ (Nat.le_of_not_lt grows), ok_bind]

theorem Overwrites.none : Overwrites .ok [] := by
  intro stream inside small
  rw [splice_nil]
  rfl

/-- One write behind another puts both images. -/
theorem Overwrites.bind {first second : SMDMemStream → Except Fault SMDMemStream}
    {front back : Bytes} (left : Overwrites first front) (right : Overwrites second back) :
    Overwrites (fun stream => first stream >>= second) (front ++ back) := by
  intro stream inside small
  rw [List.length_append, ← Nat.add_assoc] at small
  have smallFront : stream.pos + front.length < 4294967296 :=
    Nat.lt_of_le_of_lt (Nat.le_add_right _ _) small
  dsimp only
  rw [left stream inside smallFront, ok_bind, right _ (inside.overwritten smallFront) small,
    splice_splice_behind _ _ _ _ inside.pos_le, List.length_append, Nat.add_assoc]

end SMDMemStream

/-- The bytes of a typed value. -/
def TypedValue.image : TypedValue → Bytes
  | .short sval => SMDValue.putShort sval.toBitVec
  | .ushort sval => SMDValue.putShort sval.toBitVec
  | .int ival => SMDValue.putInt ival.toBitVec
  | .uint ival => SMDValue.putInt ival.toBitVec
  | .long lval => SMDValue.putLong lval.toBitVec
  | .float fval => SMDValue.putFloat fval
  | .double dval => SMDValue.putDouble dval
  | .string strVal => SMDMemStream.stringBytes strVal
  | .bytes buffer => buffer

namespace SMDMemStream

theorem write_overwrites (value : TypedValue) :
    Overwrites (fun stream => stream.write value) value.image := by
  cases value with
  | short sval => exact writeBytes_overwrites _
  | ushort sval => exact writeBytes_overwrites _
  | int ival => exact writeBytes_overwrites _
  | uint ival => exact writeBytes_overwrites _
  | long lval => exact writeBytes_overwrites _
  | float fval => exact writeBytes_overwrites _
  | double dval => exact writeBytes_overwrites _
  | string strVal => exact (writeBytes_overwrites _).bind (writeBytes_overwrites strVal)
  | bytes buffer => exact writeBytes_overwrites buffer

theorem writeAll_overwrites (values : List TypedValue) :
    Overwrites (fun stream => stream.writeAll values) (values.flatMap TypedValue.image) := by
  induction values with
  | nil => exact Overwrites.none
  | cons value values inductionHypothesis =>
    exact (write_overwrites value).bind inductionHypothesis

/-! ### Reading back -/

theorem readFixed_takes {Value : Type} (image : Bytes) (get : Bytes → Value) {value : Value}
    (back : get image = value) :
    Takes (fun stream => stream.readFixed image.length get) image (some value) := by
  intro stream rest holds
  obtain ⟨next, read, after⟩ := readBytes_holds stream image rest holds
  refine ⟨next, ?_, after, data_readBytes read⟩
  simp only [readFixed, read, ok_bind, Option.map_some, back]

theorem Takes.typed {Value : Type}
    {read : SMDMemStream → Except Fault (Option Value × SMDMemStream)} {image : Bytes}
    {result : Value} (takes : Takes read image (some result))
    (value : Value → TypedValue) : Takes (typed value read) image (some (value result)) :=
  takes.map fun _ => rfl

theorem read_takes (value : TypedValue) (small : value.image.length < 2147483648) :
    Takes (fun stream => stream.read value.type) value.image (some value) := by
  cases value with
  | short sval => exact (readShort_takes sval.toBitVec).typed _
  | ushort sval =>
    exact (readFixed_takes (SMDValue.putShort sval.toBitVec) _
      (congrArg UInt16.ofBitVec (SMDValue.getShort_putShort _))).typed _
  | int ival => exact (readInt_takes ival.toBitVec).typed _
  | uint ival =>
    exact (readFixed_takes (SMDValue.putInt ival.toBitVec) _
      (congrArg UInt32.ofBitVec (SMDValue.getInt_putInt _))).typed _
  | long lval => exact (readLong_takes lval.toBitVec).typed _
  | float fval =>
    exact (readFixed_takes (SMDValue.putInt fval) _ (SMDValue.getInt_putInt fval)).typed _
  | double dval =>
    exact (readFixed_takes (SMDValue.putLong dval) _ (SMDValue.getLong_putLong dval)).typed _
  | string strVal =>
    refine (readString_takes strVal ?_).typed _
    rw [TypedValue.image, stringBytes, List.length_append] at small
    exact Nat.lt_of_le_of_lt (Nat.le_add_left _ _) small
  | bytes buffer =>
    refine Takes.typed (fun stream rest holds => ?_) _
    obtain ⟨next, read, after⟩ := readBytes_holds stream buffer rest holds
    exact ⟨next, read, after, data_readBytes read⟩

theorem readAll_takes (values : List TypedValue)
    (small : ∀ value ∈ values, value.image.length < 2147483648) :
    Takes (fun stream => stream.readAll (values.map TypedValue.type))
      (values.flatMap TypedValue.image) (values.map some) := by
  induction values with
  | nil => exact Takes.pure []
  | cons value values inductionHypothesis =>
    obtain ⟨here, others⟩ := List.forall_mem_cons.mp small
    exact (read_takes value here).bind ((inductionHypothesis others).map fun _ => rfl)

/-! ### The round trip -/

/-- What was put over the bytes from a position on is read from there, up to where it ends. In front
of the position, and behind the end, the contents are as they were. -/
theorem Overwrites.round_trip {Result : Type} {write : SMDMemStream → Except Fault SMDMemStream}
    {read : SMDMemStream → Except Fault (Result × SMDMemStream)} {image : Bytes} {result : Result}
    (overwrites : Overwrites write image) (takes : Takes read image result)
    {stream : SMDMemStream} (inside : stream.Inside)
    (small : stream.pos + image.length < 4294967296) :
    ∃ written, write stream = .ok written ∧ (written.setPosition stream.pos).1 = true ∧
      read (written.setPosition stream.pos).2 = .ok (result, written) ∧
      written.data.take stream.pos = stream.data.take stream.pos ∧
      written.data.drop written.pos = stream.data.drop written.pos := by
  have after := inside.overwritten small
  have length := length_splice_max stream.data stream.pos image inside.pos_le
  have behind := drop_splice stream.data stream.pos image inside.pos_le
  have reached : stream.pos ≤ (splice stream.data stream.pos image).length := by
    rw [length]
    exact Nat.le_trans inside.pos_le (Nat.le_max_left _ _)
  have back : SMDMemStream.setPosition
      ⟨splice stream.data stream.pos image, stream.pos + image.length⟩ stream.pos =
        (true, ⟨splice stream.data stream.pos image, stream.pos⟩) := by
    rw [SMDMemStream.setPosition, after.size_eq]
    exact if_neg (Nat.not_lt_of_le reached)
  obtain ⟨next, readEq, ⟨_, nextInside, nextBehind⟩, same⟩ :=
    takes ⟨splice stream.data stream.pos image, stream.pos⟩ _ ⟨after.small, reached, behind⟩
  -- as much is left behind the reads as behind the writes
  have nextPos : next.pos = stream.pos + image.length := by
    have left := congrArg List.length nextBehind
    rw [List.length_drop, List.length_drop] at left
    rw [same] at left nextInside
    dsimp only at left nextInside
    omega
  refine ⟨_, overwrites stream inside small, congrArg Prod.fst back, ?_,
    take_splice _ _ _ inside.pos_le, ?_⟩
  · rw [back, readEq]
    obtain ⟨data, pos⟩ := next
    dsimp only at same nextPos
    rw [same, nextPos]
  · dsimp only
    rw [← List.drop_drop, behind, List.drop_left' rfl]

theorem length_image_le {values : List TypedValue} {value : TypedValue} (member : value ∈ values) :
    value.image.length ≤ (values.flatMap TypedValue.image).length :=
  (List.sublist_flatten_of_mem (List.mem_map_of_mem member)).length_le

/-- Any typed values that are written from any position inside the contents on are read back from
there, and the reads end where the writes did. -/
theorem typed_round_trip (stream : SMDMemStream) (values : List TypedValue)
    (valid : stream.pos ≤ stream.data.length)
    (small : max stream.data.length
      (stream.pos + (values.flatMap TypedValue.image).length) < 2147483648) :
    ∃ written, stream.writeAll values = .ok written ∧
      (written.setPosition stream.pos).1 = true ∧
      (written.setPosition stream.pos).2.readAll (values.map TypedValue.type) =
        .ok (values.map some, written) ∧
      written.data.take stream.pos = stream.data.take stream.pos ∧
      written.data.drop written.pos = stream.data.drop written.pos := by
  obtain ⟨dataSmall, stopSmall⟩ := Nat.max_lt.mp small
  refine (writeAll_overwrites values).round_trip (readAll_takes values fun value member => ?_)
    ⟨valid, Nat.lt_trans dataSmall (by decide)⟩ (Nat.lt_trans stopSmall (by decide))
  have length := length_image_le member
  omega

/-- Five values over the middle of eight bytes. -/
theorem typed_round_trip_once :
    ∃ written, writeAll ⟨[1, 2, 3, 4, 5, 6, 7, 8], 3⟩
        [.short (-2), .ushort 65534, .string [97], .float 0x7F800001, .bytes []] = .ok written ∧
      (written.setPosition 3).2.readAll [.short, .ushort, .string, .float, .bytes 0] =
        .ok ([some (.short (-2)), some (.ushort 65534), some (.string [97]),
          some (.float 0x7F800001), some (.bytes [])], written) ∧
      written.data.take 3 = [1, 2, 3] := by
  obtain ⟨written, ran, -, read, front, -⟩ := typed_round_trip ⟨[1, 2, 3, 4, 5, 6, 7, 8], 3⟩
    [.short (-2), .ushort 65534, .string [97], .float 0x7F800001, .bytes []] (by decide) (by decide)
  exact ⟨written, ran, read, front⟩

end SMDMemStream

end LevelDBLib.KvDB
