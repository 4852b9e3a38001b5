/-
This file models `SMDStream` over memory: `SMDMemStream`, a byte string with a
position, and the typed reads and writes of `SMDStream.cpp` on it.

A read reports failure by leaving its target alone, so a typed read returns an
option. Sizes and positions are `unsigned int`: the bounds test of `read` and
`write` adds them modulo `2 ^ 32`, and the copy that follows is checked against
the real buffer.

The two lemma families at the end carry the codecs above this file: writing at
the end of the stream appends, and reading where the stream still holds
`bytes ++ rest` returns `bytes` and leaves `rest`.
-/

import LevelDBLib.KvDB.Value

namespace LevelDBLib.KvDB

open Buffers

structure SMDMemStream where
  data : Bytes
  pos : Nat
deriving DecidableEq, Repr

namespace SMDMemStream

/-- A stream over a freshly built string of zeros. -/
def new (size : Nat) : SMDMemStream := ⟨List.replicate size 0, 0⟩

def size (stream : SMDMemStream) : Nat := uint stream.data.length

/-- `std::string::resize`: cut, or padded with zeros. -/
def resized (data : Bytes) (sz : Nat) : Bytes :=
  data.take sz ++ List.replicate (sz - data.length) 0

def setPosition (stream : SMDMemStream) (pos : Nat) : Bool × SMDMemStream :=
  if stream.size < pos then (false, stream) else (true, { stream with pos := pos })

def resize (stream : SMDMemStream) (sz : Nat) : SMDMemStream :=
  (setPosition { stream with data := resized stream.data sz } 0).2

def readBytes (stream : SMDMemStream) (sz : Nat) :
    Except Fault (Option Bytes × SMDMemStream) :=
  if stream.size < uint (stream.pos + sz) then .ok (none, stream)
  else do
    let bytes ← fetch stream.data stream.pos sz
    .ok (some bytes, { stream with pos := uint (stream.pos + sz) })

def writeBytes (stream : SMDMemStream) (buffer : Bytes) : Except Fault SMDMemStream := do
  let stop := uint (stream.pos + buffer.length)
  let data := if stream.size < stop then resized stream.data stop else stream.data
  let data ← memcpy data stream.pos buffer
  .ok ⟨data, stop⟩

def readShort (stream : SMDMemStream) : Except Fault (Option (BitVec 16) × SMDMemStream) := do
  let (bytes, stream) ← stream.readBytes 2
  .ok (bytes.map SMDValue.getShort, stream)

def writeShort (stream : SMDMemStream) (sval : BitVec 16) : Except Fault SMDMemStream :=
  stream.writeBytes (SMDValue.putShort sval)

def readInt (stream : SMDMemStream) : Except Fault (Option (BitVec 32) × SMDMemStream) := do
  let (bytes, stream) ← stream.readBytes 4
  .ok (bytes.map SMDValue.getInt, stream)

def writeInt (stream : SMDMemStream) (ival : BitVec 32) : Except Fault SMDMemStream :=
  stream.writeBytes (SMDValue.putInt ival)

def readLong (stream : SMDMemStream) : Except Fault (Option (BitVec 64) × SMDMemStream) := do
  let (bytes, stream) ← stream.readBytes 8
  .ok (bytes.map SMDValue.getLong, stream)

def writeLong (stream : SMDMemStream) (lval : BitVec 64) : Except Fault SMDMemStream :=
  stream.writeBytes (SMDValue.putLong lval)

/-- `writeString` of a string: its length as an `int`, then its bytes. -/
def writeString (stream : SMDMemStream) (strVal : Bytes) : Except Fault SMDMemStream := do
  let stream ← stream.writeInt (BitVec.ofNat 32 strVal.length)
  stream.writeBytes strVal

/-- `readString`: false when the length or the bytes are missing. A negative length makes
`std::string::resize` throw, which nothing catches. -/
def readString (stream : SMDMemStream) : Except Fault (Option Bytes × SMDMemStream) := do
  let (length, stream) ← stream.readInt
  match length with
  | none => .ok (none, stream)
  | some sz =>
    if sz.toInt < 0 then .error .assertion
    else stream.readBytes sz.toNat

/-! ### Writing at the end of the stream -/

/-- The stream stands at its end and holds `data`. -/
def Ends (stream : SMDMemStream) (data : Bytes) : Prop :=
  stream.data = data ∧ stream.pos = data.length

theorem resized_extend (data : Bytes) (extra : Nat) :
    resized data (data.length + extra) = data ++ List.replicate extra 0 := by
  rw [resized, List.take_of_length_le (by omega), Nat.add_sub_cancel_left]

theorem writeBytes_at_end (stream : SMDMemStream) (data buffer : Bytes)
    (ends : stream.Ends data) (small : data.length + buffer.length < 4294967296) :
    ∃ next, stream.writeBytes buffer = .ok next ∧ next.Ends (data ++ buffer) := by
  obtain ⟨held, pos⟩ := stream
  obtain ⟨dataEq, posEq⟩ := ends
  dsimp only at dataEq posEq
  subst dataEq posEq
  have stop : uint (↑held.length + ↑buffer.length) = held.length + buffer.length :=
    uint_add_of_lt _ _ small
  have sizeEq : SMDMemStream.size ⟨held, held.length⟩ = held.length :=
    uint_of_lt held.length (by omega)
  have grown : (if held.length < held.length + buffer.length then
      resized held (held.length + buffer.length) else held) =
      held ++ List.replicate buffer.length 0 := by
    by_cases empty : buffer.length = 0
    · rw [if_neg (by omega), empty, List.replicate_zero, List.append_nil]
    · rw [if_pos (by omega), resized_extend]
  have copied : splice (held ++ List.replicate buffer.length 0) held.length buffer =
      held ++ buffer := by
    rw [splice, List.take_left', List.drop_of_length_le (by simp), List.append_nil]
    rfl
  refine ⟨⟨held ++ buffer, held.length + buffer.length⟩, ?_, rfl, ?_⟩
  · simp only [writeBytes, sizeEq, stop, grown]
    rw [memcpy_of_le _ _ _ (by simp), copied]
    rfl
  · simp

theorem writeInt_at_end (stream : SMDMemStream) (data : Bytes) (ival : BitVec 32)
    (ends : stream.Ends data) (small : data.length + 4 < 4294967296) :
    ∃ next, stream.writeInt ival = .ok next ∧ next.Ends (data ++ SMDValue.putInt ival) :=
  writeBytes_at_end stream data _ ends small

theorem writeShort_at_end (stream : SMDMemStream) (data : Bytes) (sval : BitVec 16)
    (ends : stream.Ends data) (small : data.length + 2 < 4294967296) :
    ∃ next, stream.writeShort sval = .ok next ∧ next.Ends (data ++ SMDValue.putShort sval) :=
  writeBytes_at_end stream data _ ends small

/-- The bytes of a string as `writeString` lays them out. -/
def stringBytes (strVal : Bytes) : Bytes :=
  SMDValue.putInt (BitVec.ofNat 32 strVal.length) ++ strVal

theorem writeString_at_end (stream : SMDMemStream) (data strVal : Bytes)
    (ends : stream.Ends data) (small : data.length + 4 + strVal.length < 4294967296) :
    ∃ next, stream.writeString strVal = .ok next ∧ next.Ends (data ++ stringBytes strVal) := by
  obtain ⟨middle, written, middleEnds⟩ :=
    writeInt_at_end stream data (BitVec.ofNat 32 strVal.length) ends (by omega)
  obtain ⟨last, tail, lastEnds⟩ := writeBytes_at_end middle _ strVal middleEnds
    (by simpa using small)
  refine ⟨last, ?_, ?_⟩
  · rw [writeString, written, ok_bind, tail]
  · rw [stringBytes, ← List.append_assoc]
    exact lastEnds

/-- The stream that holds `data` and stands at its end, after `image` was written behind it: the
sizes are 32-bit, so more than they count ends outside the buffer. -/
def appended (data image : Bytes) : Except Fault SMDMemStream :=
  if data.length + image.length < 4294967296 then
    .ok ⟨data ++ image, data.length + image.length⟩
  else .error .outOfBounds

theorem appended_of_lt (data image : Bytes) (small : data.length + image.length < 4294967296) :
    appended data image = .ok ⟨data ++ image, data.length + image.length⟩ := if_pos small

theorem appended_nil (data : Bytes) (small : data.length < 4294967296) :
    appended data [] = .ok ⟨data, data.length⟩ := by
  rw [appended_of_lt data [] (by simpa using small), List.append_nil, List.length_nil,
    Nat.add_zero]

theorem writeBytes_appended (data buffer : Bytes) (small : data.length < 4294967296) :
    (⟨data, data.length⟩ : SMDMemStream).writeBytes buffer = appended data buffer := by
  by_cases fits : data.length + buffer.length < 4294967296
  · obtain ⟨next, written, dataEq, posEq⟩ :=
      writeBytes_at_end ⟨data, data.length⟩ data buffer ⟨rfl, rfl⟩ fits
    obtain ⟨held, pos⟩ := next
    dsimp only at dataEq posEq
    rw [written, appended_of_lt _ _ fits, dataEq, posEq, List.length_append]
  · have stop := Int.emod_lt_of_pos ((data.length : Int) + buffer.length)
      (show (0 : Int) < 4294967296 by decide)
    have beyond : ¬ data.length + buffer.length ≤
        (if SMDMemStream.size ⟨data, data.length⟩ < uint (↑data.length + ↑buffer.length) then
          resized data (uint (↑data.length + ↑buffer.length)) else data).length := by
      split
      · simp only [resized, List.length_append, List.length_take, List.length_replicate, uint]
        omega
      · omega
    simp only [writeBytes, memcpy, if_neg beyond, error_bind, appended, if_neg fits]

/-- The write appends `image` wherever the stream ends. -/
def Appends (write : SMDMemStream → Except Fault SMDMemStream) (image : Bytes) : Prop :=
  ∀ data : Bytes, data.length < 4294967296 → write ⟨data, data.length⟩ = appended data image

theorem Appends.none : Appends .ok [] := fun data small => (appended_nil data small).symm

/-- One write behind another appends both images. -/
theorem Appends.bind {first second : SMDMemStream → Except Fault SMDMemStream}
    {front back : Bytes} (left : Appends first front) (right : Appends second back) :
    Appends (fun stream => first stream >>= second) (front ++ back) := by
  intro data small
  show (first ⟨data, data.length⟩ >>= second) = appended data (front ++ back)
  rw [left data small]
  by_cases fits : data.length + front.length < 4294967296
  · rw [appended_of_lt _ _ fits, ok_bind, ← List.length_append,
      right _ (by rwa [List.length_append]), appended, appended, List.length_append,
      List.length_append, List.append_assoc, Nat.add_assoc]
  · rw [appended, if_neg fits, error_bind, appended, List.length_append, if_neg (by omega)]

theorem writeBytes_appends (buffer : Bytes) :
    Appends (fun stream => stream.writeBytes buffer) buffer :=
  fun data small => writeBytes_appended data buffer small

theorem writeInt_appends (ival : BitVec 32) :
    Appends (fun stream => stream.writeInt ival) (SMDValue.putInt ival) :=
  writeBytes_appends _

theorem writeString_appends (strVal : Bytes) :
    Appends (fun stream => stream.writeString strVal) (stringBytes strVal) :=
  (writeInt_appends _).bind (writeBytes_appends strVal)

/-! ### Reading what the stream still holds -/

/-- The stream, small enough for its 32-bit sizes, still holds `rest` from its position on. -/
def Holds (stream : SMDMemStream) (rest : Bytes) : Prop :=
  stream.data.length < 4294967296 ∧ stream.pos ≤ stream.data.length ∧
    stream.data.drop stream.pos = rest

theorem readBytes_holds (stream : SMDMemStream) (bytes rest : Bytes)
    (holds : stream.Holds (bytes ++ rest)) :
    ∃ next, stream.readBytes bytes.length = .ok (some bytes, next) ∧ next.Holds rest := by
  obtain ⟨small, inside, tail⟩ := holds
  have total : stream.data.length - stream.pos = bytes.length + rest.length := by
    rw [← List.length_append, ← tail, List.length_drop]
  have stop : uint (↑stream.pos + ↑bytes.length) = stream.pos + bytes.length :=
    uint_add_of_lt _ _ (by omega)
  have sizeEq : stream.size = stream.data.length := uint_of_lt _ small
  have fetched : slice stream.data stream.pos bytes.length = bytes := by
    rw [slice, tail, List.take_left']
    rfl
  refine ⟨{ stream with pos := stream.pos + bytes.length }, ?_, small, by simp only; omega, ?_⟩
  · rw [readBytes, sizeEq, stop, if_neg (by omega), fetch_of_le _ _ _ (by omega), fetched]
    rfl
  · show stream.data.drop (stream.pos + bytes.length) = rest
    rw [← List.drop_drop, tail, List.drop_left']
    rfl

theorem data_readBytes {stream next : SMDMemStream} {sz : Nat} {bytes : Option Bytes}
    (read : stream.readBytes sz = .ok (bytes, next)) : next.data = stream.data := by
  rw [readBytes] at read
  split at read
  · cases read
    rfl
  · obtain ⟨_, _, equal⟩ := (bind_eq_ok _ _ _).mp read
    cases equal
    rfl

theorem data_readShort {stream next : SMDMemStream} {sval : Option (BitVec 16)}
    (read : stream.readShort = .ok (sval, next)) : next.data = stream.data := by
  obtain ⟨_, taken, equal⟩ := (bind_eq_ok _ _ _).mp read
  cases equal
  exact data_readBytes taken

theorem data_readInt {stream next : SMDMemStream} {ival : Option (BitVec 32)}
    (read : stream.readInt = .ok (ival, next)) : next.data = stream.data := by
  obtain ⟨_, taken, equal⟩ := (bind_eq_ok _ _ _).mp read
  cases equal
  exact data_readBytes taken

theorem data_readLong {stream next : SMDMemStream} {lval : Option (BitVec 64)}
    (read : stream.readLong = .ok (lval, next)) : next.data = stream.data := by
  obtain ⟨_, taken, equal⟩ := (bind_eq_ok _ _ _).mp read
  cases equal
  exact data_readBytes taken

theorem data_readString {stream next : SMDMemStream} {strVal : Option Bytes}
    (read : stream.readString = .ok (strVal, next)) : next.data = stream.data := by
  obtain ⟨⟨length, middle⟩, counted, rest⟩ := (bind_eq_ok _ _ _).mp read
  rw [← data_readInt counted]
  cases length with
  | none =>
    cases rest
    rfl
  | some sz =>
    dsimp only at rest
    split at rest
    · cases rest
    · exact data_readBytes rest

theorem readInt_holds (stream : SMDMemStream) (ival : BitVec 32) (rest : Bytes)
    (holds : stream.Holds (SMDValue.putInt ival ++ rest)) :
    ∃ next, stream.readInt = .ok (some ival, next) ∧ next.Holds rest := by
  obtain ⟨next, read, after⟩ := readBytes_holds stream _ _ holds
  refine ⟨next, ?_, after⟩
  rw [SMDValue.length_putInt] at read
  simp only [readInt, read, ok_bind, Option.map_some, SMDValue.getInt_putInt]

theorem readShort_holds (stream : SMDMemStream) (sval : BitVec 16) (rest : Bytes)
    (holds : stream.Holds (SMDValue.putShort sval ++ rest)) :
    ∃ next, stream.readShort = .ok (some sval, next) ∧ next.Holds rest := by
  obtain ⟨next, read, after⟩ := readBytes_holds stream _ _ holds
  refine ⟨next, ?_, after⟩
  rw [SMDValue.length_putShort] at read
  simp only [readShort, read, ok_bind, Option.map_some, SMDValue.getShort_putShort]

theorem readLong_holds (stream : SMDMemStream) (lval : BitVec 64) (rest : Bytes)
    (holds : stream.Holds (SMDValue.putLong lval ++ rest)) :
    ∃ next, stream.readLong = .ok (some lval, next) ∧ next.Holds rest := by
  obtain ⟨next, read, after⟩ := readBytes_holds stream _ _ holds
  refine ⟨next, ?_, after⟩
  rw [SMDValue.length_putLong] at read
  simp only [readLong, read, ok_bind, Option.map_some, SMDValue.getLong_putLong]

theorem readString_holds (stream : SMDMemStream) (strVal rest : Bytes)
    (small : strVal.length < 2147483648)
    (holds : stream.Holds (stringBytes strVal ++ rest)) :
    ∃ next, stream.readString = .ok (some strVal, next) ∧ next.Holds rest := by
  rw [stringBytes, List.append_assoc] at holds
  obtain ⟨middle, lengthRead, middleHolds⟩ := readInt_holds stream _ _ holds
  obtain ⟨last, read, lastHolds⟩ := readBytes_holds middle _ _ middleHolds
  have toNat : (BitVec.ofNat 32 strVal.length).toNat = strVal.length := by
    rw [BitVec.toNat_ofNat]
    omega
  have nonneg : ¬ (BitVec.ofNat 32 strVal.length).toInt < 0 := by
    rw [BitVec.toInt_eq_toNat_cond, toNat]
    split <;> omega
  refine ⟨last, ?_, lastHolds⟩
  simp only [readString, lengthRead, ok_bind, if_neg nonneg, toNat, read]

/-! ### Reads in sequence -/

variable {Result Final : Type}

/-- The read takes `image` off the front of what the stream still holds and returns `result`. -/
def Takes (read : SMDMemStream → Except Fault (Result × SMDMemStream)) (image : Bytes)
    (result : Result) : Prop :=
  ∀ stream rest, stream.Holds (image ++ rest) →
    ∃ next, read stream = .ok (result, next) ∧ next.Holds rest ∧ next.data = stream.data

/-- The read fails on a stream that goes on with `image`. -/
def Throws (read : SMDMemStream → Except Fault (Result × SMDMemStream)) (image : Bytes) : Prop :=
  ∀ stream rest, stream.Holds (image ++ rest) → ∃ fault, read stream = .error fault

theorem Takes.pure (result : Result) : Takes (fun stream => .ok (result, stream)) [] result :=
  fun stream _ holds => ⟨stream, rfl, holds, rfl⟩

/-- One read behind another takes both images. -/
theorem Takes.bind {read : SMDMemStream → Except Fault (Result × SMDMemStream)}
    {next : Result × SMDMemStream → Except Fault (Final × SMDMemStream)} {front back : Bytes}
    {result : Result} {final : Final} (first : Takes read front result)
    (second : Takes (fun stream => next (result, stream)) back final) :
    Takes (fun stream => read stream >>= next) (front ++ back) final := by
  intro stream rest holds
  rw [List.append_assoc] at holds
  obtain ⟨middle, readEq, middleHolds, middleData⟩ := first stream _ holds
  obtain ⟨last, lastEq, lastHolds, lastData⟩ := second middle rest middleHolds
  refine ⟨last, ?_, lastHolds, by rw [lastData, middleData]⟩
  dsimp only
  rw [readEq, ok_bind]
  exact lastEq

/-- What is only computed from a result takes nothing more. -/
theorem Takes.map {read : SMDMemStream → Except Fault (Result × SMDMemStream)}
    {next : Result × SMDMemStream → Except Fault (Final × SMDMemStream)} {image : Bytes}
    {result : Result} {final : Final} (first : Takes read image result)
    (value : ∀ stream, next (result, stream) = .ok (final, stream)) :
    Takes (fun stream => read stream >>= next) image final := by
  intro stream rest holds
  obtain ⟨last, readEq, lastHolds, lastData⟩ := first stream rest holds
  refine ⟨last, ?_, lastHolds, lastData⟩
  dsimp only
  rw [readEq, ok_bind]
  exact value last

theorem Throws.bind {read : SMDMemStream → Except Fault (Result × SMDMemStream)}
    {next : Result × SMDMemStream → Except Fault (Final × SMDMemStream)} {front : Bytes}
    (throws : Throws read front) (back : Bytes) :
    Throws (fun stream => read stream >>= next) (front ++ back) := by
  intro stream rest holds
  rw [List.append_assoc] at holds
  obtain ⟨fault, readEq⟩ := throws stream _ holds
  exact ⟨fault, by dsimp only; rw [readEq, error_bind]⟩

theorem Throws.map {read : SMDMemStream → Except Fault (Result × SMDMemStream)}
    {next : Result × SMDMemStream → Except Fault (Final × SMDMemStream)} {image : Bytes}
    (throws : Throws read image) : Throws (fun stream => read stream >>= next) image := by
  intro stream rest holds
  obtain ⟨fault, readEq⟩ := throws stream rest holds
  exact ⟨fault, by dsimp only; rw [readEq, error_bind]⟩

theorem Takes.throws {read : SMDMemStream → Except Fault (Result × SMDMemStream)}
    {next : Result × SMDMemStream → Except Fault (Final × SMDMemStream)} {front back : Bytes}
    {result : Result} (first : Takes read front result)
    (second : Throws (fun stream => next (result, stream)) back) :
    Throws (fun stream => read stream >>= next) (front ++ back) := by
  intro stream rest holds
  rw [List.append_assoc] at holds
  obtain ⟨middle, readEq, middleHolds, _⟩ := first stream _ holds
  obtain ⟨fault, failed⟩ := second middle rest middleHolds
  refine ⟨fault, ?_⟩
  dsimp only
  rw [readEq, ok_bind]
  exact failed

theorem readShort_takes (sval : BitVec 16) :
    Takes readShort (SMDValue.putShort sval) (some sval) := by
  intro stream rest holds
  obtain ⟨next, read, after⟩ := readShort_holds stream sval rest holds
  exact ⟨next, read, after, data_readShort read⟩

theorem readInt_takes (ival : BitVec 32) : Takes readInt (SMDValue.putInt ival) (some ival) := by
  intro stream rest holds
  obtain ⟨next, read, after⟩ := readInt_holds stream ival rest holds
  exact ⟨next, read, after, data_readInt read⟩

theorem readLong_takes (lval : BitVec 64) :
    Takes readLong (SMDValue.putLong lval) (some lval) := by
  intro stream rest holds
  obtain ⟨next, read, after⟩ := readLong_holds stream lval rest holds
  exact ⟨next, read, after, data_readLong read⟩

theorem readString_takes (strVal : Bytes) (small : strVal.length < 2147483648) :
    Takes readString (stringBytes strVal) (some strVal) := by
  intro stream rest holds
  obtain ⟨next, read, after⟩ := readString_holds stream strVal rest small holds
  exact ⟨next, read, after, data_readString read⟩

/-- A string of 2 GiB or more has a negative length in front. -/
theorem readString_throws (strVal : Bytes) (large : ¬ strVal.length < 2147483648) :
    Throws readString (stringBytes strVal) := by
  intro stream rest holds
  have total : strVal.length < 4294967296 := by
    obtain ⟨small, _, tail⟩ := holds
    have length := congrArg List.length tail
    rw [stringBytes, List.length_drop, List.length_append, List.length_append] at length
    omega
  rw [stringBytes, List.append_assoc] at holds
  obtain ⟨middle, counted, _⟩ := readInt_holds stream _ _ holds
  have negative : (BitVec.ofNat 32 strVal.length).toInt < 0 := by
    rw [BitVec.toInt_eq_toNat_cond, BitVec.toNat_ofNat, Nat.mod_eq_of_lt total, if_neg (by omega)]
    omega
  exact ⟨.assertion, by rw [readString, counted, ok_bind]; exact if_pos negative⟩

/-- The bound that a stream puts on what it holds. -/
theorem holds_length {stream : SMDMemStream} {bytes : Bytes} (holds : stream.Holds bytes) :
    bytes.length ≤ stream.data.length ∧ stream.data.length < 4294967296 := by
  obtain ⟨small, _, tail⟩ := holds
  rw [← tail, List.length_drop]
  exact ⟨Nat.sub_le _ _, small⟩

section Guards

variable {read other : SMDMemStream → Except Fault (Result × SMDMemStream)}
  {image : Bytes} {result : Result}

theorem takes_of_length (takes : image.length < 4294967296 → Takes read image result) :
    Takes read image result := by
  intro stream rest holds
  have length := holds_length holds
  rw [List.length_append] at length
  exact takes (by omega) stream rest holds

theorem throws_of_length (throws : image.length < 4294967296 → Throws read image) :
    Throws read image := by
  intro stream rest holds
  have length := holds_length holds
  rw [List.length_append] at length
  exact throws (by omega) stream rest holds

theorem size_ne_zero_of_holds (some : image ≠ []) {stream : SMDMemStream} {rest : Bytes}
    (holds : stream.Holds (image ++ rest)) : stream.size ≠ 0 := by
  have length := holds_length holds
  have positive := List.length_pos_iff.mpr some
  rw [List.length_append] at length
  rw [SMDMemStream.size, uint_of_lt _ length.2]
  omega

/-- A read that asks first whether the stream has any bytes. -/
theorem takes_guarded (some : image ≠ []) (takes : Takes read image result) :
    Takes (fun stream => if stream.size = 0 then other stream else read stream) image result := by
  intro stream rest holds
  obtain ⟨next, readEq, after⟩ := takes stream rest holds
  exact ⟨next, (if_neg (size_ne_zero_of_holds some holds)).trans readEq, after⟩

theorem throws_guarded (some : image ≠ []) (throws : Throws read image) :
    Throws (fun stream => if stream.size = 0 then other stream else read stream) image := by
  intro stream rest holds
  obtain ⟨fault, readEq⟩ := throws stream rest holds
  exact ⟨fault, (if_neg (size_ne_zero_of_holds some holds)).trans readEq⟩

/-- With nothing else in the stream, the read uses it up. -/
theorem Takes.all (takes : Takes read image result) (small : image.length < 4294967296) :
    read ⟨image, 0⟩ = .ok (result, ⟨image, image.length⟩) := by
  obtain ⟨⟨data, pos⟩, readEq, ⟨_, inside, after⟩, same⟩ :=
    takes ⟨image, 0⟩ [] ⟨small, Nat.zero_le _, (List.append_nil _).symm⟩
  dsimp only at inside after same
  subst same
  rw [readEq, Nat.le_antisymm inside (List.drop_eq_nil_iff.mp after)]

theorem Throws.all (throws : Throws read image) (small : image.length < 4294967296) :
    ∃ fault, read ⟨image, 0⟩ = .error fault :=
  throws ⟨image, 0⟩ [] ⟨small, Nat.zero_le _, (List.append_nil _).symm⟩

end Guards

end SMDMemStream

/-- The string that `readString` leaves behind: when only its length could be read, `resize` has
filled it with NULs. -/
def readStr (stream : SMDMemStream) : Except Fault (Bytes × SMDMemStream) := do
  let (str, next) ← stream.readString
  match str with
  | some str => .ok (str, next)
  | none => do
    let (length, _) ← stream.readInt
    .ok (List.replicate (length.elim 0 BitVec.toNat) 0, next)

theorem readStr_holds (stream : SMDMemStream) (strVal rest : Bytes)
    (small : strVal.length < 2147483648)
    (holds : stream.Holds (SMDMemStream.stringBytes strVal ++ rest)) :
    ∃ next, readStr stream = .ok (strVal, next) ∧ next.Holds rest := by
  obtain ⟨next, read, after⟩ := SMDMemStream.readString_holds stream strVal rest small holds
  exact ⟨next, by rw [readStr, read]; rfl, after⟩

end LevelDBLib.KvDB
