/-
This file models one field of a record: the lock of the record, the memory a buffer
lives in, the code of variable-length integers, and the union `Field_Store` of the
eleven field types with the arm of every setter and getter of `Record` for each type.

A buffer is what `malloc` returned: a room and the bytes written so far, all of
them from its start, so that reading a byte nobody wrote is a fault. Floating
point enters through a class of parameters; floats and doubles are their bit
patterns.
-/

import LevelDBLib.KvDB.Stream

namespace LevelDBLib.KvDB

/-- The floating-point arithmetic of the platform, on bit patterns. -/
class FloatingPoint where
  addFloat : BitVec 32 → BitVec 32 → BitVec 32
  subFloat : BitVec 32 → BitVec 32 → BitVec 32
  addDouble : BitVec 64 → BitVec 64 → BitVec 64
  subDouble : BitVec 64 → BitVec 64 → BitVec 64
  /-- A double scaled by a power of ten and rounded, as `setFieldFLDouble` does. -/
  toFixed : BitVec 64 → Int → BitVec 64
  /-- The integer of an FLDOUBLE over a power of ten, as `getFieldAsDouble` does. -/
  ofFixed : BitVec 64 → Int → BitVec 64
  /-- The integer that stands for a value in a VAR_INT field with a head. -/
  relative : BitVec 64 → BitVec 32 → BitVec 32
  /-- The value that an integer of a VAR_INT field with a head stands for. -/
  absolute : BitVec 64 → BitVec 32 → BitVec 64

/-- A column of a table, with what its type carries: the `int` length of a text or a binary,
the `short` scale of an FLDOUBLE, the integer head of a VAR_INT that has one. -/
inductive FieldType where
  | text (length : BitVec 32)
  | varText
  | binary (length : BitVec 32)
  | varBinary
  | float
  | double
  | flDouble (scale : BitVec 16)
  | varInt (head : Option (BitVec 32))
  | short
  | int
  | long
deriving DecidableEq, Repr

/-! ### Locks -/

/-- `NaviLock`: whether the mutex lets its owner lock it again, and whether it is locked. -/
structure NaviLock where
  recursive : Bool
  locked : Bool
deriving DecidableEq, Repr

/-- The constructor: a mutex without attributes is of the kind that keeps its owner waiting. -/
def NaviLock.new : NaviLock := ⟨false, false⟩

/-- A block behind a `NaviGuard`, with the lock that its callees find. The guard gives the lock back
as it was. -/
def NaviGuard {Result : Type} (lock : NaviLock) (block : NaviLock → Except Fault Result) :
    Except Fault Result :=
  if lock.locked ∧ ¬ lock.recursive then .error .deadlock
  else block { lock with locked := true }

/-- A guard may be made: the lock is not taken, or may be taken again. -/
def NaviLock.Open (lock : NaviLock) : Prop := lock.locked = true → lock.recursive = true

theorem NaviGuard_open {Result : Type} {lock : NaviLock} (isOpen : lock.Open)
    (block : NaviLock → Except Fault Result) :
    NaviGuard lock block = block { lock with locked := true } :=
  if_neg fun taken => taken.2 (isOpen taken.1)

theorem NaviGuard_taken {Result : Type} {lock : NaviLock} (taken : ¬ lock.Open)
    (block : NaviLock → Except Fault Result) : NaviGuard lock block = .error .deadlock := by
  rw [NaviLock.Open, Classical.not_imp] at taken
  exact if_pos taken

/-- The lock of a record inside a member that made a guard. -/
def NaviLock.taken : NaviLock := { NaviLock.new with locked := true }

theorem NaviLock.not_open_taken : ¬ NaviLock.taken.Open := fun isOpen => nomatch isOpen rfl

/-! ### Allocated memory -/

/-- A block of memory: its room and the bytes written so far from its start. -/
structure Block where
  room : Nat
  written : Bytes
deriving DecidableEq, Repr

/-- `malloc` of an `int`: a negative size is more than any heap has. -/
def malloc (size : Int) : Option Block :=
  if size < 0 then none else some ⟨size.toNat, []⟩

/-- Bytes copied to the start of a block; copying no byte touches no memory. -/
def store (buffer : Option Block) (source : Bytes) : Except Fault (Option Block) :=
  match source, buffer with
  | [], _ => .ok buffer
  | _ :: _, none => .error .nullPointer
  | _ :: _, some block =>
    if source.length ≤ block.room then
      .ok (some ⟨block.room, source ++ block.written.drop source.length⟩)
    else .error .outOfBounds

/-- The first `count` bytes of a block. -/
def load (buffer : Option Block) (count : Int) : Except Fault Bytes :=
  if count = 0 then .ok []
  else match buffer with
    | none => .error .nullPointer
    | some block =>
      if count < 0 ∨ (block.room : Int) < count then .error .outOfBounds
      else if (block.written.length : Int) < count then .error .uninitialised
      else .ok (block.written.take count.toNat)

/-- `memset (buffer, 0, count)`. -/
def clear (buffer : Option Block) (count : Int) : Except Fault (Option Block) :=
  if count < 0 then .error .outOfBounds else store buffer (List.replicate count.toNat 0)

/-- The bytes that `while (n-- && ((*tmp++ = *buffer++) != '\0'))` copies: up to `n` of them, the
first NUL being the last. -/
def copyString : Int → Bytes → Except Fault Bytes
  | n, [] => if n = 0 then .ok [] else .error .outOfBounds
  | n, char :: rest =>
    if n = 0 then .ok []
    else if char = 0 then .ok [0]
    else do
      let copied ← copyString (n - 1) rest
      .ok (char :: copied)

/-- The first `count` bytes behind a pointer of the caller. -/
def given (buffer : Bytes) (count : Int) : Except Fault Bytes :=
  if count < 0 then .error .outOfBounds else fetch buffer 0 count.toNat

/-! ### Variable-length integers -/

def Zig (value : BitVec 32) : BitVec 32 := (value <<< 1) ^^^ value.sshiftRight 31

def Zag (ziggedValue : BitVec 32) : BitVec 32 :=
  -(ziggedValue &&& 1) ^^^ (ziggedValue.sshiftRight 1 &&& ~~~(1#32 <<< 31))

/-- The loop of `varIntWrite`, which has `room` cells of `data_byte` left. -/
def varIntBytes : Nat → Nat → Bytes
  | 0, _ => []
  | room + 1, value =>
    if value >>> 7 = 0 then [UInt8.ofNat (value &&& 0x7F)]
    else UInt8.ofNat (value &&& 0x7F ||| 0x80) :: varIntBytes room (value >>> 7)

/-- `varIntWrite`: the bytes it puts in front of `data`, whose number is `nCount`. -/
def varIntWrite (value : BitVec 32) : Bytes := varIntBytes 5 (Zig value).toNat

/-- What `getVarInt` makes of up to five bytes, the last one unmasked. -/
def varIntValue (nCount : Nat) (data : Bytes) : BitVec 32 :=
  let chunk (index : Nat) : BitVec 32 := (data.getD index 0).toBitVec.setWidth 32
  if nCount = 0 then 0
  else if chunk 0 &&& 0x80 = 0 then Zag (chunk 0)
  else
    let value := (chunk 0 &&& 0x7F) ||| ((chunk 1 &&& 0x7F) <<< 7)
    if chunk 1 &&& 0x80 = 0 then Zag value
    else
      let value := value ||| ((chunk 2 &&& 0x7F) <<< 14)
      if chunk 2 &&& 0x80 = 0 then Zag value
      else
        let value := value ||| ((chunk 3 &&& 0x7F) <<< 21)
        if chunk 3 &&& 0x80 = 0 then Zag value
        else
          let value := value ||| (chunk 4 <<< 28)
          if chunk 4 &&& 0x80 = 0 then Zag value else value

def getVarInt (m_lock : NaviLock) (nCount : Nat) (data : Bytes) : Except Fault (BitVec 32) :=
  NaviGuard m_lock fun _ => .ok (varIntValue nCount data)

/-! ### Fields -/

/-- The member of `Field_Store` shared by the text and binary types, with the size of the
field beside it. -/
structure TextAndBinary where
  nFieldSize : Int
  nLength : Int
  buffer : Option Block
deriving DecidableEq, Repr

/-- A field: its type picks the member of `Field_Store`. -/
inductive Field where
  | text (stored : TextAndBinary)
  | varText (stored : TextAndBinary)
  | binary (stored : TextAndBinary)
  | varBinary (stored : TextAndBinary)
  | float (bits : BitVec 32)
  | double (bits : BitVec 64)
  | flDouble (nLength : Int) (FLDouble : BitVec 64)
  | varInt (nCount : Nat) (data : Bytes)
  | short (value : BitVec 16)
  | int (value : BitVec 32)
  | long (value : BitVec 64)
deriving DecidableEq, Repr

namespace Field

/-- The arm of `initFields`; what it does not set is zero, since `vector::resize`
value-initialises. -/
def init : FieldType → Field
  | .text length => .text ⟨length.toInt, length.toInt, malloc length.toInt⟩
  | .varText => .varText ⟨0, 0, none⟩
  | .binary length => .binary ⟨length.toInt, length.toInt, malloc length.toInt⟩
  | .varBinary => .varBinary ⟨0, 0, none⟩
  | .float => .float 0
  | .double => .double 0
  | .flDouble scale => .flDouble scale.toInt 0
  | .varInt _ => .varInt 0 [0, 0, 0, 0, 0]
  | .short => .short 0
  | .int => .int 0
  | .long => .long 0

/-! ### Setters -/

def setFieldShort (field : Field) (value : BitVec 16) : Bool × Field :=
  match field with
  | .short _ => (true, .short value)
  | other => (false, other)

/-- The bytes of a VAR_INT, written over the front of `data`. -/
def setVarInt (data : Bytes) (value : BitVec 32) : Field :=
  let bytes := varIntWrite value
  .varInt bytes.length (bytes ++ data.drop bytes.length)

section Arithmetic

variable [FloatingPoint]

def setFieldInteger (field : Field) (column : FieldType) (value : BitVec 32) (flag : Bool) :
    Bool × Field :=
  match field, column with
  | .int _, _ => (true, .int value)
  | .varInt _ data, .varInt (some head) =>
    if flag then (true, setVarInt data (FloatingPoint.relative (value.signExtend 64) head))
    else (true, setVarInt data value)
  | .varInt _ data, _ => (true, setVarInt data value)
  | other, _ => (false, other)

/-- As `setFieldInteger`, the value cut to an `int` for a VAR_INT. -/
def setFieldLong (field : Field) (column : FieldType) (value : BitVec 64) (flag : Bool) :
    Bool × Field :=
  match field, column with
  | .long _, _ => (true, .long value)
  | .varInt _ data, .varInt (some head) =>
    if flag then (true, setVarInt data (FloatingPoint.relative value head))
    else (true, setVarInt data (value.setWidth 32))
  | .varInt _ data, _ => (true, setVarInt data (value.setWidth 32))
  | other, _ => (false, other)

def setFieldFloat (field : Field) (value : BitVec 32) : Bool × Field :=
  match field with
  | .float _ => (true, .float value)
  | other => (false, other)

def setFieldDouble (field : Field) (value : BitVec 64) : Bool × Field :=
  match field with
  | .double _ => (true, .double value)
  | other => (false, other)

def setFieldFLDouble (field : Field) (value : BitVec 64) : Bool × Field :=
  match field with
  | .flDouble nLength _ => (true, .flDouble nLength (FloatingPoint.toFixed value nLength))
  | other => (false, other)

end Arithmetic

/-- `setFieldBinary`: the memory behind the pointer of the caller, and the size it names. -/
def setFieldBinary (field : Field) (buffer : Bytes) (size : BitVec 32) :
    Except Fault (Bool × Field) :=
  match field with
  | .text stored => do
    let copied ← copyString stored.nFieldSize buffer
    let block ← store stored.buffer copied
    .ok (true, .text { stored with
      nLength := if size.toInt < stored.nFieldSize then size.toInt else stored.nFieldSize
      buffer := block })
  | .varText _ => do
    let copied ← copyString size.toInt buffer
    let block ← store (malloc size.toInt) copied
    .ok (true, .varText ⟨size.toInt, size.toInt, block⟩)
  | .binary stored => do
    let block ← clear stored.buffer stored.nFieldSize
    let nLength := if size.toInt < stored.nFieldSize then size.toInt else stored.nFieldSize
    let copied ← given buffer nLength
    let block ← store block copied
    .ok (true, .binary { stored with nLength := nLength, buffer := block })
  | .varBinary stored => do
    let copied ← given buffer size.toInt
    let block ← store (malloc size.toInt) copied
    .ok (true, .varBinary { stored with nLength := size.toInt, buffer := block })
  | other => .ok (false, other)

/-- `setFieldString`: the bytes of the string and its terminator. -/
def setFieldString (field : Field) (str : Bytes) : Except Fault (Bool × Field) :=
  field.setFieldBinary (str ++ [0]) (BitVec.ofNat 32 str.length)

/-! ### Getters

The members that lock `m_lock` take it as an argument where a member that they call locks it
again; where none does the guard is left out. -/

def getFieldAsShort : Field → Option (BitVec 16)
  | .short value => some value
  | _ => none

def getFieldAsInteger (m_lock : NaviLock) (field : Field) : Except Fault (Option (BitVec 32)) :=
  NaviGuard m_lock fun m_lock =>
    match field with
    | .int value => .ok (some value)
    | .varInt nCount data => do
      let ival ← getVarInt m_lock nCount data
      .ok (some ival)
    | _ => .ok none

def getFieldAsLong [FloatingPoint] (m_lock : NaviLock) (field : Field) (column : FieldType) :
    Except Fault (Option (BitVec 64)) :=
  NaviGuard m_lock fun m_lock =>
    match field, column with
    | .long value, _ => .ok (some value)
    | .varInt nCount data, .varInt (some head) => do
      let lval ← getVarInt m_lock nCount data
      .ok (some (FloatingPoint.absolute (lval.signExtend 64) head))
    | .varInt nCount data, _ => do
      let lval ← getVarInt m_lock nCount data
      .ok (some (lval.signExtend 64))
    | _, _ => .ok none

def getFieldAsFloat : Field → Option (BitVec 32)
  | .float bits => some bits
  | _ => none

def getFieldAsDouble [FloatingPoint] : Field → Option (BitVec 64)
  | .double bits => some bits
  | .flDouble nLength FLDouble => some (FloatingPoint.ofFixed FLDouble nLength)
  | _ => none

/-- The characters of a text up to the first NUL, in a string of `nLength` characters whose
others `resize` made NUL. A negative length makes `resize` throw. -/
def textString (stored : TextAndBinary) : Except Fault Bytes :=
  if stored.nLength < 0 then .error .assertion
  else do
    let copied ← match stored.buffer with
      | none => if stored.nLength = 0 then .ok [] else .error .nullPointer
      | some block => match copyString stored.nLength block.written with
        | .ok copied => .ok copied
        | .error _ => .error .uninitialised
    .ok (copied ++ List.replicate (stored.nLength.toNat - copied.length) 0)

def binaryString (stored : TextAndBinary) : Except Fault Bytes :=
  if stored.nLength < 0 then .error .assertion else load stored.buffer stored.nLength

/-- `getFieldAsString`, the string left empty when the field has another type. -/
def getFieldAsString : Field → Except Fault Bytes
  | .text stored => textString stored
  | .varText stored => textString stored
  | .binary stored => binaryString stored
  | .varBinary stored => binaryString stored
  | _ => .ok []

end Field

end LevelDBLib.KvDB
