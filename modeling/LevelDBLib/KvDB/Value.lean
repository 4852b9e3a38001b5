/-
This file fixes the machine level of the single-file store: the ways a C++ call
can fail to have a defined result (`Fault`), the conversions between the integer
types the code mixes, raw memory reads and writes with their bounds, and the
big-endian codec of `SMDValue`.

Unsigned quantities are natural numbers reduced at the conversions; the 2-, 4-
and 8-byte patterns that reach a buffer are bit vectors.
-/

import Mathlib.Tactic.Common
import LevelDBLib.Library.Buffers

namespace LevelDBLib.KvDB

open Buffers

/-- A byte string: `std::string` and raw `char` buffers. -/
abbrev Bytes := List UInt8

/-- The ways a call can leave the defined behaviour of the program. -/
inductive Fault where
  /-- A member is called through a null pointer. -/
  | nullPointer
  /-- Memory outside a buffer is read or written. -/
  | outOfBounds
  /-- A value that was never written decides what happens next. -/
  | uninitialised
  /-- An `assert` fails. -/
  | assertion
  /-- A loop never ends. -/
  | nonTermination
  /-- A number is divided by zero. -/
  | divisionByZero
  /-- An object is used as one of another class. -/
  | wrongClass
  /-- A thread waits for a lock that it holds itself. -/
  | deadlock
deriving DecidableEq, Repr

/-! ### Integer conversions -/

/-- Conversion to `unsigned short`. -/
def ushort (value : Int) : Nat := (value % 65536).toNat

/-- Conversion to `unsigned int`. -/
def uint (value : Int) : Nat := (value % 4294967296).toNat

/-- Conversion to `int`. -/
def int (value : Int) : Int := (value + 2147483648) % 4294967296 - 2147483648

theorem ushort_of_lt (value : Nat) (bound : value < 65536) : ushort value = value := by
  unfold ushort
  omega

theorem uint_of_lt (value : Nat) (bound : value < 4294967296) : uint value = value := by
  unfold uint
  omega

theorem uint_add_of_lt (first second : Nat) (bound : first + second < 4294967296) :
    uint (first + second) = first + second := by
  unfold uint
  omega

theorem int_of_lt (value : Nat) (bound : value < 2147483648) : int value = value := by
  unfold int
  omega

/-- A number below `2 ^ 31` keeps its value in an `int` of the codecs. -/
theorem toInt_ofNat_of_lt {value : Nat} (bound : value < 2147483648) :
    (BitVec.ofNat 32 value).toInt = value := by
  rw [BitVec.toInt_eq_toNat_cond, BitVec.toNat_ofNat, Nat.mod_eq_of_lt (by omega),
    if_pos (by omega)]

theorem uint_int (value : Int) : uint (int value) = uint value := by
  unfold uint int
  omega

theorem int_uint (value : Int) : int (uint value) = int value := by
  unfold uint int
  omega

theorem int_add_uint (first second : Int) : int (first + uint second) = int (first + second) := by
  unfold uint int
  omega

/-! ### Memory -/

/-- `memcpy` of `source` to `buffer + offset`. -/
def memcpy (buffer : Bytes) (offset : Nat) (source : Bytes) : Except Fault Bytes :=
  if offset + source.length ≤ buffer.length then .ok (splice buffer offset source)
  else .error .outOfBounds

/-- `memcpy` of `count` bytes from `buffer + offset`. -/
def fetch (buffer : Bytes) (offset count : Nat) : Except Fault Bytes :=
  if offset + count ≤ buffer.length then .ok (slice buffer offset count)
  else .error .outOfBounds

theorem memcpy_of_le (buffer : Bytes) (offset : Nat) (source : Bytes)
    (bound : offset + source.length ≤ buffer.length) :
    memcpy buffer offset source = .ok (splice buffer offset source) := if_pos bound

theorem fetch_of_le (buffer : Bytes) (offset count : Nat)
    (bound : offset + count ≤ buffer.length) :
    fetch buffer offset count = .ok (slice buffer offset count) := if_pos bound

@[simp] theorem ok_bind {First Second : Type} (value : First)
    (next : First → Except Fault Second) : (Except.ok value >>= next) = next value := rfl

@[simp] theorem error_bind {First Second : Type} (fault : Fault)
    (next : First → Except Fault Second) :
    ((Except.error fault : Except Fault First) >>= next) = .error fault := rfl

/-- A sequence of two calls returns exactly when both do. -/
theorem bind_eq_ok {First Second : Type} (call : Except Fault First)
    (next : First → Except Fault Second) (result : Second) :
    (call >>= next) = .ok result ↔ ∃ value, call = .ok value ∧ next value = .ok result := by
  cases call with
  | error fault =>
    constructor
    · intro equal
      cases equal
    · rintro ⟨value, equal, _⟩
      cases equal
  | ok value =>
    constructor
    · intro equal
      exact ⟨value, rfl, equal⟩
    · rintro ⟨other, equal, rest⟩
      cases equal
      exact rest

/-! ### SMDValue -/

namespace SMDValue

/-- The byte of a buffer at an index below its length. -/
def byteAt (buf : Bytes) (index : Nat) : BitVec 8 := (buf.getD index 0).toBitVec

def getShort (buf : Bytes) : BitVec 16 := byteAt buf 0 ++ byteAt buf 1

def putShort (shortValue : BitVec 16) : Bytes :=
  [⟨shortValue.extractLsb' 8 8⟩, ⟨shortValue.extractLsb' 0 8⟩]

def getInt (buf : Bytes) : BitVec 32 :=
  byteAt buf 0 ++ byteAt buf 1 ++ byteAt buf 2 ++ byteAt buf 3

def putInt (intValue : BitVec 32) : Bytes :=
  [⟨intValue.extractLsb' 24 8⟩, ⟨intValue.extractLsb' 16 8⟩, ⟨intValue.extractLsb' 8 8⟩,
    ⟨intValue.extractLsb' 0 8⟩]

def getLong (buf : Bytes) : BitVec 64 :=
  byteAt buf 0 ++ byteAt buf 1 ++ byteAt buf 2 ++ byteAt buf 3 ++
    byteAt buf 4 ++ byteAt buf 5 ++ byteAt buf 6 ++ byteAt buf 7

def putLong (longValue : BitVec 64) : Bytes :=
  [⟨longValue.extractLsb' 56 8⟩, ⟨longValue.extractLsb' 48 8⟩, ⟨longValue.extractLsb' 40 8⟩,
    ⟨longValue.extractLsb' 32 8⟩, ⟨longValue.extractLsb' 24 8⟩, ⟨longValue.extractLsb' 16 8⟩,
    ⟨longValue.extractLsb' 8 8⟩, ⟨longValue.extractLsb' 0 8⟩]

@[simp] theorem length_putShort (value : BitVec 16) : (putShort value).length = 2 := rfl

@[simp] theorem length_putInt (value : BitVec 32) : (putInt value).length = 4 := rfl

@[simp] theorem length_putLong (value : BitVec 64) : (putLong value).length = 8 := rfl

/-- Reading the high part and the low part of a pattern side by side gives the pattern. -/
theorem extract_append_extract {width : Nat} (value : BitVec width) (high low : Nat)
    (start : Nat) :
    value.extractLsb' (start + low) high ++ value.extractLsb' start low =
      value.extractLsb' start (high + low) := by
  ext index bound
  simp only [BitVec.getElem_append, BitVec.getElem_extractLsb']
  split
  · rfl
  · congr 1
    omega

@[simp] theorem getShort_putShort (value : BitVec 16) : getShort (putShort value) = value := by
  show value.extractLsb' 8 8 ++ value.extractLsb' 0 8 = value
  rw [extract_append_extract value 8 8 0]
  exact BitVec.extractLsb'_eq_self

@[simp] theorem getInt_putInt (value : BitVec 32) : getInt (putInt value) = value := by
  show value.extractLsb' 24 8 ++ value.extractLsb' 16 8 ++ value.extractLsb' 8 8 ++
    value.extractLsb' 0 8 = value
  rw [extract_append_extract value 8 8 16, extract_append_extract value 16 8 8,
    extract_append_extract value 24 8 0]
  exact BitVec.extractLsb'_eq_self

@[simp] theorem getLong_putLong (value : BitVec 64) : getLong (putLong value) = value := by
  show value.extractLsb' 56 8 ++ value.extractLsb' 48 8 ++ value.extractLsb' 40 8 ++
    value.extractLsb' 32 8 ++ value.extractLsb' 24 8 ++ value.extractLsb' 16 8 ++
    value.extractLsb' 8 8 ++ value.extractLsb' 0 8 = value
  rw [extract_append_extract value 8 8 48, extract_append_extract value 16 8 40,
    extract_append_extract value 24 8 32, extract_append_extract value 32 8 24,
    extract_append_extract value 40 8 16, extract_append_extract value 48 8 8,
    extract_append_extract value 56 8 0]
  exact BitVec.extractLsb'_eq_self

end SMDValue

end LevelDBLib.KvDB
