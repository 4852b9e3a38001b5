/-
This file models `util/coding.cpp`: numbers of fixed length with the lowest byte first,
numbers of variable length in groups of seven bits, and strings behind their lengths. Each
writer is followed by what its reader makes of the bytes, whatever stands behind them.
-/

import LevelDBLib.KvDB.Value
import LevelDBLib.Library.Varints

namespace LevelDBLib.Navi

open KvDB Varints

namespace Coding

/-! ### Numbers of fixed length -/

/-- `value & 0xff` as a `char`. -/
def byte {width : Nat} (value : BitVec width) : UInt8 := ⟨value.setWidth 8⟩

/-- The bytes of a number, the lowest first. -/
def encodeFixed {width : Nat} : Nat → BitVec width → Bytes
  | 0, _ => []
  | count + 1, value => byte value :: encodeFixed count (value >>> 8)

/-- The number of the first bytes, the lowest first. -/
def decodeFixed {width : Nat} : Nat → Bytes → BitVec width
  | 0, _ => 0
  | count + 1, ptr => (ptr.headD 0).toBitVec.setWidth width ||| decodeFixed count ptr.tail <<< 8

def EncodeFixed32 (value : BitVec 32) : Bytes := encodeFixed 4 value

def EncodeFixed64 (value : BitVec 64) : Bytes := encodeFixed 8 value

/-- `DecodeFixed32`, whose callers have four bytes there. -/
def DecodeFixed32 (ptr : Bytes) : BitVec 32 := decodeFixed 4 ptr

/-- `DecodeFixed64`, whose callers have eight bytes there. -/
def DecodeFixed64 (ptr : Bytes) : BitVec 64 := decodeFixed 8 ptr

def PutFixed32 (dst : Bytes) (value : BitVec 32) : Bytes := dst ++ EncodeFixed32 value

def PutFixed64 (dst : Bytes) (value : BitVec 64) : Bytes := dst ++ EncodeFixed64 value

@[simp] theorem length_encodeFixed {width : Nat} (count : Nat) (value : BitVec width) :
    (encodeFixed count value).length = count := by
  induction count generalizing value with
  | zero => rfl
  | succ count hypothesis => rw [encodeFixed, List.length_cons, hypothesis]

@[simp] theorem length_EncodeFixed32 (value : BitVec 32) : (EncodeFixed32 value).length = 4 :=
  length_encodeFixed 4 value

@[simp] theorem length_EncodeFixed64 (value : BitVec 64) : (EncodeFixed64 value).length = 8 :=
  length_encodeFixed 8 value

theorem getLsbD_decodeFixed {width : Nat} (count : Nat) (ptr : Bytes) (index : Nat)
    (bound : index < width) :
    (decodeFixed count ptr : BitVec width).getLsbD index =
      (decide (index < 8 * count) && (ptr.getD (index / 8) 0).toBitVec.getLsbD (index % 8)) := by
  induction count generalizing ptr index with
  | zero => simp [decodeFixed]
  | succ count hypothesis =>
    rw [decodeFixed, BitVec.getLsbD_or, BitVec.getLsbD_setWidth, BitVec.getLsbD_shiftLeft]
    by_cases low : index < 8
    · cases ptr <;> simp [low, bound, Nat.div_eq_of_lt low, Nat.mod_eq_of_lt low,
        show index < 8 * (count + 1) by omega]
    · rw [hypothesis ptr.tail (index - 8) (by omega), BitVec.getLsbD_of_ge _ _ (by omega)]
      have step : index / 8 = (index - 8) / 8 + 1 := by omega
      have same : (index - 8) % 8 = index % 8 := by omega
      cases ptr <;> simp [low, bound, step, same, show index - 8 < 8 * count ↔
        index < 8 * (count + 1) by omega]

theorem getLsbD_byte {width : Nat} (value : BitVec width) (index : Nat) :
    (byte value).toBitVec.getLsbD index = (decide (index < 8) && value.getLsbD index) :=
  BitVec.getLsbD_setWidth ..

theorem getD_encodeFixed {width : Nat} (count : Nat) (value : BitVec width) (rest : Bytes)
    (index : Nat) (bound : index < count) :
    (encodeFixed count value ++ rest).getD index 0 = byte (value >>> (8 * index)) := by
  induction count generalizing value index with
  | zero => omega
  | succ count hypothesis =>
    rw [encodeFixed, List.cons_append]
    cases index with
    | zero => rfl
    | succ index =>
      rw [List.getD_cons_succ, hypothesis _ _ (by omega), ← BitVec.shiftRight_add,
        Nat.mul_succ, Nat.add_comm]

/-- A number is read back from its bytes. -/
theorem decodeFixed_encodeFixed (count : Nat) (value : BitVec (8 * count)) (rest : Bytes) :
    decodeFixed count (encodeFixed count value ++ rest) = value := by
  refine BitVec.eq_of_getLsbD_eq fun index bound => ?_
  rw [getLsbD_decodeFixed _ _ _ bound, getD_encodeFixed _ _ _ _ (by omega), getLsbD_byte,
    BitVec.getLsbD_ushiftRight, Nat.div_add_mod]
  simp [bound, Nat.mod_lt]

@[simp] theorem DecodeFixed32_EncodeFixed32 (value : BitVec 32) (rest : Bytes) :
    DecodeFixed32 (EncodeFixed32 value ++ rest) = value :=
  decodeFixed_encodeFixed 4 value rest

@[simp] theorem DecodeFixed64_EncodeFixed64 (value : BitVec 64) (rest : Bytes) :
    DecodeFixed64 (EncodeFixed64 value ++ rest) = value :=
  decodeFixed_encodeFixed 8 value rest

/-- The bytes of a number that was read are those it was read from. -/
theorem encodeFixed_decodeFixed (count : Nat) (ptr : Bytes) (enough : count ≤ ptr.length) :
    encodeFixed count (decodeFixed count ptr : BitVec (8 * count)) = ptr.take count := by
  refine List.ext_getElem (by simp [enough]) fun index small _ => ?_
  rw [length_encodeFixed] at small
  have here := getD_encodeFixed count (decodeFixed count ptr : BitVec (8 * count)) [] index small
  have there : ptr[index] = ptr.getD index 0 := by
    rw [List.getD, List.getElem?_eq_getElem (by omega), Option.getD_some]
  rw [List.append_nil, List.getD, List.getElem?_eq_getElem (by rwa [length_encodeFixed]),
    Option.getD_some] at here
  rw [here, List.getElem_take, there]
  refine UInt8.toBitVec_inj.mp (BitVec.eq_of_getLsbD_eq fun bit inside => ?_)
  rw [getLsbD_byte, BitVec.getLsbD_ushiftRight, getLsbD_decodeFixed _ _ _ (by omega)]
  simp [inside, show 8 * index + bit < 8 * count by omega,
    show (8 * index + bit) / 8 = index by omega, show (8 * index + bit) % 8 = bit by omega]

/-! ### Numbers of variable length -/

def EncodeVarint32 (v : BitVec 32) : Bytes :=
  if v < 128#32 then [byte v]
  else if v < 16384#32 then [byte (v ||| 128#32), byte (v >>> 7)]
  else if v < 2097152#32 then [byte (v ||| 128#32), byte (v >>> 7 ||| 128#32), byte (v >>> 14)]
  else if v < 268435456#32 then
    [byte (v ||| 128#32), byte (v >>> 7 ||| 128#32), byte (v >>> 14 ||| 128#32), byte (v >>> 21)]
  else
    [byte (v ||| 128#32), byte (v >>> 7 ||| 128#32), byte (v >>> 14 ||| 128#32),
      byte (v >>> 21 ||| 128#32), byte (v >>> 28)]

def PutVarint32 (dst : Bytes) (v : BitVec 32) : Bytes := dst ++ EncodeVarint32 v

/-- The loop of `EncodeVarint64`. -/
def varint64 : Nat → BitVec 64 → Bytes
  | 0, _ => []
  | turns + 1, v =>
    if v ≥ 128#64 then byte (v &&& 127#64 ||| 128#64) :: varint64 turns (v >>> 7) else [byte v]

/-- `EncodeVarint64`, whose loop makes at most ten turns. -/
def EncodeVarint64 (v : BitVec 64) : Bytes := varint64 10 v

def PutVarint64 (dst : Bytes) (v : BitVec 64) : Bytes := dst ++ EncodeVarint64 v

/-- The loop of `VarintLength`. -/
def varintLength : Nat → BitVec 64 → Nat → Nat
  | 0, _, len => len
  | turns + 1, v, len => if v ≥ 128#64 then varintLength turns (v >>> 7) (len + 1) else len

/-- `VarintLength`, whose loop makes at most nine turns. -/
def VarintLength (v : BitVec 64) : Nat := varintLength 9 v 1

/-- The loop of the two readers, whose shifts go up to `last`: the number so far, and what is left
of the bytes. -/
def gather {width : Nat} (last : Nat) :
    Nat → BitVec width → Bytes → Option (BitVec width × Bytes)
  | _, _, [] => none
  | shift, result, head :: p =>
    let byte := head.toBitVec.setWidth width
    if last < shift then none
    else if head &&& 128 ≠ 0 then gather last (shift + 7) (result ||| (byte &&& 127) <<< shift) p
    else some (result ||| byte <<< shift, p)

def GetVarint32PtrFallback (p : Bytes) : Option (BitVec 32 × Bytes) := gather 28 0 0 p

/-- `GetVarint32Ptr`, with the number of one byte on its own. -/
def GetVarint32Ptr : Bytes → Option (BitVec 32 × Bytes)
  | [] => GetVarint32PtrFallback []
  | head :: p =>
    if head &&& 128 = 0 then some (head.toBitVec.setWidth 32, p)
    else GetVarint32PtrFallback (head :: p)

def GetVarint64Ptr (p : Bytes) : Option (BitVec 64 × Bytes) := gather 63 0 0 p

def GetVarint32 (input : Bytes) : Option (BitVec 32 × Bytes) := GetVarint32Ptr input

def GetVarint64 (input : Bytes) : Option (BitVec 64 × Bytes) := GetVarint64Ptr input

theorem toNat_byte {width : Nat} (value : BitVec width) :
    (byte value).toNat = value.toNat % 256 :=
  BitVec.toNat_setWidth ..

theorem byte_ofNat {width : Nat} (value : BitVec width) : byte value = UInt8.ofNat value.toNat := by
  refine UInt8.toNat_inj.mp ?_
  rw [toNat_byte, UInt8.toNat_ofNat']

theorem or_mark (number : Nat) : (number ||| 128) % 256 = number % 128 + 128 := by
  have low : number % 128 < 2 ^ 7 := Nat.mod_lt _ (by decide)
  have apart : number % 128 + 128 = 2 ^ 7 ||| number % 128 :=
    (Nat.add_comm ..).trans (Nat.two_pow_add_eq_or_of_lt low 1)
  rw [apart, show (256 : Nat) = 2 ^ 8 by rfl, show (128 : Nat) = 2 ^ 7 by rfl]
  refine Nat.eq_of_testBit_eq fun index => ?_
  rw [Nat.testBit_mod_two_pow, Nat.testBit_or, Nat.testBit_or, Nat.testBit_two_pow,
    Nat.testBit_mod_two_pow]
  by_cases mark : index = 7
  · simp [mark]
  · by_cases below : index < 7
    · simp [below, show index < 8 by omega, Bool.or_comm]
    · simp [below, show ¬ index < 8 by omega, show ¬ 7 = index by omega]

/-- A byte with its mark. -/
theorem byte_marked {width : Nat} (value mark : BitVec width) (markEq : mark.toNat = 128) :
    byte (value ||| mark) = UInt8.ofNat (value.toNat % 128 + 128) := by
  refine UInt8.toNat_inj.mp ?_
  have small : value.toNat % 128 + 128 < 2 ^ 8 := by omega
  rw [toNat_byte, BitVec.toNat_or, markEq, or_mark, UInt8.toNat_ofNat', Nat.mod_eq_of_lt small]

/-- A written number is the groups of its value. -/
theorem EncodeVarint32_eq (v : BitVec 32) :
    EncodeVarint32 v = (groups v.toNat).map UInt8.ofNat := by
  have bound := v.isLt
  have div (low high : Nat) : v.toNat / 2 ^ low / 2 ^ high = v.toNat / 2 ^ (low + high) := by
    rw [Nat.div_div_eq_div_mul, Nat.pow_add]
  unfold EncodeVarint32
  simp only [BitVec.lt_def, BitVec.toNat_ofNat, Nat.reducePow, Nat.reduceMod,
    byte_marked _ 128#32 rfl, byte_ofNat, BitVec.toNat_ushiftRight, Nat.shiftRight_eq_div_pow]
  by_cases one : v.toNat < 128
  · rw [if_pos one, groups_of_lt one]
    rfl
  rw [if_neg one, groups_of_ge one, List.map_cons]
  by_cases two : v.toNat < 16384
  · rw [if_pos two, groups_of_lt (by omega)]
    rfl
  rw [if_neg two, groups_of_ge (by omega), List.map_cons]
  by_cases three : v.toNat < 2097152
  · rw [if_pos three, groups_of_lt (by omega), Nat.div_div_eq_div_mul]
    rfl
  rw [if_neg three, groups_of_ge (by omega), List.map_cons]
  by_cases four : v.toNat < 268435456
  · rw [if_pos four, groups_of_lt (by omega)]
    simp only [Nat.div_div_eq_div_mul]
    rfl
  rw [if_neg four, groups_of_ge (by omega), List.map_cons, groups_of_lt (by omega)]
  simp only [Nat.div_div_eq_div_mul]
  rfl

theorem varint64_eq (turns : Nat) (v : BitVec 64) (enough : (groups v.toNat).length ≤ turns) :
    varint64 turns v = (groups v.toNat).map UInt8.ofNat := by
  induction turns generalizing v with
  | zero => exact absurd (List.length_eq_zero_iff.mp (Nat.le_zero.mp enough)) (groups_ne_nil _)
  | succ turns hypothesis =>
    rw [varint64]
    by_cases more : v ≥ 128#64
    · have large : ¬ v.toNat < 128 := Nat.not_lt.mpr (BitVec.le_def.mp more)
      have next : (v >>> 7).toNat = v.toNat / 128 := by
        rw [BitVec.toNat_ushiftRight, Nat.shiftRight_eq_div_pow]
      have low : (v &&& 127#64).toNat = v.toNat % 128 := by
        rw [BitVec.toNat_and]
        exact Nat.and_two_pow_sub_one_eq_mod v.toNat 7
      rw [groups_of_ge large, List.length_cons] at enough
      rw [if_pos more, groups_of_ge large, List.map_cons, byte_marked _ 128#64 rfl, low,
        Nat.mod_mod, hypothesis _ (by rw [next]; omega), next]
    · have small : v.toNat < 128 := Nat.lt_of_not_le fun le => more (BitVec.le_def.mpr le)
      rw [if_neg more, groups_of_lt small, byte_ofNat]
      rfl

theorem EncodeVarint64_eq (v : BitVec 64) :
    EncodeVarint64 v = (groups v.toNat).map UInt8.ofNat :=
  varint64_eq 10 v (length_groups_le 9 _ (Nat.lt_of_lt_of_le v.isLt (by decide)))

theorem varintLength_eq (turns : Nat) (v : BitVec 64) (len : Nat)
    (enough : (groups v.toNat).length ≤ turns + 1) :
    varintLength turns v len + 1 = len + (groups v.toNat).length := by
  induction turns generalizing v len with
  | zero =>
    by_cases small : v.toNat < 128
    · rw [groups_of_lt small]
      rfl
    · rw [groups_of_ge small, List.length_cons] at enough
      exact absurd (List.length_eq_zero_iff.mp (by omega)) (groups_ne_nil (v.toNat / 128))
  | succ turns hypothesis =>
    rw [varintLength]
    by_cases more : v ≥ 128#64
    · have large : ¬ v.toNat < 128 := Nat.not_lt.mpr (BitVec.le_def.mp more)
      have next : (v >>> 7).toNat = v.toNat / 128 := by
        rw [BitVec.toNat_ushiftRight, Nat.shiftRight_eq_div_pow]
      rw [groups_of_ge large, List.length_cons] at enough ⊢
      rw [if_pos more, hypothesis _ _ (by rw [next]; omega), next]
      omega
    · have small : v.toNat < 128 := Nat.lt_of_not_le fun le => more (BitVec.le_def.mpr le)
      rw [if_neg more, groups_of_lt small]
      rfl

/-- The length of a number is that of what is written for it. -/
theorem VarintLength_eq (v : BitVec 64) : VarintLength v = (EncodeVarint64 v).length := by
  have length := varintLength_eq 9 v 1
    (length_groups_le 9 _ (Nat.lt_of_lt_of_le v.isLt (by decide)))
  rw [EncodeVarint64_eq, List.length_map]
  unfold VarintLength
  omega

theorem and_mark_eq_zero (number : Nat) (small : number < 128) :
    UInt8.ofNat number &&& 128 = 0 := by
  refine UInt8.toNat_inj.mp (Nat.eq_of_testBit_eq fun index => ?_)
  rw [UInt8.toNat_and, UInt8.toNat_ofNat', Nat.mod_eq_of_lt (by omega), Nat.testBit_and,
    show (128 : UInt8).toNat = 2 ^ 7 by rfl, Nat.testBit_two_pow]
  by_cases mark : 7 = index
  · rw [← mark, Nat.testBit_lt_two_pow small]
    rfl
  · rw [decide_eq_false mark, Bool.and_false]
    exact (Nat.zero_testBit index).symm

theorem and_mark_ne_zero (number : Nat) (small : number < 128) :
    UInt8.ofNat (number + 128) &&& 128 ≠ 0 := by
  intro zero
  have mark := congrArg (fun byte => byte.toNat.testBit 7) zero
  rw [UInt8.toNat_and, UInt8.toNat_ofNat', Nat.mod_eq_of_lt (by omega), Nat.testBit_and,
    Nat.add_comm, show (128 : Nat) = 2 ^ 7 by rfl, Nat.testBit_two_pow_add_eq,
    Nat.testBit_lt_two_pow small] at mark
  cases mark

theorem setWidth_ofNat {width : Nat} (number : Nat) (small : number < 256) :
    (UInt8.ofNat number).toBitVec.setWidth width = BitVec.ofNat width number := by
  refine BitVec.eq_of_toNat_eq ?_
  rw [BitVec.toNat_setWidth, BitVec.toNat_ofNat, UInt8.toNat_toBitVec, UInt8.toNat_ofNat',
    Nat.mod_eq_of_lt (show number < 2 ^ 8 from small)]

/-- The number in a marked byte. -/
theorem unmarked {width : Nat} (number : Nat) (small : number < 128) :
    (UInt8.ofNat (number + 128)).toBitVec.setWidth width &&& 127 = BitVec.ofNat width number := by
  rw [setWidth_ofNat _ (by omega)]
  refine BitVec.eq_of_getLsbD_eq fun index bound => ?_
  have mask : (127 : BitVec width) = BitVec.ofNat width (2 ^ 7 - 1) := rfl
  have bits : (number + 128).testBit index = (number.testBit index || decide (index = 7)) := by
    rw [Nat.add_comm, show (128 : Nat) = 2 ^ 7 * 1 by rfl,
      Nat.two_pow_add_eq_or_of_lt (show number < 2 ^ 7 from small), Nat.testBit_or, Bool.or_comm,
      show 2 ^ 7 * 1 = 2 ^ 7 by rfl, Nat.testBit_two_pow]
    congr 2
    exact propext eq_comm
  rw [mask, BitVec.getLsbD_and, BitVec.getLsbD_ofNat, BitVec.getLsbD_ofNat, BitVec.getLsbD_ofNat,
    Nat.testBit_two_pow_sub_one, bits]
  by_cases low : index < 7
  · simp [low, bound, show index ≠ 7 by omega]
  · rw [Nat.testBit_lt_two_pow (Nat.lt_of_lt_of_le (show number < 2 ^ 7 from small)
      (Nat.pow_le_pow_right (by decide) (by omega)))]
    simp [low]

theorem or_groups {width : Nat} (number shift : Nat) :
    BitVec.ofNat width (number % 128) <<< shift |||
      BitVec.ofNat width (number / 128) <<< (shift + 7) = BitVec.ofNat width number <<< shift := by
  refine BitVec.eq_of_getLsbD_eq fun index bound => ?_
  rw [BitVec.getLsbD_or, BitVec.getLsbD_shiftLeft, BitVec.getLsbD_shiftLeft,
    BitVec.getLsbD_shiftLeft, BitVec.getLsbD_ofNat, BitVec.getLsbD_ofNat, BitVec.getLsbD_ofNat,
    show (128 : Nat) = 2 ^ 7 by rfl, Nat.testBit_mod_two_pow, Nat.testBit_div_two_pow]
  by_cases behind : index < shift
  · simp [behind, show index < shift + 7 by omega]
  · by_cases low : index < shift + 7
    · simp [behind, low, bound, show index - shift < 7 by omega]
    · simp [behind, low, bound, show ¬ index - shift < 7 by omega,
        show index - (shift + 7) < width by omega, show index - shift < width by omega,
        show index - (shift + 7) + 7 = index - shift by omega]

/-- The readers gather the groups of a number, whatever stands behind them. -/
theorem gather_groups {width : Nat} (last shift number : Nat) (result : BitVec width)
    (rest : Bytes) (fits : shift + 7 * (groups number).length ≤ last + 7) :
    gather last shift result ((groups number).map UInt8.ofNat ++ rest) =
      some (result ||| BitVec.ofNat width number <<< shift, rest) := by
  induction number using groups.induct generalizing shift result with
  | case1 number small =>
    rw [groups_of_lt small, List.length_singleton] at fits
    rw [groups_of_lt small, List.map_singleton, List.singleton_append, gather,
      and_mark_eq_zero number small, if_neg (by omega), if_neg (by simp),
      setWidth_ofNat number (by omega)]
  | case2 number large hypothesis =>
    have low : number % 128 < 128 := Nat.mod_lt _ (by decide)
    rw [groups_of_ge large, List.length_cons] at fits
    rw [groups_of_ge large, List.map_cons, List.cons_append, gather, if_neg (by omega),
      if_pos (and_mark_ne_zero _ low), unmarked _ low, hypothesis _ _ (by omega),
      BitVec.or_assoc, or_groups]

theorem GetVarint32Ptr_eq (p : Bytes) : GetVarint32Ptr p = GetVarint32PtrFallback p := by
  cases p with
  | nil => rfl
  | cons head p =>
    rw [GetVarint32Ptr]
    by_cases last : head &&& 128 = 0
    · rw [if_pos last, GetVarint32PtrFallback, gather]
      simp [last]
    · rw [if_neg last]

theorem GetVarint32_EncodeVarint32 (v : BitVec 32) (rest : Bytes) :
    GetVarint32 (EncodeVarint32 v ++ rest) = some (v, rest) := by
  have fits := length_groups_le 4 v.toNat (Nat.lt_of_lt_of_le v.isLt (by decide))
  rw [GetVarint32, GetVarint32Ptr_eq, GetVarint32PtrFallback, EncodeVarint32_eq,
    gather_groups _ _ _ _ _ (by omega), BitVec.shiftLeft_zero, BitVec.ofNat_toNat,
    BitVec.setWidth_eq]
  simp

theorem GetVarint64_EncodeVarint64 (v : BitVec 64) (rest : Bytes) :
    GetVarint64 (EncodeVarint64 v ++ rest) = some (v, rest) := by
  have fits := length_groups_le 9 v.toNat (Nat.lt_of_lt_of_le v.isLt (by decide))
  rw [GetVarint64, GetVarint64Ptr, EncodeVarint64_eq, gather_groups _ _ _ _ _ (by omega),
    BitVec.shiftLeft_zero, BitVec.ofNat_toNat, BitVec.setWidth_eq]
  simp

/-! ### Strings behind their lengths -/

def PutLengthPrefixedSlice (dst value : Bytes) : Bytes :=
  PutVarint32 dst (BitVec.ofNat 32 value.length) ++ value

/-- `GetLengthPrefixedSlice`, which returns the string and what is left of the bytes. -/
def GetLengthPrefixedSlice (input : Bytes) : Option (Bytes × Bytes) :=
  match GetVarint32 input with
  | some (len, input) =>
    if len.toNat ≤ input.length then some (input.take len.toNat, input.drop len.toNat) else none
  | none => none

theorem PutLengthPrefixedSlice_append (dst value : Bytes) :
    PutLengthPrefixedSlice dst value = dst ++ PutLengthPrefixedSlice [] value := by
  rw [PutLengthPrefixedSlice, PutLengthPrefixedSlice, PutVarint32, PutVarint32, List.nil_append,
    List.append_assoc]

/-- A string whose length fits its field is read back. -/
theorem GetLengthPrefixedSlice_Put (value rest : Bytes) (fits : value.length < 2 ^ 32) :
    GetLengthPrefixedSlice (PutLengthPrefixedSlice [] value ++ rest) = some (value, rest) := by
  have length : (BitVec.ofNat 32 value.length).toNat = value.length := by
    rw [BitVec.toNat_ofNat, Nat.mod_eq_of_lt fits]
  rw [GetLengthPrefixedSlice, PutLengthPrefixedSlice, PutVarint32, List.nil_append,
    List.append_assoc, GetVarint32_EncodeVarint32]
  simp only [length, List.length_append]
  rw [if_pos (Nat.le_add_right _ _), List.take_left', List.drop_left'] <;> rfl

end Coding

end LevelDBLib.Navi
