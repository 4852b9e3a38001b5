/-
This file connects the VAR_INT code of `Record` with the theory of variable-length
integers: `varIntWrite` puts down the groups of the zigzag code of a value,
`getVarInt` rebuilds the value from them whatever stands behind, and `readVarInt`
takes exactly them off a stream, where the lock can be taken.
-/

import LevelDBLib.Library.Varints
import LevelDBLib.KvDB.Record

namespace LevelDBLib.KvDB

open Varints

theorem Zig_eq (value : BitVec 32) : Zig value = zig value := rfl

theorem Zag_eq (value : BitVec 32) : Zag value = zag value := by
  have mask : ∀ index : Fin 32, (~~~(1#32 <<< 31)).getLsbD index = decide (index.val < 31) := by
    decide
  have logical : value.sshiftRight 1 &&& ~~~(1#32 <<< 31) = value >>> 1 := by
    refine BitVec.eq_of_getLsbD_eq fun index bound => ?_
    rw [BitVec.getLsbD_and, BitVec.getLsbD_sshiftRight, BitVec.getLsbD_ushiftRight,
      mask ⟨index, bound⟩]
    by_cases top : index = 31
    · subst top
      simp
    · simp [show 1 + index < 32 by omega, show ¬ 32 ≤ index by omega,
        show index < 31 by omega]
  rw [Zag, logical, zag]
  rfl

theorem Zag_Zig (value : BitVec 32) : Zag (Zig value) = value := by
  rw [Zag_eq, Zig_eq, zag_zig]

/-! ### Writing -/

/-- The loop of `varIntWrite` writes the groups of the value, if they fit. -/
theorem varIntBytes_eq (room value : Nat) (fits : (groups value).length ≤ room) :
    varIntBytes room value = (groups value).map UInt8.ofNat := by
  have low (value : Nat) : value &&& 0x7F = value % 128 := Nat.and_two_pow_sub_one_eq_mod value 7
  induction room generalizing value with
  | zero => exact absurd (List.length_eq_zero_iff.mp (Nat.le_zero.mp fits)) (groups_ne_nil value)
  | succ room hypothesis =>
    rw [varIntBytes, Nat.shiftRight_eq_div_pow, low]
    by_cases last : value < 128
    · rw [if_pos (by omega), groups_of_lt last, Nat.mod_eq_of_lt last]
      rfl
    · have mark : value % 128 ||| 0x80 = value % 128 + 128 := by
        have disjoint : 128 + value % 128 = 128 ||| value % 128 :=
          Nat.two_pow_add_eq_or_of_lt (show value % 128 < 2 ^ 7 by omega) 1
        rw [Nat.or_comm, ← disjoint, Nat.add_comm]
      rw [groups_of_ge last, List.length_cons] at fits
      have later := hypothesis (value / 128) (by omega)
      rw [if_neg (by omega), mark, groups_of_ge last, List.map_cons, ← later]

theorem length_groups_toNat (value : BitVec 32) : (groups value.toNat).length ≤ 5 :=
  length_groups_le 4 value.toNat (by have := value.isLt; omega)

theorem varIntWrite_eq (value : BitVec 32) :
    varIntWrite value = (groups (Zig value).toNat).map UInt8.ofNat :=
  varIntBytes_eq 5 _ (length_groups_toNat _)

theorem length_varIntWrite (value : BitVec 32) :
    0 < (varIntWrite value).length ∧ (varIntWrite value).length ≤ 5 := by
  rw [varIntWrite_eq, List.length_map]
  exact ⟨List.length_pos_iff.mpr (groups_ne_nil _), length_groups_toNat _⟩

/-! ### Reading a value back -/

/-- A chunk is the last one when its mark is not set. -/
theorem chunk_mark (chunk : BitVec 32) (byte : chunk.toNat < 256) :
    chunk &&& 0x80 = 0 ↔ chunk.toNat < 128 := by
  have mark : chunk.toNat &&& 128 = chunk.toNat / 128 * 128 := by
    have table : ∀ value : Fin 256, value.val &&& 128 = value.val / 128 * 128 := by
      decide +kernel
    exact table ⟨chunk.toNat, byte⟩
  rw [← BitVec.toNat_inj, BitVec.toNat_and]
  show chunk.toNat &&& 128 = 0 ↔ _
  rw [mark]
  omega

/-- One more chunk in front of the bits gathered so far. -/
theorem toNat_gather (value chunk : BitVec 32) (shift : Nat) (low : value.toNat < 2 ^ shift)
    (fits : chunk.toNat % 128 * 2 ^ shift < 4294967296) :
    (value ||| ((chunk &&& 0x7F) <<< shift)).toNat =
      value.toNat + chunk.toNat % 128 * 2 ^ shift := by
  have seven : chunk.toNat &&& 127 = chunk.toNat % 128 :=
    Nat.and_two_pow_sub_one_eq_mod chunk.toNat 7
  rw [BitVec.toNat_or, BitVec.toNat_shiftLeft, BitVec.toNat_and]
  show value.toNat ||| (chunk.toNat &&& 127) <<< shift % 4294967296 = _
  rw [seven, Nat.shiftLeft_eq, Nat.mod_eq_of_lt fits, Nat.or_comm, Nat.mul_comm,
    ← Nat.two_pow_add_eq_or_of_lt low, Nat.add_comm]

/-- The last chunk completes the number. -/
theorem gather_last {value chunk : BitVec 32} {shift number : Nat} (low : value.toNat < 2 ^ shift)
    (group : chunk.toNat = number) (last : number < 128)
    (small : value.toNat + number * 2 ^ shift < 4294967296) :
    value ||| ((chunk &&& 0x7F) <<< shift) =
      BitVec.ofNat 32 (value.toNat + number * 2 ^ shift) := by
  refine BitVec.eq_of_toNat_eq ?_
  rw [toNat_gather value chunk shift low (by rw [group, Nat.mod_eq_of_lt last]; omega), group,
    Nat.mod_eq_of_lt last, BitVec.toNat_ofNat, Nat.mod_eq_of_lt small]

/-- Any other chunk leaves the higher bits of the number to be gathered. -/
theorem gather_more {value chunk : BitVec 32} {shift number : Nat} (low : value.toNat < 2 ^ shift)
    (group : chunk.toNat = number % 128 + 128)
    (small : value.toNat + number * 2 ^ shift < 4294967296) :
    (value ||| ((chunk &&& 0x7F) <<< shift)).toNat < 2 ^ (shift + 7) ∧
      (value ||| ((chunk &&& 0x7F) <<< shift)).toNat + number / 128 * 2 ^ (shift + 7) =
        value.toNat + number * 2 ^ shift := by
  have split : number * 2 ^ shift =
      number % 128 * 2 ^ shift + number / 128 * 2 ^ (shift + 7) := by
    have parts : number = number % 128 + number / 128 * 128 := by omega
    conv => lhs; rw [parts]
    rw [Nat.add_mul, Nat.pow_add, Nat.mul_assoc, Nat.mul_comm 128]
  have payload : (number % 128 + 128) % 128 = number % 128 := by omega
  have sum := toNat_gather value chunk shift low (by rw [group, payload]; omega)
  rw [group, payload] at sum
  have below : value.toNat + number % 128 * 2 ^ shift < 2 ^ (shift + 7) := by
    have digit : number % 128 * 2 ^ shift ≤ 127 * 2 ^ shift := Nat.mul_le_mul_right _ (by omega)
    rw [Nat.pow_add]
    omega
  rw [sum]
  exact ⟨below, by rw [split, Nat.add_assoc]⟩

/-- The `index`-th chunk that `varIntValue` looks at. -/
def chunkAt (data : Bytes) (index : Nat) : BitVec 32 := (data.getD index 0).toBitVec.setWidth 32

theorem toNat_chunkAt (data : Bytes) (index : Nat) : (chunkAt data index).toNat < 256 := by
  have byte := (data.getD index 0).toBitVec.isLt
  rw [chunkAt, BitVec.toNat_setWidth]
  omega

theorem chunkAt_zero (group : Nat) (rest : Bytes) (byte : group < 256) :
    (chunkAt (UInt8.ofNat group :: rest) 0).toNat = group := by
  rw [chunkAt, List.getD_cons_zero, BitVec.toNat_setWidth, UInt8.toNat_toBitVec,
    UInt8.toNat_ofNat', Nat.mod_eq_of_lt byte, Nat.mod_eq_of_lt (by omega)]

theorem chunkAt_tail (data : Bytes) (index : Nat) :
    chunkAt data.tail index = chunkAt data (index + 1) := by
  cases data with
  | nil => rfl
  | cons byte rest => rfl

/-- `varIntValue` as the loop its source says it could be. -/
def gather (value : BitVec 32) (shift : Nat) : Nat → Bytes → BitVec 32
  | 0, _ => value
  | left + 1, data =>
    let value := value ||| ((chunkAt data 0 &&& 0x7F) <<< shift)
    if chunkAt data 0 &&& 0x80 = 0 then Zag value else gather value (shift + 7) left data.tail

/-- The first chunk is not moved, and the fifth one need not be masked: its mark is shifted out. -/
theorem or_first (chunk : BitVec 32) : (0 : BitVec 32) ||| chunk <<< 0 = chunk := by
  rw [BitVec.shiftLeft_zero]
  exact BitVec.zero_or

theorem masked_last (chunk : BitVec 32) : (chunk &&& 0x7F) <<< 28 = chunk <<< 28 := by
  have seven : chunk.toNat &&& 127 = chunk.toNat % 128 :=
    Nat.and_two_pow_sub_one_eq_mod chunk.toNat 7
  refine BitVec.eq_of_toNat_eq ?_
  rw [BitVec.toNat_shiftLeft, BitVec.toNat_shiftLeft, BitVec.toNat_and, Nat.shiftLeft_eq,
    Nat.shiftLeft_eq]
  show (chunk.toNat &&& 127) * 2 ^ 28 % 2 ^ 32 = chunk.toNat * 2 ^ 28 % 2 ^ 32
  omega

/-- The first chunk is taken as it is and the fifth unmasked; neither makes a difference. -/
theorem varIntValue_eq (nCount : Nat) (data : Bytes) (some : nCount ≠ 0) :
    varIntValue nCount data = gather 0 0 5 data := by
  have low (chunk : BitVec 32) (byte : chunk.toNat < 256) (last : chunk &&& 0x80 = 0) :
      chunk &&& 0x7F = chunk := by
    have unmarked := (chunk_mark chunk byte).mp last
    have seven : chunk.toNat &&& 127 = chunk.toNat % 128 :=
      Nat.and_two_pow_sub_one_eq_mod chunk.toNat 7
    refine BitVec.eq_of_toNat_eq ?_
    rw [BitVec.toNat_and]
    show chunk.toNat &&& 127 = chunk.toNat
    omega
  unfold varIntValue
  simp only [if_neg some, gather, chunkAt_tail, or_first, Nat.zero_add, Nat.reduceAdd, masked_last]
  by_cases last : chunkAt data 0 &&& 0x80 = 0
  · rw [if_pos last, low _ (toNat_chunkAt data 0) last]
    exact if_pos last
  · rw [if_neg last]
    exact if_neg last

/-- The loop rebuilds a number from its groups, whatever stands behind them. -/
theorem gather_groups (left shift number : Nat) (value : BitVec 32) (rest : Bytes)
    (fits : (groups number).length ≤ left) (low : value.toNat < 2 ^ shift)
    (small : value.toNat + number * 2 ^ shift < 4294967296) :
    gather value shift left ((groups number).map UInt8.ofNat ++ rest) =
      Zag (BitVec.ofNat 32 (value.toNat + number * 2 ^ shift)) := by
  induction left generalizing shift number value with
  | zero => exact absurd (List.length_eq_zero_iff.mp (Nat.le_zero.mp fits)) (groups_ne_nil number)
  | succ left hypothesis =>
    by_cases last : number < 128
    · rw [groups_of_lt last, List.map_singleton, List.singleton_append, gather]
      have chunk := chunkAt_zero number rest (by omega)
      rw [if_pos ((chunk_mark _ (by omega)).mpr (by omega)), gather_last low chunk last small]
    · rw [groups_of_ge last, List.map_cons, List.cons_append, gather]
      have chunk := chunkAt_zero (number % 128 + 128)
        ((groups (number / 128)).map UInt8.ofNat ++ rest) (by omega)
      obtain ⟨below, sum⟩ := gather_more low chunk small
      rw [groups_of_ge last, List.length_cons] at fits
      rw [if_neg (mt (chunk_mark _ (by omega)).mp (by omega)), List.tail_cons,
        hypothesis _ _ _ (by omega) below (by omega), sum]

theorem varIntValue_varIntWrite (value : BitVec 32) (rest : Bytes) :
    varIntValue (varIntWrite value).length (varIntWrite value ++ rest) = value := by
  have written := length_varIntWrite value
  have nothing : (0 : BitVec 32).toNat = 0 := rfl
  have gathered := gather_groups 5 0 (Zig value).toNat 0 rest (length_groups_toNat _) (by decide)
    (by rw [nothing]; have := (Zig value).isLt; omega)
  rw [nothing, Nat.zero_add, Nat.pow_zero, Nat.mul_one, BitVec.ofNat_toNat,
    BitVec.setWidth_eq] at gathered
  rw [varIntValue_eq _ _ (by omega), varIntWrite_eq, gathered, Zag_Zig]

/-! ### Reading off a stream -/

/-- The loop of `readVarInt` takes the groups of a number off the stream, over the cells of `data` from
`i` on. -/
theorem varIntLoop_groups (left i number nCount : Nat) (data rest : Bytes)
    (stream : SMDMemStream) (fits : (groups number).length ≤ left)
    (room : i + (groups number).length ≤ data.length)
    (holds : stream.Holds ((groups number).map UInt8.ofNat ++ rest)) :
    ∃ next, varIntLoop nCount data i stream left =
        .ok (.varInt (i + (groups number).length)
          (Buffers.splice data i ((groups number).map UInt8.ofNat)), next) ∧
      next.Holds rest := by
  have placed (data : Bytes) (i : Nat) (byte : UInt8) (inside : i < data.length) :
      data.set i byte = Buffers.splice data i [byte] := by
    rw [Buffers.splice, List.set_eq_take_append_cons_drop, if_pos inside, List.append_assoc]
    rfl
  induction left generalizing i number data stream with
  | zero => exact absurd (List.length_eq_zero_iff.mp (Nat.le_zero.mp fits)) (groups_ne_nil number)
  | succ left hypothesis =>
    by_cases last : number < 128
    · rw [groups_of_lt last] at holds room ⊢
      obtain ⟨next, read, after⟩ :=
        SMDMemStream.readBytes_holds stream [UInt8.ofNat number] rest holds
      refine ⟨next, ?_, after⟩
      have unmarked : UInt8.ofNat number < 128 := by
        rw [UInt8.lt_iff_toNat_lt, UInt8.toNat_ofNat', Nat.mod_eq_of_lt (by omega)]
        exact last
      simp only [List.length_singleton] at read room ⊢
      simp only [varIntLoop, read, ok_bind, Option.getD_some, List.headD_cons,
        List.map_singleton, placed data i _ (show i < data.length by omega)]
      exact if_pos unmarked
    · rw [groups_of_ge last, List.length_cons] at fits room
      rw [groups_of_ge last, List.map_cons, List.cons_append] at holds
      obtain ⟨middle, read, middleHolds⟩ := SMDMemStream.readBytes_holds stream
        [UInt8.ofNat (number % 128 + 128)] _ holds
      have marked : ¬ UInt8.ofNat (number % 128 + 128) < 128 := by
        rw [UInt8.lt_iff_toNat_lt, UInt8.toNat_ofNat', Nat.mod_eq_of_lt (by omega)]
        exact Nat.not_lt.mpr (Nat.le_add_left _ _)
      obtain ⟨next, later, after⟩ := hypothesis (i + 1) (number / 128)
        (data.set i (UInt8.ofNat (number % 128 + 128))) middle (by omega)
        (by rw [List.length_set]; omega) middleHolds
      refine ⟨next, ?_, after⟩
      rw [List.length_singleton] at read
      have joined := Buffers.splice_append data i [UInt8.ofNat (number % 128 + 128)]
        ((groups (number / 128)).map UInt8.ofNat) (by simp; omega)
      rw [placed data i _ (by omega)] at later
      rw [List.length_singleton, List.singleton_append] at joined
      simp only [varIntLoop, read, ok_bind, Option.getD_some, List.headD_cons,
        placed data i _ (show i < data.length by omega)]
      refine (if_neg marked).trans ?_
      rw [later, joined, groups_of_ge last, List.length_cons, List.map_cons,
        Nat.add_right_comm, Nat.add_assoc]

theorem readVarInt_varIntWrite (nCount : Nat) (data rest : Bytes) (value : BitVec 32)
    (stream : SMDMemStream) (five : data.length = 5) {m_lock : NaviLock} (isOpen : m_lock.Open)
    (holds : stream.Holds (varIntWrite value ++ rest)) :
    ∃ next, readVarInt m_lock nCount data stream = .ok (Field.setVarInt data value, next) ∧
      next.Holds rest := by
  have written := length_varIntWrite value
  have lengths : (groups (Zig value).toNat).length = (varIntWrite value).length := by
    rw [varIntWrite_eq, List.length_map]
  rw [varIntWrite_eq] at holds
  obtain ⟨next, read, after⟩ := varIntLoop_groups 5 0 _ nCount data rest stream
    (length_groups_toNat _) (by omega) holds
  refine ⟨next, ?_, after⟩
  rw [readVarInt, NaviGuard_open isOpen, read, ← varIntWrite_eq, lengths, Field.setVarInt, Buffers.splice, List.take_zero,
    List.nil_append, Nat.zero_add]

end LevelDBLib.KvDB
