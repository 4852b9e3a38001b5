/-
This file is about the keys of the values that are inserted under a type and a number: six bytes,
which the database compares with `Slice::compare`.

Both numbers are unsigned where they come from, and signed where their bytes are taken. A negative
number has the low bytes of the unsigned one, so the keys are ordered as the unsigned pairs are.
-/

import LevelDBLib.Library.Numerals
import LevelDBLib.Navi.LevelDB

namespace LevelDBLib.Navi

open KvDB Numerals

/-! ### Slices -/

/-- `memcmp` of the first `n` bytes: the difference of the first two that differ. -/
def memcmp : Nat → Bytes → Bytes → Int
  | n + 1, byte :: data_, other :: b =>
    if byte = other then memcmp n data_ b else (byte.toNat : Int) - other.toNat
  | _, _, _ => 0

namespace Slice

def compare (data_ b : Bytes) : Int :=
  let r := memcmp (min data_.length b.length) data_ b
  if r = 0 then
    if data_.length < b.length then -1 else if b.length < data_.length then 1 else r
  else r

theorem compare_cons (byte other : UInt8) (data_ b : Bytes) :
    compare (byte :: data_) (other :: b) =
      if byte = other then compare data_ b else (byte.toNat : Int) - other.toNat := by
  simp only [compare, List.length_cons, Nat.succ_min_succ, memcmp, Nat.succ_lt_succ_iff]
  by_cases same : byte = other
  · simp only [if_pos same]
  · have apart : (byte.toNat : Int) - other.toNat ≠ 0 := fun equal =>
      same (UInt8.toNat.inj (by omega))
    simp only [if_neg same, if_neg apart]

/-- Slices are compared as in a dictionary. -/
theorem compare_spec (data_ b : Bytes) :
    (compare data_ b < 0 ↔ data_ < b) ∧ (compare data_ b = 0 ↔ data_ = b) ∧
      (0 < compare data_ b ↔ b < data_) := by
  induction data_ generalizing b with
  | nil =>
    cases b with
    | nil => simp [compare, memcmp]
    | cons other b => simp [compare, memcmp]
  | cons byte data_ hypothesis =>
    cases b with
    | nil => simp [compare, memcmp]
    | cons other b =>
      rw [compare_cons, List.cons_lt_cons_iff, List.cons_lt_cons_iff, List.cons.injEq,
        UInt8.lt_iff_toNat_lt, UInt8.lt_iff_toNat_lt]
      by_cases same : byte = other
      · subst same
        simpa using hypothesis b
      · have apart : byte.toNat ≠ other.toNat := fun equal => same (UInt8.toNat.inj equal)
        rw [if_neg same]
        simp only [same, Ne.symm same, false_and, or_false, iff_false]
        omega

/-- What lies between two slices with a common front has that front. -/
theorem starts_of_between (front one other data_ : Bytes) (lower : compare (front ++ one) data_ ≤ 0)
    (upper : compare data_ (front ++ other) ≤ 0) : front <+: data_ := by
  induction front generalizing data_ with
  | nil => exact List.nil_prefix
  | cons byte front hypothesis =>
    cases data_ with
    | nil =>
      rw [List.cons_append] at lower
      cases lower
    | cons first data_ =>
      rw [List.cons_append, compare_cons] at lower upper
      by_cases same : byte = first
      · subst same
        rw [if_pos rfl] at lower upper
        exact (List.prefix_cons_inj byte).mpr (hypothesis data_ lower upper)
      · have apart : byte.toNat ≠ first.toNat := fun equal => same (UInt8.toNat.inj equal)
        rw [if_neg same] at lower
        rw [if_neg (Ne.symm same)] at upper
        omega

/-! ### Slices of one length -/

/-- The number that the bytes of a slice say. -/
def number (data_ : Bytes) : Nat := value 256 (data_.map UInt8.toNat)

theorem digits_lt (data_ : Bytes) : ∀ digit ∈ data_.map UInt8.toNat, digit < 256 := by
  intro digit listed
  obtain ⟨byte, _, rfl⟩ := List.mem_map.mp listed
  exact byte.toNat_lt

theorem number_lt (data_ : Bytes) : number data_ < 256 ^ data_.length := by
  have bound := value_lt (by decide) _ (digits_lt data_)
  rwa [List.length_map] at bound

theorem number_append (data_ b : Bytes) :
    number (data_ ++ b) = number data_ * 256 ^ b.length + number b := by
  rw [number, List.map_append, value_append, List.length_map]
  rfl

theorem ordered_bytes : Ordered 256 UInt8.ofNat := by
  refine ⟨fun first small second small' => ?_, fun first small second small' => ?_⟩
  · rw [UInt8.lt_iff_toNat_lt, UInt8.toNat_ofNat_of_lt' small, UInt8.toNat_ofNat_of_lt' small']
  · rw [← UInt8.toNat_inj, UInt8.toNat_ofNat_of_lt' small, UInt8.toNat_ofNat_of_lt' small']

theorem map_ofNat (data_ : Bytes) : (data_.map UInt8.toNat).map UInt8.ofNat = data_ := by
  rw [List.map_map]
  exact List.map_id'' (fun byte => UInt8.ofNat_toNat) data_

theorem lt_iff_number (data_ b : Bytes) (lengths : data_.length = b.length) :
    data_ < b ↔ number data_ < number b := by
  have order := map_lt_iff (by decide) ordered_bytes (data_.map UInt8.toNat) (b.map UInt8.toNat)
    (by rw [List.length_map, List.length_map, lengths]) (digits_lt data_) (digits_lt b)
  rwa [map_ofNat, map_ofNat] at order

theorem eq_iff_number (data_ b : Bytes) (lengths : data_.length = b.length) :
    data_ = b ↔ number data_ = number b := by
  refine ⟨congrArg number, fun same => ?_⟩
  have words := value_injective (by decide) (by rw [List.length_map, List.length_map, lengths])
    (digits_lt data_) (digits_lt b) same
  rw [← map_ofNat data_, words, map_ofNat]

end Slice

/-! ### The keys of a type -/

namespace LevelDB

open Slice

theorem length_integer2array (value : Int) (len : Nat) : (integer2array value len).length = len := by
  rw [integer2array, List.length_map, List.length_range]

/-- One more byte is the next higher one, and stands in front. -/
theorem integer2array_succ (value : Int) (len : Nat) :
    integer2array value (len + 1) =
      UInt8.ofNat (value / 256 ^ len % 256).toNat :: integer2array value len := by
  rw [integer2array, List.range_succ_eq_map, List.map_cons, List.map_map]
  refine congrArg (_ :: ·) (List.map_congr_left fun i _ => ?_)
  rw [Function.comp_apply, show len + 1 - i.succ - 1 = len - i - 1 by omega]

/-- The low digits of a number, and the digit in front of them. -/
theorem emod_pow_succ (value : Int) (len : Nat) :
    value % 256 ^ (len + 1) = value / 256 ^ len % 256 * 256 ^ len + value % 256 ^ len := by
  rw [Int.pow_succ]
  have positive : (0 : Int) < 256 ^ len := Int.pow_pos (by decide)
  generalize (256 : Int) ^ len = size at *
  have low := Int.emod_lt_of_pos value positive
  have lowNonneg := Int.emod_nonneg value (Int.ne_of_gt positive)
  have digit : value / size % 256 ≤ 255 := by omega
  have digitNonneg : 0 ≤ value / size % 256 := Int.emod_nonneg _ (by decide)
  have quotient := Int.mul_ediv_add_emod value size
  have whole : value / size % 256 * size + value % size + size * 256 * (value / size / 256) =
      value := by
    rw [Int.mul_assoc, Int.add_right_comm, Int.mul_comm _ size, ← Int.mul_add,
      Int.emod_add_mul_ediv, quotient]
  refine ((Int.ediv_emod_unique (Int.mul_pos positive (by decide))).mpr ⟨whole, ?_, ?_⟩).2
  · exact Int.add_nonneg (Int.mul_nonneg digitNonneg (Int.le_of_lt positive)) lowNonneg
  · have upper := Int.mul_le_mul_of_nonneg_right digit (Int.le_of_lt positive)
    omega

/-- The bytes of a number say the number, a negative one as the unsigned number of its width. -/
theorem number_integer2array (value : Int) (len : Nat) :
    (number (integer2array value len) : Int) = value % 256 ^ len := by
  induction len with
  | zero => exact (Int.emod_one value).symm
  | succ len hypothesis =>
    have nonneg : 0 ≤ value / 256 ^ len % 256 := Int.emod_nonneg _ (by decide)
    have small : value / 256 ^ len % 256 < 256 := Int.emod_lt_of_pos _ (by decide)
    have digit : (UInt8.ofNat (value / 256 ^ len % 256).toNat).toNat =
        (value / 256 ^ len % 256).toNat :=
      UInt8.toNat_ofNat_of_lt' ((Int.toNat_lt nonneg).mpr small)
    have cons : number (integer2array value (len + 1)) =
        (value / 256 ^ len % 256).toNat * 256 ^ len + number (integer2array value len) := by
      rw [integer2array_succ, ← List.singleton_append, number_append, length_integer2array, ← digit]
      simp [number, value_cons]
    rw [cons, emod_pow_succ, Int.natCast_add, Int.natCast_mul, Int.toNat_of_nonneg nonneg,
      hypothesis, Int.natCast_pow]
    rfl

theorem toInt_emod {width : Nat} (value : BitVec width) : value.toInt % 2 ^ width = value.toNat := by
  rw [BitVec.toInt_eq_toNat_bmod]
  have modulus : ((2 ^ width : Nat) : Int) = 2 ^ width := Int.natCast_pow ..
  rw [← modulus, Int.bmod_emod, ← Int.natCast_emod, Nat.mod_eq_of_lt value.isLt]

theorem length_makeKey (type : BitVec 16) (id : BitVec 32) : (makeKey type id).length = 6 := by
  rw [makeKey, List.length_append, length_integer2array, length_integer2array]

theorem number_makeKey (type : BitVec 16) (id : BitVec 32) :
    number (makeKey type id) = type.toNat * 4294967296 + id.toNat := by
  have high : (number (integer2array type.toInt 2) : Int) = type.toNat :=
    (number_integer2array type.toInt 2).trans (toInt_emod type)
  have low : (number (integer2array id.toInt 4) : Int) = id.toNat :=
    (number_integer2array id.toInt 4).trans (toInt_emod id)
  rw [makeKey, number_append, length_integer2array, Int.ofNat.inj high, Int.ofNat.inj low]
  rfl

/-- Every slice of six bytes is the key of one type and number. -/
theorem exists_makeKey (key : Bytes) (length : key.length = 6) :
    ∃ type id, key = makeKey type id := by
  have small := number_lt key
  rw [length] at small
  refine ⟨BitVec.ofNat 16 (number key / 4294967296), BitVec.ofNat 32 (number key), ?_⟩
  rw [eq_iff_number _ _ (length.trans (length_makeKey _ _).symm), number_makeKey,
    BitVec.toNat_ofNat, BitVec.toNat_ofNat]
  omega

/-- A pair of a type and a number comes before another one. -/
def Before (type : BitVec 16) (id : BitVec 32) (other : BitVec 16) (otherId : BitVec 32) : Prop :=
  type < other ∨ type = other ∧ id < otherId

theorem number_lt_iff (type other : BitVec 16) (id otherId : BitVec 32) :
    number (makeKey type id) < number (makeKey other otherId) ↔ Before type id other otherId := by
  rw [number_makeKey, number_makeKey, mul_add_lt_iff id.isLt otherId.isLt, BitVec.toNat_inj]
  rfl

theorem number_eq_iff (type other : BitVec 16) (id otherId : BitVec 32) :
    number (makeKey type id) = number (makeKey other otherId) ↔ type = other ∧ id = otherId := by
  rw [number_makeKey, number_makeKey, mul_add_eq_iff id.isLt otherId.isLt, BitVec.toNat_inj,
    BitVec.toNat_inj]

theorem compare_makeKey (type other : BitVec 16) (id otherId : BitVec 32) :
    (Slice.compare (makeKey type id) (makeKey other otherId) < 0 ↔ Before type id other otherId) ∧
      (Slice.compare (makeKey type id) (makeKey other otherId) = 0 ↔ type = other ∧ id = otherId) ∧
      (0 < Slice.compare (makeKey type id) (makeKey other otherId) ↔ Before other otherId type id) := by
  have lengths : (makeKey type id).length = (makeKey other otherId).length := by
    rw [length_makeKey, length_makeKey]
  obtain ⟨less, equal, more⟩ := compare_spec (makeKey type id) (makeKey other otherId)
  rw [less, equal, more, lt_iff_number _ _ lengths, eq_iff_number _ _ lengths,
    lt_iff_number _ _ lengths.symm, number_lt_iff, number_eq_iff, number_lt_iff]
  exact ⟨Iff.rfl, Iff.rfl, Iff.rfl⟩

theorem compare_makeKey_le (type other : BitVec 16) (id otherId : BitVec 32) :
    Slice.compare (makeKey type id) (makeKey other otherId) ≤ 0 ↔ ¬ Before other otherId type id := by
  rw [← (compare_makeKey type other id otherId).2.2, Int.not_lt]

/-- The slices of six bytes between two keys of a type are the keys of the numbers in between. -/
theorem between_iff (type : BitVec 16) (first last : BitVec 32) (key : Bytes)
    (length : key.length = 6) :
    (Slice.compare (makeKey type first) key ≤ 0 ∧ Slice.compare key (makeKey type last) ≤ 0) ↔
      ∃ id, first ≤ id ∧ id ≤ last ∧ key = makeKey type id := by
  constructor
  · rintro ⟨lower, upper⟩
    obtain ⟨other, id, rfl⟩ := exists_makeKey key length
    rw [compare_makeKey_le, Before, not_or, not_and] at lower upper
    obtain rfl : other = type :=
      BitVec.le_antisymm (BitVec.not_lt.mp upper.1) (BitVec.not_lt.mp lower.1)
    exact ⟨id, BitVec.not_lt.mp (lower.2 rfl), BitVec.not_lt.mp (upper.2 rfl), rfl⟩
  · rintro ⟨id, lower, upper, rfl⟩
    rw [compare_makeKey_le, compare_makeKey_le, Before, Before, not_or, not_or, not_and, not_and]
    exact ⟨⟨BitVec.lt_irrefl type, fun _ => BitVec.not_lt.mpr lower⟩,
      ⟨BitVec.lt_irrefl type, fun _ => BitVec.not_lt.mpr upper⟩⟩

/-- The keys are ordered as the pairs of unsigned numbers are, different pairs have different keys,
and the keys of a type lie side by side: whatever is between two of them starts with the bytes of
the type, and is a key of the type if it is a key at all. -/
theorem key_order (type other : BitVec 16) (id otherId : BitVec 32) :
    (Slice.compare (makeKey type id) (makeKey other otherId) < 0 ↔ Before type id other otherId) ∧
      (Slice.compare (makeKey type id) (makeKey other otherId) = 0 ↔ type = other ∧ id = otherId) ∧
      (0 < Slice.compare (makeKey type id) (makeKey other otherId) ↔
        Before other otherId type id) ∧
      (makeKey type id = makeKey other otherId ↔ type = other ∧ id = otherId) ∧
      ∀ first last : BitVec 32, ∀ key : Bytes,
        (Slice.compare (makeKey type first) key ≤ 0 →
          Slice.compare key (makeKey type last) ≤ 0 → integer2array type.toInt 2 <+: key) ∧
        (key.length = 6 →
          ((Slice.compare (makeKey type first) key ≤ 0 ∧
              Slice.compare key (makeKey type last) ≤ 0) ↔
            ∃ id, first ≤ id ∧ id ≤ last ∧ key = makeKey type id)) := by
  obtain ⟨less, equal, more⟩ := compare_makeKey type other id otherId
  refine ⟨less, equal, more, ?_, fun first last key => ⟨?_, between_iff type first last key⟩⟩
  · exact (compare_spec _ _).2.1.symm.trans equal
  · exact starts_of_between _ _ _ key

end LevelDB

end LevelDBLib.Navi
