/-
This file models the records of the key-value store: a list of strings, each written
behind its length. A length below 128 is one byte. A longer one is a byte that counts the
bytes of the length, and then the length, the highest byte first.

Writer and reader disagree about the longer form. The reader takes the count to include
the counting byte itself, as data written by an older version had it, so it stops one
byte short of the length. A list comes back exactly when every string has the short form.
-/

import LevelDBLib.KvDB.Value
import Mathlib.Algebra.GroupWithZero.Nat

namespace LevelDBLib.Navi

open KvDB Buffers

/-- `leveldb_navi::Record`. -/
structure Record where
  records : List Bytes
deriving DecidableEq, Repr

namespace Record

/-! ### Writing -/

/-- `int2arr`: the lowest `len` bytes of a number, the highest first. -/
def int2arr (data len : Nat) : Bytes :=
  (List.range len).map fun i => UInt8.ofNat (data >>> ((len - i - 1) * 8))

/-- The bytes of a length and of what counts them. -/
def lenlen (size : Nat) : Nat :=
  if size < 0x80 then 1 else if size < 0xff then 2 else if size < 0xffff then 3 else 4

def tlv (value : Bytes) : Bytes :=
  if lenlen value.length = 1 then UInt8.ofNat value.length :: value
  else
    let temp := lenlen value.length - 1
    UInt8.ofNat (0x80 ||| temp) :: (int2arr value.length temp ++ value)

def serialized (record : Record) (buffer : Bytes) : Bytes :=
  record.records.foldl (fun buffer value => buffer ++ tlv value) buffer

/-! ### Reading -/

/-- The loop of `arr2int`; a `size_t` has 64 bits. -/
def arr2intFrom : Bytes → Nat → Nat → Except Fault Nat
  | _, 0, value => .ok value
  | [], _ + 1, _ => .error .outOfBounds
  | byte :: data, left + 1, value =>
    arr2intFrom data left ((value <<< 8 ||| byte.toNat) % 18446744073709551616)

/-- `arr2int`, which reads nothing when the length is negative. -/
def arr2int (data : Bytes) (len : Int) : Except Fault Nat := arr2intFrom data len.toNat 0

/-- The length at an index, and the index behind it. -/
def lengthAt (data : Bytes) (index : Nat) : Except Fault (Nat × Nat) :=
  match data[index]? with
  | none => .error .outOfBounds
  | some first =>
    if first &&& 0x80 ≠ 0 then do
      let _length ← arr2int (data.drop (index + 1)) ((first &&& 0x7f).toNat - 1)
      .ok (_length, index + (first &&& 0x7f).toNat)
    else .ok (first.toNat, index + 1)

/-- The loop of the constructor. An iteration that leaves the index where it was repeats for
ever; every other one moves it on. -/
def parse : Nat → Bytes → Nat → List Bytes → Except Fault (List Bytes)
  | 0, _, _, _ => .error .nonTermination
  | fuel + 1, data, index, records =>
    if index < data.length then do
      let (_length, index) ← lengthAt data index
      if (index + _length) % 18446744073709551616 > data.length then .ok records
      else do
        let value ← fetch data index _length
        parse fuel data (index + _length) (records ++ [value])
    else .ok records

/-- `Record(data, length)`. -/
def new (data : Bytes) : Except Fault Record := do
  let records ← parse (data.length + 1) data 0 []
  .ok ⟨records⟩

/-! ### Numbers -/

theorem int2arr_succ (data len : Nat) :
    int2arr data (len + 1) = UInt8.ofNat (data >>> (len * 8)) :: int2arr data len := by
  unfold int2arr
  rw [List.range_succ_eq_map, List.map_cons, List.map_map]
  refine congrArg₂ _ (by rw [Nat.sub_zero, Nat.add_sub_cancel]) (List.map_congr_left fun i _ => ?_)
  show UInt8.ofNat (data >>> ((len + 1 - (i + 1) - 1) * 8)) = _
  rw [Nat.add_sub_add_right]

/-- The digit that one more byte adds to a number. -/
theorem shift_or_byte (value data len : Nat) :
    value <<< 8 ||| (UInt8.ofNat (data >>> (len * 8))).toNat =
      value * 256 + data / 256 ^ len % 256 := by
  have byte : (UInt8.ofNat (data >>> (len * 8))).toNat = data / 256 ^ len % 256 := by
    rw [UInt8.toNat_ofNat', Nat.shiftRight_eq_div_pow, Nat.mul_comm len 8, Nat.pow_mul]
  rw [byte, ← Nat.shiftLeft_add_eq_or_of_lt (Nat.mod_lt _ (by decide)), Nat.shiftLeft_eq]

/-- `arr2int` over the first bytes that `int2arr` wrote gives the number without its last
digits. -/
theorem arr2intFrom_int2arr (data : Nat) (rest : Bytes) (count len value : Nat)
    (inside : count ≤ len) (small : (value + 1) * 256 ^ count ≤ 18446744073709551616) :
    arr2intFrom (int2arr data len ++ rest) count value =
      .ok (value * 256 ^ count + data / 256 ^ (len - count) % 256 ^ count) := by
  induction count generalizing len value with
  | zero => simp only [arr2intFrom, Nat.pow_zero, Nat.mul_one, Nat.mod_one, Nat.add_zero]
  | succ count hypothesis =>
    obtain ⟨len, rfl⟩ : ∃ last, len = last + 1 := ⟨len - 1, by omega⟩
    have digit : data / 256 ^ len % 256 < 256 := Nat.mod_lt _ (by decide)
    have positive : 0 < 256 ^ count := Nat.pow_pos (by decide)
    have next : (value * 256 + data / 256 ^ len % 256 + 1) * 256 ^ count ≤
        18446744073709551616 := by
      rw [Nat.pow_succ', ← Nat.mul_assoc] at small
      exact Nat.le_trans (Nat.mul_le_mul_right _ (by omega)) small
    have bound : value * 256 + data / 256 ^ len % 256 < 18446744073709551616 :=
      Nat.lt_of_lt_of_le (Nat.lt_succ_self _) (Nat.le_trans (Nat.le_mul_of_pos_right _ positive) next)
    have upper : data / 256 ^ (len - count) / 256 ^ count = data / 256 ^ len := by
      rw [Nat.div_div_eq_div_mul, ← Nat.pow_add, Nat.sub_add_cancel (by omega)]
    rw [int2arr_succ, List.cons_append, arr2intFrom, shift_or_byte, Nat.mod_eq_of_lt bound,
      hypothesis len _ (by omega) next, Nat.add_sub_add_right, Nat.mod_pow_succ, upper,
      Nat.pow_succ']
    refine congrArg _ ?_
    rw [Nat.add_mul, Nat.mul_assoc, Nat.mul_comm (256 ^ count) (_ % 256), Nat.add_assoc,
      Nat.add_comm (_ % 256 ^ count)]

/-! ### The two forms of a length -/

theorem lengthAt_append (front rest : Bytes) (first : UInt8) :
    lengthAt (front ++ first :: rest) front.length =
      if first &&& 0x80 ≠ 0 then do
        let _length ← arr2int rest ((first &&& 0x7f).toNat - 1)
        .ok (_length, front.length + (first &&& 0x7f).toNat)
      else .ok (first.toNat, front.length + 1) := by
  unfold lengthAt
  rw [List.getElem?_append_right (Nat.le_refl _), Nat.sub_self, List.drop_append,
    Nat.add_sub_cancel_left, List.drop_of_length_le (Nat.le_succ _), List.nil_append]
  rfl

theorem short_form : ∀ size < 128,
    UInt8.ofNat size &&& 0x80 = 0 ∧ (UInt8.ofNat size).toNat = size := by
  decide

theorem tlv_of_lt (value : Bytes) (short : value.length < 128) :
    tlv value = UInt8.ofNat value.length :: value := by
  rw [tlv, lenlen, if_pos short, if_pos rfl]

theorem lengthAt_short (front value rest : Bytes) (short : value.length < 128) :
    lengthAt (front ++ (tlv value ++ rest)) front.length =
      .ok (value.length, front.length + 1) := by
  obtain ⟨plain, size⟩ := short_form value.length short
  rw [tlv_of_lt value short, List.cons_append, lengthAt_append, if_neg (not_not_intro plain), size]

/-- The reader takes the last byte of a longer length for the first byte of the string. -/
theorem lengthAt_long (front value rest : Bytes) (long : ¬ value.length < 128)
    (small : value.length < 16777216) :
    ∃ index, lengthAt (front ++ (tlv value ++ rest)) front.length =
      .ok (value.length / 256, index) := by
  obtain ⟨temp, tempEq, bound, counts⟩ : ∃ temp, lenlen value.length = temp + 1 + 1 ∧
      value.length < 256 ^ (temp + 1) ∧ temp < 3 := by
    unfold lenlen
    rw [if_neg long]
    split
    · exact ⟨0, rfl, by omega, by decide⟩
    · split
      · exact ⟨1, rfl, by omega, by decide⟩
      · exact ⟨2, rfl, by omega, by decide⟩
  have header : ∀ temp < 3, UInt8.ofNat (0x80 ||| (temp + 1)) &&& 0x80 ≠ 0 ∧
      (UInt8.ofNat (0x80 ||| (temp + 1)) &&& 0x7f).toNat = temp + 1 := by decide
  obtain ⟨marked, count⟩ := header temp counts
  have power : 256 ^ temp ≤ 256 ^ 2 := Nat.pow_le_pow_right (by decide) (by omega)
  refine ⟨front.length + (temp + 1), ?_⟩
  rw [tlv, tempEq, if_neg (by omega), Nat.add_sub_cancel, List.cons_append, lengthAt_append,
    if_pos marked, count, List.append_assoc, arr2int,
    show ((temp + 1 : Nat) - 1 : Int).toNat = temp by omega,
    arr2intFrom_int2arr _ _ temp (temp + 1) 0 (Nat.le_succ _) (by omega), ok_bind, Nat.zero_mul,
    Nat.zero_add, Nat.add_sub_cancel_left, Nat.pow_one,
    Nat.mod_eq_of_lt (Nat.div_lt_of_lt_mul (by rwa [← Nat.pow_succ']))]

/-! ### Whole records -/

theorem serialized_eq (record : Record) (buffer : Bytes) :
    record.serialized buffer = buffer ++ record.records.flatMap tlv := by
  obtain ⟨records⟩ := record
  unfold serialized
  induction records generalizing buffer with
  | nil => exact (List.append_nil buffer).symm
  | cons value records hypothesis =>
    rw [List.foldl_cons, hypothesis, List.flatMap_cons, List.append_assoc]

theorem tlv_ne_nil (value : Bytes) : tlv value ≠ [] := by
  unfold tlv
  split <;> exact List.cons_ne_nil _ _

/-- What was read stays in front. -/
theorem parse_prefix {fuel index : Nat} {data : Bytes} {records result : List Bytes}
    (parsed : parse fuel data index records = .ok result) : records <+: result := by
  induction fuel generalizing index records with
  | zero => cases parsed
  | succ fuel hypothesis =>
    rw [parse] at parsed
    split at parsed
    · obtain ⟨⟨_length, next⟩, _, taken⟩ := (bind_eq_ok _ _ _).mp parsed
      dsimp only at taken
      split at taken
      · cases taken
        exact List.prefix_refl _
      · obtain ⟨value, _, later⟩ := (bind_eq_ok _ _ _).mp taken
        exact (List.prefix_append _ _).trans (hypothesis later)
    · cases parsed
      exact List.prefix_refl _

theorem parse_short (fuel : Nat) (front value rest : Bytes) (records : List Bytes)
    (short : value.length < 128) :
    parse (fuel + 1) (front ++ (tlv value ++ rest)) front.length records =
      parse fuel ((front ++ tlv value) ++ rest) (front ++ tlv value).length
        (records ++ [value]) := by
  have image := tlv_of_lt value short
  have total : (front ++ (tlv value ++ rest)).length =
      front.length + 1 + value.length + rest.length := by
    rw [image]
    simp only [List.length_append, List.length_cons]
    omega
  have behind : (front ++ tlv value).length = front.length + 1 + value.length := by
    rw [image, List.length_append, List.length_cons]
    omega
  have kept := Nat.mod_le (front.length + 1 + value.length) 18446744073709551616
  have taken : slice (front ++ (tlv value ++ rest)) (front.length + 1) value.length = value := by
    rw [slice, List.drop_append, List.drop_of_length_le (Nat.le_succ _), Nat.add_sub_cancel_left,
      image, List.cons_append, List.drop_one, List.tail_cons, List.nil_append, List.take_left]
  rw [parse, if_pos (by omega), lengthAt_short front value rest short, ok_bind]
  dsimp only
  rw [if_neg (by omega), fetch_of_le _ _ _ (by omega), taken, ok_bind, behind, List.append_assoc]

/-- Strings of the short form are read one after the other. -/
theorem parse_run (fuel : Nat) (front rest : Bytes) (records values : List Bytes)
    (short : ∀ value ∈ values, value.length < 128) :
    parse (fuel + values.length) (front ++ (values.flatMap tlv ++ rest)) front.length records =
      parse fuel ((front ++ values.flatMap tlv) ++ rest) (front ++ values.flatMap tlv).length
        (records ++ values) := by
  induction values generalizing front records with
  | nil => simp only [List.length_nil, Nat.add_zero, List.flatMap_nil, List.append_nil,
      List.nil_append]
  | cons value values hypothesis =>
    rw [List.length_cons, ← Nat.add_assoc, List.flatMap_cons, List.append_assoc,
      parse_short _ _ _ _ _ (short value List.mem_cons_self),
      hypothesis _ _ fun other member => short other (List.mem_cons_of_mem _ member)]
    simp only [List.append_assoc, List.singleton_append]

/-- Behind a string of the longer form the list differs. -/
theorem parse_long {fuel : Nat} {front value rest : Bytes} {records result : List Bytes}
    (long : ¬ value.length < 128) (small : value.length < 16777216)
    (parsed : parse (fuel + 1) (front ++ (tlv value ++ rest)) front.length records = .ok result)
    (others : List Bytes) : result ≠ records ++ value :: others := by
  rintro rfl
  obtain ⟨index, read⟩ := lengthAt_long front value rest long small
  have positive := List.length_pos_iff.mpr (tlv_ne_nil value)
  rw [parse, if_pos (by simp only [List.length_append]; omega), read, ok_bind] at parsed
  dsimp only at parsed
  split at parsed
  · have equal := List.append_cancel_left ((List.append_nil records).trans (Except.ok.inj parsed))
    cases equal
  · obtain ⟨taken, fetched, later⟩ := (bind_eq_ok _ _ _).mp parsed
    have start := parse_prefix later
    rw [List.prefix_append_right_inj, List.cons_prefix_cons] at start
    rw [start.1, fetch] at fetched
    split at fetched
    · rename_i inside
      have length := congrArg List.length (Except.ok.inj fetched)
      rw [length_slice _ _ _ inside] at length
      omega
    · cases fetched

theorem length_flatMap_tlv (values : List Bytes) :
    values.length ≤ (values.flatMap tlv).length := by
  induction values with
  | nil => exact Nat.le_refl _
  | cons value values hypothesis =>
    have positive := List.length_pos_iff.mpr (tlv_ne_nil value)
    rw [List.flatMap_cons, List.length_append, List.length_cons]
    omega

/-- A list that comes back has no string of the longer form. -/
theorem short_of_parse (fuel : Nat) (front : Bytes) (records values : List Bytes)
    (small : ∀ value ∈ values, value.length < 16777216)
    (parsed : parse fuel (front ++ values.flatMap tlv) front.length records =
      .ok (records ++ values)) : ∀ value ∈ values, value.length < 128 := by
  induction values generalizing fuel front records with
  | nil => exact fun _ member => absurd member List.not_mem_nil
  | cons value values hypothesis =>
    cases fuel with
    | zero => cases parsed
    | succ fuel =>
      have smallFirst := small value List.mem_cons_self
      rw [List.flatMap_cons] at parsed
      by_cases short : value.length < 128
      · rw [parse_short _ _ _ _ _ short, List.append_cons records value values] at parsed
        have others := hypothesis _ _ _
          (fun other member => small other (List.mem_cons_of_mem _ member)) parsed
        exact List.forall_mem_cons.mpr ⟨short, others⟩
      · exact absurd rfl (parse_long short smallFirst parsed values)

/-- A list of strings below 16 MiB comes back from the bytes that `serialized` appends for it
exactly when every string is shorter than 128 bytes. -/
theorem new_serialized (values : List Bytes) (buffer : Bytes)
    (small : ∀ value ∈ values, value.length < 16777216) :
    (∃ appended, serialized ⟨values⟩ buffer = buffer ++ appended ∧ new appended = .ok ⟨values⟩) ↔
      ∀ value ∈ values, value.length < 128 := by
  have enough := length_flatMap_tlv values
  rw [serialized_eq]
  constructor
  · rintro ⟨appended, image, read⟩
    rw [← List.append_cancel_left image] at read
    obtain ⟨records, parsed, equal⟩ := (bind_eq_ok _ _ _).mp read
    cases equal
    exact short_of_parse _ [] [] values small parsed
  · intro short
    refine ⟨values.flatMap tlv, rfl, ?_⟩
    obtain ⟨fuel, fuelEq⟩ : ∃ fuel, (values.flatMap tlv).length + 1 = fuel + 1 + values.length :=
      ⟨(values.flatMap tlv).length - values.length, by omega⟩
    have run := parse_run (fuel + 1) [] [] [] values short
    simp only [List.nil_append, List.append_nil, List.length_nil] at run
    rw [new, fuelEq, run, parse, if_neg (Nat.lt_irrefl _), ok_bind]

theorem new_serialized_once :
    (∃ appended, serialized ⟨[[65, 66], []]⟩ [7] = [7] ++ appended ∧
      new appended = .ok ⟨[[65, 66], []]⟩) ↔
      ∀ value ∈ [[65, 66], []], (value : Bytes).length < 128 :=
  new_serialized [[65, 66], []] [7] (by decide)

set_option maxRecDepth 4000 in
/-- A string of 200 bytes is read as an empty one; its length is then taken for the count of a
length of 71 bytes, which is too large for what follows. -/
theorem new_serialized_differs :
    serialized ⟨[List.replicate 200 65]⟩ [] = 0x81 :: 200 :: List.replicate 200 65 ∧
      new (0x81 :: 200 :: List.replicate 200 65) = .ok ⟨[[]]⟩ ∧
      (⟨[[]]⟩ : Record) ≠ ⟨[List.replicate 200 65]⟩ :=
  ⟨by decide, by decide, by decide⟩

end Record

end LevelDBLib.Navi
