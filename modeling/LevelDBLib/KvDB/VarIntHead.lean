/-
This file is about the values of a VAR_INT field. Both getters lock the record and then
call `getVarInt`, which locks it again, so neither ever returns.

Behind that defect lies a second one, in the arithmetic of a field with a head. The file
models it in doubles whose every operation is rounded and whose powers of ten are exact:
the setters store the digits behind the head with a one in front, `getFieldAsLong` puts the
head back and `getFieldAsInteger` does not. It proves for which values the getters would
return what a setter was given if the mutex let its owner lock it again, on every platform
and whatever a cast outside its type yields.
-/

import LevelDBLib.Library.Roundings
import LevelDBLib.KvDB.RecordStream

namespace LevelDBLib.KvDB

open Roundings

/-! ### The arithmetic of the source -/

/-- `getValueSize`: the number of decimal digits, none for zero. -/
def getValueSize (value : Int) : Nat :=
  if value = 0 then 0 else getValueSize (value.tdiv 10) + 1
termination_by value.natAbs
decreasing_by
  rw [Int.natAbs_tdiv]
  exact Nat.div_lt_self (Int.natAbs_pos.mpr ‹_›) (by decide)

/-- A double without its fraction. -/
def wholePart (number : ℚ) : ℤ := if 0 ≤ number then ⌊number⌋ else ⌈number⌉

/-- The cast of a double to an `int`, undefined where its whole part is none. -/
def castInt (number : ℚ) : Option (BitVec 32) :=
  if -2147483649 < number ∧ number < 2147483648 then some (BitVec.ofInt 32 (wholePart number))
  else none

def castLongLong (number : ℚ) : Option (BitVec 64) :=
  if -9223372036854775809 < number ∧ number < 9223372036854775808 then
    some (BitVec.ofInt 64 (wholePart number))
  else none

/-- `pow (10.0, n)` without an error of its own. -/
def powTen (n : Int) : ℚ := 10 ^ n

section Doubles

variable (doubles : Rounding 52)

/-- The `a` of `setFieldInteger` and `setFieldLong`; an `int` is a double as it is. -/
def varIntRelative (value : BitVec 64) (head : BitVec 32) : Option (BitVec 32) := do
  let size : Int := getValueSize value.toInt
  let sizehead : Int := getValueSize head.toInt
  let a ← castInt (doubles.round (doubles.round value.toInt -
    doubles.round (head.toInt * powTen (size - sizehead))))
  castInt (doubles.round (a.toInt + doubles.round (1 * powTen (size - sizehead))))

/-- The `a` of `getFieldAsLong`. -/
def varIntAbsolute (lval : BitVec 64) (head : BitVec 32) : Option (BitVec 64) := do
  let size : Int := getValueSize lval.toInt
  let lval ← castLongLong (doubles.round (doubles.round lval.toInt -
    doubles.round (1 * powTen (size - 1))))
  castLongLong (doubles.round (doubles.round (head.toInt * powTen (size - 1)) +
    doubles.round lval.toInt))

/-- A platform with these doubles: its casts yield anything where they are undefined. -/
structure Computes (platform : FloatingPoint) : Prop where
  relative (value : BitVec 64) (head a : BitVec 32) :
    varIntRelative doubles value head = some a → platform.relative value head = a
  absolute (lval : BitVec 64) (head : BitVec 32) (a : BitVec 64) :
    varIntAbsolute doubles lval head = some a → platform.absolute lval head = a

end Doubles

/-- `getFieldAsInteger` of a record. -/
def Record.getFieldAsInteger (m_lock : NaviLock) (record : Record) (iIndex : Int) :
    Except Fault (Option (BitVec 32)) :=
  if iIndex < 0 then .ok none
  else match record.Fields[iIndex.toNat]? with
    | some field => field.getFieldAsInteger m_lock
    | none => .ok none

/-- `getFieldAsLong` of a record. -/
def Record.getFieldAsLong [FloatingPoint] (m_lock : NaviLock) (record : Record) (iIndex : Int) :
    Except Fault (Option (BitVec 64)) :=
  if iIndex < 0 then .ok none
  else match record.tableStruct.FieldSet[iIndex.toNat]?, record.Fields[iIndex.toNat]? with
    | some column, some field => field.getFieldAsLong m_lock column
    | _, _ => .ok none

/-! ### Digits -/

theorem getValueSize_zero : getValueSize 0 = 0 := by
  rw [getValueSize, if_pos rfl]

theorem getValueSize_of_ne {value : Int} (some : value ≠ 0) :
    getValueSize value = getValueSize (value.tdiv 10) + 1 := by
  rw [getValueSize, if_neg some]

/-- The digits of a value place it between two powers of ten. -/
theorem getValueSize_bounds {value : Int} (some : value ≠ 0) :
    10 ^ (getValueSize value - 1) ≤ value.natAbs ∧ value.natAbs < 10 ^ getValueSize value := by
  induction value using getValueSize.induct with
  | case1 => exact absurd rfl some
  | case2 value _ hypothesis =>
    have shorter : (value.tdiv 10).natAbs = value.natAbs / 10 := Int.natAbs_tdiv value 10
    rw [getValueSize_of_ne some, Nat.add_sub_cancel, Nat.pow_succ]
    by_cases last : value.tdiv 10 = 0
    · rw [last] at shorter
      rw [last, getValueSize_zero]
      exact ⟨Int.natAbs_pos.mpr some, Nat.lt_of_div_eq_zero (by decide) shorter.symm⟩
    · have ⟨low, high⟩ := hypothesis last
      rw [shorter] at low high
      have more : getValueSize (value.tdiv 10) = getValueSize (value.tdiv 10) - 1 + 1 := by
        rw [getValueSize_of_ne last, Nat.add_sub_cancel]
      refine ⟨?_, (Nat.div_lt_iff_lt_mul (by decide)).mp high⟩
      rw [more, Nat.pow_succ]
      exact (Nat.le_div_iff_mul_le (by decide)).mp low

theorem getValueSize_pos {value : Int} (some : value ≠ 0) : 0 < getValueSize value := by
  rw [getValueSize_of_ne some]
  exact Nat.succ_pos _

theorem getValueSize_le {value : Int} {size : Nat} (small : value.natAbs < 10 ^ size) :
    getValueSize value ≤ size := by
  by_cases zero : value = 0
  · rw [zero, getValueSize_zero]
    exact Nat.zero_le _
  · have less := (getValueSize_bounds zero).1.trans_lt small
    have := (Nat.pow_lt_pow_iff_right (by decide : 1 < 10)).mp less
    omega

theorem le_getValueSize (value : Int) (size : Nat) (large : 10 ^ size ≤ value.natAbs) :
    size + 1 ≤ getValueSize value := by
  have some : value ≠ 0 := by
    rintro rfl
    exact absurd large (Nat.not_le.mpr (Nat.pow_pos (by decide)))
  exact (Nat.pow_lt_pow_iff_right (by decide : 1 < 10)).mp
    (large.trans_lt (getValueSize_bounds some).2)

/-! ### Casts -/

def FitsInt (number : ℤ) : Prop := -2147483648 ≤ number ∧ number < 2147483648

theorem fitsInt_toInt (value : BitVec 32) : FitsInt value.toInt :=
  ⟨BitVec.le_toInt value, BitVec.toInt_lt⟩

theorem wholePart_int (number : ℤ) : wholePart number = number := by
  rw [wholePart, Int.floor_intCast, Int.ceil_intCast, ite_self]

theorem wholePart_small {number : ℚ} (low : -1 < number) (high : number < 1) :
    wholePart number = 0 := by
  unfold wholePart
  split
  · exact Int.floor_eq_zero_iff.mpr ⟨‹_›, high⟩
  · exact Int.ceil_eq_zero_iff.mpr ⟨low, (not_le.mp ‹_›).le⟩

theorem ofInt_eq_iff {number : ℤ} (fits : FitsInt number) (a : BitVec 32) :
    BitVec.ofInt 32 number = a ↔ a.toInt = number := by
  constructor
  · rintro rfl
    exact BitVec.toInt_ofInt_eq_self (by decide) fits.1 fits.2
  · rintro rfl
    exact BitVec.ofInt_toInt

theorem castInt_range {number : ℚ} {a : BitVec 32} (cast : castInt number = some a) :
    -2147483649 < number ∧ number < 2147483648 := by
  by_contra outside
  rw [castInt, if_neg outside] at cast
  cases cast

theorem castInt_int (number : ℤ) (a : BitVec 32) :
    castInt number = some a ↔ FitsInt number ∧ a.toInt = number := by
  have range : (-2147483649 < (number : ℚ) ∧ (number : ℚ) < 2147483648) ↔ FitsInt number := by
    have low : (-2147483649 < (number : ℚ)) ↔ -2147483649 < number := by exact_mod_cast Iff.rfl
    have high : ((number : ℚ) < 2147483648) ↔ number < 2147483648 := by exact_mod_cast Iff.rfl
    rw [low, high, FitsInt]
    omega
  rw [castInt, wholePart_int]
  by_cases fits : FitsInt number
  · rw [if_pos (range.mpr fits), Option.some.injEq, ofInt_eq_iff fits]
    exact ⟨fun equal => ⟨fits, equal⟩, fun equal => equal.2⟩
  · rw [if_neg (mt range.mp fits)]
    exact ⟨fun impossible => absurd impossible nofun, fun kept => absurd kept.1 fits⟩

theorem castInt_small {number : ℚ} (low : -1 < number) (high : number < 1) :
    castInt number = some 0 := by
  rw [castInt, wholePart_small low high, if_pos ⟨by linarith, by linarith⟩]
  rfl

theorem castLongLong_int {number : ℤ} (low : -9223372036854775808 ≤ number)
    (high : number < 9223372036854775808) :
    castLongLong number = some (BitVec.ofInt 64 number) := by
  rw [castLongLong, wholePart_int, if_pos]
  exact ⟨by exact_mod_cast (show -9223372036854775809 < number by omega), by exact_mod_cast high⟩

theorem castLongLong_small {number : ℚ} (low : -1 < number) (high : number < 1) :
    castLongLong number = some 0 := by
  rw [castLongLong, wholePart_small low high, if_pos ⟨by linarith, by linarith⟩]
  rfl

/-! ### Integers in doubles -/

section Integers

variable (doubles : Rounding 52)

/-- Few digits in front of at most nine zeros need no rounding. -/
theorem representable_digits {digits : ℤ} (small : |digits| ≤ 2147483648) {zeros : Nat}
    (few : zeros ≤ 9) : Representable 52 ((digits * 10 ^ zeros : ℤ) : ℚ) := by
  have five : (5 : ℤ) ^ zeros ≤ 5 ^ 9 := pow_le_pow_right₀ (by decide) few
  have positive : (0 : ℤ) < 5 ^ zeros := by positivity
  have bound : |digits * 5 ^ zeros| ≤ 2 ^ (52 + 1) := by
    rw [abs_mul, abs_of_pos positive]
    calc |digits| * 5 ^ zeros ≤ 2147483648 * 5 ^ 9 :=
          mul_le_mul small five positive.le (by decide)
      _ ≤ 2 ^ (52 + 1) := by norm_num
  have split : ((digits * 10 ^ zeros : ℤ) : ℚ) =
      ((digits * 5 ^ zeros : ℤ) : ℚ) * 2 ^ (zeros : ℤ) := by
    rw [zpow_natCast, show (10 : ℤ) = 5 * 2 from rfl, mul_pow]
    push_cast
    ring
  rw [split]
  exact representable_scaled bound zeros

theorem round_digits (digits : ℤ) (small : |digits| ≤ 2147483648) {zeros : Nat} (few : zeros ≤ 9) :
    doubles.round ((digits * 10 ^ zeros : ℤ) : ℚ) = ((digits * 10 ^ zeros : ℤ) : ℚ) :=
  doubles.fixes _ (representable_digits small few)

theorem round_small (number : ℤ) (low : -8589934592 ≤ number) (high : number ≤ 8589934592) :
    doubles.round number = number :=
  doubles.round_int number (abs_le.mpr ⟨by norm_num; omega, by norm_num; omega⟩)

/-- The cast of a rounded integer to an `int` is the integer. -/
theorem castInt_round (number : ℤ) (a : BitVec 32) :
    castInt (doubles.round number) = some a ↔ FitsInt number ∧ a.toInt = number := by
  have ⟨whole, equal⟩ := doubles.exists_int number
  rw [equal, castInt_int]
  constructor
  · rintro ⟨fits, cast⟩
    have small : |whole| < 2 ^ (52 + 1) :=
      abs_lt.mpr ⟨by have := fits.1; norm_num; omega, by have := fits.2; norm_num; omega⟩
    rw [(doubles.round_eq_int_iff number whole small).mp equal]
    exact ⟨fits, cast⟩
  · rintro ⟨fits, cast⟩
    have kept := round_small doubles number (by have := fits.1; omega)
      (by have := fits.2; omega)
    have same : whole = number := by exact_mod_cast equal.symm.trans kept
    rw [same]
    exact ⟨fits, cast⟩

theorem powTen_nat (zeros : Nat) : powTen zeros = ((10 ^ zeros : ℤ) : ℚ) := by
  rw [powTen, zpow_natCast]
  push_cast
  rfl

/-- What stands for a value with at least the digits of the head, without a rounding but that of
the value itself. -/
theorem varIntRelative_eq_some_iff (zeros : Nat) {value : BitVec 64} {head a : BitVec 32}
    {rounded : ℤ} (sizes : getValueSize value.toInt = getValueSize head.toInt + zeros)
    (equal : doubles.round value.toInt = rounded) :
    varIntRelative doubles value head = some a ↔
      FitsInt (rounded - head.toInt * 10 ^ zeros) ∧
        FitsInt (rounded - head.toInt * 10 ^ zeros + 10 ^ zeros) ∧
          a.toInt = rounded - head.toInt * 10 ^ zeros + 10 ^ zeros := by
  have scale : powTen (((getValueSize head.toInt + zeros : Nat) : ℤ) - getValueSize head.toInt) =
      ((10 ^ zeros : ℤ) : ℚ) := by
    rw [← powTen_nat]
    congr 1
    omega
  have headFits := fitsInt_toInt head
  simp only [varIntRelative, sizes, scale, equal, one_mul, Option.bind_eq_bind,
    Option.bind_eq_some_iff]
  by_cases few : zeros ≤ 9
  · have product : doubles.round (head.toInt * ((10 ^ zeros : ℤ) : ℚ)) =
        ((head.toInt * 10 ^ zeros : ℤ) : ℚ) := by
      rw [← Int.cast_mul]
      exact round_digits doubles _ (abs_le.mpr ⟨by have := headFits.1; omega,
        by have := headFits.2; omega⟩) few
    have power : doubles.round ((10 ^ zeros : ℤ) : ℚ) = ((10 ^ zeros : ℤ) : ℚ) := by
      have kept := round_digits doubles 1 (by decide) few
      rwa [one_mul] at kept
    rw [product, power, ← Int.cast_sub]
    simp only [← Int.cast_add, castInt_round]
    constructor
    · rintro ⟨first, ⟨inRange, firstEq⟩, fits, cast⟩
      rw [firstEq] at fits cast
      exact ⟨inRange, fits, cast⟩
    · rintro ⟨inRange, fits, cast⟩
      have made : (BitVec.ofInt 32 (rounded - head.toInt * 10 ^ zeros)).toInt =
          rounded - head.toInt * 10 ^ zeros := (ofInt_eq_iff inRange _).mp rfl
      refine ⟨_, ⟨inRange, made⟩, ?_⟩
      rw [made]
      exact ⟨fits, cast⟩
  · have large : (10 : ℤ) ^ 10 ≤ 10 ^ zeros := pow_le_pow_right₀ (by decide) (by omega)
    constructor
    · rintro ⟨first, _, cast⟩
      have below := (castInt_range cast).2
      have firstFits := (fitsInt_toInt first).1
      have power : ((10000000000 : ℤ) : ℚ) ≤ doubles.round ((10 ^ zeros : ℤ) : ℚ) := by
        refine doubles.le_round _ (by exact_mod_cast large) (representable_int (by norm_num))
      have sum : ((2147483648 : ℤ) : ℚ) ≤ doubles.round (first.toInt +
          doubles.round ((10 ^ zeros : ℤ) : ℚ)) := by
        refine doubles.le_round _ ?_ (representable_int (by norm_num))
        have low : (-2147483648 : ℚ) ≤ first.toInt := by exact_mod_cast firstFits
        push_cast at power ⊢
        linarith
      push_cast at sum below
      linarith
    · rintro ⟨inRange, fits, _⟩
      have := inRange.1
      have := fits.2
      omega

/-- Putting the head back in front of an integer other than zero. -/
theorem varIntAbsolute_spec {lval : BitVec 64} {head : BitVec 32} {zeros : Nat}
    (fits : FitsInt lval.toInt) (size : getValueSize lval.toInt = zeros + 1) :
    ∃ b, varIntAbsolute doubles lval head = some b ∧
      doubles.round ((head.toInt * 10 ^ zeros + (lval.toInt - 10 ^ zeros) : ℤ) : ℚ) = b.toInt := by
  have headFits := fitsInt_toInt head
  have few : zeros ≤ 9 := by
    have short : getValueSize lval.toInt ≤ 10 := getValueSize_le (by
      have := fits.1
      have := fits.2
      norm_num
      omega)
    omega
  have limit : (10 : ℤ) ^ zeros ≤ 10 ^ 9 := pow_le_pow_right₀ (by decide) few
  have positive : (0 : ℤ) < 10 ^ zeros := by positivity
  have low := fits.1
  have high := fits.2
  have scale : powTen ((zeros + 1 : Nat) - 1 : ℤ) = ((10 ^ zeros : ℤ) : ℚ) := by
    rw [← powTen_nat]
    congr 1
    omega
  have product : doubles.round (head.toInt * ((10 ^ zeros : ℤ) : ℚ)) =
      ((head.toInt * 10 ^ zeros : ℤ) : ℚ) := by
    rw [← Int.cast_mul]
    exact round_digits doubles _ (abs_le.mpr ⟨by have := headFits.1; omega,
      by have := headFits.2; omega⟩) few
  have power : doubles.round ((10 ^ zeros : ℤ) : ℚ) = ((10 ^ zeros : ℤ) : ℚ) := by
    have kept := round_digits doubles 1 (by decide) few
    rwa [one_mul] at kept
  have same : doubles.round (lval.toInt : ℚ) = lval.toInt :=
    round_small doubles _ (by omega) (by omega)
  have marked : doubles.round ((lval.toInt - 10 ^ zeros : ℤ) : ℚ) =
      ((lval.toInt - 10 ^ zeros : ℤ) : ℚ) := round_small doubles _ (by omega) (by omega)
  have stored : (BitVec.ofInt 64 (lval.toInt - 10 ^ zeros)).toInt = lval.toInt - 10 ^ zeros :=
    BitVec.toInt_ofInt_eq_self (by decide) (by norm_num; omega) (by norm_num; omega)
  simp only [varIntAbsolute, size, scale, one_mul, power, same, ← Int.cast_sub, marked,
    castLongLong_int (show -9223372036854775808 ≤ lval.toInt - 10 ^ zeros by omega) (by omega),
    Option.bind_eq_bind, Option.bind_some, stored, product, ← Int.cast_add]
  have ⟨whole, equal⟩ := doubles.exists_int (head.toInt * 10 ^ zeros + (lval.toInt - 10 ^ zeros))
  have bound : |head.toInt * 10 ^ zeros| ≤ 2147483648 * 10 ^ 9 := by
    rw [abs_mul, abs_of_pos positive]
    exact mul_le_mul (abs_le.mpr ⟨by have := headFits.1; omega, by have := headFits.2; omega⟩)
      limit positive.le (by decide)
  have ⟨least, most⟩ := abs_le.mp bound
  have top : Representable 52 ((2 ^ 62 : ℤ) : ℚ) :=
      ⟨1, 62, by norm_num, by norm_num⟩
  have bottom : Representable 52 ((-2 ^ 62 : ℤ) : ℚ) :=
      ⟨-1, 62, by norm_num, by norm_num⟩
  have above : whole ≤ 2 ^ 62 := by
    have kept := doubles.round_le (((head.toInt * 10 ^ zeros + (lval.toInt - 10 ^ zeros) : ℤ) : ℚ))
      (Int.cast_le.mpr (by omega)) top
    rw [equal] at kept
    exact_mod_cast kept
  have below : -2 ^ 62 ≤ whole := by
    have kept := doubles.le_round (((head.toInt * 10 ^ zeros + (lval.toInt - 10 ^ zeros) : ℤ) : ℚ))
      (Int.cast_le.mpr (by omega)) bottom
    rw [equal] at kept
    exact_mod_cast kept
  refine ⟨BitVec.ofInt 64 whole, ?_, ?_⟩
  · rw [equal, castLongLong_int (by omega) (by omega)]
  · rw [equal, BitVec.toInt_ofInt_eq_self (by decide) (by norm_num; omega) (by norm_num; omega)]

/-- A fraction below one by more than a double can miss. -/
def almostOne : ℚ := 17179869183 / 17179869184

theorem representable_almostOne : Representable 52 almostOne :=
  ⟨17179869183, -34, by norm_num, by norm_num [almostOne]⟩

theorem almostOne_lt : almostOne < 1 := by norm_num [almostOne]

/-- A fraction stays one when it is rounded. -/
theorem round_fraction {number : ℚ} (low : 0 ≤ number) (high : number ≤ almostOne) :
    0 ≤ doubles.round number ∧ doubles.round number ≤ almostOne :=
  ⟨doubles.le_round number low representable_zero,
    doubles.round_le number high representable_almostOne⟩

theorem round_zero_sub {number : ℚ} (low : 0 ≤ number) (high : number ≤ almostOne) :
    -1 < doubles.round (0 - number) ∧ doubles.round (0 - number) < 1 := by
  have least := doubles.le_round (0 - number) (by linarith) representable_almostOne.neg
  have most := doubles.round_le (0 - number) (by linarith) representable_zero
  have less := almostOne_lt
  constructor <;> linarith

/-- Zero stands for a tenth of the head. -/
theorem varIntAbsolute_zero {head : BitVec 32} (positive : 0 < head.toInt) :
    ∃ b, varIntAbsolute doubles 0 head = some b ∧ FitsInt b.toInt ∧
      (b.toInt = 0 ↔ head.toInt < 10) := by
  have high := (fitsInt_toInt head).2
  have less := almostOne_lt
  have tenth : powTen (-1) = 1 / 10 := by norm_num [powTen]
  have ⟨unitLow, unitHigh⟩ := @round_fraction doubles (1 / 10) (by norm_num)
    (by norm_num [almostOne])
  have ⟨markLow, markHigh⟩ := round_zero_sub doubles unitLow unitHigh
  have unmarked := castLongLong_small markLow markHigh
  have headPositive : (0 : ℚ) < head.toInt := by exact_mod_cast positive
  have headHigh : (head.toInt : ℚ) < 2147483648 := by exact_mod_cast high
  have low := doubles.le_round (head.toInt * (1 / 10)) (by positivity) representable_zero
  have most : doubles.round (head.toInt * (1 / 10)) ≤ ((2147483647 : ℤ) : ℚ) :=
    doubles.round_le _ (by push_cast; linarith) (representable_int (by norm_num))
  have floorLow : 0 ≤ ⌊doubles.round (head.toInt * (1 / 10))⌋ := Int.floor_nonneg.mpr low
  have floorHigh : ⌊doubles.round (head.toInt * (1 / 10))⌋ ≤ 2147483647 := by
    have bound := Int.floor_mono most
    rwa [Int.floor_intCast] at bound
  have cast : castLongLong (doubles.round (head.toInt * (1 / 10))) =
      some (BitVec.ofInt 64 ⌊doubles.round (head.toInt * (1 / 10))⌋) := by
    push_cast at most
    rw [castLongLong, wholePart, if_pos low, if_pos ⟨by linarith, by linarith⟩]
  have stored : (BitVec.ofInt 64 ⌊doubles.round (head.toInt * (1 / 10))⌋).toInt =
      ⌊doubles.round (head.toInt * (1 / 10))⌋ :=
    BitVec.toInt_ofInt_eq_self (by decide) (by norm_num; omega) (by norm_num; omega)
  refine ⟨BitVec.ofInt 64 ⌊doubles.round (head.toInt * (1 / 10))⌋, ?_, ?_, ?_⟩
  · have nothing : (0 : BitVec 64).toInt = 0 := rfl
    simp only [varIntAbsolute, nothing, getValueSize_zero, Nat.cast_zero, zero_sub, tenth, one_mul,
      Int.cast_zero, doubles.round_zero, Option.bind_eq_bind]
    rw [← zero_sub, unmarked, Option.bind_some, nothing, Int.cast_zero, doubles.round_zero,
      add_zero, doubles.round_round, cast]
  · rw [stored]
    exact ⟨by omega, by omega⟩
  · rw [stored, Int.floor_eq_zero_iff]
    constructor
    · intro small
      by_contra large
      have ten : (10 : ℚ) ≤ head.toInt := by exact_mod_cast not_lt.mp large
      have one : Representable 52 1 := ⟨1, 0, by norm_num, by norm_num⟩
      exact absurd small.2 (not_lt.mpr (doubles.le_round _ (by linarith) one))
    · intro small
      have nine : (head.toInt : ℚ) ≤ 9 := by exact_mod_cast (show head.toInt ≤ 9 by omega)
      have digit : head.toInt * (1 / 10 : ℚ) ≤ almostOne := by
        rw [almostOne]
        linarith
      exact ⟨low, (round_fraction doubles (by positivity) digit).2.trans_lt less⟩

/-- Zero is stored as it is. -/
theorem varIntRelative_zero {head : BitVec 32} (positive : 0 < head.toInt) :
    varIntRelative doubles 0 head = some 0 := by
  have ⟨_, high⟩ := getValueSize_bounds positive.ne'
  have digits := getValueSize_pos positive.ne'
  have few : getValueSize head.toInt ≤ 10 := getValueSize_le (by
    have := (fitsInt_toInt head).2
    norm_num
    omega)
  have less := almostOne_lt
  have scale : powTen (-getValueSize head.toInt) = 1 / 10 ^ getValueSize head.toInt := by
    rw [powTen, zpow_neg, zpow_natCast, one_div]
  have powerLow : (10 : ℚ) ≤ 10 ^ getValueSize head.toInt := by
    exact_mod_cast (show 10 ^ 1 ≤ 10 ^ getValueSize head.toInt from
      Nat.pow_le_pow_right (by decide) digits)
  have powerHigh : (10 : ℚ) ^ getValueSize head.toInt ≤ 10000000000 := by
    exact_mod_cast (show 10 ^ getValueSize head.toInt ≤ 10 ^ 10 from
      Nat.pow_le_pow_right (by decide) few)
  have headPositive : (0 : ℚ) < head.toInt := by exact_mod_cast positive
  have headBelow : (head.toInt : ℚ) + 1 ≤ 10 ^ getValueSize head.toInt := by
    zify at high
    rw [abs_of_pos positive] at high
    exact_mod_cast (show head.toInt + 1 ≤ 10 ^ getValueSize head.toInt by omega)
  -- the head behind the point, and the last digit of it
  have fraction : head.toInt * (1 / 10 ^ getValueSize head.toInt : ℚ) ≤ almostOne := by
    rw [mul_one_div, div_le_iff₀ (by linarith), almostOne]
    linarith
  have unit : (1 / 10 ^ getValueSize head.toInt : ℚ) ≤ almostOne := by
    rw [div_le_iff₀ (by linarith), almostOne]
    linarith
  have ⟨headLow, headHigh⟩ := round_fraction doubles (by positivity) fraction
  have ⟨lastLow, lastHigh⟩ := round_fraction doubles (by positivity) unit
  have ⟨restLow, restHigh⟩ := round_zero_sub doubles headLow headHigh
  have headless := castInt_small restLow restHigh
  have nothing : (0 : BitVec 64).toInt = 0 := rfl
  have none : (0 : BitVec 32).toInt = 0 := rfl
  simp only [varIntRelative, nothing, getValueSize_zero, Nat.cast_zero, Int.cast_zero,
    doubles.round_zero, zero_sub, scale, Option.bind_eq_bind, one_mul]
  rw [← zero_sub, headless, Option.bind_some, none, Int.cast_zero, zero_add, doubles.round_round]
  exact castInt_small (by linarith) (by linarith)

end Integers

/-! ### What the getters return -/

/-- Both getters return the value, the one for an `int` where the value is one. -/
def Record.Returns [FloatingPoint] (m_lock : NaviLock) (record : Record) (index : Int)
    (value : BitVec 64) : Prop :=
  record.getFieldAsLong m_lock index = .ok (some value) ∧
    ∀ small : BitVec 32, small.signExtend 64 = value →
      record.getFieldAsInteger m_lock index = .ok (some small)

/-- Whatever setter takes the value with the default flag and returns true, both getters return
the value. -/
def Record.Keeps [FloatingPoint] (m_lock : NaviLock) (record : Record) (index : Int)
    (value : BitVec 64) : Prop :=
  (∀ after, record.set (index, .setFieldLong value true) = .ok (true, after) →
    after.Returns m_lock index value) ∧
  ∀ small : BitVec 32, small.signExtend 64 = value →
    ∀ after, record.set (index, .setFieldInteger small true) = .ok (true, after) →
      after.Returns m_lock index value

/-- The values that a VAR_INT with a head gives back: zero under a head of one digit; under the
head 1 an `int` that stays one without its first digit; and a longer number that is a double,
starts with the head up to what an `int` holds, and keeps its digits behind a leading one. -/
def KeptBehind (doubles : Rounding 52) (head value : ℤ) : Prop :=
  value = 0 ∧ head < 10 ∨
  head = 1 ∧ -1147483648 ≤ value ∧ value < 2147483648 ∨
  2147483648 ≤ value ∧ doubles.round value = value ∧
    FitsInt (value - head * 10 ^ (getValueSize value - getValueSize head)) ∧
    FitsInt (value - (head - 1) * 10 ^ (getValueSize value - getValueSize head)) ∧
    10 ^ (getValueSize value - getValueSize head) ≤
      |value - (head - 1) * 10 ^ (getValueSize value - getValueSize head)| ∧
    |value - (head - 1) * 10 ^ (getValueSize value - getValueSize head)| <
      10 ^ (getValueSize value - getValueSize head + 1)

/-- The values that a VAR_INT gives back; without a head those that an `int` holds. -/
def Kept (doubles : Rounding 52) : Option (BitVec 32) → BitVec 64 → Prop
  | none, value => FitsInt value.toInt
  | some head, value => KeptBehind doubles head.toInt value.toInt

/-- A platform with the arithmetic of these doubles whose casts yield `other` where they are
undefined. -/
@[reducible] def platformOf (doubles : Rounding 52) (other : BitVec 32) : FloatingPoint :=
  { zeroAndOne with
    relative := fun value head => (varIntRelative doubles value head).getD other
    absolute := fun lval head => (varIntAbsolute doubles lval head).getD 0 }

theorem platformOf_computes (doubles : Rounding 52) (other : BitVec 32) :
    Computes doubles (platformOf doubles other) where
  relative _ _ _ equal := congrArg (Option.getD · other) equal
  absolute _ _ _ equal := congrArg (Option.getD · 0) equal

/-- The integer that the setters store in a VAR_INT. -/
def storedIn [platform : FloatingPoint] (value : BitVec 64) : Option (BitVec 32) → BitVec 32
  | none => value.setWidth 32
  | some head => platform.relative value head

/-- The number that `getFieldAsLong` makes of the integer in a VAR_INT. -/
def longOf [platform : FloatingPoint] (stored : BitVec 32) : Option (BitVec 32) → BitVec 64
  | none => stored.signExtend 64
  | some head => platform.absolute (stored.signExtend 64) head

theorem setWidth_signExtend (value : BitVec 32) : (value.signExtend 64).setWidth 32 = value := by
  refine BitVec.eq_of_getLsbD_eq fun index bound => ?_
  rw [BitVec.getLsbD_setWidth, BitVec.getLsbD_signExtend]
  simp [bound, show index < 64 by omega]

section Getters

variable [FloatingPoint]

theorem Field.setFieldLong_varInt (nCount : Nat) (data : Bytes) (head : Option (BitVec 32))
    (value : BitVec 64) :
    (Field.varInt nCount data).setFieldLong (.varInt head) value true =
      (true, Field.setVarInt data (storedIn value head)) := by
  cases head <;> rfl

theorem Field.setFieldInteger_varInt (nCount : Nat) (data : Bytes) (head : Option (BitVec 32))
    (value : BitVec 32) :
    (Field.varInt nCount data).setFieldInteger (.varInt head) value true =
      (true, Field.setVarInt data (storedIn (value.signExtend 64) head)) := by
  cases head with
  | none =>
    rw [storedIn, setWidth_signExtend]
    rfl
  | some head => rfl

omit [FloatingPoint] in
theorem getVarInt_recursive {m_lock : NaviLock} (recursive : m_lock.recursive = true)
    (stored : BitVec 32) (rest : Bytes) :
    getVarInt m_lock (varIntWrite stored).length (varIntWrite stored ++ rest) = .ok stored := by
  rw [getVarInt, NaviGuard_open (fun _ => recursive), varIntValue_varIntWrite]

omit [FloatingPoint] in
theorem Field.getFieldAsInteger_setVarInt {m_lock : NaviLock} (recursive : m_lock.recursive = true)
    (data : Bytes) (stored : BitVec 32) :
    (Field.setVarInt data stored).getFieldAsInteger m_lock = .ok (some stored) := by
  rw [Field.getFieldAsInteger, NaviGuard_open (fun _ => recursive), Field.setVarInt]
  simp only [@getVarInt_recursive { m_lock with locked := true } recursive, ok_bind]

theorem Field.getFieldAsLong_setVarInt {m_lock : NaviLock} (recursive : m_lock.recursive = true)
    (data : Bytes) (stored : BitVec 32) (head : Option (BitVec 32)) :
    (Field.setVarInt data stored).getFieldAsLong m_lock (.varInt head) =
      .ok (some (longOf stored head)) := by
  rw [Field.getFieldAsLong, NaviGuard_open (fun _ => recursive), Field.setVarInt]
  cases head with
  | none =>
    simp only [@getVarInt_recursive { m_lock with locked := true } recursive, ok_bind]
    rfl
  | some head =>
    simp only [@getVarInt_recursive { m_lock with locked := true } recursive, ok_bind]
    rfl

variable {record : Record} {index : Nat} {head : Option (BitVec 32)} {nCount : Nat} {data : Bytes}
  {m_lock : NaviLock}

/-- A record whose VAR_INT was set returns what is made of the stored integer. -/
theorem Record.returns_stored (recursive : m_lock.recursive = true)
    (column : record.tableStruct.FieldSet[index]? = some (.varInt head))
    (field : record.Fields[index]? = some (.varInt nCount data)) (stored : BitVec 32)
    (value : BitVec 64) :
    ({ record with Fields := record.Fields.set index (Field.setVarInt data stored) } :
      Record).Returns m_lock (index : Int) value ↔
        longOf stored head = value ∧ ∀ small : BitVec 32, small.signExtend 64 = value →
          stored = small := by
  have inside : index < record.Fields.length := (List.getElem?_eq_some_iff.mp field).1
  have written : (record.Fields.set index (Field.setVarInt data stored))[index]? =
      some (Field.setVarInt data stored) := List.getElem?_set_self inside
  simp only [Record.Returns, Record.getFieldAsLong, Record.getFieldAsInteger,
    if_neg (Int.not_lt.mpr (Int.natCast_nonneg index)), Int.toNat_natCast, column, written,
    Field.getFieldAsInteger_setVarInt recursive, Field.getFieldAsLong_setVarInt recursive,
    Except.ok.injEq, Option.some.injEq]

/-- Both setters return true and store the same integer. -/
theorem Record.set_varInt (column : record.tableStruct.FieldSet[index]? = some (.varInt head))
    (field : record.Fields[index]? = some (.varInt nCount data)) (value : BitVec 64) :
    record.set ((index : Int), .setFieldLong value true) = .ok (true, { record with
      Fields := record.Fields.set index (Field.setVarInt data (storedIn value head)) }) ∧
    ∀ small : BitVec 32, small.signExtend 64 = value →
      record.set ((index : Int), .setFieldInteger small true) = .ok (true, { record with
        Fields := record.Fields.set index (Field.setVarInt data (storedIn value head)) }) := by
  have set (setter : Setter)
      (returned : (Field.varInt nCount data).set (.varInt head) setter =
        .ok (true, Field.setVarInt data (storedIn value head))) :
      record.set ((index : Int), setter) =
        .ok (true, { record with
          Fields := record.Fields.set index (Field.setVarInt data (storedIn value head)) }) := by
    simp only [Record.set, if_neg (Int.not_lt.mpr (Int.natCast_nonneg index)), Int.toNat_natCast,
      column, field, returned, ok_bind]
  refine ⟨set _ (congrArg Except.ok (Field.setFieldLong_varInt nCount data head value)),
    fun small same => set _ (congrArg Except.ok ?_)⟩
  rw [Field.setFieldInteger_varInt, same]

theorem Record.keeps_iff (recursive : m_lock.recursive = true)
    (column : record.tableStruct.FieldSet[index]? = some (.varInt head))
    (field : record.Fields[index]? = some (.varInt nCount data)) (value : BitVec 64) :
    record.Keeps m_lock (index : Int) value ↔ longOf (storedIn value head) head = value ∧
      ∀ small : BitVec 32, small.signExtend 64 = value → storedIn value head = small := by
  obtain ⟨long, short⟩ := Record.set_varInt column field value
  rw [← Record.returns_stored recursive column field]
  constructor
  · rintro ⟨kept, _⟩
    exact kept _ long
  · intro returns
    refine ⟨fun after equal => ?_, fun small same after equal => ?_⟩
    · rw [long] at equal
      cases equal
      exact returns
    · rw [short small same] at equal
      cases equal
      exact returns

/-- Neither getter returns from a VAR_INT. -/
theorem Record.getters_locked (column : record.tableStruct.FieldSet[index]? = some (.varInt head))
    (field : record.Fields[index]? = some (.varInt nCount data)) :
    record.getFieldAsLong .new (index : Int) = .error .deadlock ∧
      record.getFieldAsInteger .new (index : Int) = .error .deadlock := by
  simp only [Record.getFieldAsLong, Record.getFieldAsInteger,
    if_neg (Int.not_lt.mpr (Int.natCast_nonneg index)), Int.toNat_natCast, column, field]
  cases head with
  | none => exact ⟨rfl, rfl⟩
  | some head => exact ⟨rfl, rfl⟩

/-- VAR_INT values: whichever setter takes a value with the default flag returns true, and then
neither getter returns, so no value comes back. -/
theorem varInt_never_kept (record : Record) (index : Nat) (head : Option (BitVec 32))
    (column : record.tableStruct.FieldSet[index]? = some (.varInt head)) (nCount : Nat)
    (data : Bytes) (field : record.Fields[index]? = some (.varInt nCount data))
    (value : BitVec 64) : ¬ record.Keeps .new (index : Int) value ∧
      ∃ after, record.set ((index : Int), .setFieldLong value true) = .ok (true, after) ∧
        (∀ small : BitVec 32, small.signExtend 64 = value →
          record.set ((index : Int), .setFieldInteger small true) = .ok (true, after)) ∧
        after.getFieldAsLong .new (index : Int) = .error .deadlock ∧
        after.getFieldAsInteger .new (index : Int) = .error .deadlock := by
  obtain ⟨long, short⟩ := Record.set_varInt column field value
  have inside : index < record.Fields.length := (List.getElem?_eq_some_iff.mp field).1
  obtain ⟨noLong, noInteger⟩ := @Record.getters_locked _ { record with
    Fields := record.Fields.set index (Field.setVarInt data (storedIn value head)) } index head _ _
    column (List.getElem?_set_self inside)
  refine ⟨fun keeps => ?_, _, long, short, noLong, noInteger⟩
  have returned := (keeps.1 _ long).1
  rw [noLong] at returned
  cases returned

end Getters

/-! ### Which values are kept -/

theorem fitsInt_iff (value : BitVec 64) :
    FitsInt value.toInt ↔ ∃ small : BitVec 32, small.signExtend 64 = value := by
  constructor
  · intro fits
    refine ⟨BitVec.ofInt 32 value.toInt, BitVec.eq_of_toInt_eq ?_⟩
    rw [BitVec.toInt_signExtend_of_le (by decide), (ofInt_eq_iff fits _).mp rfl]
  · rintro ⟨small, rfl⟩
    rw [BitVec.toInt_signExtend_of_le (by decide)]
    exact fitsInt_toInt small

section Behind

variable {doubles : Rounding 52} {value : BitVec 64} {head : BitVec 32}

/-- The setter with its cast defined, and the getters, agree on the value. -/
def KeptExactly (doubles : Rounding 52) (value : BitVec 64) (head : BitVec 32) : Prop :=
  ∃ a : BitVec 32, varIntRelative doubles value head = some a ∧
    varIntAbsolute doubles (a.signExtend 64) head = some value ∧
      ∀ small : BitVec 32, small.signExtend 64 = value → a = small

theorem varIntAbsolute_defined (doubles : Rounding 52) (positive : 0 < head.toInt) (a : BitVec 32) :
    ∃ b, varIntAbsolute doubles (a.signExtend 64) head = some b := by
  have same : (a.signExtend 64).toInt = a.toInt := BitVec.toInt_signExtend_of_le (by decide)
  by_cases zero : a.toInt = 0
  · rw [show a = 0 from BitVec.eq_of_toInt_eq zero]
    have ⟨b, equal, _⟩ := varIntAbsolute_zero doubles positive
    exact ⟨b, equal⟩
  · have digits := getValueSize_pos zero
    have ⟨b, equal, _⟩ := @varIntAbsolute_spec doubles (a.signExtend 64) head
      (getValueSize a.toInt - 1) (by rw [same]; exact fitsInt_toInt a) (by rw [same]; omega)
    exact ⟨b, equal⟩

/-- A setter whose cast is undefined may store anything, so that a value kept on every platform is
kept by casts that are defined. -/
theorem kept_on_platforms_iff (positive : 0 < head.toInt) :
    (∀ [platform : FloatingPoint], Computes doubles platform →
      longOf (storedIn value (some head)) (some head) = value ∧
        ∀ small : BitVec 32, small.signExtend 64 = value → storedIn value (some head) = small) ↔
      KeptExactly doubles value head := by
  constructor
  · intro everywhere
    have first := @everywhere (platformOf doubles 0) (platformOf_computes doubles 0)
    have second := @everywhere (platformOf doubles 1) (platformOf_computes doubles 1)
    cases relative : varIntRelative doubles value head with
    | none =>
      have zero : @storedIn (platformOf doubles 0) value (some head) = 0 :=
        congrArg (Option.getD · 0) relative
      have one : @storedIn (platformOf doubles 1) value (some head) = 1 :=
        congrArg (Option.getD · 1) relative
      rw [zero] at first
      rw [one] at second
      have unit : ((1 : BitVec 32).signExtend 64).toInt = 1 := rfl
      have ⟨b, equal, made⟩ := @varIntAbsolute_spec doubles ((1 : BitVec 32).signExtend 64) head 0
        ⟨by rw [unit]; decide, by rw [unit]; decide⟩ (by rw [unit]; simp [getValueSize])
      have returned : @longOf (platformOf doubles 1) 1 (some head) = b :=
        congrArg (Option.getD · 0) equal
      rw [unit, pow_zero, mul_one, sub_self, add_zero] at made
      rw [round_small doubles _ (by omega) (by have := (fitsInt_toInt head).2; omega), Int.cast_inj]
        at made
      have fits : FitsInt value.toInt := by
        rw [← second.1, returned, ← made]
        exact fitsInt_toInt head
      have ⟨small, same⟩ := (fitsInt_iff value).mp fits
      exact absurd ((first.2 small same).trans (second.2 small same).symm) (by decide)
    | some a =>
      have stored : @storedIn (platformOf doubles 0) value (some head) = a :=
        congrArg (Option.getD · 0) relative
      rw [stored] at first
      have ⟨b, equal⟩ := varIntAbsolute_defined doubles positive a
      have returned : @longOf (platformOf doubles 0) a (some head) = b :=
        congrArg (Option.getD · 0) equal
      exact ⟨a, relative, by rw [equal, ← first.1, returned], first.2⟩
  · rintro ⟨a, relative, absolute, same⟩ platform computes
    have stored : storedIn value (some head) = a := computes.relative value head a relative
    rw [stored]
    exact ⟨computes.absolute _ head value absolute, same⟩

/-- A rounding that loses nothing and comes out at `value` moved it by nothing: between a half and
the double of a number there is no room for a head that does not fit. -/
theorem shift_eq_zero (doubles : Rounding 52) {value shift : ℤ} (nonneg : 0 ≤ value)
    (itself : doubles.round value = value)
    (apart : 2 ^ 53 ≤ value → shift = 0 ∨ value ≤ shift ∨ 2 * shift ≤ -value)
    (same : doubles.round ((value + shift : ℤ) : ℚ) = value) : shift = 0 := by
  by_cases small : value < 2 ^ 53
  · have equal := (doubles.round_eq_int_iff (value + shift) value
      (by rw [abs_of_nonneg nonneg]; exact small)).mp same
    omega
  · have large : (2 ^ 53 : ℤ) ≤ value := not_lt.mp small
    have positive : (0 : ℚ) < value := by exact_mod_cast (show 0 < value by omega)
    have fits : Representable 52 (value : ℚ) := itself ▸ doubles.representable value
    rcases apart large with zero | above | below
    · exact zero
    · have twice := fits.scaled 1
      rw [zpow_one] at twice
      have kept := doubles.le_round (((value + shift : ℤ) : ℚ)) (by
        push_cast
        have : (value : ℚ) ≤ shift := by exact_mod_cast above
        linarith) twice
      rw [same] at kept
      linarith
    · have half := fits.scaled (-1)
      rw [zpow_neg_one] at half
      have kept := doubles.round_le (((value + shift : ℤ) : ℚ)) (by
        push_cast
        have : (2 : ℚ) * shift ≤ -value := by exact_mod_cast below
        linarith) half
      rw [same] at kept
      linarith

/-- A factor with more zeros behind it is ten times as large at least. -/
theorem tenfold {few more : Nat} (less : few < more) {factor : ℤ} (nonneg : 0 ≤ factor) :
    10 * (factor * 10 ^ few) ≤ factor * 10 ^ more := by
  have power : (10 : ℤ) ^ (few + 1) ≤ 10 ^ more := pow_le_pow_right₀ (by decide) less
  calc 10 * (factor * 10 ^ few) = factor * 10 ^ (few + 1) := by ring
    _ ≤ factor * 10 ^ more := mul_le_mul_of_nonneg_left power nonneg

theorem getValueSize_one : getValueSize 1 = 1 := by simp [getValueSize]

theorem toInt_eq_zero {value : BitVec 64} (zero : value.toInt = 0) : value = 0 :=
  BitVec.eq_of_toInt_eq zero

/-- Zero is kept under a head of one digit. -/
theorem keptExactly_zero (positive : 0 < head.toInt) :
    KeptExactly doubles 0 head ↔ head.toInt < 10 := by
  have ⟨b, absolute, _, zero⟩ := varIntAbsolute_zero doubles positive
  have relative := varIntRelative_zero doubles positive
  constructor
  · rintro ⟨a, stored, returned, _⟩
    rw [relative] at stored
    cases stored
    rw [show (0 : BitVec 32).signExtend 64 = 0 from rfl, absolute] at returned
    cases returned
    exact zero.mp rfl
  · intro short
    refine ⟨0, relative, ?_, fun small same => ?_⟩
    · rw [show (0 : BitVec 32).signExtend 64 = 0 from rfl, absolute,
        toInt_eq_zero (zero.mpr short)]
    · rw [← setWidth_signExtend small, same]
      rfl

/-- Another `int` is kept under the head 1 only, as long as it is one without its first digit. -/
theorem keptExactly_int (fits : FitsInt value.toInt)
    (nonzero : value.toInt ≠ 0) :
    KeptExactly doubles value head ↔ head.toInt = 1 ∧ -1147483648 ≤ value.toInt := by
  have ⟨low, high⟩ := fits
  have ⟨small, same⟩ := (fitsInt_iff value).mp fits
  have ⟨least, _⟩ := getValueSize_bounds nonzero
  have digits := getValueSize_pos nonzero
  have few : getValueSize value.toInt ≤ 10 := getValueSize_le (by norm_num; omega)
  have size : getValueSize value.toInt = getValueSize value.toInt - 1 + 1 := by omega
  have smallEq : small.toInt = value.toInt := by
    rw [← same, BitVec.toInt_signExtend_of_le (by decide)]
  have rounded := round_small doubles value.toInt (by omega) (by omega)
  have power : (10 : ℤ) ^ (getValueSize value.toInt - 1) ≤ |value.toInt| := by
    rw [Int.abs_eq_natAbs]
    exact_mod_cast least
  have positivePower : (0 : ℤ) < 10 ^ (getValueSize value.toInt - 1) := by positivity
  -- with the head 1 the stored integer is the value itself
  have under (one : head.toInt = 1) (a : BitVec 32) : varIntRelative doubles value head = some a ↔
      FitsInt (value.toInt - 10 ^ (getValueSize value.toInt - 1)) ∧ a.toInt = value.toInt := by
    rw [varIntRelative_eq_some_iff doubles (getValueSize value.toInt - 1)
      (by rw [one, getValueSize_one]; omega) rounded, one, one_mul, sub_add_cancel]
    exact ⟨fun ⟨first, _, last⟩ => ⟨first, last⟩, fun ⟨first, last⟩ => ⟨first, fits, last⟩⟩
  constructor
  · rintro ⟨a, relative, absolute, equal⟩
    cases equal small same
    have ⟨b, made, sum⟩ := @varIntAbsolute_spec doubles (small.signExtend 64) head
      (getValueSize value.toInt - 1) (by rw [same]; exact fits) (by rw [same]; exact size)
    rw [absolute] at made
    cases made
    rw [same, doubles.round_eq_int_iff _ _ (abs_lt.mpr ⟨by norm_num; omega, by norm_num; omega⟩)]
      at sum
    have one : head.toInt = 1 := by
      have product : (head.toInt - 1) * 10 ^ (getValueSize value.toInt - 1) = 0 := by linarith
      rcases mul_eq_zero.mp product with zero | zero
      · omega
      · omega
    refine ⟨one, ?_⟩
    have ⟨inRange, _⟩ := (under one small).mp relative
    by_contra below
    have long := le_getValueSize value.toInt 9 (by norm_num; omega)
    have nine : (10 : ℤ) ^ 9 ≤ 10 ^ (getValueSize value.toInt - 1) :=
      pow_le_pow_right₀ (by decide) (by omega)
    have := inRange.1
    omega
  · rintro ⟨one, above⟩
    have nine : (10 : ℤ) ^ (getValueSize value.toInt - 1) ≤ 10 ^ 9 :=
      pow_le_pow_right₀ (by decide) (by omega)
    have inRange : FitsInt (value.toInt - 10 ^ (getValueSize value.toInt - 1)) := by
      rcases abs_choice value.toInt with sign | sign <;> rw [sign] at power
      · exact ⟨by omega, by omega⟩
      · exact ⟨by omega, by omega⟩
    have ⟨b, made, sum⟩ := @varIntAbsolute_spec doubles (small.signExtend 64) head
      (getValueSize value.toInt - 1) (by rw [same]; exact fits) (by rw [same]; exact size)
    rw [same, one, one_mul, add_sub_cancel, rounded, Int.cast_inj] at sum
    refine ⟨small, (under one small).mpr ⟨inRange, smallEq⟩, ?_, fun other equal => ?_⟩
    · rw [made, ← BitVec.eq_of_toInt_eq sum]
    · rw [← setWidth_signExtend small, same, ← equal, setWidth_signExtend]

/-- A number above every `int` is kept when it is a double that starts with the head. -/
theorem keptExactly_long (positive : 0 < head.toInt) (large : 2147483648 ≤ value.toInt) :
    KeptExactly doubles value head ↔ KeptBehind doubles head.toInt value.toInt := by
  have headHigh := (fitsInt_toInt head).2
  have long := le_getValueSize value.toInt 9 (by norm_num; omega)
  have short : getValueSize head.toInt ≤ 10 := getValueSize_le (by norm_num; omega)
  have ⟨zeros, zerosEq⟩ := Nat.exists_eq_add_of_le (short.trans long)
  have behind : getValueSize value.toInt - getValueSize head.toInt = zeros := by omega
  have ⟨rounded, roundedEq⟩ := doubles.exists_int value.toInt
  have relative (a : BitVec 32) :=
    @varIntRelative_eq_some_iff doubles zeros value head a rounded zerosEq roundedEq
  have power : (0 : ℤ) < 10 ^ zeros := by positivity
  have extended (a : BitVec 32) : (a.signExtend 64).toInt = a.toInt :=
    BitVec.toInt_signExtend_of_le (by decide)
  unfold KeptBehind
  rw [behind]
  constructor
  · rintro ⟨a, stored, returned, _⟩
    have ⟨rest, whole, aEq⟩ := (relative a).mp stored
    have nonzero : a.toInt ≠ 0 := by
      intro zero
      have ⟨b, made, fits, _⟩ := varIntAbsolute_zero doubles positive
      rw [BitVec.eq_of_toInt_eq (y := 0) zero] at returned
      rw [show (0 : BitVec 32).signExtend 64 = 0 from rfl, made] at returned
      cases returned
      have := fits.2
      omega
    have ⟨b, made, sum⟩ := @varIntAbsolute_spec doubles (a.signExtend 64) head
      (getValueSize a.toInt - 1) (by rw [extended]; exact fitsInt_toInt a)
      (by rw [extended]; have := getValueSize_pos nonzero; omega)
    rw [returned] at made
    cases made
    rw [extended] at sum
    have itself : doubles.round value.toInt = value.toInt := by
      rw [← sum, doubles.round_round]
    have same : rounded = value.toInt := by exact_mod_cast roundedEq.symm.trans itself
    rw [same] at rest whole aEq
    have otherPower : (0 : ℤ) < 10 ^ (getValueSize a.toInt - 1) := by positivity
    have two : 2 ≤ head.toInt := by
      by_contra one
      have := whole.2
      rw [show head.toInt = 1 by omega] at this
      omega
    -- the head is put back behind as many digits as it was taken from
    have moved : (head.toInt * 10 ^ (getValueSize a.toInt - 1) +
        (a.toInt - 10 ^ (getValueSize a.toInt - 1))) = value.toInt +
          ((head.toInt - 1) * 10 ^ (getValueSize a.toInt - 1) - (head.toInt - 1) * 10 ^ zeros) := by
      rw [aEq]
      ring
    have product : 0 ≤ (head.toInt - 1) * 10 ^ zeros := mul_nonneg (by omega) power.le
    have close : value.toInt - 2147483648 < (head.toInt - 1) * 10 ^ zeros := by
      have := whole.2
      linarith
    rw [moved] at sum
    have equal := shift_eq_zero doubles (by omega) itself (fun _ => by
      rcases lt_trichotomy (getValueSize a.toInt - 1) zeros with fewer | same | more
      · have step := tenfold fewer (show 0 ≤ head.toInt - 1 by omega)
        omega
      · rw [same, sub_self]
        exact Or.inl rfl
      · have step := tenfold more (show 0 ≤ head.toInt - 1 by omega)
        omega) sum
    have samePower : (10 : ℤ) ^ (getValueSize a.toInt - 1) = 10 ^ zeros :=
      mul_left_cancel₀ (show head.toInt - 1 ≠ 0 by omega) (sub_eq_zero.mp equal)
    have ⟨least, most⟩ := getValueSize_bounds nonzero
    have digits : getValueSize a.toInt = zeros + 1 := by
      have := Int.pow_right_injective (show 1 < (10 : ℤ).natAbs by decide) samePower
      have := getValueSize_pos nonzero
      omega
    have stored : a.toInt = value.toInt - (head.toInt - 1) * 10 ^ zeros := by
      rw [aEq]
      ring
    rw [digits, Nat.add_sub_cancel] at least
    rw [digits] at most
    refine Or.inr (Or.inr ⟨large, itself, rest, ?_, ?_, ?_⟩)
    · rw [← stored]
      exact fitsInt_toInt a
    · rw [← stored, Int.abs_eq_natAbs]
      exact_mod_cast least
    · rw [← stored, Int.abs_eq_natAbs]
      exact_mod_cast most
  · rintro (⟨zero, _⟩ | ⟨_, _, small⟩ | ⟨_, itself, rest, whole, least, most⟩)
    · omega
    · omega
    · have same : rounded = value.toInt := by exact_mod_cast roundedEq.symm.trans itself
      have stored : value.toInt - head.toInt * 10 ^ zeros + 10 ^ zeros =
          value.toInt - (head.toInt - 1) * 10 ^ zeros := by ring
      have made := (ofInt_eq_iff whole _).mp rfl
      have ⟨b, absolute, sum⟩ := @varIntAbsolute_spec doubles
        ((BitVec.ofInt 32 (value.toInt - (head.toInt - 1) * 10 ^ zeros)).signExtend 64) head zeros
        (by rw [extended, made]; exact whole) (by
          rw [extended, made]
          rw [Int.abs_eq_natAbs] at least most
          exact le_antisymm (getValueSize_le (by exact_mod_cast most))
            (le_getValueSize _ _ (by exact_mod_cast least)))
      refine ⟨_, (relative _).mpr
        ⟨by rwa [same], by rwa [same, stored], by rw [made, same, stored]⟩,
        ?_, fun small equal => ?_⟩
      · have back : head.toInt * 10 ^ zeros + (value.toInt - (head.toInt - 1) * 10 ^ zeros -
            10 ^ zeros) = value.toInt := by ring
        rw [extended, made, back, itself, Int.cast_inj] at sum
        rw [absolute, ← BitVec.eq_of_toInt_eq sum]
      · have := ((fitsInt_iff value).mpr ⟨small, equal⟩).2
        omega

/-- Nothing below every `int` is kept: the cast of the setter is undefined. -/
theorem not_keptExactly_below (positive : 0 < head.toInt) (below : value.toInt < -2147483648) :
    ¬ KeptExactly doubles value head := by
  have headHigh := (fitsInt_toInt head).2
  have long := le_getValueSize value.toInt 9 (by norm_num; omega)
  have short : getValueSize head.toInt ≤ 10 := getValueSize_le (by norm_num; omega)
  have ⟨zeros, zerosEq⟩ := Nat.exists_eq_add_of_le (short.trans long)
  have ⟨rounded, roundedEq⟩ := doubles.exists_int value.toInt
  have low : rounded ≤ -2147483649 := by
    have kept := @Rounding.round_le _ doubles value.toInt ((-2147483649 : ℤ) : ℚ)
      (by exact_mod_cast (show value.toInt ≤ -2147483649 by omega))
      (representable_int (by norm_num))
    rw [roundedEq] at kept
    exact_mod_cast kept
  rintro ⟨a, stored, _⟩
  have ⟨rest, _⟩ := (varIntRelative_eq_some_iff doubles zeros zerosEq roundedEq).mp stored
  have product : 0 ≤ head.toInt * 10 ^ zeros := mul_nonneg positive.le (by positivity)
  have := rest.1
  omega

theorem keptExactly_iff (positive : 0 < head.toInt) :
    KeptExactly doubles value head ↔ KeptBehind doubles head.toInt value.toInt := by
  by_cases zero : value.toInt = 0
  · rw [toInt_eq_zero zero, keptExactly_zero positive]
    constructor
    · exact fun short => Or.inl ⟨rfl, short⟩
    · rintro (⟨_, short⟩ | ⟨one, _⟩ | ⟨large, _⟩)
      · exact short
      · omega
      · exact absurd large (by decide)
  by_cases below : value.toInt < -2147483648
  · refine iff_of_false (not_keptExactly_below positive below) ?_
    rintro (⟨_, _⟩ | ⟨_, _, _⟩ | ⟨_, _⟩) <;> omega
  by_cases large : 2147483648 ≤ value.toInt
  · exact keptExactly_long positive large
  · rw [keptExactly_int ⟨by omega, by omega⟩ zero]
    constructor
    · exact fun ⟨one, above⟩ => Or.inr (Or.inl ⟨one, above, by omega⟩)
    · rintro (⟨_, _⟩ | ⟨one, above, _⟩ | ⟨_, _⟩)
      · omega
      · exact ⟨one, above⟩
      · omega

end Behind

/-- Without a head the value is cut to an `int`. -/
theorem kept_headless_iff {value : BitVec 64} :
    ((value.setWidth 32).signExtend 64 = value ∧ ∀ small : BitVec 32, small.signExtend 64 = value →
      value.setWidth 32 = small) ↔ FitsInt value.toInt := by
  rw [fitsInt_iff]
  constructor
  · exact fun ⟨same, _⟩ => ⟨_, same⟩
  · rintro ⟨small, rfl⟩
    rw [setWidth_signExtend]
    refine ⟨rfl, fun other same => ?_⟩
    rw [← setWidth_signExtend small, ← same, setWidth_signExtend]

/-- If the mutex let its owner lock it again, a VAR_INT would give the value back that a setter took
with the default flag, on every platform, exactly when it is one of the kept values. -/
theorem varInt_kept_iff (doubles : Rounding 52) (head : Option (BitVec 32))
    (positive : ∀ number ∈ head, 0 < number.toInt) (m_lock : NaviLock)
    (recursive : m_lock.recursive = true) (record : Record) (index : Nat)
    (column : record.tableStruct.FieldSet[index]? = some (.varInt head)) (nCount : Nat)
    (data : Bytes) (field : record.Fields[index]? = some (.varInt nCount data))
    (value : BitVec 64) :
    (∀ [platform : FloatingPoint], Computes doubles platform →
      record.Keeps m_lock (index : Int) value) ↔ Kept doubles head value := by
  have keeps (platform : FloatingPoint) := @Record.keeps_iff platform record index head nCount data
    m_lock recursive column field value
  cases head with
  | none =>
    rw [Kept, ← kept_headless_iff]
    constructor
    · intro kept
      exact (keeps _).mp (@kept (platformOf doubles 0) (platformOf_computes doubles 0))
    · exact fun same platform _ => (keeps platform).mpr same
  | some head =>
    have positive := positive head rfl
    rw [Kept, ← keptExactly_iff positive, ← kept_on_platforms_iff positive]
    constructor
    · exact fun kept platform computes => (keeps platform).mp (kept computes)
    · exact fun kept platform computes => (keeps platform).mpr (kept computes)

/-- Doubles that round to the nearest, ties to even. -/
def toNearest : Rounding 52 := halfEven.rounding 52

/-- A platform with these doubles, on which a cast out of range gives 0. -/
@[reducible] def nearestPlatform : FloatingPoint := platformOf toNearest 0

/-- Ten digits behind the head 40. -/
theorem varInt_kept_once : @Record.Keeps nearestPlatform ⟨true, false⟩
    (Record.new ⟨[.varInt (some 40)], false⟩) (0 : Nat) 4000000123 :=
  @(varInt_kept_iff toNearest (some 40) (fun number equal => by cases equal; decide) ⟨true, false⟩ rfl
    (Record.new ⟨[.varInt (some 40)], false⟩) 0 rfl 0 [0, 0, 0, 0, 0] rfl 4000000123).mpr (by
      have value : (4000000123 : BitVec 64).toInt = 4000000123 := rfl
      have head : (40 : BitVec 32).toInt = 40 := rfl
      have long : getValueSize 4000000123 = 10 := by simp [getValueSize]
      have short : getValueSize 40 = 2 := by simp [getValueSize]
      have same := toNearest.round_int 4000000123 (by norm_num)
      rw [Kept, KeptBehind, value, head, long, short]
      exact Or.inr (Or.inr ⟨by decide, by exact_mod_cast same, ⟨by decide, by decide⟩,
        ⟨by decide, by decide⟩, by decide, by decide⟩)) nearestPlatform
    (platformOf_computes toNearest 0)

theorem varInt_never_kept_once :
    ¬ @Record.Keeps zeroAndOne .new (Record.new ⟨[.varInt (some 12)], false⟩) (0 : Nat) 1234 :=
  (@varInt_never_kept zeroAndOne (Record.new ⟨[.varInt (some 12)], false⟩) 0 (some 12) rfl 0
    [0, 0, 0, 0, 0] rfl 1234).1

/-- Seven is stored, and `getFieldAsLong` waits for the lock that it holds. -/
theorem varInt_not_kept :
    ∃ after, @Record.set zeroAndOne (Record.new ⟨[.varInt none], false⟩)
        (0, .setFieldInteger 7 true) = .ok (true, after) ∧
      @Record.getFieldAsLong zeroAndOne .new after 0 = .error .deadlock ∧
      after.getFieldAsInteger .new 0 = .error .deadlock :=
  ⟨⟨⟨[.varInt none], false⟩, [.varInt 1 [14, 0, 0, 0, 0]]⟩, by decide, by decide, by decide⟩

end LevelDBLib.KvDB
