/-
This file is the theory of floating-point rounding with an unbounded exponent: the numbers
of a fixed count of bits, and the monotone maps of the rationals onto them. Every rounding
keeps the numbers that need no rounding, sends integers to integers and never carries a
number past a representable one. Rounding the significand to an integer is such a map; ties
to even gives the usual one.
-/

import Mathlib.Data.Int.Log
import Mathlib.Data.Rat.Floor
import Mathlib.Tactic.Linarith
import Mathlib.Tactic.Positivity
import Mathlib.Tactic.Ring
import Mathlib.Tactic.FieldSimp
import Mathlib.Algebra.Order.Ring.Abs

namespace Roundings

/-! ### Representable numbers -/

/-- A number of `bits + 1` binary digits, up to the carry into one more, and a scale. -/
def Representable (bits : Nat) (number : ℚ) : Prop :=
  ∃ digits scale : ℤ, |digits| ≤ 2 ^ (bits + 1) ∧ number = digits * 2 ^ scale

section Numbers

variable {bits : Nat}

theorem representable_int {number : ℤ} (small : |number| ≤ 2 ^ (bits + 1)) :
    Representable bits number :=
  ⟨number, 0, small, by rw [zpow_zero, mul_one]⟩

theorem representable_scaled {digits : ℤ} (small : |digits| ≤ 2 ^ (bits + 1)) (scale : ℤ) :
    Representable bits (digits * 2 ^ scale) :=
  ⟨digits, scale, small, rfl⟩

theorem representable_zero : Representable bits 0 :=
  ⟨0, 0, by rw [abs_zero]; positivity, by rw [Int.cast_zero, zero_mul]⟩

theorem Representable.neg {number : ℚ} (fits : Representable bits number) :
    Representable bits (-number) := by
  obtain ⟨digits, scale, small, rfl⟩ := fits
  exact ⟨-digits, scale, by rwa [abs_neg], by rw [Int.cast_neg, neg_mul]⟩

theorem Representable.scaled {number : ℚ} (fits : Representable bits number) (scale : ℤ) :
    Representable bits (number * 2 ^ scale) := by
  obtain ⟨digits, exponent, small, rfl⟩ := fits
  refine ⟨digits, exponent + scale, small, ?_⟩
  rw [zpow_add₀ two_ne_zero, mul_assoc]

/-- A representable number beyond the count of its bits is an integer. -/
theorem Representable.integer {number : ℚ} (fits : Representable bits number)
    (large : 2 ^ (bits + 1) ≤ |number|) : ∃ whole : ℤ, number = whole := by
  obtain ⟨digits, scale, small, rfl⟩ := fits
  have bound : |(digits : ℚ)| ≤ 2 ^ (bits + 1) := by exact_mod_cast small
  have power : (0 : ℚ) < 2 ^ (bits + 1) := by positivity
  have nonneg : 0 ≤ scale := by
    by_contra negative
    have shrunk : (2 : ℚ) ^ scale < 1 := zpow_lt_one_of_neg₀ one_lt_two (not_le.mp negative)
    have positive : (0 : ℚ) < 2 ^ scale := zpow_pos two_pos scale
    rw [abs_mul, abs_of_pos positive] at large
    have product : |(digits : ℚ)| * 2 ^ scale ≤ 2 ^ (bits + 1) * 2 ^ scale :=
      mul_le_mul_of_nonneg_right bound positive.le
    have less : (2 : ℚ) ^ (bits + 1) * 2 ^ scale < 2 ^ (bits + 1) * 1 :=
      mul_lt_mul_of_pos_left shrunk power
    linarith
  obtain ⟨exponent, rfl⟩ := Int.eq_ofNat_of_zero_le nonneg
  refine ⟨digits * 2 ^ exponent, ?_⟩
  rw [Int.cast_mul, Int.cast_pow, Int.cast_ofNat, zpow_natCast]

end Numbers

/-! ### Roundings -/

/-- A monotone map of the rationals onto the representable numbers. -/
structure Rounding (bits : Nat) where
  round : ℚ → ℚ
  monotone : Monotone round
  representable (number : ℚ) : Representable bits (round number)
  fixes (number : ℚ) : Representable bits number → round number = number

namespace Rounding

variable {bits : Nat} (rounding : Rounding bits)

theorem round_int (number : ℤ) (small : |number| ≤ 2 ^ (bits + 1)) :
    rounding.round number = number :=
  rounding.fixes _ (representable_int small)

theorem round_zero : rounding.round 0 = 0 :=
  rounding.fixes 0 representable_zero

theorem round_round (number : ℚ) : rounding.round (rounding.round number) = rounding.round number :=
  rounding.fixes _ (rounding.representable number)

theorem round_le (number : ℚ) {bound : ℚ} (below : number ≤ bound)
    (fits : Representable bits bound) :
    rounding.round number ≤ bound :=
  (rounding.monotone below).trans (rounding.fixes bound fits).le

theorem le_round (number : ℚ) {bound : ℚ} (above : bound ≤ number)
    (fits : Representable bits bound) :
    bound ≤ rounding.round number :=
  (rounding.fixes bound fits).ge.trans (rounding.monotone above)

/-- An integer is rounded to an integer. -/
theorem exists_int (number : ℤ) : ∃ whole : ℤ, rounding.round number = whole := by
  rcases le_or_gt |number| (2 ^ (bits + 1)) with small | large
  · exact ⟨number, rounding.round_int number small⟩
  · refine (rounding.representable number).integer ?_
    have limit : Representable bits ((2 ^ (bits + 1) : ℤ) : ℚ) :=
      representable_int (le_of_eq (abs_of_nonneg (by positivity)))
    have limit' : Representable bits ((-2 ^ (bits + 1) : ℤ) : ℚ) :=
      representable_int (by rw [abs_neg, abs_of_nonneg (by positivity)])
    rcases lt_abs.mp large with above | below
    · have kept := rounding.le_round _ (show ((2 ^ (bits + 1) : ℤ) : ℚ) ≤ number by
        exact_mod_cast above.le) limit
      push_cast at kept
      exact kept.trans (le_abs_self _)
    · have kept := rounding.round_le _ (show (number : ℚ) ≤ ((-2 ^ (bits + 1) : ℤ) : ℚ) by
        exact_mod_cast (show number ≤ -2 ^ (bits + 1) by linarith)) limit'
      push_cast at kept
      exact (le_neg_of_le_neg kept).trans (neg_le_abs _)

/-- Among integers only a small one itself is rounded to it. -/
theorem round_eq_int_iff (number value : ℤ) (small : |value| < 2 ^ (bits + 1)) :
    rounding.round number = value ↔ number = value := by
  constructor
  · intro equal
    have near := abs_lt.mp small
    by_contra different
    rcases lt_or_gt_of_ne different with below | above
    · have kept := rounding.round_le _ (show (number : ℚ) ≤ ((value - 1 : ℤ) : ℚ) by
        exact_mod_cast (show number ≤ value - 1 by omega))
        (representable_int (abs_le.mpr ⟨by omega, by omega⟩))
      rw [equal] at kept
      have impossible : value ≤ value - 1 := by exact_mod_cast kept
      omega
    · have kept := rounding.le_round _ (show ((value + 1 : ℤ) : ℚ) ≤ number by
        exact_mod_cast (show value + 1 ≤ number by omega))
        (representable_int (abs_le.mpr ⟨by omega, by omega⟩))
      rw [equal] at kept
      have impossible : value + 1 ≤ value := by exact_mod_cast kept
      omega
  · rintro rfl
    exact rounding.round_int number small.le

end Rounding

/-! ### Rounding the significand -/

/-- A rounding of the rationals to the integers. -/
structure Whole where
  near : ℚ → ℤ
  monotone (first second : ℚ) : first ≤ second → near first ≤ near second
  fixes (number : ℤ) : near number = number

theorem Whole.near_le (whole : Whole) {number : ℚ} {bound : ℤ} (below : number ≤ bound) :
    whole.near number ≤ bound :=
  (whole.monotone _ _ below).trans (whole.fixes bound).le

theorem Whole.le_near (whole : Whole) {number : ℚ} {bound : ℤ} (above : (bound : ℚ) ≤ number) :
    bound ≤ whole.near number :=
  (whole.fixes bound).ge.trans (whole.monotone _ _ above)

/-- The weight of the last digit of a number. -/
def lastDigit (bits : Nat) (number : ℚ) : ℚ := 2 ^ (Int.log 2 |number| - bits)

theorem lastDigit_pos (bits : Nat) (number : ℚ) : 0 < lastDigit bits number :=
  zpow_pos two_pos _

theorem mul_lastDigit (bits : Nat) (number : ℚ) :
    (2 : ℚ) ^ bits * lastDigit bits number = 2 ^ Int.log 2 |number| := by
  rw [lastDigit, ← zpow_natCast, ← zpow_add₀ two_ne_zero, add_sub_cancel]

theorem mul_lastDigit_succ (bits : Nat) (number : ℚ) :
    (2 : ℚ) ^ (bits + 1) * lastDigit bits number = 2 ^ (Int.log 2 |number| + 1) := by
  rw [pow_succ', mul_assoc, mul_lastDigit, zpow_add_one₀ two_ne_zero, mul_comm]

/-- The number with its significand rounded to an integer. -/
def floating (whole : Whole) (bits : Nat) (number : ℚ) : ℚ :=
  whole.near (number / lastDigit bits number) * lastDigit bits number

theorem floating_zero (whole : Whole) (bits : Nat) : floating whole bits 0 = 0 := by
  have kept := whole.fixes 0
  rw [Int.cast_zero] at kept
  rw [floating, zero_div, kept, Int.cast_zero, zero_mul]

/-- A positive number stays between the powers of two around it. -/
theorem floating_pos (whole : Whole) (bits : Nat) {number : ℚ} (positive : 0 < number) :
    (2 : ℚ) ^ Int.log 2 number ≤ floating whole bits number ∧
      floating whole bits number ≤ 2 ^ (Int.log 2 number + 1) := by
  have unit := lastDigit_pos bits number
  have low := mul_lastDigit bits number
  have high := mul_lastDigit_succ bits number
  rw [abs_of_pos positive] at low high
  constructor
  · rw [← low]
    refine mul_le_mul_of_nonneg_right ?_ unit.le
    have above : (((2 : ℤ) ^ bits : ℤ) : ℚ) ≤ number / lastDigit bits number := by
      rw [le_div_iff₀ unit]
      push_cast
      rw [low]
      exact Int.zpow_log_le_self one_lt_two positive
    exact_mod_cast whole.le_near above
  · rw [← high]
    refine mul_le_mul_of_nonneg_right ?_ unit.le
    have below : number / lastDigit bits number ≤ (((2 : ℤ) ^ (bits + 1) : ℤ) : ℚ) := by
      rw [div_le_iff₀ unit]
      push_cast
      rw [high]
      exact (Int.lt_zpow_succ_log_self one_lt_two number).le
    exact_mod_cast whole.near_le below

/-- A negative number stays between the powers of two around it. -/
theorem floating_neg (whole : Whole) (bits : Nat) {number : ℚ} (negative : number < 0) :
    -(2 : ℚ) ^ (Int.log 2 (-number) + 1) ≤ floating whole bits number ∧
      floating whole bits number ≤ -2 ^ Int.log 2 (-number) := by
  have unit := lastDigit_pos bits number
  have low := mul_lastDigit bits number
  have high := mul_lastDigit_succ bits number
  rw [abs_of_neg negative] at low high
  constructor
  · rw [← high, ← neg_mul]
    refine mul_le_mul_of_nonneg_right ?_ unit.le
    have above : ((-2 ^ (bits + 1) : ℤ) : ℚ) ≤ number / lastDigit bits number := by
      rw [le_div_iff₀ unit]
      push_cast
      rw [neg_mul, high]
      exact neg_le_of_neg_le (Int.lt_zpow_succ_log_self one_lt_two (-number)).le
    exact_mod_cast whole.le_near above
  · rw [← low, ← neg_mul]
    refine mul_le_mul_of_nonneg_right ?_ unit.le
    have below : number / lastDigit bits number ≤ ((-2 ^ bits : ℤ) : ℚ) := by
      rw [div_le_iff₀ unit]
      push_cast
      rw [neg_mul, low]
      exact le_neg_of_le_neg (Int.zpow_log_le_self one_lt_two (neg_pos.mpr negative))
    exact_mod_cast whole.near_le below

theorem floating_of_log_eq (whole : Whole) (bits : Nat) {first second : ℚ}
    (ordered : first ≤ second) (level : Int.log 2 |first| = Int.log 2 |second|) :
    floating whole bits first ≤ floating whole bits second := by
  have unit : lastDigit bits first = lastDigit bits second := by
    rw [lastDigit, lastDigit, level]
  rw [floating, floating, unit]
  refine mul_le_mul_of_nonneg_right ?_ (lastDigit_pos bits second).le
  exact_mod_cast whole.monotone _ _ (div_le_div_of_nonneg_right ordered (lastDigit_pos bits second).le)

theorem floating_monotone (whole : Whole) (bits : Nat) : Monotone (floating whole bits) := by
  intro first second ordered
  have power {low high : ℤ} (less : low < high) : (2 : ℚ) ^ (low + 1) ≤ 2 ^ high :=
    zpow_le_zpow_right₀ one_le_two less
  rcases lt_trichotomy first 0 with below | rfl | above
  · have left := floating_neg whole bits below
    rcases lt_trichotomy second 0 with negative | rfl | positive
    · have right := floating_neg whole bits negative
      have levels := Int.log_mono_right (b := 2) (neg_pos.mpr negative) (neg_le_neg ordered)
      rcases levels.lt_or_eq with less | level
      · have step := power less
        linarith
      · refine floating_of_log_eq whole bits ordered ?_
        rw [abs_of_neg below, abs_of_neg negative, level]
    · rw [floating_zero]
      have power := zpow_pos (two_pos (α := ℚ)) (Int.log 2 (-first))
      linarith
    · have right := floating_pos whole bits positive
      have powers := zpow_pos (two_pos (α := ℚ)) (Int.log 2 second)
      have power := zpow_pos (two_pos (α := ℚ)) (Int.log 2 (-first))
      linarith
  · rcases ordered.lt_or_eq with positive | rfl
    · have right := floating_pos whole bits positive
      have power := zpow_pos (two_pos (α := ℚ)) (Int.log 2 second)
      rw [floating_zero]
      linarith
    · exact le_refl _
  · have left := floating_pos whole bits above
    have positive := above.trans_le ordered
    have right := floating_pos whole bits positive
    rcases (Int.log_mono_right (b := 2) above ordered).lt_or_eq with less | level
    · have step := power less
      linarith
    · refine floating_of_log_eq whole bits ordered ?_
      rw [abs_of_pos above, abs_of_pos positive, level]

theorem floating_representable (whole : Whole) (bits : Nat) (number : ℚ) :
    Representable bits (floating whole bits number) := by
  have unit := lastDigit_pos bits number
  have high := mul_lastDigit_succ bits number
  have bound : |number| < 2 ^ (bits + 1) * lastDigit bits number :=
    (Int.lt_zpow_succ_log_self one_lt_two |number|).trans_eq high.symm
  refine representable_scaled (abs_le.mpr ⟨whole.le_near ?_, whole.near_le ?_⟩) _
  · rw [le_div_iff₀ unit]
    push_cast
    rw [neg_mul]
    exact (abs_lt.mp bound).1.le
  · rw [div_le_iff₀ unit]
    push_cast
    exact (abs_lt.mp bound).2.le

/-- The significand of a representable number is an integer. -/
theorem exists_significand {bits : Nat} {number : ℚ} (fits : Representable bits number) :
    ∃ significand : ℤ, number / lastDigit bits number = significand := by
  by_cases zero : number = 0
  · exact ⟨0, by rw [zero, zero_div, Int.cast_zero]⟩
  have unit := lastDigit_pos bits number
  have low := mul_lastDigit bits number
  have reached : (2 : ℚ) ^ Int.log 2 |number| ≤ |number| :=
    Int.zpow_log_le_self one_lt_two (abs_pos.mpr zero)
  obtain ⟨digits, scale, small, equal⟩ := fits
  by_cases fine : Int.log 2 |number| - bits ≤ scale
  · obtain ⟨shift, shiftEq⟩ := Int.eq_ofNat_of_zero_le (sub_nonneg.mpr fine)
    refine ⟨digits * 2 ^ shift, ?_⟩
    have split : (2 : ℚ) ^ scale = 2 ^ shift * lastDigit bits number := by
      rw [lastDigit, ← zpow_natCast, ← zpow_add₀ two_ne_zero]
      congr 1
      have : (shift : ℤ) = scale - (Int.log 2 |number| - bits) := shiftEq.symm
      omega
    rw [div_eq_iff unit.ne', Int.cast_mul, Int.cast_pow, Int.cast_ofNat, mul_assoc, ← split, equal]
  · -- the digits carried into one more: the number is a power of two
    have coarse : |number| ≤ 2 ^ Int.log 2 |number| := by
      have bound : |(digits : ℚ)| ≤ 2 ^ (bits + 1) := by exact_mod_cast small
      have positive : (0 : ℚ) < 2 ^ scale := zpow_pos two_pos scale
      calc |number| = |(digits : ℚ)| * 2 ^ scale := by
            conv_lhs => rw [equal, abs_mul, abs_of_pos positive]
        _ ≤ 2 ^ (bits + 1) * 2 ^ scale := mul_le_mul_of_nonneg_right bound positive.le
        _ = 2 ^ ((bits : ℤ) + 1 + scale) := by
          rw [zpow_add₀ two_ne_zero, ← zpow_natCast]
          push_cast
          rfl
        _ ≤ 2 ^ Int.log 2 |number| := zpow_le_zpow_right₀ one_le_two (by omega)
    have power : |number| = 2 ^ bits * lastDigit bits number :=
      (le_antisymm coarse reached).trans low.symm
    rcases abs_choice number with positive | negative
    · refine ⟨2 ^ bits, ?_⟩
      rw [div_eq_iff unit.ne']
      push_cast
      rw [← power, positive]
    · refine ⟨-2 ^ bits, ?_⟩
      rw [div_eq_iff unit.ne']
      push_cast
      rw [neg_mul, ← power, negative, neg_neg]

theorem floating_fixes (whole : Whole) (bits : Nat) {number : ℚ}
    (fits : Representable bits number) : floating whole bits number = number := by
  obtain ⟨significand, equal⟩ := exists_significand fits
  rw [floating, equal, whole.fixes, ← equal, div_mul_cancel₀ _ (lastDigit_pos bits number).ne']

/-- The rounding that rounds the significand. -/
def Whole.rounding (whole : Whole) (bits : Nat) : Rounding bits where
  round := floating whole bits
  monotone := floating_monotone whole bits
  representable := floating_representable whole bits
  fixes _ fits := floating_fixes whole bits fits

/-! ### Ties to even -/

/-- The nearest integer, the even one of two that are as near. -/
def nearEven (number : ℚ) : ℤ :=
  if number - ⌊number⌋ < 1 / 2 then ⌊number⌋
  else if 1 / 2 < number - ⌊number⌋ then ⌊number⌋ + 1
  else ⌊number⌋ + ⌊number⌋ % 2

theorem nearEven_cases (number : ℚ) :
    ⌊number⌋ ≤ nearEven number ∧ nearEven number ≤ ⌊number⌋ + 1 := by
  unfold nearEven
  split
  · omega
  · split <;> omega

theorem nearEven_monotone (first second : ℚ) (ordered : first ≤ second) :
    nearEven first ≤ nearEven second := by
  have firstCases := nearEven_cases first
  have secondCases := nearEven_cases second
  rcases (Int.floor_mono ordered).lt_or_eq with less | level
  · omega
  · unfold nearEven
    rw [level]
    split_ifs <;> first | omega | (exfalso; linarith)

/-- Ties to even as a rounding to the integers. -/
def halfEven : Whole where
  near := nearEven
  monotone := nearEven_monotone
  fixes number := by
    rw [nearEven, Int.floor_intCast, sub_self, if_pos (by norm_num)]

end Roundings
