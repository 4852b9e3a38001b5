/-
This file is the theory of variable-length integers: a number cut into groups of
seven bits, lowest first, with the eighth bit marking every group but the last,
and the zigzag code that sends numbers of small absolute value to small unsigned
ones.
-/

import Mathlib.Tactic.Common
import Mathlib.Algebra.GroupWithZero.Nat
import Mathlib.Algebra.Group.Int.Defs

namespace Varints

/-! ### Groups -/

/-- The groups of seven bits of a number, lowest first, all but the last marked. -/
def groups (value : Nat) : List Nat :=
  if value < 128 then [value] else (value % 128 + 128) :: groups (value / 128)
termination_by value
decreasing_by omega

theorem groups_of_lt {value : Nat} (last : value < 128) : groups value = [value] := by
  rw [groups, if_pos last]

theorem groups_of_ge {value : Nat} (more : ¬ value < 128) :
    groups value = (value % 128 + 128) :: groups (value / 128) := by
  rw [groups, if_neg more]

theorem groups_ne_nil (value : Nat) : groups value ≠ [] := by
  by_cases last : value < 128
  · rw [groups_of_lt last]
    exact List.cons_ne_nil _ _
  · rw [groups_of_ge last]
    exact List.cons_ne_nil _ _

/-- A number of `7 * count` bits has at most `count` groups. -/
theorem length_groups_le (count value : Nat) (bound : value < 128 ^ (count + 1)) :
    (groups value).length ≤ count + 1 := by
  induction count generalizing value with
  | zero =>
    rw [groups_of_lt (by simpa using bound)]
    exact Nat.le_refl _
  | succ count hypothesis =>
    by_cases last : value < 128
    · rw [groups_of_lt last, List.length_singleton]
      omega
    · rw [groups_of_ge last, List.length_cons]
      rw [Nat.pow_succ] at bound
      have shorter := hypothesis (value / 128) (Nat.div_lt_of_lt_mul (by rwa [Nat.mul_comm]))
      omega

/-! ### Zigzag -/

/-- The sign moved to the lowest bit, the other bits flipped when it is set. -/
def zig {width : Nat} (value : BitVec (width + 1)) : BitVec (width + 1) :=
  (value <<< 1) ^^^ value.sshiftRight width

def zag {width : Nat} (value : BitVec (width + 1)) : BitVec (width + 1) :=
  -(value &&& 1#(width + 1)) ^^^ (value >>> 1)

/-- The lowest bit spread over the whole word. -/
theorem neg_and_one {width : Nat} (value : BitVec (width + 1)) :
    -(value &&& 1#(width + 1)) =
      if value.getLsbD 0 then BitVec.allOnes (width + 1) else 0#(width + 1) := by
  have low : value &&& 1#(width + 1) = if value.getLsbD 0 then 1#(width + 1) else 0 := by
    ext index bound
    cases lowest : value.getLsbD 0 <;> by_cases zero : index = 0 <;>
      simp_all [← BitVec.getLsbD_eq_getElem, BitVec.getLsbD_one]
  rw [low]
  cases value.getLsbD 0 with
  | true => exact BitVec.neg_one_eq_allOnes
  | false => exact BitVec.neg_zero _

theorem getLsbD_sign {width : Nat} (value : BitVec (width + 1)) (index : Nat)
    (bound : index < width + 1) : (value.sshiftRight width).getLsbD index = value.msb := by
  rw [BitVec.getLsbD_sshiftRight, BitVec.msb_eq_getLsbD_last]
  by_cases first : index = 0
  · simp [first]
  · simp [show ¬ width + 1 ≤ index by omega, show ¬ width + index < width + 1 by omega]

theorem getLsbD_zig_zero {width : Nat} (value : BitVec (width + 1)) :
    (zig value).getLsbD 0 = value.msb := by
  rw [zig, BitVec.getLsbD_xor, getLsbD_sign value 0 (Nat.succ_pos width)]
  simp

theorem getLsbD_zig_succ {width : Nat} (value : BitVec (width + 1)) (index : Nat)
    (bound : index + 1 < width + 1) :
    (zig value).getLsbD (index + 1) = (value.getLsbD index ^^ value.msb) := by
  rw [zig, BitVec.getLsbD_xor, getLsbD_sign value _ bound, BitVec.getLsbD_shiftLeft]
  simp [show index < width by omega]

theorem zag_zig {width : Nat} (value : BitVec (width + 1)) : zag (zig value) = value := by
  refine BitVec.eq_of_getLsbD_eq fun index bound => ?_
  rw [zag, neg_and_one, getLsbD_zig_zero, BitVec.getLsbD_xor, BitVec.getLsbD_ushiftRight,
    Nat.add_comm 1]
  by_cases top : index = width
  · subst top
    rw [BitVec.getLsbD_of_ge (zig value) _ (Nat.le_refl _), BitVec.msb_eq_getLsbD_last,
      Nat.add_sub_cancel]
    cases value.getLsbD index <;> simp
  · rw [getLsbD_zig_succ value index (by omega)]
    cases value.msb <;> simp [bound]

/-- The code of a value leaves the highest bit free when the value has a bit to spare. -/
theorem msb_zig_eq_false_iff {width : Nat} (value : BitVec (width + 2)) :
    (zig value).msb = false ↔ -(2 ^ width : Int) ≤ value.toInt ∧ value.toInt < 2 ^ width := by
  have top : (zig value).msb = (value.getLsbD width ^^ value.msb) := by
    rw [BitVec.msb_eq_getLsbD_last]
    exact getLsbD_zig_succ value width (by omega)
  have next : value.getLsbD width = decide (value.toNat / 2 ^ width % 2 = 1) :=
    Nat.testBit_eq_decide_div_mod_eq
  have sign : value.msb = decide (2 ^ (width + 1) ≤ value.toNat) :=
    BitVec.msb_eq_decide value
  have bound := value.isLt
  have number := BitVec.toInt_eq_toNat_cond value
  rw [top, next, sign, number]
  have half : (2 ^ (width + 1) : Nat) = 2 * 2 ^ width := by rw [Nat.pow_succ, Nat.mul_comm]
  have power : (2 ^ (width + 2) : Nat) = 4 * 2 ^ width := by
    rw [Nat.pow_add, Nat.mul_comm]
  rw [power] at bound
  rw [power, half, show (2 ^ width : Int) = ((2 ^ width : Nat) : Int) by norm_cast]
  have positive : 0 < 2 ^ width := Nat.pow_pos (by decide)
  generalize 2 ^ width = unit at bound positive ⊢
  -- the two highest bits say in which quarter of the range the value lies
  have below := Nat.div_mul_le_self value.toNat unit
  have above := Nat.lt_div_mul_add (a := value.toNat) positive
  have quarter : value.toNat / unit < 4 := Nat.div_lt_of_lt_mul (by rwa [Nat.mul_comm])
  have alike (one other : Bool) : (one ^^ other) = false ↔ one = other := by
    cases one <;> cases other <;> decide
  rw [alike, decide_eq_decide]
  generalize value.toNat / unit = quotient at below above quarter ⊢
  have quarters : quotient = 0 ∨ quotient = 1 ∨ quotient = 2 ∨ quotient = 3 := by omega
  rcases quarters with rfl | rfl | rfl | rfl <;> split <;> omega

end Varints
