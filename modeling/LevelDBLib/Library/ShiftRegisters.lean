/-
This file is the theory of linear feedback shift registers, the arithmetic of cyclic
redundancy checks. A register takes one bit at a time at its low end, moves down one
place, and adds its polynomial when a bit falls out. Everything is linear over exclusive
or, so what a change of the input does to the register depends on the change alone, and a
register whose polynomial has its highest bit forgets nothing.
-/

import Mathlib.Tactic.Common
import Mathlib.Logic.Function.Iterate

namespace ShiftRegisters

variable {width : Nat}

/-! ### One place -/

/-- The register one place down, with the polynomial added when a bit fell out. -/
def shift (poly register : BitVec width) : BitVec width :=
  if register.getLsbD 0 then register >>> 1 ^^^ poly else register >>> 1

theorem xor_cancel_right (one two : BitVec width) : one ^^^ two ^^^ two = one := by
  rw [BitVec.xor_assoc, BitVec.xor_self, BitVec.xor_zero]

theorem xor_cancel_both (one two common : BitVec width) :
    one ^^^ common ^^^ (two ^^^ common) = one ^^^ two := by
  rw [BitVec.xor_comm two, ← BitVec.xor_assoc, xor_cancel_right]

theorem shift_xor (poly one two : BitVec width) :
    shift poly (one ^^^ two) = shift poly one ^^^ shift poly two := by
  unfold shift
  rw [BitVec.getLsbD_xor, BitVec.ushiftRight_xor_distrib]
  cases one.getLsbD 0 <;> cases two.getLsbD 0 <;> simp only [Bool.xor_true, Bool.xor_false,
    Bool.not_true, Bool.not_false, if_true, if_false, Bool.false_eq_true]
  · exact BitVec.xor_assoc ..
  · ac_rfl
  · exact (xor_cancel_both ..).symm

/-- A register whose lowest bit is clear only moves down. -/
theorem shift_of_low (poly register : BitVec width) (low : register.getLsbD 0 = false) :
    shift poly register = register >>> 1 := by
  rw [shift, if_neg (by rw [low]; exact Bool.false_ne_true)]

/-- A polynomial with its highest bit shows in the register when it was added. -/
theorem shift_ne_zero {poly : BitVec width} (top : poly.msb = true) {register : BitVec width}
    (nonzero : register ≠ 0) : shift poly register ≠ 0 := by
  unfold shift
  split
  · intro zero
    have same : register >>> 1 = poly := by
      rw [← xor_cancel_right (register >>> 1) poly, zero]
      exact BitVec.zero_xor
    rw [← same, BitVec.msb_ushiftRight] at top
    simp at top
  · next low =>
    intro zero
    refine nonzero (BitVec.eq_of_getLsbD_eq fun index bound => ?_)
    refine Eq.trans ?_ BitVec.getLsbD_zero.symm
    cases index with
    | zero => exact (Bool.not_eq_true _).mp low
    | succ index =>
      have bit := congrArg (fun value => BitVec.getLsbD value index) zero
      simpa [BitVec.getLsbD_ushiftRight, Nat.add_comm] using bit

/-! ### Several places -/

theorem iterate_xor (poly : BitVec width) (count : Nat) (one two : BitVec width) :
    (shift poly)^[count] (one ^^^ two) = (shift poly)^[count] one ^^^ (shift poly)^[count] two := by
  induction count generalizing one two with
  | zero => rfl
  | succ count hypothesis => simp only [Function.iterate_succ_apply, shift_xor, hypothesis]

theorem iterate_ne_zero {poly : BitVec width} (top : poly.msb = true) (count : Nat)
    {register : BitVec width} (nonzero : register ≠ 0) : (shift poly)^[count] register ≠ 0 := by
  induction count with
  | zero => exact nonzero
  | succ count hypothesis =>
    rw [Function.iterate_succ_apply']
    exact shift_ne_zero top hypothesis

/-- A register whose lowest bits are clear only moves down through as many places. -/
theorem iterate_of_low (poly : BitVec width) (count : Nat) (register : BitVec width)
    (low : ∀ index < count, register.getLsbD index = false) :
    (shift poly)^[count] register = register >>> count := by
  induction count with
  | zero => simp
  | succ count hypothesis =>
    rw [Function.iterate_succ_apply', hypothesis fun index inside => low index (by omega),
      shift_of_low, BitVec.shiftRight_add]
    rw [BitVec.getLsbD_ushiftRight, Nat.add_zero]
    exact low count (Nat.lt_succ_self count)

/-! ### Bits -/

/-- The word with the bits, the first the lowest. -/
def word : List Bool → BitVec width
  | [] => 0
  | bit :: bits => (BitVec.ofBool bit).setWidth width ^^^ word bits <<< 1

/-- The register behind the bits. -/
def digest (poly register : BitVec width) (bits : List Bool) : BitVec width :=
  bits.foldl (fun register bit => shift poly (register ^^^ (BitVec.ofBool bit).setWidth width))
    register

theorem digest_cons (poly register : BitVec width) (bit : Bool) (bits : List Bool) :
    digest poly register (bit :: bits) =
      digest poly (shift poly (register ^^^ (BitVec.ofBool bit).setWidth width)) bits := rfl

theorem digest_append (poly register : BitVec width) (front back : List Bool) :
    digest poly register (front ++ back) = digest poly (digest poly register front) back :=
  List.foldl_append

theorem getLsbD_word (bits : List Bool) (index : Nat) (bound : index < width) :
    (word bits : BitVec width).getLsbD index = bits.getD index false := by
  induction bits generalizing index with
  | nil => simp [word]
  | cons bit bits hypothesis =>
    rw [word, BitVec.getLsbD_xor, BitVec.getLsbD_setWidth, BitVec.getLsbD_shiftLeft]
    cases index with
    | zero => simp [bound]
    | succ index =>
      rw [List.getD_cons_succ, ← hypothesis index (by omega)]
      simp [bound]

/-- Bits that fit the register can be added all at once. -/
theorem digest_eq_iterate (poly register : BitVec width) (bits : List Bool)
    (fits : bits.length ≤ width) :
    digest poly register bits = (shift poly)^[bits.length] (register ^^^ word bits) := by
  induction bits generalizing register with
  | nil =>
    rw [word]
    exact (BitVec.xor_zero).symm
  | cons bit bits hypothesis =>
    have inside : bits.length + 1 ≤ width := fits
    have moved : shift poly (word bits <<< 1) = word bits := by
      rw [shift_of_low _ _ (by simp)]
      refine BitVec.eq_of_getLsbD_eq fun index bound => ?_
      rw [BitVec.getLsbD_ushiftRight, BitVec.getLsbD_shiftLeft, Nat.add_comm]
      by_cases last : index + 1 < width
      · simp [last]
      · rw [getLsbD_word _ _ bound, List.getD, List.getElem?_eq_none (by omega)]
        simp [last]
    rw [digest_cons, hypothesis _ (by omega), List.length_cons, Function.iterate_succ_apply, word,
      ← BitVec.xor_assoc, shift_xor _ _ (word bits <<< 1), moved]

/-- What a change of the register does to its end. -/
theorem digest_xor (poly one two : BitVec width) (bits : List Bool) :
    digest poly one bits ^^^ digest poly two bits = (shift poly)^[bits.length] (one ^^^ two) := by
  induction bits generalizing one two with
  | nil => rfl
  | cons bit bits hypothesis =>
    rw [digest_cons, digest_cons, hypothesis, List.length_cons, Function.iterate_succ_apply,
      ← shift_xor, xor_cancel_both]

/-- Equal registers go apart over different bits of one length that fits the register, and stay
apart over all bits that follow. -/
theorem digest_ne {poly : BitVec width} (top : poly.msb = true) (register : BitVec width)
    (front one two back : List Bool) (lengths : one.length = two.length)
    (fits : one.length ≤ width) (different : one ≠ two) :
    digest poly register (front ++ one ++ back) ≠ digest poly register (front ++ two ++ back) := by
  have words : (word one : BitVec width) ^^^ word two ≠ 0 := by
    intro same
    refine different (List.ext_getElem lengths fun index inside inside' => ?_)
    have bit := congrArg (fun value => BitVec.getLsbD value index) (BitVec.xor_eq_zero_iff.mp same)
    simp only [getLsbD_word _ _ (show index < width by omega), List.getD,
      List.getElem?_eq_getElem inside, List.getElem?_eq_getElem inside', Option.getD_some] at bit
    exact bit
  intro same
  rw [digest_append, digest_append, digest_append, digest_append, ← BitVec.xor_eq_zero_iff,
    digest_xor] at same
  refine iterate_ne_zero top back.length ?_ same
  rw [digest_eq_iterate _ _ one fits, digest_eq_iterate _ _ two (by omega), ← lengths,
    ← iterate_xor, BitVec.xor_comm _ (word one), BitVec.xor_comm _ (word two), xor_cancel_both]
  exact iterate_ne_zero top _ words

end ShiftRegisters
