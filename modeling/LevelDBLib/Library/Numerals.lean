/-
This file is the theory of numbers that are written with the digits of a base, the highest digit
first. Words of one length are ordered as their numbers are, whatever letters stand for the digits,
as long as the letters are in the order of the digits.
-/

import Mathlib.Data.Nat.Digits.Lemmas

namespace Numerals

/-- The number that the digits say, the highest one first. -/
def value (base : Nat) (word : List Nat) : Nat := Nat.ofDigits base word.reverse

/-! ### Numbers in two parts -/

section Parts

variable {size high high' low low' : Nat} (small : low < size) (small' : low' < size)

include small small'

/-- The high parts decide, and the low ones where the high parts are the same. -/
theorem mul_add_lt_iff :
    high * size + low < high' * size + low' ↔ high < high' ∨ high = high' ∧ low < low' := by
  rcases Nat.lt_trichotomy high high' with less | rfl | more
  · have next := Nat.mul_le_mul_right size less
    rw [Nat.succ_mul] at next
    exact iff_of_true (by omega) (.inl less)
  · rw [Nat.add_lt_add_iff_left]
    exact ⟨fun less => .inr ⟨rfl, less⟩, fun cases => (cases.resolve_left (Nat.lt_irrefl _)).2⟩
  · have next := Nat.mul_le_mul_right size more
    rw [Nat.succ_mul] at next
    refine iff_of_false (by omega) ?_
    rintro (less | ⟨equal, _⟩)
    · exact Nat.lt_asymm more less
    · exact Nat.ne_of_gt more equal

theorem mul_add_eq_iff :
    high * size + low = high' * size + low' ↔ high = high' ∧ low = low' := by
  refine ⟨fun equal => ?_, fun ⟨highs, lows⟩ => by rw [highs, lows]⟩
  have positive : 0 < size := Nat.zero_lt_of_lt small
  have highs : high = high' := by
    have quotients := congrArg (· / size) equal
    rwa [Nat.mul_comm high, Nat.mul_comm high', Nat.mul_add_div positive,
      Nat.mul_add_div positive, Nat.div_eq_of_lt small, Nat.div_eq_of_lt small', Nat.add_zero,
      Nat.add_zero] at quotients
  subst highs
  exact ⟨rfl, Nat.add_left_cancel equal⟩

end Parts

/-! ### Words -/

section Words

variable {base : Nat}

@[simp] theorem value_nil : value base [] = 0 := rfl

theorem value_cons (digit : Nat) (word : List Nat) :
    value base (digit :: word) = digit * base ^ word.length + value base word := by
  rw [value, Nat.ofDigits_reverse_cons, Nat.mul_comm, Nat.add_comm]
  rfl

theorem value_append (first second : List Nat) :
    value base (first ++ second) = value base first * base ^ second.length + value base second := by
  rw [value, List.reverse_append, Nat.ofDigits_append, List.length_reverse, Nat.add_comm,
    Nat.mul_comm]
  rfl

theorem value_lt (positive : 1 < base) (word : List Nat) (digits : ∀ digit ∈ word, digit < base) :
    value base word < base ^ word.length := by
  have bound := Nat.ofDigits_lt_base_pow_length positive (l := word.reverse)
    fun digit listed => digits digit (List.mem_reverse.mp listed)
  rwa [List.length_reverse] at bound

/-- Words of one length that say the same number are the same. -/
theorem value_injective (positive : 1 < base) {first second : List Nat}
    (lengths : first.length = second.length) (digitsFirst : ∀ digit ∈ first, digit < base)
    (digitsSecond : ∀ digit ∈ second, digit < base)
    (same : value base first = value base second) : first = second := by
  refine List.reverse_injective (Nat.ofDigits_inj_of_len_eq positive ?_ ?_ ?_ same)
  · rw [List.length_reverse, List.length_reverse, lengths]
  · exact fun digit listed => digitsFirst digit (List.mem_reverse.mp listed)
  · exact fun digit listed => digitsSecond digit (List.mem_reverse.mp listed)

end Words

/-! ### The order of texts -/

section Texts

variable {Letter : Type} [LT Letter]

/-- Digits have letters in their order. -/
structure Ordered (base : Nat) (letter : Nat → Letter) : Prop where
  lt : ∀ first < base, ∀ second < base, letter first < letter second ↔ first < second
  eq : ∀ first < base, ∀ second < base, letter first = letter second ↔ first = second

variable {base : Nat} {letter : Nat → Letter}

/-- Words of one length are ordered as their numbers, and equal ones as what follows them. -/
theorem text_lt_iff (positive : 1 < base) (ordered : Ordered base letter) (first second : List Nat)
    (lengths : first.length = second.length) (digitsFirst : ∀ digit ∈ first, digit < base)
    (digitsSecond : ∀ digit ∈ second, digit < base) (one other : List Letter) :
    first.map letter ++ one < second.map letter ++ other ↔
      value base first < value base second ∨
        value base first = value base second ∧ one < other := by
  induction first generalizing second with
  | nil =>
    rw [List.eq_nil_of_length_eq_zero lengths.symm, List.map_nil, List.nil_append, List.nil_append]
    exact ⟨fun less => .inr ⟨rfl, less⟩,
      fun cases => (cases.resolve_left (Nat.lt_irrefl _)).2⟩
  | cons digit first hypothesis =>
    cases second with
    | nil => cases lengths
    | cons digit' second =>
      have lengths := Nat.succ.inj lengths
      have digitsFirst := List.forall_mem_cons.mp digitsFirst
      have digitsSecond := List.forall_mem_cons.mp digitsSecond
      have smallFirst := value_lt positive first digitsFirst.2
      have smallSecond := value_lt positive second digitsSecond.2
      rw [List.map_cons, List.map_cons, List.cons_append, List.cons_append, List.cons_lt_cons_iff,
        ordered.lt _ digitsFirst.1 _ digitsSecond.1, ordered.eq _ digitsFirst.1 _ digitsSecond.1,
        hypothesis second lengths digitsFirst.2 digitsSecond.2, value_cons, value_cons, lengths]
      rw [lengths] at smallFirst
      rw [mul_add_lt_iff smallFirst smallSecond, mul_add_eq_iff smallFirst smallSecond, and_or_left,
        or_assoc, and_assoc]

/-- A word of the length of another one is before it exactly when its number is. -/
theorem map_lt_iff (positive : 1 < base) (ordered : Ordered base letter) (first second : List Nat)
    (lengths : first.length = second.length) (digitsFirst : ∀ digit ∈ first, digit < base)
    (digitsSecond : ∀ digit ∈ second, digit < base) :
    first.map letter < second.map letter ↔ value base first < value base second := by
  have texts := text_lt_iff positive ordered first second lengths digitsFirst digitsSecond [] []
  rw [List.append_nil, List.append_nil] at texts
  exact texts.trans (or_iff_left fun both => List.not_lt_nil [] both.2)

end Texts

end Numerals
