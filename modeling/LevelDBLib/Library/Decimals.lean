/-
This file is the theory of decimal numbers that are written with a least width: zeros stand in
front of a number that is too short. Such a text gives its number back. Two texts of one length
are ordered as their numbers are; with a letter behind them that comes before every digit, a
shorter one is compared with as many digits of the longer one.
-/

import LevelDBLib.Library.Numerals

namespace Decimals

/-! ### Words of digits -/

/-- The number that the digits say, the highest one first. -/
def value (word : List Nat) : Nat := Nat.ofDigits 10 word.reverse

@[simp] theorem value_nil : value [] = 0 := rfl

theorem value_cons (digit : Nat) (word : List Nat) :
    value (digit :: word) = digit * 10 ^ word.length + value word := Numerals.value_cons digit word

theorem value_append (first second : List Nat) :
    value (first ++ second) = value first * 10 ^ second.length + value second :=
  Numerals.value_append first second

theorem value_lt (word : List Nat) (digits : ∀ digit ∈ word, digit < 10) :
    value word < 10 ^ word.length := Numerals.value_lt (by decide) word digits

/-- The number of the first digits. -/
theorem value_take (word : List Nat) (digits : ∀ digit ∈ word, digit < 10) (count : Nat) :
    value (word.take count) = value word / 10 ^ (word.length - count) := by
  have split := value_append (word.take count) (word.drop count)
  have small := value_lt (word.drop count) fun digit listed => digits digit (List.mem_of_mem_drop listed)
  rw [List.take_append_drop, List.length_drop] at split
  rw [List.length_drop] at small
  rw [split, Nat.add_comm, Nat.add_mul_div_right _ _ (Nat.pow_pos (by decide)),
    Nat.div_eq_of_lt small, Nat.zero_add]

/-! ### Padding -/

/-- The digits of a number, with zeros in front of them up to the width. -/
def padded (width number : Nat) : List Nat := (Nat.digits 10 number).reverse.leftpad width 0

theorem padded_eq (width number : Nat) :
    padded width number =
      List.replicate (width - (Nat.digits 10 number).length) 0 ++ (Nat.digits 10 number).reverse := by
  rw [padded, List.leftpad, List.length_reverse]

@[simp] theorem value_padded (width number : Nat) : value (padded width number) = number := by
  rw [padded_eq, value, List.reverse_append, List.reverse_reverse, List.reverse_replicate,
    Nat.ofDigits_append_replicate_zero, Nat.ofDigits_digits]

theorem padded_lt {width number digit : Nat} (listed : digit ∈ padded width number) :
    digit < 10 := by
  rw [padded_eq, List.mem_append, List.mem_reverse] at listed
  rcases listed with zero | listed
  · rw [List.eq_of_mem_replicate zero]
    decide
  · exact Nat.digits_lt_base (by decide) listed

theorem length_padded (width number : Nat) :
    (padded width number).length = max width (Nat.digits 10 number).length := by
  rw [padded, List.length_leftpad, List.length_reverse]

theorem length_padded_mono (width : Nat) {first second : Nat} (le : first ≤ second) :
    (padded width first).length ≤ (padded width second).length := by
  rw [length_padded, length_padded]
  exact Nat.max_le.mpr ⟨Nat.le_max_left _ _,
    Nat.le_trans (Nat.le_length_digits_le 10 _ _ le) (Nat.le_max_right _ _)⟩

/-! ### The order of texts -/

section Texts

variable {Letter : Type} [LT Letter] (letter : Nat → Letter)

/-- Digits have letters in their order. -/
structure Ordered (letter : Nat → Letter) : Prop where
  lt : ∀ first < 10, ∀ second < 10, letter first < letter second ↔ first < second
  eq : ∀ first < 10, ∀ second < 10, letter first = letter second ↔ first = second

variable {letter}

/-- Words of one length are ordered as their numbers, and equal ones as what follows them. -/
theorem text_lt_iff (ordered : Ordered letter) (first second : List Nat)
    (lengths : first.length = second.length) (digitsFirst : ∀ digit ∈ first, digit < 10)
    (digitsSecond : ∀ digit ∈ second, digit < 10) (one other : List Letter) :
    first.map letter ++ one < second.map letter ++ other ↔
      value first < value second ∨ value first = value second ∧ one < other :=
  Numerals.text_lt_iff (by decide) ⟨ordered.lt, ordered.eq⟩ first second lengths digitsFirst
    digitsSecond one other

/-- A longer word in front of a shorter one, both in front of a letter that comes before all digits:
its first digits say a smaller number. -/
theorem text_stop_lt_iff (ordered : Ordered letter) {stop : Letter}
    (before : ∀ digit < 10, ¬ letter digit < stop ∧ letter digit ≠ stop) (first second : List Nat)
    (lengths : first.length < second.length) (digitsFirst : ∀ digit ∈ first, digit < 10)
    (digitsSecond : ∀ digit ∈ second, digit < 10) (one other : List Letter) :
    second.map letter ++ stop :: other < first.map letter ++ stop :: one ↔
      value second / 10 ^ (second.length - first.length) < value first := by
  obtain ⟨next, rest, split⟩ : ∃ next rest, second.drop first.length = next :: rest :=
    List.exists_cons_of_length_pos (by rw [List.length_drop]; omega)
  have digitsTaken : ∀ digit ∈ second.take first.length, digit < 10 :=
    fun digit listed => digitsSecond digit (List.mem_of_mem_take listed)
  have digitNext : next < 10 := digitsSecond next
    (List.mem_of_mem_drop (by rw [split]; exact List.mem_cons_self))
  have taken : (second.take first.length).length = first.length := by
    rw [List.length_take, Nat.min_eq_left (Nat.le_of_lt lengths)]
  have whole : second.map letter ++ stop :: other =
      (second.take first.length).map letter ++ (letter next :: (rest.map letter ++ stop :: other)) := by
    conv_lhs => rw [← List.take_append_drop first.length second, split]
    rw [List.map_append, List.map_cons, List.append_assoc, List.cons_append]
  rw [whole, text_lt_iff ordered _ _ taken digitsTaken digitsFirst, value_take second digitsSecond,
    List.cons_lt_cons_iff]
  refine or_iff_left ?_
  rintro ⟨_, less | ⟨same, _⟩⟩
  · exact (before next digitNext).1 less
  · exact (before next digitNext).2 same

end Texts

end Decimals
