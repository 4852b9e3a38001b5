/-
This file models the two parsers of `util/logging.cpp` that the names of database files are read
with: the decimal number at the front of a text, and the suffix behind the last dot of a name.
Each is followed by what it accepts.
-/

import LevelDBLib.Navi.PathParser
import LevelDBLib.Library.Decimals

namespace LevelDBLib.Navi

open KvDB Decimals PathParser

namespace Logging

/-- The byte `.`. -/
def dot : UInt8 := 46

/-- `c >= '0' && c <= '9'`. -/
def isDigit (c : UInt8) : Bool := 48 ≤ c.toNat && c.toNat ≤ 57

/-- `kMaxUint64`. -/
def kMaxUint64 : Nat := 18446744073709551615

/-- The loop of `ConsumeDecimalNumber`: the number so far and how many digits it has. -/
def consumed : Bytes → Nat → Nat → Option (Nat × Nat × Bytes)
  | [], v, digits => some (v, digits, [])
  | c :: input, v, digits =>
    if isDigit c then
      if v > kMaxUint64 / 10 ∨ v = kMaxUint64 / 10 ∧ c.toNat - 48 > kMaxUint64 % 10 then none
      else consumed input (v * 10 + (c.toNat - 48)) (digits + 1)
    else some (v, digits, c :: input)

/-- `ConsumeDecimalNumber`, which returns the number and what is left of the text. -/
def ConsumeDecimalNumber (input : Bytes) : Option (Nat × Bytes) :=
  match consumed input 0 0 with
  | some (v, digits, rest) => if digits > 0 then some (v, rest) else none
  | none => none

/-- `GetFileSuffix`. -/
def GetFileSuffix (filename : Bytes) : Option Bytes :=
  match find_last_of dot filename with
  | none => none
  | some dotPos =>
    if dotPos = 0 ∨ dotPos ≥ filename.length - 1 then none
    else some ((filename.drop (dotPos + 1)).take (filename.length - 1))

/-! ### Numbers -/

/-- The byte of a digit. -/
def char (digit : Nat) : UInt8 := UInt8.ofNat (48 + digit)

theorem toNat_char {digit : Nat} (small : digit < 10) : (char digit).toNat = 48 + digit := by
  rw [char, UInt8.toNat_ofNat']
  omega

theorem isDigit_char {digit : Nat} (small : digit < 10) : isDigit (char digit) = true := by
  rw [isDigit, toNat_char small]
  simp only [Bool.and_eq_true, decide_eq_true_eq]
  omega

/-- A digit is the byte of what it stands for. -/
theorem char_of_isDigit {c : UInt8} (digit : isDigit c = true) :
    c.toNat - 48 < 10 ∧ char (c.toNat - 48) = c := by
  rw [isDigit, Bool.and_eq_true, decide_eq_true_eq, decide_eq_true_eq] at digit
  refine ⟨by omega, ?_⟩
  rw [char, Nat.add_sub_cancel' digit.1, UInt8.ofNat_toNat]

/-- What is left begins with no digit. -/
def Stops (rest : Bytes) : Prop := ∀ c, rest.head? = some c → isDigit c = false

/-- The check for an overflow is exact. -/
theorem overflow_iff (v digit : Nat) (small : digit < 10) :
    (v > kMaxUint64 / 10 ∨ v = kMaxUint64 / 10 ∧ digit > kMaxUint64 % 10) ↔
      ¬ v * 10 + digit < 18446744073709551616 := by
  unfold kMaxUint64
  omega

/-- A text of digits that begins with a digit. -/
theorem cons_eq_text {c : UInt8} {input rest : Bytes} {word : List Nat}
    (digit : isDigit c = true) (small : ∀ digit ∈ word, digit < 10)
    (split : c :: input = word.map char ++ rest) (stops : Stops rest) :
    ∃ others, word = (c.toNat - 48) :: others ∧ (∀ digit ∈ others, digit < 10) ∧
      input = others.map char ++ rest := by
  cases word with
  | nil =>
    rw [List.map_nil, List.nil_append] at split
    exact absurd digit (by rw [stops c (by rw [← split]; rfl)]; decide)
  | cons first word =>
    obtain ⟨firstSmall, others⟩ := List.forall_mem_cons.mp small
    rw [List.map_cons, List.cons_append] at split
    obtain ⟨firstEq, same⟩ := List.cons.inj split
    refine ⟨word, ?_, others, same⟩
    rw [firstEq, toNat_char firstSmall, Nat.add_sub_cancel_left]

/-- The number so far with one more digit. -/
theorem value_next (v digit : Nat) (word : List Nat) :
    v * 10 ^ (digit :: word).length + value (digit :: word) =
      (v * 10 + digit) * 10 ^ word.length + value word := by
  rw [List.length_cons, value_cons, Nat.pow_succ', Nat.add_mul, Nat.mul_assoc, Nat.add_assoc]

theorem value_start (v : Nat) : v * 10 ^ ([] : List Nat).length + value [] = v := by
  rw [List.length_nil, Nat.pow_zero, Nat.mul_one, value_nil, Nat.add_zero]

/-- The loop takes the digits in front, and fails when their number does not fit. -/
theorem consumed_iff (input : Bytes) (v digits number count : Nat) (rest : Bytes)
    (fits : v < 18446744073709551616) :
    consumed input v digits = some (number, count, rest) ↔
      ∃ word, (∀ digit ∈ word, digit < 10) ∧ number = v * 10 ^ word.length + value word ∧
        number < 18446744073709551616 ∧ count = digits + word.length ∧
        input = word.map char ++ rest ∧ Stops rest := by
  induction input generalizing v digits with
  | nil =>
    rw [consumed]
    constructor
    · intro equal
      cases equal
      exact ⟨[], fun digit listed => absurd listed List.not_mem_nil, (value_start _).symm, fits, rfl,
        rfl, fun c first => by cases first⟩
    · rintro ⟨word, _, numberEq, _, countEq, split, _⟩
      obtain ⟨none, rfl⟩ := List.append_eq_nil_iff.mp split.symm
      obtain rfl := List.map_eq_nil_iff.mp none
      rw [numberEq, countEq, value_start]
      rfl
  | cons c input hypothesis =>
    rw [consumed]
    by_cases digit : isDigit c = true
    · obtain ⟨small, image⟩ := char_of_isDigit digit
      rw [if_pos digit]
      by_cases next : v * 10 + (c.toNat - 48) < 18446744073709551616
      · rw [if_neg (fun overflow => (overflow_iff v _ small).mp overflow next),
          hypothesis _ _ next]
        constructor
        · rintro ⟨word, smallWord, numberEq, bound, countEq, split, stops⟩
          refine ⟨(c.toNat - 48) :: word, List.forall_mem_cons.mpr ⟨small, smallWord⟩, ?_, bound, ?_,
            ?_, stops⟩
          · rw [value_next, numberEq]
          · rw [countEq, List.length_cons, Nat.add_assoc, Nat.add_comm 1]
          · rw [List.map_cons, image, split, List.cons_append]
        · rintro ⟨word, smallWord, numberEq, bound, countEq, split, stops⟩
          obtain ⟨others, rfl, smallOthers, left⟩ := cons_eq_text digit smallWord split stops
          refine ⟨others, smallOthers, ?_, bound, ?_, left, stops⟩
          · rw [numberEq, value_next]
          · rw [countEq, List.length_cons, Nat.add_assoc, Nat.add_comm 1]
      · rw [if_pos ((overflow_iff v _ small).mpr next)]
        refine iff_of_false (fun equal => by cases equal) ?_
        rintro ⟨word, smallWord, numberEq, bound, countEq, split, stops⟩
        obtain ⟨others, rfl, smallOthers, left⟩ := cons_eq_text digit smallWord split stops
        have grows := Nat.le_mul_of_pos_right (v * 10 + (c.toNat - 48))
          (Nat.pow_pos (n := others.length) (show 0 < 10 by decide))
        rw [value_next] at numberEq
        omega
    · rw [if_neg digit]
      constructor
      · intro equal
        cases equal
        refine ⟨[], fun digit listed => absurd listed List.not_mem_nil, (value_start _).symm, fits,
          rfl, rfl, fun other first => ?_⟩
        cases first
        exact Bool.eq_false_iff.mpr digit
      · rintro ⟨word, smallWord, numberEq, bound, countEq, split, stops⟩
        cases word with
        | nil =>
          rw [numberEq, countEq, value_start, split]
          rfl
        | cons first word =>
          rw [List.map_cons, List.cons_append] at split
          obtain ⟨firstEq, _⟩ := List.cons.inj split
          rw [firstEq] at digit
          exact absurd (isDigit_char (smallWord first List.mem_cons_self)) digit

/-- What `ConsumeDecimalNumber` accepts: digits whose number is an `uint64_t`. -/
theorem ConsumeDecimalNumber_iff (input : Bytes) (number : Nat) (rest : Bytes) :
    ConsumeDecimalNumber input = some (number, rest) ↔
      ∃ word, word ≠ [] ∧ (∀ digit ∈ word, digit < 10) ∧ value word = number ∧
        number < 18446744073709551616 ∧ input = word.map char ++ rest ∧ Stops rest := by
  have spec := fun count => consumed_iff input 0 0 number count rest (by decide)
  have plain : ∀ word : List Nat, 0 * 10 ^ word.length + value word = value word := by
    intro word
    rw [Nat.zero_mul, Nat.zero_add]
  unfold ConsumeDecimalNumber
  constructor
  · intro accepted
    split at accepted
    · rename_i v digits left returned
      split at accepted
      · rename_i positive
        cases accepted
        obtain ⟨word, small, numberEq, bound, countEq, split, stops⟩ := (spec digits).mp returned
        rw [plain] at numberEq
        rw [countEq, Nat.zero_add] at positive
        exact ⟨word, List.length_pos_iff.mp positive, small, numberEq.symm, bound, split, stops⟩
      · cases accepted
    · cases accepted
  · rintro ⟨word, nonempty, small, numberEq, bound, split, stops⟩
    have returned := (spec word.length).mpr ⟨word, small, by rw [plain, numberEq], bound,
      (Nat.zero_add _).symm, split, stops⟩
    rw [returned]
    exact if_pos (List.length_pos_iff.mpr nonempty)

/-- A number that was written with zeros in front is read back. -/
theorem ConsumeDecimalNumber_padded (width number : Nat) (rest : Bytes) (positive : 0 < width)
    (bound : number < 18446744073709551616) (stops : Stops rest) :
    ConsumeDecimalNumber ((padded width number).map char ++ rest) = some (number, rest) := by
  refine (ConsumeDecimalNumber_iff _ _ _).mpr ⟨padded width number, ?_, fun digit => padded_lt,
    value_padded width number, bound, rfl, stops⟩
  refine List.length_pos_iff.mp ?_
  rw [length_padded]
  exact Nat.lt_of_lt_of_le positive (Nat.le_max_left _ _)

/-- The text begins with the number. -/
def Begins (input : Bytes) (number : Nat) : Prop :=
  ∃ rest, ConsumeDecimalNumber input = some (number, rest)

/-- What follows a text does not change the number it begins with, if it begins with no digit. -/
theorem begins_append_iff (input rest : Bytes) (number : Nat) (stops : Stops rest) :
    Begins (input ++ rest) number ↔ Begins input number := by
  constructor
  · rintro ⟨left, accepted⟩
    obtain ⟨word, nonempty, small, numberEq, bound, split, stopsLeft⟩ :=
      (ConsumeDecimalNumber_iff _ _ _).mp accepted
    have inside : ∃ middle, input = word.map char ++ middle ∧ left = middle ++ rest := by
      rcases List.append_eq_append_iff.mp split with ⟨others, wordEq, restEq⟩ | ⟨middle, equal⟩
      · cases others with
        | nil =>
          rw [List.append_nil] at wordEq
          rw [List.nil_append] at restEq
          exact ⟨[], by rw [List.append_nil, wordEq], by rw [List.nil_append, restEq]⟩
        | cons c others =>
          have digit : c ∈ word.map char := by
            rw [wordEq]
            exact List.mem_append_right _ List.mem_cons_self
          obtain ⟨value, listed, rfl⟩ := List.mem_map.mp digit
          have stopped := stops (char value) (by rw [restEq]; rfl)
          exact absurd (isDigit_char (small value listed)) (by rw [stopped]; decide)
      · exact ⟨middle, equal⟩
    obtain ⟨middle, inputEq, leftEq⟩ := inside
    refine ⟨middle, (ConsumeDecimalNumber_iff _ _ _).mpr
      ⟨word, nonempty, small, numberEq, bound, inputEq, fun c first => ?_⟩⟩
    refine stopsLeft c ?_
    rw [leftEq, List.head?_append, first]
    rfl
  · rintro ⟨middle, accepted⟩
    obtain ⟨word, nonempty, small, numberEq, bound, split, stopsMiddle⟩ :=
      (ConsumeDecimalNumber_iff _ _ _).mp accepted
    refine ⟨middle ++ rest, (ConsumeDecimalNumber_iff _ _ _).mpr
      ⟨word, nonempty, small, numberEq, bound, by rw [split, List.append_assoc], fun c first => ?_⟩⟩
    cases middle with
    | nil => exact stops c first
    | cons other middle => exact stopsMiddle c first

/-! ### Suffixes -/

/-- What `GetFileSuffix` accepts: a suffix behind a dot that is not the first byte. -/
theorem GetFileSuffix_iff (filename suffix : Bytes) :
    GetFileSuffix filename = some suffix ↔
      ∃ front, front ≠ [] ∧ suffix ≠ [] ∧ dot ∉ suffix ∧ filename = front ++ dot :: suffix := by
  have behind : ∀ front back : Bytes, ((front ++ dot :: back).drop (front.length + 1)).take
      ((front ++ dot :: back).length - 1) = back := by
    intro front back
    rw [List.drop_append, List.drop_of_length_le (Nat.le_succ _), Nat.add_sub_cancel_left,
      List.nil_append, List.drop_one, List.tail_cons, List.length_append, List.length_cons,
      List.take_of_length_le (by omega)]
  have length : ∀ front back : Bytes, (front ++ dot :: back).length - 1 =
      front.length + back.length := by
    intro front back
    rw [List.length_append, List.length_cons]
    omega
  unfold GetFileSuffix
  constructor
  · intro accepted
    split at accepted
    · cases accepted
    · rename_i dotPos found
      obtain ⟨front, back, rfl, last, rfl⟩ := find_last_of_eq_some found
      rw [behind, length] at accepted
      split at accepted
      · cases accepted
      · rename_i inner
        cases accepted
        obtain ⟨first, tail⟩ := not_or.mp inner
        exact ⟨front, List.length_pos_iff.mp (by omega), List.length_pos_iff.mp (by omega), last, rfl⟩
  · rintro ⟨front, nonempty, more, last, rfl⟩
    have first := List.length_pos_iff.mpr nonempty
    have tail := List.length_pos_iff.mpr more
    rw [find_last_of_append dot front suffix last]
    dsimp only
    rw [behind, length, if_neg (by omega)]

end Logging

end LevelDBLib.Navi
