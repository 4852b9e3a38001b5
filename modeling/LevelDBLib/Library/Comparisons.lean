/-
This file is the theory of three-way comparisons: functions whose answer is negative,
zero or positive, as `memcmp`. A comparison orders its keys totally, but different keys
may compare as equal. It can be taken along a function, and two comparisons can be taken
one after the other. A target splits a list that is sorted by a comparison into the keys
below it and the others.
-/

import Mathlib.Data.List.TakeWhile

/-- A three-way comparison. -/
structure Comparison (Key : Type) where
  compare : Key → Key → Int
  swap : ∀ one two, compare one two < 0 ↔ 0 < compare two one
  trans : ∀ one two three,
    compare one two ≤ 0 → compare two three ≤ 0 → compare one three ≤ 0

namespace Comparison

variable {Key Image : Type} (cmp : Comparison Key)

/-! ### The order -/

theorem compare_self (key : Key) : cmp.compare key key = 0 := by
  have once := cmp.swap key key
  omega

theorem nonneg_iff (one two : Key) : 0 ≤ cmp.compare one two ↔ cmp.compare two one ≤ 0 := by
  have once := cmp.swap one two
  omega

theorem zero_iff (one two : Key) : cmp.compare one two = 0 ↔ cmp.compare two one = 0 := by
  have once := cmp.swap one two
  have again := cmp.swap two one
  omega

variable {cmp}

theorem lt_of_le_of_lt {one two three : Key} (first : cmp.compare one two ≤ 0)
    (second : cmp.compare two three < 0) : cmp.compare one three < 0 := by
  by_contra less
  have back := (cmp.nonneg_iff one three).mp (Int.not_lt.mp less)
  have around := cmp.trans three one two back first
  have strict := (cmp.swap two three).mp second
  omega

theorem lt_of_lt_of_le {one two three : Key} (first : cmp.compare one two < 0)
    (second : cmp.compare two three ≤ 0) : cmp.compare one three < 0 := by
  by_contra less
  have back := (cmp.nonneg_iff one three).mp (Int.not_lt.mp less)
  have around := cmp.trans two three one second back
  have strict := (cmp.swap one two).mp first
  omega

/-- Equal keys compare alike. -/
theorem zero_trans {one two three : Key} (first : cmp.compare one two = 0)
    (second : cmp.compare two three = 0) : cmp.compare one three = 0 := by
  have below := cmp.trans one two three (Int.le_of_eq first) (Int.le_of_eq second)
  have back := cmp.trans three two one (Int.le_of_eq ((cmp.zero_iff two three).mp second))
    (Int.le_of_eq ((cmp.zero_iff one two).mp first))
  have above := (cmp.nonneg_iff one three).mpr back
  omega

/-! ### New comparisons -/

/-- Keys compared by an image of theirs. -/
def along (cmp : Comparison Image) (image : Key → Image) : Comparison Key where
  compare one two := cmp.compare (image one) (image two)
  swap one two := cmp.swap (image one) (image two)
  trans one two three := cmp.trans (image one) (image two) (image three)

/-- Keys compared by one comparison, and by another one where they are equal. -/
def thenBy (cmp other : Comparison Key) : Comparison Key where
  compare one two := if cmp.compare one two = 0 then other.compare one two else cmp.compare one two
  swap one two := by
    have first := cmp.swap one two
    have zero := cmp.zero_iff one two
    have second := other.swap one two
    by_cases equal : cmp.compare one two = 0
    · rw [if_pos equal, if_pos (zero.mp equal)]
      exact second
    · rw [if_neg equal, if_neg fun back => equal (zero.mpr back)]
      exact first
  trans one two three := by
    intro first second
    by_cases left : cmp.compare one two = 0
    · by_cases right : cmp.compare two three = 0
      · rw [if_pos left] at first
        rw [if_pos right] at second
        rw [if_pos (zero_trans left right)]
        exact other.trans one two three first second
      · rw [if_neg right] at second
        have below : cmp.compare one three < 0 :=
          lt_of_le_of_lt (Int.le_of_eq left) (by omega)
        rw [if_neg (by omega)]
        exact Int.le_of_lt below
    · rw [if_neg left] at first
      have middle : cmp.compare two three ≤ 0 := by
        by_cases right : cmp.compare two three = 0
        · exact Int.le_of_eq right
        · rwa [if_neg right] at second
      have below : cmp.compare one three < 0 := lt_of_lt_of_le (by omega) middle
      rw [if_neg (by omega)]
      exact Int.le_of_lt below

/-- Numbers from the greatest to the smallest. -/
def descending : Comparison Nat where
  compare one two := if two < one then -1 else if one < two then 1 else 0
  swap one two := by
    by_cases less : one < two
    · simp [less, Nat.lt_asymm less]
    · by_cases more : two < one
      · simp [less, more]
      · simp [less, more]
  trans one two three := by
    intro first second
    have le {one two : Nat} (before : (if two < one then (-1 : Int) else
        if one < two then 1 else 0) ≤ 0) : two ≤ one := by
      by_contra less
      rw [if_neg (by omega), if_pos (by omega)] at before
      omega
    have less := Nat.le_trans (le second) (le first)
    rw [if_neg (show ¬ one < three by omega)]
    split <;> decide

/-! ### Sorted lists -/

variable (cmp)

/-- Each key below the next ones. -/
def Sorted (keys : List Key) : Prop := keys.Pairwise fun one two => cmp.compare one two < 0

/-- The keys below a target. -/
def below (target : Key) (keys : List Key) : List Key :=
  keys.takeWhile fun key => cmp.compare key target < 0

/-- The keys from a target on. -/
def above (target : Key) (keys : List Key) : List Key :=
  keys.dropWhile fun key => cmp.compare key target < 0

theorem below_append_above (target : Key) (keys : List Key) :
    cmp.below target keys ++ cmp.above target keys = keys :=
  List.takeWhile_append_dropWhile

theorem lt_of_mem_below {target key : Key} {keys : List Key} (mem : key ∈ cmp.below target keys) :
    cmp.compare key target < 0 := by
  have holds := List.mem_takeWhile_imp mem
  exact of_decide_eq_true holds

variable {cmp}

/-- What follows a key that is not below the target is not below it either. -/
theorem Sorted.le_of_mem_above {target key : Key} {keys : List Key} (sorted : cmp.Sorted keys)
    (mem : key ∈ cmp.above target keys) : 0 ≤ cmp.compare key target := by
  induction keys with
  | nil => cases mem
  | cons first rest hypothesis =>
    obtain ⟨least, sorted⟩ := List.pairwise_cons.mp sorted
    unfold above at mem
    rw [List.dropWhile_cons] at mem
    split at mem
    · exact hypothesis sorted mem
    · next not_below =>
      have head : 0 ≤ cmp.compare first target :=
        Int.not_lt.mp fun less => not_below (decide_eq_true less)
      rcases List.mem_cons.mp mem with rfl | mem
      · exact head
      · have back := (cmp.nonneg_iff first target).mp head
        exact Int.le_of_lt ((cmp.swap target key).mp (lt_of_le_of_lt back (least key mem)))

variable (cmp)

/-- A list with one more key. -/
def insert (key : Key) (keys : List Key) : List Key :=
  cmp.below key keys ++ key :: cmp.above key keys

variable {cmp}

/-- A key that is equal to none in the list keeps it sorted. -/
theorem Sorted.insert {key : Key} {keys : List Key} (sorted : cmp.Sorted keys)
    (new : ∀ other ∈ keys, cmp.compare other key ≠ 0) : cmp.Sorted (cmp.insert key keys) := by
  have whole := sorted
  rw [Sorted, ← below_append_above cmp key keys] at whole
  obtain ⟨front, back, between⟩ := List.pairwise_append.mp whole
  refine List.pairwise_append.mpr ⟨front, List.pairwise_cons.mpr ⟨fun other mem => ?_, back⟩, ?_⟩
  · have after := sorted.le_of_mem_above mem
    have apart := new other (List.dropWhile_sublist _ |>.mem mem)
    exact (cmp.swap key other).mpr (by omega)
  · intro one inFront two inBack
    rcases List.mem_cons.mp inBack with rfl | inBack
    · exact cmp.lt_of_mem_below inFront
    · exact between one inFront two inBack

/-- Where a key is in the list, it is the first one that is not below itself. -/
theorem Sorted.any_zero {keys : List Key} (sorted : cmp.Sorted keys) (key : Key) :
    keys.any (fun other => decide (cmp.compare key other = 0)) =
      (cmp.above key keys).head?.any fun other => decide (cmp.compare key other = 0) := by
  have before : (cmp.below key keys).any (fun other => decide (cmp.compare key other = 0)) =
      false := by
    refine List.any_eq_false.mpr fun other mem equal => ?_
    have less := (cmp.swap other key).mp (cmp.lt_of_mem_below mem)
    have zero := of_decide_eq_true equal
    omega
  have back : ((cmp.above key keys).tail.any fun other => decide (cmp.compare key other = 0)) =
      false := by
    refine List.any_eq_false.mpr fun other mem equal => ?_
    have zero := of_decide_eq_true equal
    cases rest : cmp.above key keys with
    | nil =>
      rw [rest] at mem
      cases mem
    | cons first others =>
      rw [rest] at mem
      have head := sorted.le_of_mem_above (rest ▸ List.mem_cons_self : first ∈ cmp.above key keys)
      have whole := sorted
      rw [Sorted, ← below_append_above cmp key keys, rest] at whole
      have less := (List.pairwise_cons.mp (List.pairwise_append.mp whole).2.1).1 other mem
      have strict := lt_of_le_of_lt ((cmp.nonneg_iff _ _).mp head) less
      omega
  conv => lhs; rw [← below_append_above cmp key keys]
  rw [List.any_append, before, Bool.false_or]
  cases rest : cmp.above key keys with
  | nil => rfl
  | cons first others =>
    rw [rest] at back
    rw [List.any_cons, show others.any _ = false from back, Bool.or_false]
    rfl

/-- The next key is the first one above. -/
theorem Sorted.find_next {front back : List Key} {key : Key}
    (sorted : cmp.Sorted (front ++ key :: back)) :
    (front ++ key :: back).find? (fun other => decide (cmp.compare key other < 0)) = back.head? := by
  obtain ⟨-, behind, between⟩ := List.pairwise_append.mp sorted
  have none' : front.find? (fun other => decide (cmp.compare key other < 0)) = none := by
    refine List.find?_eq_none.mpr fun other mem less => ?_
    have back' := (cmp.swap other key).mp (between other mem key List.mem_cons_self)
    have strict := of_decide_eq_true less
    omega
  have self : decide (cmp.compare key key < 0) = false := by
    rw [cmp.compare_self]
    rfl
  rw [List.find?_append, none', Option.none_or, List.find?_cons, self]
  cases back with
  | nil => rfl
  | cons next back =>
    have less := (List.pairwise_cons.mp behind).1 next List.mem_cons_self
    rw [List.find?_cons, decide_eq_true less]
    rfl

/-- Items that are compared by an image of theirs are split where their images are. -/
theorem map_below_along (cmp : Comparison Image) (image : Key → Image) (target : Key)
    (keys : List Key) :
    ((cmp.along image).below target keys).map image = cmp.below (image target) (keys.map image) := by
  rw [below, below, List.takeWhile_map]
  rfl

theorem map_above_along (cmp : Comparison Image) (image : Key → Image) (target : Key)
    (keys : List Key) :
    ((cmp.along image).above target keys).map image = cmp.above (image target) (keys.map image) := by
  rw [above, above, List.dropWhile_map]
  rfl

theorem Sorted.map_along {cmp : Comparison Image} {image : Key → Image} {keys : List Key} :
    (cmp.along image).Sorted keys ↔ cmp.Sorted (keys.map image) := by
  rw [Sorted, Sorted, List.pairwise_map]
  rfl

end Comparison
