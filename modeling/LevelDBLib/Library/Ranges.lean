/-
This file is the theory of sorted ranges under a strict order that need not be
total: what `std::lower_bound`, `std::upper_bound` and `std::sort` do on a list of
items that are compared by a key.

A value splits a sorted range into the items below it, those that are neither
below nor above it, and those above it (`Split`). Everything a binary search
decides is decided by this split.
-/

import Mathlib.Data.List.Sort
import Mathlib.Order.Defs.Unbundled

namespace Ranges

variable {Item Key : Type} [LT Key]

/-! ### Strict orders -/

section Orders

variable [IsStrictOrder Key (· < ·)]

theorem lt_chain {first second third : Key} (one : first < second) (two : second < third) :
    first < third :=
  IsTrans.trans _ _ _ one two

theorem not_lt_self (value : Key) : ¬ value < value :=
  Std.Irrefl.irrefl value

theorem lt_asymmetric {first second : Key} (less : first < second) : ¬ second < first :=
  fun greater => not_lt_self first (lt_chain less greater)

end Orders

/-- Neither of the two keys is less than the other. -/
def Level (first second : Key) : Prop := ¬ first < second ∧ ¬ second < first

theorem level_self [IsStrictOrder Key (· < ·)] (value : Key) : Level value value :=
  ⟨not_lt_self value, not_lt_self value⟩

/-- In a total order only equal keys are level. -/
theorem level_iff_eq [IsStrictTotalOrder Key (· < ·)] (first second : Key) :
    Level first second ↔ first = second := by
  constructor
  · rintro ⟨notLess, notGreater⟩
    exact Std.Trichotomous.trichotomous first second notLess notGreater
  · rintro rfl
    exact level_self first

/-! ### Searching -/

section Searching

variable [DecidableLT Key]

instance (first second : Key) : Decidable (Level first second) :=
  inferInstanceAs (Decidable (_ ∧ _))

/-- `std::lower_bound`: the place of the first item that is not less than the value. -/
def lowerBound (key : Item → Key) (items : List Item) (value : Key) : Nat :=
  items.findIdx fun item => !decide (key item < value)

/-- `std::upper_bound`: the place of the first item that the value is less than. -/
def upperBound (key : Item → Key) (items : List Item) (value : Key) : Nat :=
  items.findIdx fun item => decide (value < key item)

/-- The items in the order of their keys, each less than the next. -/
def Sorted (key : Item → Key) (items : List Item) : Prop :=
  items.Pairwise fun first second => key first < key second

/-- A range split by a value. -/
structure Split (key : Item → Key) (items : List Item) (value : Key)
    (before level after : List Item) : Prop where
  joined : items = before ++ level ++ after
  below : ∀ item ∈ before, key item < value
  level : ∀ item ∈ level, Level (key item) value
  above : ∀ item ∈ after, value < key item

omit [DecidableLT Key] in
/-- An item goes where everything in front of it is below it and everything behind it above. -/
theorem sorted_insert {key : Item → Key} {front back : List Item} {item : Item}
    (sorted : Sorted key (front ++ back)) (below : ∀ other ∈ front, key other < key item)
    (above : ∀ other ∈ back, key item < key other) : Sorted key (front ++ item :: back) := by
  obtain ⟨frontSorted, backSorted, between⟩ := List.pairwise_append.mp sorted
  refine List.pairwise_append.mpr ⟨frontSorted, List.pairwise_cons.mpr ⟨above, backSorted⟩, ?_⟩
  intro one oneIn two twoIn
  rcases List.mem_cons.mp twoIn with equal | twoIn
  · rw [equal]
    exact below one oneIn
  · exact between one oneIn two twoIn

theorem findIdx_append_of_false (holds : Item → Bool) (front back : List Item)
    (none' : ∀ item ∈ front, holds item = false) :
    (front ++ back).findIdx holds = front.length + back.findIdx holds := by
  induction front with
  | nil => rw [List.nil_append, List.length_nil, Nat.zero_add]
  | cons item rest inductionHypothesis =>
    rw [List.cons_append, List.findIdx_cons, none' item List.mem_cons_self,
      inductionHypothesis fun other member => none' other (List.mem_cons_of_mem _ member),
      List.length_cons, cond_false, Nat.add_right_comm]

theorem findIdx_of_head (holds : Item → Bool) (items : List Item)
    (all : ∀ item ∈ items, holds item = true) : items.findIdx holds = 0 := by
  cases items with
  | nil => rfl
  | cons item rest => rw [List.findIdx_cons, all item List.mem_cons_self, cond_true]

theorem Split.lowerBound_eq [IsStrictOrder Key (· < ·)] {key : Item → Key} {items : List Item}
    {value : Key} {before level after : List Item} (split : Split key items value before level after) :
    lowerBound key items value = before.length := by
  rw [lowerBound, split.joined, List.append_assoc, findIdx_append_of_false, findIdx_of_head,
    Nat.add_zero]
  · intro item member
    rw [Bool.not_eq_true', decide_eq_false_iff_not]
    rcases List.mem_append.mp member with member | member
    · exact (split.level item member).1
    · exact lt_asymmetric (split.above item member)
  · intro item member
    rw [Bool.not_eq_false', decide_eq_true_eq]
    exact split.below item member

theorem Split.upperBound_eq [IsStrictOrder Key (· < ·)] {key : Item → Key} {items : List Item}
    {value : Key} {before level after : List Item} (split : Split key items value before level after) :
    upperBound key items value = before.length + level.length := by
  rw [upperBound, split.joined, findIdx_append_of_false, findIdx_of_head, Nat.add_zero,
    List.length_append]
  · intro item member
    exact decide_eq_true (split.above item member)
  · intro item member
    rw [decide_eq_false_iff_not]
    rcases List.mem_append.mp member with member | member
    · exact lt_asymmetric (split.below item member)
    · exact (split.level item member).2

/-- Where the value is above nothing that follows and below nothing in front. -/
theorem upperBound_of_around {key : Item → Key} {front back : List Item} {value : Key}
    (before : ∀ item ∈ front, ¬ value < key item) (behind : ∀ item ∈ back, value < key item) :
    upperBound key (front ++ back) value = front.length := by
  rw [upperBound, findIdx_append_of_false _ _ _ fun item member =>
    decide_eq_false (before item member), findIdx_of_head, Nat.add_zero]
  exact fun item member => decide_eq_true (behind item member)

/-- Every value splits a sorted range. -/
theorem exists_split [IsStrictOrder Key (· < ·)] (key : Item → Key) (items : List Item)
    (value : Key) (sorted : Sorted key items) :
    ∃ before level after, Split key items value before level after := by
  induction items with
  | nil =>
    exact ⟨[], [], [], rfl, fun _ member => absurd member List.not_mem_nil,
      fun _ member => absurd member List.not_mem_nil,
      fun _ member => absurd member List.not_mem_nil⟩
  | cons item rest inductionHypothesis =>
    obtain ⟨first, restSorted⟩ := List.pairwise_cons.mp sorted
    obtain ⟨before, level, after, split⟩ := inductionHypothesis restSorted
    by_cases less : key item < value
    · refine ⟨item :: before, level, after, by rw [split.joined]; rfl, ?_, split.level,
        split.above⟩
      intro other member
      rcases List.mem_cons.mp member with equal | member
      · rw [equal]
        exact less
      · exact split.below other member
    · -- what is behind an item that is not below the value is not below it either
      have noneBelow : before = [] := by
        cases before with
        | nil => rfl
        | cons other others =>
          refine absurd (lt_chain (first other ?_) (split.below other List.mem_cons_self)) less
          rw [split.joined]
          exact List.mem_append_left _ (List.mem_append_left _ List.mem_cons_self)
      subst noneBelow
      have joined := split.joined
      rw [List.nil_append] at joined
      by_cases greater : value < key item
      · have noneLevel : level = [] := by
          cases level with
          | nil => rfl
          | cons other others =>
            refine absurd (lt_chain greater (first other ?_)) (split.level other List.mem_cons_self).2
            rw [joined]
            exact List.mem_append_left _ List.mem_cons_self
        subst noneLevel
        refine ⟨[], [], item :: after, by rw [joined]; rfl, split.below, split.level, ?_⟩
        intro other member
        rcases List.mem_cons.mp member with equal | member
        · rw [equal]
          exact greater
        · exact split.above other member
      · refine ⟨[], item :: level, after, by rw [joined]; rfl, split.below, ?_, split.above⟩
        intro other member
        rcases List.mem_cons.mp member with equal | member
        · rw [equal]
          exact ⟨less, greater⟩
        · exact split.level other member

/-! ### Looking up -/

/-- The first item that is level with the value. -/
def findLevel (key : Item → Key) (items : List Item) (value : Key) : Option Item :=
  items.find? fun item => decide (Level (key item) value)

/-- At most one item is level with the value. -/
def Single (key : Item → Key) (items : List Item) (value : Key) : Prop :=
  ∀ item ∈ items, ∀ other ∈ items, Level (key item) value → Level (key other) value → item = other

theorem findLevel_some {key : Item → Key} {items : List Item} {value : Key} {item : Item}
    (found : findLevel key items value = some item) : item ∈ items ∧ Level (key item) value := by
  rw [findLevel] at found
  have level := List.find?_some found
  exact ⟨List.mem_of_find?_eq_some found, of_decide_eq_true level⟩

theorem findLevel_eq_none {key : Item → Key} {items : List Item} {value : Key} :
    findLevel key items value = none ↔ ∀ item ∈ items, ¬ Level (key item) value := by
  rw [findLevel, List.find?_eq_none]
  simp only [decide_eq_true_eq]

theorem findLevel_eq_some {key : Item → Key} {items : List Item} {value : Key} {item : Item}
    (member : item ∈ items) (level : Level (key item) value) (single : Single key items value) :
    findLevel key items value = some item := by
  cases found : findLevel key items value with
  | none =>
    exact absurd level (findLevel_eq_none.mp found item member)
  | some other =>
    obtain ⟨otherIn, otherLevel⟩ := findLevel_some found
    rw [single other otherIn item member otherLevel level]

omit [DecidableLT Key] in
/-- Two items of a sorted range are the same or compare. -/
theorem Sorted.compare {key : Item → Key} {items : List Item} (sorted : Sorted key items)
    {item other : Item} (itemIn : item ∈ items) (otherIn : other ∈ items) :
    item = other ∨ key item < key other ∨ key other < key item := by
  induction items with
  | nil => exact absurd itemIn List.not_mem_nil
  | cons first rest inductionHypothesis =>
    obtain ⟨firstBelow, restSorted⟩ := List.pairwise_cons.mp sorted
    rcases List.mem_cons.mp itemIn with itemFirst | itemRest
    · rcases List.mem_cons.mp otherIn with otherFirst | otherRest
      · exact Or.inl (itemFirst.trans otherFirst.symm)
      · exact Or.inr (Or.inl (itemFirst ▸ firstBelow other otherRest))
    · rcases List.mem_cons.mp otherIn with otherFirst | otherRest
      · exact Or.inr (Or.inr (otherFirst ▸ firstBelow item itemRest))
      · exact inductionHypothesis restSorted itemRest otherRest

omit [DecidableLT Key] in
/-- In a total order a sorted range has every key once. -/
theorem Sorted.single [IsStrictTotalOrder Key (· < ·)] {key : Item → Key} {items : List Item}
    (sorted : Sorted key items) (value : Key) : Single key items value := by
  intro item itemIn other otherIn itemLevel otherLevel
  have same : key item = key other :=
    ((level_iff_eq _ _).mp itemLevel).trans ((level_iff_eq _ _).mp otherLevel).symm
  rcases sorted.compare itemIn otherIn with equal | less | less
  · exact equal
  · exact absurd (same ▸ less) (not_lt_self _)
  · exact absurd (same ▸ less) (not_lt_self _)

/-- What is looked up in a part that holds all level items. -/
theorem findLevel_part {key : Item → Key} {items part : List Item} {value : Key}
    (single : Single key items value) (inside : ∀ item ∈ part, item ∈ items)
    (all : ∀ item ∈ items, Level (key item) value → item ∈ part) :
    findLevel key items value = findLevel key part value := by
  cases found : findLevel key items value with
  | none =>
    refine (findLevel_eq_none.mpr fun item member => ?_).symm
    exact findLevel_eq_none.mp found item (inside item member)
  | some item =>
    obtain ⟨member, level⟩ := findLevel_some found
    refine (findLevel_eq_some (all item member level) level ?_).symm
    exact fun one oneIn two twoIn => single one (inside one oneIn) two (inside two twoIn)

/-- At most one item of the split is level, so it is the one that is looked up. -/
theorem Split.findLevel_eq [IsStrictOrder Key (· < ·)] {key : Item → Key} {items : List Item}
    {value : Key} {before level after : List Item} (split : Split key items value before level after)
    (sorted : Sorted key items) (single : Single key items value) :
    findLevel key items value = level.head? ∧ level.length ≤ 1 := by
  have listed : ∀ item ∈ level, item ∈ items := fun item member => by
    rw [split.joined]
    exact List.mem_append_left _ (List.mem_append_right _ member)
  cases level with
  | nil =>
    refine ⟨findLevel_eq_none.mpr fun item member => ?_, Nat.zero_le _⟩
    rw [split.joined, List.append_nil] at member
    rintro ⟨notLess, notGreater⟩
    rcases List.mem_append.mp member with member | member
    · exact notLess (split.below item member)
    · exact notGreater (split.above item member)
  | cons item rest =>
    have itemLevel := split.level item List.mem_cons_self
    refine ⟨findLevel_eq_some (listed item List.mem_cons_self) itemLevel single, ?_⟩
    cases rest with
    | nil => exact Nat.le_refl 1
    | cons other others =>
      have equal := single item (listed item List.mem_cons_self) other
        (listed other (List.mem_cons_of_mem _ List.mem_cons_self)) itemLevel
        (split.level other (List.mem_cons_of_mem _ List.mem_cons_self))
      rw [split.joined] at sorted
      have less := (List.pairwise_cons.mp
        (List.pairwise_append.mp (List.pairwise_append.mp sorted).1).2.1).1 other List.mem_cons_self
      rw [equal] at less
      exact absurd less (not_lt_self _)

/-! ### Sorting -/

/-- `std::sort`. -/
def sort (key : Item → Key) (items : List Item) : List Item :=
  items.insertionSort fun first second => ¬ key second < key first

/-- Sorting a sorted range with one more item at its end puts the item in its place. -/
theorem sort_concat [IsStrictOrder Key (· < ·)] (key : Item → Key) (before after : List Item)
    (item : Item) (sorted : Sorted key (before ++ item :: after)) :
    sort key (before ++ after ++ [item]) = before ++ item :: after := by
  induction before with
  | nil =>
    induction after with
    | nil => rfl
    | cons other rest inductionHypothesis =>
      obtain ⟨first, otherSorted⟩ := List.pairwise_cons.mp sorted
      obtain ⟨second, restSorted⟩ := List.pairwise_cons.mp otherSorted
      have inner := inductionHypothesis (List.pairwise_cons.mpr
        ⟨fun third member => first third (List.mem_cons_of_mem _ member), restSorted⟩)
      rw [List.nil_append] at inner ⊢
      rw [sort, List.cons_append, List.insertionSort_cons, ← sort, inner, List.nil_append,
        List.orderedInsert_cons, if_neg (not_not.mpr (first other List.mem_cons_self)),
        List.nil_append]
      congr 1
      cases rest with
      | nil => rfl
      | cons third others =>
        rw [List.orderedInsert_cons, if_pos (lt_asymmetric (second third List.mem_cons_self))]
  | cons other rest inductionHypothesis =>
    obtain ⟨first, restSorted⟩ := List.pairwise_cons.mp sorted
    have inner := inductionHypothesis restSorted
    rw [List.cons_append, List.cons_append, sort, List.insertionSort_cons, ← sort, inner]
    cases equal : rest ++ item :: after with
    | nil => rw [List.cons_append, equal]; rfl
    | cons third others =>
      rw [List.orderedInsert_cons, if_pos, List.cons_append, equal]
      refine lt_asymmetric (first third ?_)
      show third ∈ rest ++ item :: after
      rw [equal]
      exact List.mem_cons_self

end Searching

end Ranges
