/-
This file is the theory of items that are taken one after the other in the order of their names,
the last of them as the last. The items that are meant stand in another order. The two agree when
the names of those that are meant increase along it, and no other item has the last name.
-/

import Mathlib.Data.List.Sort

namespace Replays

/-! ### The last item -/

section Marks

variable {Item Place : Type}

/-- Every item with a mark that says whether it is the last one. -/
def marked : List Item → List (Item × Bool)
  | [] => []
  | item :: rest => (item, rest.isEmpty) :: marked rest

@[simp] theorem map_fst_marked (items : List Item) : (marked items).map Prod.fst = items := by
  induction items with
  | nil => rfl
  | cons item rest hypothesis => rw [marked, List.map_cons, hypothesis]

theorem marked_map (place : Item → Place) (items : List Item) :
    marked (items.map place) = (marked items).map fun mark => (place mark.1, mark.2) := by
  induction items with
  | nil => rfl
  | cons item rest hypothesis =>
    rw [List.map_cons, marked, marked, List.map_cons, hypothesis, List.isEmpty_map]

theorem marked_append_singleton (front : List Item) (last : Item) :
    marked (front ++ [last]) = front.map (fun item => (item, false)) ++ [(last, true)] := by
  induction front with
  | nil => rfl
  | cons item rest hypothesis =>
    have more : (rest ++ [last]).isEmpty = false := by
      rw [List.isEmpty_eq_false_iff]
      exact List.append_ne_nil_of_right_ne_nil _ (List.cons_ne_nil _ _)
    rw [List.cons_append, marked, hypothesis, more, List.map_cons, List.cons_append]

theorem mem_marked_of_last {items : List Item} {last : Item} (ends : items.getLast? = some last) :
    (last, true) ∈ marked items := by
  obtain ⟨front, rfl⟩ := List.getLast?_eq_some_iff.mp ends
  rw [marked_append_singleton]
  exact List.mem_append_right _ (List.mem_singleton.mpr rfl)

/-- Where the last item is chosen, the chosen items and the last one are the chosen items, marked. -/
theorem filter_marked (chosen : Item → Bool) (items : List Item)
    (last : ∀ item, items.getLast? = some item → chosen item = true) :
    (marked items).filter (fun mark => mark.2 || chosen mark.1) = marked (items.filter chosen) := by
  rcases List.eq_nil_or_concat items with rfl | ⟨front, item, rfl⟩
  · rfl
  · rw [List.concat_eq_append] at last ⊢
    have here := last item List.getLast?_concat
    rw [marked_append_singleton, List.filter_append, List.filter_append, List.filter_cons_of_pos here,
      List.filter_nil, marked_append_singleton, List.filter_map]
    rfl

end Marks

/-! ### Two orders -/

section Orders

variable {Name Number Place : Type}

theorem eq_map_of_map_eq {names : List Name} {order : List Number} (place : Name → Place)
    (file : Number → Place) (name : Number → Name)
    (only : ∀ item ∈ names, ∀ number ∈ order, place item = file number → item = name number)
    (equal : names.map place = order.map file) : names = order.map name := by
  induction order generalizing names with
  | nil => exact List.map_eq_nil_iff.mp equal
  | cons number order hypothesis =>
    cases names with
    | nil => cases equal
    | cons item names =>
      obtain ⟨here, rest⟩ := List.cons.inj equal
      rw [List.map_cons, only item List.mem_cons_self number List.mem_cons_self here,
        hypothesis (fun item listed number member => only item (List.mem_cons_of_mem _ listed) number
          (List.mem_cons_of_mem _ member)) rest]

/-- Every name of an increasing list is the last one, or before it. -/
theorem eq_or_lt_last [LT Name] {names : List Name}
    (increasing : names.Pairwise fun first second => first < second) {item last : Name}
    (listed : item ∈ names) (ends : names.getLast? = some last) :
    item = last ∨ item < last := by
  obtain ⟨front, rfl⟩ := List.getLast?_eq_some_iff.mp ends
  rcases List.mem_append.mp listed with before | here
  · exact .inr ((List.pairwise_append.mp increasing).2.2 item before last (List.mem_singleton.mpr rfl))
  · exact .inl (List.mem_singleton.mp here)

variable [DecidableEq Place]

/-- What is taken of the items that are meant, and whatever is taken as the last. -/
def taken (place : Name → Place) (files : List Place) (names : List (Name × Bool)) :
    List (Place × Bool) :=
  (names.map fun mark => (place mark.1, mark.2)).filter fun mark => mark.2 || decide (mark.1 ∈ files)

theorem taken_eq (place : Name → Place) (files : List Place) (names : List (Name × Bool)) :
    taken place files names =
      (names.filter fun mark => mark.2 || decide (place mark.1 ∈ files)).map
        fun mark => (place mark.1, mark.2) :=
  List.filter_map ..

theorem taken_mono (place : Name → Place) (files : List Place) {first second : List (Name × Bool)}
    (less : first <+: second) : taken place files first <+: taken place files second :=
  (less.map _).filter _

variable {names : List Name} {order : List Number} {place : Name → Place} {file : Number → Place}
  {name : Number → Name} {Reached : Number → Prop}

/-- The items are taken in the order that is meant exactly when each is reached, their names increase
along it, and every other item comes before one of them. -/
theorem taken_marked_iff [LT Name] [Std.Asymm (fun first second : Name => first < second)]
    (increasing : names.Pairwise fun first second => first < second)
    (only : ∀ item ∈ names, ∀ number ∈ order, place item = file number →
      Reached number ∧ item = name number)
    (reached : ∀ number ∈ order, Reached number →
      name number ∈ names ∧ place (name number) = file number) :
    taken place (order.map file) (marked names) = marked (order.map file) ↔
      (∀ number ∈ order, Reached number) ∧
        (order.map name).Pairwise (fun first second => first < second) ∧
        ∀ item ∈ names, place item ∉ order.map file → ∃ number ∈ order, item < name number := by
  constructor
  · intro equal
    have chosen : List.Sublist (((marked names).filter fun mark =>
        mark.2 || decide (place mark.1 ∈ order.map file)).map Prod.fst) names := by
      conv_rhs => rw [← map_fst_marked names]
      exact List.filter_sublist.map _
    have places := congrArg (List.map Prod.fst) equal
    rw [taken_eq, List.map_map, map_fst_marked,
      show Prod.fst ∘ (fun mark : Name × Bool => (place mark.1, mark.2)) = place ∘ Prod.fst from rfl,
      ← List.map_map] at places
    have same := eq_map_of_map_eq place file name (fun item listed number member here =>
      (only item (chosen.subset listed) number member here).2) places
    refine ⟨fun number member => ?_, same ▸ increasing.sublist chosen, fun item listed other => ?_⟩
    · have found := places ▸ List.mem_map_of_mem (f := file) member
      obtain ⟨item, listed, here⟩ := List.mem_map.mp found
      exact (only item (chosen.subset listed) number member here).1
    · obtain ⟨last, ends⟩ : ∃ last, names.getLast? = some last :=
        ⟨_, List.getLast?_eq_some_getLast (List.ne_nil_of_mem listed)⟩
      have member : last ∈ order.map name := same ▸ List.mem_map_of_mem (f := Prod.fst)
        (List.mem_filter.mpr ⟨mem_marked_of_last ends, rfl⟩)
      have meant : place last ∈ order.map file := places ▸ List.mem_map_of_mem (same ▸ member)
      obtain ⟨number, memberNumber, rfl⟩ := List.mem_map.mp member
      refine ⟨number, memberNumber, (eq_or_lt_last increasing listed ends).resolve_left ?_⟩
      rintro rfl
      exact other meant
  · rintro ⟨all, ordered, before⟩
    have chosen : (names.filter fun item => decide (place item ∈ order.map file)) = order.map name := by
      refine List.Pairwise.eq_of_mem_iff (increasing.filter _) ordered fun item => ?_
      rw [List.mem_filter, decide_eq_true_eq]
      constructor
      · rintro ⟨listed, meant⟩
        obtain ⟨number, member, here⟩ := List.mem_map.mp meant
        rw [(only item listed number member here.symm).2]
        exact List.mem_map_of_mem member
      · intro mapped
        obtain ⟨number, member, rfl⟩ := List.mem_map.mp mapped
        obtain ⟨listed, here⟩ := reached number member (all number member)
        exact ⟨listed, here ▸ List.mem_map_of_mem member⟩
    have last : ∀ item, names.getLast? = some item → decide (place item ∈ order.map file) = true := by
      intro item ends
      refine decide_eq_true (Decidable.byContradiction fun other => ?_)
      obtain ⟨number, member, less⟩ := before item (List.mem_of_getLast? ends) other
      have listed := (reached number member (all number member)).1
      rcases eq_or_lt_last increasing listed ends with same | more
      · exact Std.Asymm.asymm _ _ (same ▸ less) (same ▸ less)
      · exact Std.Asymm.asymm _ _ less more
    rw [taken_eq, filter_marked (fun item => decide (place item ∈ order.map file)) names last, chosen,
      ← marked_map, List.map_map]
    exact congrArg marked (List.map_congr_left fun number member =>
      (reached number member (all number member)).2)

end Orders

end Replays
