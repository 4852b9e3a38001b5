/-
This file is the theory of keeping what was used last: a store of limited
capacity holds items in the order of their last request, a request puts its item
first, and a store that is full gives up the last item for a new one.
-/

import Mathlib.Data.List.Basic

namespace Recency

variable {Item : Type} [DecidableEq Item]

/-- The items held after one more request, the last requested one first. -/
def touch (capacity : Nat) (held : List Item) (item : Item) : List Item :=
  if item ∈ held then item :: held.erase item
  else if held.length < capacity then item :: held
  else item :: held.dropLast

/-- The items held after the requests of the list, the last of which comes first. -/
def held (capacity : Nat) : List Item → List Item
  | [] => []
  | item :: earlier => touch capacity (held capacity earlier) item

/-- In the history, whose last request comes first, one item was requested again after the last
request for the other. -/
def Later (history : List Item) (item other : Item) : Prop :=
  history.idxOf item < history.idxOf other

theorem later_head {history : List Item} {item other : Item} (different : other ≠ item) :
    Later (item :: history) item other := by
  rw [Later, List.idxOf_cons_self, List.idxOf_cons_ne history different.symm]
  exact Nat.succ_pos _

theorem later_cons {history : List Item} {item first second : Item} (one : first ≠ item)
    (two : second ≠ item) : Later (item :: history) first second ↔ Later history first second := by
  rw [Later, Later, List.idxOf_cons_ne history one.symm, List.idxOf_cons_ne history two.symm]
  exact Nat.succ_lt_succ_iff

/-- What a request leaves behind its item. -/
theorem touch_eq (capacity : Nat) (items : List Item) (item : Item) (distinct : items.Nodup) :
    ∃ rest, touch capacity items item = item :: rest ∧ rest.Sublist items ∧ item ∉ rest := by
  unfold touch
  split
  · exact ⟨_, rfl, List.erase_sublist, distinct.not_mem_erase⟩
  · rename_i missing
    split
    · exact ⟨_, rfl, List.Sublist.refl _, missing⟩
    · exact ⟨_, rfl, List.dropLast_sublist _, fun member => missing ((List.dropLast_sublist items).subset member)⟩

theorem nodup_touch (capacity : Nat) (items : List Item) (item : Item) (distinct : items.Nodup) :
    (touch capacity items item).Nodup := by
  obtain ⟨rest, equal, sub, missing⟩ := touch_eq capacity items item distinct
  rw [equal]
  exact List.nodup_cons.mpr ⟨missing, distinct.sublist sub⟩

theorem nodup_held (capacity : Nat) (history : List Item) : (held capacity history).Nodup := by
  induction history with
  | nil => exact List.nodup_nil
  | cons item earlier inductionHypothesis => exact nodup_touch capacity _ item inductionHypothesis

/-! ### The three kinds of request -/

/-- An item that is held comes to the front. -/
theorem touch_split (capacity : Nat) {front back : List Item} {item : Item} (new : item ∉ front) :
    touch capacity (front ++ item :: back) item = item :: (front ++ back) := by
  rw [touch, if_pos (List.mem_append_right _ List.mem_cons_self), List.erase_append_right _ new,
    List.erase_cons_head]

/-- A new item finds a place. -/
theorem touch_room {capacity : Nat} {items : List Item} {item : Item} (missing : item ∉ items)
    (room : items.length < capacity) : touch capacity items item = item :: items := by
  rw [touch, if_neg missing, if_pos room]

/-- A new item takes the place of the last one. -/
theorem touch_full {capacity : Nat} {front : List Item} {last item : Item}
    (missing : item ∉ front ++ [last]) (full : (front ++ [last]).length = capacity) :
    touch capacity (front ++ [last]) item = item :: front := by
  rw [touch, if_neg missing, if_neg (by omega), List.dropLast_concat]

/-! ### The order of the last requests -/

/-- The items held stand in the order of their last requests. -/
theorem ordered_held (capacity : Nat) (history : List Item) :
    (held capacity history).Pairwise (Later history) := by
  induction history with
  | nil => exact List.Pairwise.nil
  | cons item earlier inductionHypothesis =>
    obtain ⟨rest, equal, sub, missing⟩ :=
      touch_eq capacity _ item (nodup_held capacity earlier)
    have different (other : Item) (member : other ∈ rest) : other ≠ item :=
      fun same => missing (same ▸ member)
    rw [held, equal]
    refine List.pairwise_cons.mpr ⟨fun other member => later_head (different other member), ?_⟩
    refine (inductionHypothesis.sublist sub).imp_of_mem fun one two later => ?_
    exact (later_cons (different _ one) (different _ two)).mpr later

/-- In a list that is in the order of its last requests, the last item is the one for which an
item requested longer ago is missing. -/
theorem mem_dropLast_iff {history items : List Item} (ordered : items.Pairwise (Later history))
    (item : Item) :
    item ∈ items.dropLast ↔ item ∈ items ∧ ∃ other ∈ items, Later history item other := by
  rcases List.eq_nil_or_concat' items with rfl | ⟨front, last, rfl⟩
  · simp
  · obtain ⟨_, _, before⟩ := List.pairwise_append.mp ordered
    have behind (other : Item) (member : other ∈ front) : Later history other last :=
      before other member last (List.mem_singleton_self last)
    rw [List.dropLast_concat]
    constructor
    · intro member
      exact ⟨List.mem_append_left _ member, last, List.mem_append_right _
        (List.mem_singleton_self last), behind item member⟩
    · rintro ⟨member, other, otherMember, later⟩
      rcases List.mem_append.mp member with inFront | isLast
      · exact inFront
      · rw [List.mem_singleton.mp isLast] at later
        rcases List.mem_append.mp otherMember with inFront | same
        · exact absurd (behind other inFront) (Nat.lt_asymm later)
        · rw [List.mem_singleton.mp same] at later
          exact absurd later (Nat.lt_irrefl _)

/-! ### What a request leaves -/

/-- A full store gives up, for an item it does not hold, the item requested longest ago. -/
theorem mem_touch_full {capacity : Nat} {history : List Item} {item : Item}
    (missing : item ∉ held capacity history) (full : ¬ (held capacity history).length < capacity)
    (other : Item) :
    other ∈ touch capacity (held capacity history) item ↔ other = item ∨
      other ∈ held capacity history ∧ ∃ older ∈ held capacity history, Later history other older := by
  rw [touch, if_neg missing, if_neg full, List.mem_cons, mem_dropLast_iff (ordered_held _ _)]

/-- As long as there is room nothing is given up. -/
theorem mem_touch_room {capacity : Nat} {items : List Item} {item : Item}
    (room : items.length < capacity) (other : Item) :
    other ∈ touch capacity items item ↔ other = item ∨ other ∈ items := by
  by_cases member : item ∈ items
  · rw [touch, if_pos member, List.mem_cons, (List.perm_cons_erase member).mem_iff,
      List.mem_cons, or_self_left]
  · rw [touch, if_neg member, if_pos room, List.mem_cons]

/-- Nor when the item is held. -/
theorem mem_touch_held {capacity : Nat} {items : List Item} {item : Item} (member : item ∈ items)
    (other : Item) : other ∈ touch capacity items item ↔ other ∈ items := by
  rw [touch, if_pos member]
  exact (List.perm_cons_erase member).mem_iff.symm

/-- An item stays when there is a place for the requested one, or when another item was requested
longer ago. -/
theorem mem_touch_iff (capacity : Nat) (history : List Item) (item other : Item) :
    other ∈ touch capacity (held capacity history) item ↔ other = item ∨
      other ∈ held capacity history ∧ (item ∈ held capacity history ∨
        (held capacity history).length < capacity ∨
        ∃ older ∈ held capacity history, Later history other older) := by
  by_cases member : item ∈ held capacity history
  · rw [mem_touch_held member]
    constructor
    · exact fun there => Or.inr ⟨there, Or.inl member⟩
    · rintro (rfl | ⟨there, _⟩)
      · exact member
      · exact there
  · by_cases room : (held capacity history).length < capacity
    · rw [mem_touch_room room]
      exact or_congr_right ⟨fun there => ⟨there, Or.inr (Or.inl room)⟩, And.left⟩
    · rw [mem_touch_full member room, or_iff_right member, or_iff_right room]

end Recency
