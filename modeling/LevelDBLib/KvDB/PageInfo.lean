/-
This file proves how the page table behaves as a map from segments to their
pages, and what `incLastPageNo` does to it: it looks for the entry that ends at a
page, whichever segment that is.
-/

import LevelDBLib.KvDB.PageManagement

namespace LevelDBLib.KvDB

namespace PageInfo

theorem find_cons (key other : PageKey_t) (value : PageNo_t) (rest : PageInfo) :
    PageInfo.find ((other, value) :: rest) key =
      if key = other then some value else PageInfo.find rest key := by
  rw [PageInfo.find, List.lookup_cons]
  by_cases same : key = other
  · rw [if_pos same, beq_iff_eq.mpr same]
  · rw [if_neg same, beq_eq_false_iff_ne.mpr same]
    rfl

theorem mem_of_find {info : PageInfo} {key : PageKey_t} {value : PageNo_t}
    (found : info.find key = some value) : (key, value) ∈ info := by
  obtain ⟨front, back, equal, _⟩ := List.lookup_eq_some_iff.mp found
  rw [equal]
  exact List.mem_append_right _ List.mem_cons_self

/-- A table with one entry for each segment. -/
def Distinct (info : PageInfo) : Prop := (info.map Prod.fst).Nodup

theorem find_of_mem {info : PageInfo} {key : PageKey_t} {value : PageNo_t}
    (distinct : info.Distinct) (member : (key, value) ∈ info) : info.find key = some value := by
  induction info with
  | nil => cases member
  | cons entry rest inductionHypothesis =>
    obtain ⟨other, held⟩ := entry
    obtain ⟨notInRest, restDistinct⟩ := List.nodup_cons.mp distinct
    rw [find_cons]
    rcases List.mem_cons.mp member with equal | member
    · cases equal
      rw [if_pos rfl]
    · have apart : key ≠ other := fun same =>
        notInRest (List.mem_map.mpr ⟨(key, value), member, same⟩)
      rw [if_neg apart, inductionHypothesis restDistinct member]

theorem mem_insert (info : PageInfo) (key : PageKey_t) (value : PageNo_t)
    (entry : PageKey_t × PageNo_t) :
    entry ∈ info.insert key value ↔ entry = (key, value) ∨ entry ∈ info :=
  List.mem_orderedInsert _

theorem distinct_insert {info : PageInfo} (key : PageKey_t) (value : PageNo_t)
    (distinct : info.Distinct) (fresh : info.find key = none) :
    (info.insert key value).Distinct := by
  have perm := (List.perm_orderedInsert
    (fun first second : PageKey_t × PageNo_t => first.1.lt second.1) (key, value) info).map Prod.fst
  refine perm.symm.nodup (List.nodup_cons.mpr ⟨fun member => ?_, distinct⟩)
  obtain ⟨⟨other, held⟩, inInfo, same⟩ := List.mem_map.mp member
  have found := find_of_mem distinct inInfo
  rw [show other = key from same, fresh] at found
  cases found

theorem find_insert {info : PageInfo} (key : PageKey_t) (value : PageNo_t)
    (fresh : info.find key = none) (other : PageKey_t) :
    (info.insert key value).find other = if other = key then some value else info.find other := by
  induction info with
  | nil => exact find_cons ..
  | cons entry rest inductionHypothesis =>
    obtain ⟨first, held⟩ := entry
    rw [find_cons] at fresh
    have different : key ≠ first := fun same => by
      rw [if_pos same] at fresh
      cases fresh
    rw [if_neg different] at fresh
    rw [insert, List.orderedInsert]
    split
    · exact find_cons ..
    · rw [find_cons, find_cons]
      by_cases same : other = first
      · rw [if_pos same, if_pos same, if_neg fun equal => different (equal.symm.trans same)]
      · rw [if_neg same, if_neg same]
        exact inductionHypothesis fresh

end PageInfo

/-! ### The registered last page -/

namespace SMDPageManagement

theorem incLastPageNoIn_self (info : PageInfo) (pageno : Nat) :
    incLastPageNoIn info pageno pageno = info := by
  induction info with
  | nil => rfl
  | cons entry rest inductionHypothesis =>
    obtain ⟨key, value⟩ := entry
    rw [incLastPageNoIn]
    by_cases here : value.nLastPageNo = pageno
    · rw [if_pos here, ← here]
    · rw [if_neg here, inductionHypothesis]

/-- Two moves of a last page through a page that no other entry ends at are one move. -/
theorem incLastPageNoIn_trans (info : PageInfo) (first middle last : Nat)
    (unused : ∀ entry ∈ info, entry.2.nLastPageNo ≠ middle) :
    incLastPageNoIn (incLastPageNoIn info first middle) middle last =
      incLastPageNoIn info first last := by
  induction info with
  | nil => rfl
  | cons entry rest inductionHypothesis =>
    obtain ⟨key, value⟩ := entry
    have here : value.nLastPageNo ≠ middle := unused (key, value) List.mem_cons_self
    rw [incLastPageNoIn, incLastPageNoIn]
    by_cases same : value.nLastPageNo = first
    · rw [if_pos same, if_pos same, incLastPageNoIn, if_pos rfl]
    · rw [if_neg same, if_neg same, incLastPageNoIn, if_neg here,
        inductionHypothesis fun other member => unused other (List.mem_cons_of_mem _ member)]

theorem incLastPageNoIn_le (info : PageInfo) (first last bound : Nat)
    (registered : ∀ entry ∈ info, entry.2.nLastPageNo ≤ bound) (inside : last ≤ bound) :
    ∀ entry ∈ incLastPageNoIn info first last, entry.2.nLastPageNo ≤ bound := by
  induction info with
  | nil => exact registered
  | cons entry rest inductionHypothesis =>
    obtain ⟨key, value⟩ := entry
    intro other member
    rw [incLastPageNoIn] at member
    by_cases same : value.nLastPageNo = first
    · rw [if_pos same] at member
      rcases List.mem_cons.mp member with equal | member
      · rw [equal]
        exact inside
      · exact registered other (List.mem_cons_of_mem _ member)
    · rw [if_neg same] at member
      rcases List.mem_cons.mp member with equal | member
      · rw [equal]
        exact registered (key, value) List.mem_cons_self
      · exact inductionHypothesis
          (fun entry inRest => registered entry (List.mem_cons_of_mem _ inRest)) other member

theorem keys_incLastPageNoIn (info : PageInfo) (first last : Nat) :
    (incLastPageNoIn info first last).map Prod.fst = info.map Prod.fst := by
  induction info with
  | nil => rfl
  | cons entry rest inductionHypothesis =>
    obtain ⟨key, value⟩ := entry
    rw [incLastPageNoIn]
    by_cases same : value.nLastPageNo = first
    · rw [if_pos same]
      rfl
    · rw [if_neg same, List.map_cons, List.map_cons, inductionHypothesis]

/-- Where only one segment ends at a page, the move of the last page is a move of that
segment's last page. -/
theorem find_incLastPageNoIn (info : PageInfo) (key : PageKey_t) (value : PageNo_t) (last : Nat)
    (found : info.find key = some value)
    (only : ∀ entry ∈ info, entry.2.nLastPageNo = value.nLastPageNo → entry.1 = key)
    (other : PageKey_t) :
    PageInfo.find (incLastPageNoIn info value.nLastPageNo last) other =
      if other = key then some { value with nLastPageNo := last } else info.find other := by
  induction info with
  | nil => cases found
  | cons entry rest inductionHypothesis =>
    obtain ⟨first, held⟩ := entry
    rw [PageInfo.find_cons] at found
    rw [incLastPageNoIn]
    by_cases ends : held.nLastPageNo = value.nLastPageNo
    · have firstEq : first = key := only (first, held) List.mem_cons_self ends
      rw [if_pos firstEq.symm] at found
      rw [if_pos ends, PageInfo.find_cons, PageInfo.find_cons, firstEq, Option.some.inj found]
      by_cases same : other = key
      · rw [if_pos same, if_pos same]
      · rw [if_neg same, if_neg same, if_neg same]
    · have firstNe : key ≠ first := by
        intro equal
        rw [if_pos equal] at found
        exact ends (by rw [Option.some.inj found])
      rw [if_neg firstNe] at found
      rw [if_neg ends, PageInfo.find_cons, PageInfo.find_cons, inductionHypothesis found fun entry
        member => only entry (List.mem_cons_of_mem _ member)]
      by_cases here : other = first
      · rw [if_pos here, if_pos here, if_neg (by rw [here]; exact firstNe.symm)]
      · rw [if_neg here, if_neg here]

end SMDPageManagement

end LevelDBLib.KvDB
