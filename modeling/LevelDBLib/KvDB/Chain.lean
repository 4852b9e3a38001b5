/-
This file is the abstract view of a segment: a chain of pages, read as one tape
of cells (`chainCells`), the bodies of its pages in the order of the chain. The
written cells of a page come first on it, then its free cells.
-/

import LevelDBLib.Library.Tapes
import LevelDBLib.KvDB.Pages

namespace LevelDBLib.KvDB

open Buffers Tapes

/-! ### The cells of a page -/

namespace PageView

/-- The part of the body that is taken. -/
def written (view : PageView) : Bytes := view.body.take view.used

/-- The body as a tape. -/
def cells (view : PageView) : Tape UInt8 := view.written.map some ++ free view.space

theorem length_written (view : PageView) (space : view.space ≤ view.body.length) :
    view.written.length = view.body.length - view.space := by
  rw [written, List.length_take, used]
  omega

theorem length_cells (view : PageView) (space : view.space ≤ view.body.length) :
    view.cells.length = view.body.length := by
  rw [cells, List.length_append, List.length_map, length_written view space, length_free]
  omega

@[simp] theorem cells_linked (view : PageView) (next : Nat) :
    (view.linked next).cells = view.cells := rfl

@[simp] theorem cells_blank (room : Nat) : (blank room).cells = free room := by
  simp [cells, written, blank, used]

@[simp] theorem cells_freed (view : PageView) : view.freed.cells = free view.body.length := by
  simp [cells, written, freed, used]

theorem written_append (view : PageView) (bytes : Bytes)
    (space : view.space ≤ view.body.length) (fits : bytes.length ≤ view.space) :
    (view.append bytes).written = view.written ++ bytes := by
  have usedEq : view.used = view.body.length - view.space := rfl
  have bound : view.used + bytes.length ≤ view.body.length := by omega
  have usedAfter : (view.append bytes).used = view.used + bytes.length := by
    rw [used, append, length_splice _ _ _ bound]
    show view.body.length - (view.space - bytes.length) = _
    omega
  rw [written, usedAfter, append, splice, written]
  rw [List.take_append_of_le_length (by
    rw [List.length_append, List.length_take]
    omega), List.take_of_length_le (by
    rw [List.length_append, List.length_take]
    omega)]

/-- Overwriting written cells. -/
theorem cells_overwrite (view : PageView) (pos : Nat) (bytes : Bytes)
    (space : view.space ≤ view.body.length) (inside : pos + bytes.length ≤ view.used) :
    (view.overwrite pos bytes).cells = splice view.cells pos (bytes.map some) := by
  have usedEq : view.used = view.body.length - view.space := rfl
  have bound : pos + bytes.length ≤ view.body.length := by omega
  have usedAfter : (view.overwrite pos bytes).used = view.used := by
    rw [used, overwrite, length_splice _ _ _ bound, usedEq]
  have cellsLength := length_cells view space
  refine List.ext_getElem? fun index => ?_
  rw [getElem?_splice _ _ _ _ (by rw [List.length_map, cellsLength]; exact bound),
    List.length_map, cells, written, usedAfter, overwrite, cells, written]
  by_cases inUsed : index < view.used
  · rw [List.getElem?_append_left (by
      rw [List.length_map, List.length_take, length_splice _ _ _ bound]
      omega), List.getElem?_map, List.getElem?_take_of_lt inUsed, getElem?_splice _ _ _ _ bound,
      List.getElem?_append_left (by
      rw [List.length_map, List.length_take]
      omega), List.getElem?_map, List.getElem?_map, List.getElem?_take_of_lt inUsed]
    by_cases covered : pos ≤ index ∧ index < pos + bytes.length
    · rw [if_pos covered, if_pos covered]
    · rw [if_neg covered, if_neg covered]
  · rw [if_neg (by omega), List.getElem?_append_right (by
      rw [List.length_map, List.length_take]
      omega), List.getElem?_append_right (by
      rw [List.length_map, List.length_take]
      omega), List.length_map, List.length_map, List.length_take, List.length_take,
      length_splice _ _ _ bound]

/-- A string that stands on the cells of a page is a run of its body. -/
theorem slice_of_reads (view : PageView) (pos : Nat) (source : Bytes) (rest : Tape UInt8)
    (space : view.space ≤ view.body.length) (within : pos + source.length ≤ view.body.length)
    (reads : Reads (view.cells ++ rest) pos source) (some' : source ≠ []) :
    pos + source.length ≤ view.used ∧ slice view.body pos source.length = source := by
  have usedEq : view.used = view.body.length - view.space := rfl
  have onPage : Reads view.cells pos source := by
    intro index value equal
    have inside : index < source.length := (List.getElem?_eq_some_iff.mp equal).1
    have there := reads index value equal
    rwa [List.getElem?_append_left (by rw [length_cells view space]; omega)] at there
  have inWritten := onPage.within some'
  rw [List.length_map, length_written view space] at inWritten
  refine ⟨by omega, List.ext_getElem? fun index => ?_⟩
  rw [getElem?_slice]
  by_cases inside : index < source.length
  · have there := onPage index source[index] (List.getElem?_eq_getElem inside)
    rw [cells, List.getElem?_append_left (by
        rw [List.length_map, length_written view space]
        omega), List.getElem?_map, written, List.getElem?_take_of_lt (by omega)] at there
    rw [if_pos inside, List.getElem?_eq_getElem inside]
    cases found : view.body[pos + index]? with
    | none =>
      rw [found] at there
      cases there
    | some byte =>
      rw [found] at there
      exact Option.some.inj there
  · rw [if_neg inside, List.getElem?_eq_none (by omega)]

end PageView

/-! ### Chains -/

/-- The pages of the list, each linked to the one behind it, the last one to no page. -/
def Chain (pages : PageMap) : List Nat → Prop
  | [] => False
  | [pageno] => ∃ view, pages pageno = some view ∧ view.next = noNextPage
  | pageno :: next :: rest =>
    (∃ view, pages pageno = some view ∧ view.next = next ∧ next ≠ noNextPage) ∧
      Chain pages (next :: rest)

/-- The cells of one page of the map. -/
def pageCells (pages : PageMap) (pageno : Nat) : Tape UInt8 :=
  ((pages pageno).map PageView.cells).getD []

/-- The pages of the list as one tape. -/
def chainCells (pages : PageMap) (chain : List Nat) : Tape UInt8 :=
  chain.flatMap (pageCells pages)

theorem pageCells_of_some {pages : PageMap} {pageno : Nat} {view : PageView}
    (known : pages pageno = some view) : pageCells pages pageno = view.cells := by
  rw [pageCells, known, Option.map_some, Option.getD_some]

@[simp] theorem chainCells_nil (pages : PageMap) : chainCells pages [] = [] := rfl

@[simp] theorem chainCells_cons (pages : PageMap) (pageno : Nat) (rest : List Nat) :
    chainCells pages (pageno :: rest) = pageCells pages pageno ++ chainCells pages rest :=
  List.flatMap_cons ..

@[simp] theorem chainCells_append (pages : PageMap) (front back : List Nat) :
    chainCells pages (front ++ back) = chainCells pages front ++ chainCells pages back :=
  List.flatMap_append ..

theorem chainCells_congr {pages other : PageMap} {chain : List Nat}
    (same : ∀ pageno ∈ chain, other pageno = pages pageno) :
    chainCells other chain = chainCells pages chain := by
  induction chain with
  | nil => rfl
  | cons pageno rest inductionHypothesis =>
    rw [chainCells_cons, chainCells_cons,
      inductionHypothesis fun number member => same number (List.mem_cons_of_mem _ member),
      pageCells, pageCells, same pageno List.mem_cons_self]

/-- What is spliced into the pages behind the first one. -/
theorem chainCells_behind {pages other : PageMap} {pageno : Nat} {rest : List Nat}
    {cells : Tape UInt8} (same : pageCells other pageno = pageCells pages pageno)
    (spliced : chainCells other rest = splice (chainCells pages rest) 0 cells) :
    chainCells other (pageno :: rest) =
      splice (chainCells pages (pageno :: rest)) (pageCells pages pageno).length cells := by
  rw [chainCells_cons, chainCells_cons, same, spliced, ← Nat.add_zero (List.length _),
    splice_append_right]

/-- A string on a chain in two parts: where the first one ends with the first page, the other one
starts on the next. -/
theorem reads_split {pages : PageMap} {pageno : Nat} {view : PageView} {rest : List Nat}
    {source : Bytes} {pos count : Nat} (seen : pages pageno = some view)
    (space : view.space ≤ view.body.length)
    (reads : Reads (chainCells pages (pageno :: rest)) pos source) (inside : count ≤ source.length) :
    Reads (view.cells ++ chainCells pages rest) pos (source.take count) ∧
      (pos + count = view.body.length → Reads (chainCells pages rest) 0 (source.drop count)) := by
  rw [chainCells_cons, pageCells_of_some seen, ← List.take_append_drop count source, reads_append,
    List.length_take_of_le inside] at reads
  refine ⟨reads.1, fun full => ?_⟩
  have there := reads.2
  rwa [full, ← view.length_cells space, ← Nat.add_zero view.cells.length, reads_append_left] at there

/-- A chain does not depend on the pages outside it. -/
theorem Chain.congr {pages other : PageMap} {chain : List Nat} (linked : Chain pages chain)
    (same : ∀ pageno ∈ chain, other pageno = pages pageno) : Chain other chain := by
  induction chain with
  | nil => exact linked
  | cons pageno rest inductionHypothesis =>
    cases rest with
    | nil =>
      obtain ⟨view, known, last⟩ := linked
      exact ⟨view, by rw [same pageno List.mem_cons_self, known], last⟩
    | cons next rest =>
      obtain ⟨⟨view, known, link⟩, tail⟩ := linked
      exact ⟨⟨view, by rw [same pageno List.mem_cons_self, known], link⟩,
        inductionHypothesis tail fun number member => same number (List.mem_cons_of_mem _ member)⟩

/-- The pages of a chain are known. -/
theorem Chain.known {pages : PageMap} {chain : List Nat} (linked : Chain pages chain)
    {pageno : Nat} (member : pageno ∈ chain) : ∃ view, pages pageno = some view := by
  induction chain with
  | nil => cases member
  | cons first rest inductionHypothesis =>
    cases rest with
    | nil =>
      obtain ⟨view, known, _⟩ := linked
      rw [List.mem_singleton.mp member]
      exact ⟨view, known⟩
    | cons next rest =>
      obtain ⟨⟨view, known, _⟩, tail⟩ := linked
      rcases List.mem_cons.mp member with equal | member
      · rw [equal]
        exact ⟨view, known⟩
      · exact inductionHypothesis tail member

/-- The end of a chain is a chain. -/
theorem Chain.suffix {pages : PageMap} {front back : List Nat}
    (linked : Chain pages (front ++ back)) (some' : back ≠ []) : Chain pages back := by
  induction front with
  | nil => exact linked
  | cons first rest inductionHypothesis =>
    cases equal : rest ++ back with
    | nil => exact absurd (List.append_eq_nil_iff.mp equal).2 some'
    | cons next others =>
      rw [List.cons_append, equal] at linked
      rw [equal] at inductionHypothesis
      exact inductionHypothesis linked.2

/-- The last page of a chain has no next page. -/
theorem Chain.last {pages : PageMap} {front : List Nat} {pageno : Nat}
    (linked : Chain pages (front ++ [pageno])) :
    ∃ view, pages pageno = some view ∧ view.next = noNextPage :=
  linked.suffix (List.cons_ne_nil _ _)

/-- Any other page of a chain links to the page behind it. -/
theorem Chain.middle {pages : PageMap} {front rest : List Nat} {pageno next : Nat}
    (linked : Chain pages (front ++ pageno :: next :: rest)) :
    ∃ view, pages pageno = some view ∧ view.next = next ∧ next ≠ noNextPage :=
  (linked.suffix (List.cons_ne_nil _ _)).1

/-- A chain whose end was replaced by another one that starts at the same page. -/
theorem Chain.replace {pages other : PageMap} {front rest fresh : List Nat} {pageno : Nat}
    (linked : Chain pages (front ++ pageno :: rest)) (tail : Chain other (pageno :: fresh))
    (same : ∀ number ∈ front, other number = pages number) :
    Chain other (front ++ pageno :: fresh) := by
  induction front with
  | nil => exact tail
  | cons first front inductionHypothesis =>
    have behind := fun linked => inductionHypothesis linked fun number member =>
      same number (List.mem_cons_of_mem _ member)
    cases front with
    | nil =>
      obtain ⟨⟨view, known, link⟩, _⟩ := linked
      exact ⟨⟨view, by rw [same first List.mem_cons_self, known], link⟩, tail⟩
    | cons next others =>
      obtain ⟨⟨view, known, link⟩, after⟩ := linked
      exact ⟨⟨view, by rw [same first List.mem_cons_self, known], link⟩, behind after⟩

/-- The pages of the list were rewritten: their links and their free space are as they were. -/
structure Rewritten (pages later : PageMap) (chain : List Nat) : Prop where
  others : ∀ pageno, pageno ∉ chain → later pageno = pages pageno
  inside : ∀ pageno view, pages pageno = some view → ∃ rewritten,
    later pageno = some rewritten ∧ rewritten.next = view.next ∧ rewritten.space = view.space

theorem Rewritten.refl (pages : PageMap) (chain : List Nat) : Rewritten pages pages chain :=
  ⟨fun _ _ => rfl, fun _ view known => ⟨view, known, rfl, rfl⟩⟩

theorem Rewritten.linked {pages later : PageMap} {whole chain : List Nat}
    (rewritten : Rewritten pages later whole) (linked : Chain pages chain) : Chain later chain := by
  induction chain with
  | nil => exact linked
  | cons pageno rest inductionHypothesis =>
    cases rest with
    | nil =>
      obtain ⟨view, known, last⟩ := linked
      obtain ⟨after, afterKnown, nextEq, _⟩ := rewritten.inside pageno view known
      exact ⟨after, afterKnown, nextEq.trans last⟩
    | cons next rest =>
      obtain ⟨⟨view, known, link, valid⟩, tail⟩ := linked
      obtain ⟨after, afterKnown, nextEq, _⟩ := rewritten.inside pageno view known
      exact ⟨⟨after, afterKnown, nextEq.trans link, valid⟩, inductionHypothesis tail⟩

theorem rewritten_put {pages : PageMap} {pageno : Nat} {view after : PageView} (chain : List Nat)
    (known : pages pageno = some view) (nextEq : after.next = view.next)
    (spaceEq : after.space = view.space) (inside : pageno ∈ chain) :
    Rewritten pages (pages.put pageno after) chain := by
  refine ⟨fun other outside => PageMap.put_other _ _ _ _ fun equal =>
    outside (by rw [equal]; exact inside), fun other held heldEq => ?_⟩
  by_cases same : other = pageno
  · rw [same, known] at heldEq
    rw [same, ← Option.some.inj heldEq]
    exact ⟨after, PageMap.put_self .., nextEq, spaceEq⟩
  · exact ⟨held, by rw [PageMap.put_other _ _ _ _ same, heldEq], rfl, rfl⟩

theorem Rewritten.trans {first second third : PageMap} {chain inner : List Nat}
    (before : Rewritten first second chain) (after : Rewritten second third inner)
    (subset : ∀ pageno ∈ inner, pageno ∈ chain) : Rewritten first third chain := by
  refine ⟨fun pageno outside => ?_, fun pageno view known => ?_⟩
  · rw [after.others pageno fun member => outside (subset pageno member),
      before.others pageno outside]
  · obtain ⟨mid, midKnown, midNext, midSpace⟩ := before.inside pageno view known
    obtain ⟨last, lastKnown, lastNext, lastSpace⟩ := after.inside pageno mid midKnown
    exact ⟨last, lastKnown, lastNext.trans midNext, lastSpace.trans midSpace⟩

end LevelDBLib.KvDB
