/-
This file is about the strings of a segment that only grows, in the order of the
appends. On the tape of the chain they stand in a line: each starts where the one
before it ends, or at the start of the next page, where less than four bytes are
left of the page.

Every page behind page 0 has the same number of cells, so a cell of the chain is a
page of it and a position on that page.
-/

import LevelDBLib.KvDB.AppendBounds
import LevelDBLib.KvDB.RecordRuns

namespace LevelDBLib.KvDB

open Buffers Tapes

variable {Device : Type} [CoherentDevice Device]

/-! ### The line -/

/-- Where the next string starts when `cell` cells are taken, on pages of `room` cells. -/
def lineStart (room cell : Nat) : Nat :=
  cell + SMDPageFile.skipped 4 (room - cell % room)

/-- The cells that are taken behind the strings of a list. -/
def lineEnd (room : Nat) : Nat → List Bytes → Nat
  | cell, [] => cell
  | cell, bytes :: rest => lineEnd room (lineStart room cell + 4 + bytes.length) rest

/-- The strings of the list stand on the tape, one behind the other. -/
def Lined (room : Nat) (tape : Tape UInt8) : Nat → List Bytes → Prop
  | _, [] => True
  | cell, bytes :: rest =>
    Reads tape (lineStart room cell) (SMDPageFile.lengthHeader bytes.length ++ bytes) ∧
      Lined room tape (lineStart room cell + 4 + bytes.length) rest

theorem lineEnd_append (room cell : Nat) (first second : List Bytes) :
    lineEnd room cell (first ++ second) = lineEnd room (lineEnd room cell first) second := by
  induction first generalizing cell with
  | nil => rfl
  | cons bytes rest inductionHypothesis => exact inductionHypothesis _

theorem lined_append (room : Nat) (tape : Tape UInt8) (cell : Nat) (first second : List Bytes) :
    Lined room tape cell (first ++ second) ↔
      Lined room tape cell first ∧ Lined room tape (lineEnd room cell first) second := by
  induction first generalizing cell with
  | nil => exact (iff_of_eq (true_and _)).symm
  | cons bytes rest inductionHypothesis =>
    rw [List.cons_append, Lined, Lined, inductionHypothesis, and_assoc, lineEnd]

/-- The line stays where it is when the tape grows behind its written part. -/
theorem Lined.extend {room cell count : Nat} {written : Tape UInt8} {strings : List Bytes}
    (lined : Lined room (written ++ free count) cell strings) (rest : Tape UInt8) :
    Lined room (written ++ rest) cell strings := by
  induction strings generalizing cell with
  | nil => exact trivial
  | cons bytes strings inductionHypothesis =>
    exact ⟨lined.1.extend rest, inductionHypothesis lined.2⟩

/-- The next string starts behind the free rest of the page when that is too short. -/
theorem lineStart_page {room front used : Nat} (wide : 4 ≤ room) (inside : used ≤ room) :
    lineStart room (front * room + used) =
      front * room + used + SMDPageFile.skipped 4 (room - used) := by
  rw [lineStart, Nat.mul_comm, Nat.mul_add_mod]
  rcases Nat.lt_or_eq_of_le inside with less | full
  · rw [Nat.mod_eq_of_lt less]
  · rw [full, Nat.mod_self, Nat.sub_zero, Nat.sub_self, SMDPageFile.skipped, if_neg (by omega),
      SMDPageFile.skipped, ite_self]

/-! ### The line of a segment -/

/-- The strings of the list are what stands on the chain, in a line that ends on its last page. -/
structure Lines (pageSize : Nat) (pages : PageMap) (chain : List Nat) (strings : List Bytes) :
    Prop where
  data : ∀ pageno ∈ chain, pageno ≠ 0
  lined : Lined (pageSize - 12) (chainCells pages chain) 0 strings
  short : ∀ bytes ∈ strings, bytes ≠ [] ∧ bytes.length + 4 < 2147483648
  ended : ∃ front last view, chain = front ++ [last] ∧ pages last = some view ∧
    lineEnd (pageSize - 12) 0 strings = front.length * (pageSize - 12) + view.used ∧
    (front = [] ∨ 0 < view.used)

/-- A new segment. -/
theorem lines_blank {pageSize pageno : Nat} {pages : PageMap} (data : pageno ≠ 0)
    (blank : pages pageno = some (PageView.blank (pageSize - 12))) :
    Lines pageSize pages [pageno] [] := by
  refine ⟨fun other member => by rw [List.mem_singleton.mp member]; exact data, trivial,
    (fun _ member => absurd member List.not_mem_nil), [], pageno, _, rfl, blank, ?_, Or.inl rfl⟩
  simp [lineEnd, PageView.used, PageView.blank]

theorem Lines.congr {pageSize : Nat} {pages later : PageMap} {chain : List Nat}
    {strings : List Bytes} (lines : Lines pageSize pages chain strings)
    (same : ∀ pageno ∈ chain, later pageno = pages pageno) :
    Lines pageSize later chain strings := by
  obtain ⟨front, last, view, split, known, ended⟩ := lines.ended
  refine ⟨lines.data, by rw [chainCells_congr same]; exact lines.lined, lines.short,
    front, last, view, split, ?_, ended⟩
  rw [same last (by rw [split]; exact List.mem_append_right _ List.mem_cons_self), known]

/-- The cells of a string on a page of more than 28 bytes. -/
theorem putCells_four {pageSize : Nat} (room : 28 < pageSize) (view : PageView) {bytes : Bytes}
    (some' : bytes ≠ []) : SMDPageFile.putCells 4 pageSize view bytes =
      free (SMDPageFile.skipped 4 view.space) ++
        (SMDPageFile.lengthHeader bytes.length ++ bytes).map some := by
  have positive := List.length_pos_iff.mpr some'
  by_cases little : view.space < 4
  · have turns : SMDPageFile.turnsFirst 4 bytes.length view = true := by
      rw [SMDPageFile.turnsFirst, decide_eq_true little, decide_eq_true (by omega)]
      rfl
    rw [SMDPageFile.putCells, if_pos turns, SMDPageFile.skipped, if_neg (by omega), free_zero,
      List.append_nil, SMDPageFile.skipped, if_pos little, List.map_append, List.append_assoc]
  · have stays : ¬ SMDPageFile.turnsFirst 4 bytes.length view = true := by
      rw [SMDPageFile.turnsFirst, decide_eq_false little, Bool.and_false]
      exact Bool.false_ne_true
    rw [SMDPageFile.putCells, if_neg stays, Nat.min_eq_right (by omega),
      SMDPageFile.take_lengthHeader, SMDPageFile.skipped, if_neg little, free_zero, List.nil_append,
      List.map_append]

/-- An appended string joins the line. -/
theorem Lines.put {pageSize : Nat} {pages later : PageMap} {chain fresh : List Nat}
    {strings : List Bytes} (lines : Lines pageSize pages chain strings) {last : Nat}
    {view : PageView} {bytes : Bytes} {page : SMDPage} {state after : Segments Device}
    (longer : Segments.Lengthened 4 state after pages later chain fresh last view bytes page)
    (size : state.mgr.m_nPageSize = pageSize) (room : 28 < pageSize)
    (stores : Stores state.mgr.device pageSize pages)
    (laterStores : Stores after.mgr.device pageSize later) (distinct : chain.Nodup)
    (below : ∀ pageno ∈ chain, pageno ≤ state.mgr.m_nPageCnt) (linked : Chain pages chain)
    (some' : bytes ≠ []) (short : bytes.length + 4 < 2147483648) :
    Lines pageSize later (chain ++ fresh) (strings ++ [bytes]) := by
  obtain ⟨front, number, held, split, seen, endEq, _⟩ := lines.ended
  obtain ⟨front', splitEq⟩ := longer.splitEq
  obtain ⟨rfl, equal⟩ := List.append_inj' (split.symm.trans splitEq) rfl
  cases equal
  rw [longer.known] at seen
  cases seen
  rw [split] at distinct
  have frontSame : chainCells later front = chainCells pages front := by
    refine chainCells_congr fun pageno member => longer.others pageno fun inside => ?_
    rcases List.mem_cons.mp inside with equal | inside
    · exact (List.nodup_append.mp distinct).2.2 _ member _ (List.mem_singleton.mpr rfl) equal
    · have bound := below pageno (by rw [split]; exact List.mem_append_left _ member)
      exact Nat.not_lt_of_le bound (longer.grown.new_page inside).1
  -- the tape before and behind the append, with the written part in front
  obtain ⟨bodyEq, space⟩ := (stores last view longer.known).length_body
  rw [bodyOffset_pos last (lines.data last (by rw [split]; simp))] at bodyEq
  have usedEq : view.used = view.body.length - view.space := rfl
  obtain ⟨written, writtenEq⟩ : ∃ written, written =
    chainCells pages front ++ view.written.map some := ⟨_, rfl⟩
  have before : chainCells pages chain = written ++ free view.space := by
    rw [split, chainCells_append, chainCells_cons, chainCells_nil, List.append_nil,
      pageCells_of_some longer.known, PageView.cells, writtenEq, List.append_assoc]
  have behind : chainCells later (chain ++ fresh) = written ++
      (free (SMDPageFile.skipped 4 view.space) ++
        (SMDPageFile.lengthHeader bytes.length ++ bytes).map some ++ free page.view.space) := by
    have cells := longer.cells
    rw [size, putCells_four room view some'] at cells
    rw [split, List.append_assoc, List.singleton_append, chainCells_append, frontSame, cells,
      writtenEq]
    simp only [List.append_assoc]
  have writtenLength : written.length = lineEnd (pageSize - 12) 0 strings := by
    have frontLength := length_chainCells stores front fun pageno member =>
      linked.known (by rw [split]; exact List.mem_append_left _ member)
    rw [writtenEq, List.length_append, frontLength, tapeLength_behind pageSize front
      fun pageno member => lines.data pageno (by rw [split]; exact List.mem_append_left _ member),
      List.length_map, view.length_written space, endEq, usedEq]
  have startEq : lineStart (pageSize - 12) (lineEnd (pageSize - 12) 0 strings) =
      written.length + SMDPageFile.skipped 4 view.space := by
    rw [writtenLength, endEq, lineStart_page (by omega) (by omega)]
    congr 2
    omega
  have data : ∀ pageno ∈ chain ++ fresh, pageno ≠ 0 := by
    intro pageno member
    rcases List.mem_append.mp member with old | new
    · exact lines.data pageno old
    · exact Nat.ne_of_gt (Nat.zero_lt_of_lt (longer.grown.new_page new).1)
  refine ⟨data, ?_, ?_, ?_⟩
  · have old := lines.lined
    rw [before] at old
    rw [lined_append, behind]
    refine ⟨old.extend _, ?_, trivial⟩
    rw [startEq]
    have reads := reads_self (written ++ free (SMDPageFile.skipped 4 view.space))
      (free page.view.space) (SMDPageFile.lengthHeader bytes.length ++ bytes)
    rw [List.length_append, length_free] at reads
    simpa only [List.append_assoc] using reads
  · intro other member
    rcases List.mem_append.mp member with old | new
    · exact lines.short other old
    · rw [List.mem_singleton.mp new]
      exact ⟨some', short⟩
  · obtain ⟨fronts, ended⟩ := List.getLast?_eq_some_iff.mp longer.ended
    have whole : chain ++ fresh = (front ++ fronts) ++ [page.pageno] := by
      rw [split, List.append_assoc, List.singleton_append, ended, List.append_assoc]
    obtain ⟨lastBody, lastSpace⟩ := (laterStores page.pageno page.view longer.seen).length_body
    rw [bodyOffset_pos page.pageno (data _ (by rw [whole]; simp))] at lastBody
    have lastUsed : page.view.used = page.view.body.length - page.view.space := rfl
    refine ⟨front ++ fronts, page.pageno, page.view, whole, longer.seen, ?_, Or.inr longer.used⟩
    have total := length_chainCells laterStores (chain ++ fresh) fun pageno member =>
      longer.grown.linked.known member
    rw [tapeLength_behind pageSize _ data, whole, List.length_append, List.length_singleton,
      Nat.succ_mul, ← whole, behind] at total
    simp only [List.length_append, List.length_map, length_free,
      SMDPageFile.length_lengthHeader] at total
    rw [lineEnd_append, lineEnd, lineEnd, startEq, List.length_append]
    omega

/-! ### Where the strings start -/

/-- A start leaves room for the length header on its page. -/
theorem lineStart_header {room cell : Nat} (wide : 4 ≤ room) :
    lineStart room cell % room + 4 ≤ room := by
  have less := Nat.mod_lt cell (show 0 < room by omega)
  have parts := Nat.div_add_mod cell room
  rw [lineStart, SMDPageFile.skipped]
  split
  · have whole : cell + (room - cell % room) = room * (cell / room + 1) := by
      rw [Nat.mul_succ]
      omega
    rw [whole, Nat.mul_mod_right]
    omega
  · show cell % room + 4 ≤ room
    omega

theorem lineStart_ge (room cell : Nat) : cell ≤ lineStart room cell := Nat.le_add_right ..

theorem lineEnd_ge (room cell : Nat) (strings : List Bytes) : cell ≤ lineEnd room cell strings := by
  induction strings generalizing cell with
  | nil => exact Nat.le_refl _
  | cons bytes rest inductionHypothesis =>
    have later := inductionHypothesis (lineStart room cell + 4 + bytes.length)
    have start := lineStart_ge room cell
    rw [lineEnd]
    omega

/-- A cell of the chain lies on one of its pages. -/
theorem page_of_cell {chain : List Nat} {room cell : Nat} (inside : cell < chain.length * room) :
    ∃ front pageno after, chain = front ++ pageno :: after ∧
      cell = front.length * room + cell % room := by
  have positive : 0 < room := by
    rcases Nat.eq_zero_or_pos room with zero | positive
    · rw [zero, Nat.mul_zero] at inside
      omega
    · exact positive
  have index : cell / room < chain.length := (Nat.div_lt_iff_lt_mul positive).mpr inside
  refine ⟨chain.take (cell / room), chain[cell / room], chain.drop (cell / room + 1), ?_, ?_⟩
  · rw [← List.drop_eq_getElem_cons index, List.take_append_drop]
  · rw [List.length_take, Nat.min_eq_left (Nat.le_of_lt index), Nat.mul_comm, Nat.div_add_mod]

/-- The page and the position of a string of the line. -/
theorem Lines.start {pageSize : Nat} {pages : PageMap} {chain : List Nat} {strings : List Bytes}
    (lines : Lines pageSize pages chain strings) (room : 28 < pageSize) {device : Device}
    (stores : Stores device pageSize pages) (linked : Chain pages chain) {done rest : List Bytes}
    {bytes : Bytes} (split : strings = done ++ bytes :: rest) :
    ∃ front pageno after pos, chain = front ++ pageno :: after ∧
      lineStart (pageSize - 12) (lineEnd (pageSize - 12) 0 done) =
        front.length * (pageSize - 12) + pos ∧
      pos + 4 ≤ pageSize - 12 ∧ Stands pages (pageno :: after) pos bytes := by
  have lined := lines.lined
  rw [split, lined_append] at lined
  have reads := lined.2.1
  have some' : SMDPageFile.lengthHeader bytes.length ++ bytes ≠ [] := List.cons_ne_nil _ _
  have total := length_chainCells stores chain fun pageno member => linked.known member
  rw [tapeLength_behind pageSize chain lines.data] at total
  have inside := reads.length_le some'
  rw [total, List.length_append, SMDPageFile.length_lengthHeader] at inside
  obtain ⟨front, pageno, after, chainEq, cellEq⟩ := page_of_cell
    (show lineStart (pageSize - 12) (lineEnd (pageSize - 12) 0 done) <
      chain.length * (pageSize - 12) by omega)
  have frontLength := length_chainCells stores front fun pageno member =>
    linked.known (by rw [chainEq]; exact List.mem_append_left _ member)
  rw [tapeLength_behind pageSize front fun pageno member =>
    lines.data pageno (by rw [chainEq]; exact List.mem_append_left _ member)] at frontLength
  rw [chainEq, chainCells_append, cellEq, ← frontLength, reads_append_left] at reads
  exact ⟨front, pageno, after, _, chainEq, cellEq, lineStart_header (by omega), reads⟩

/-- A line ends inside its chain. -/
theorem Lines.within {pageSize : Nat} {pages : PageMap} {chain : List Nat} {strings : List Bytes}
    (lines : Lines pageSize pages chain strings) {device : Device}
    (stores : Stores device pageSize pages) :
    lineEnd (pageSize - 12) 0 strings ≤ chain.length * (pageSize - 12) := by
  obtain ⟨front, last, view, split, known, endEq, _⟩ := lines.ended
  obtain ⟨bodyEq, _⟩ := (stores last view known).length_body
  rw [bodyOffset_pos last (lines.data last (by rw [split]; simp))] at bodyEq
  have usedEq : view.used = view.body.length - view.space := rfl
  rw [endEq, split, List.length_append, List.length_singleton, Nat.succ_mul]
  omega

end LevelDBLib.KvDB
