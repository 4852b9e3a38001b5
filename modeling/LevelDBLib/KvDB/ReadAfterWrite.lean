/-
This file states what callers of a segment may rely on: an appended string is read
back under the offset that `put` returned, at every later time, and a string that
was overwritten is read back as it was overwritten, while all others stay as they
are. Each comes with the calls on a new file for which the code does not do so.
-/

import LevelDBLib.KvDB.RecordRuns

namespace LevelDBLib.KvDB

open Buffers Tapes Runs Logs

variable {Device : Type} [CoherentDevice Device]

namespace Segments

/-! ### Append and read back -/

/-- The calls of a caller who appends: new segments without a minimal unit of their own while the
page table fits on its page, appends, and reads at the offsets that appends returned. -/
def Appends (history : History Request Reply) (state : Segments Device) (call : Request) : Prop :=
  state.mgr.FileSmall ∧
    match call with
    | .createPageFile enumType sTableName minUnit =>
      minUnit = 0 ∧ state.mgr.m_PageInfo.find ⟨enumType, sTableName⟩ = none ∧
        (state.mgr.enrolled ⟨enumType, sTableName⟩ (max minUnit 4)).TableFits
    | .put _ bytes => bytes ≠ [] ∧ bytes.length + 4 < 2147483648
    | .get key offset => ∃ bytes, (.put key bytes, .offset offset) ∈ history
    | .putAt _ _ _ => False
    | .clearPage _ => False
    | .save => False

theorem contentsOf_appended {history : History Request Reply} {key : PageKey_t} {bytes : Bytes}
    {offset : Int} (appended : (.put key bytes, .offset offset) ∈ history) :
    (contentsOf history key offset).isSome := by
  induction history with
  | nil => cases appended
  | cons entry rest inductionHypothesis =>
    rw [contentsOf, Option.isSome_or, Bool.or_eq_true]
    rcases List.mem_cons.mp appended with equal | member
    · cases equal
      rw [writtenBy, if_pos ⟨rfl, rfl⟩]
      exact Or.inl rfl
    · exact Or.inr (inductionHypothesis member)

variable {history : History Request Reply} {state : Segments Device} {pages : PageMap}
  {chains : PageKey_t → List Nat}

theorem Appends.keepsLogs {call : Request} (admitted : Appends history state call)
    (recorded : Recorded history state pages chains) (plain : state.Plain) :
    KeepsLogs history state call := by
  obtain ⟨fileSmall, admitted⟩ := admitted
  refine ⟨fileSmall, ?_⟩
  cases call with
  | createPageFile enumType sTableName minUnit => exact admitted.2
  | put key bytes =>
    obtain ⟨some', short⟩ := admitted
    exact ⟨some', short, plain.findable recorded key (List.length_pos_iff.mpr some')⟩
  | get key offset =>
    obtain ⟨bytes, appended⟩ := admitted
    exact contentsOf_appended appended
  | putAt key bytes offset => exact absurd admitted id
  | clearPage key => exact absurd admitted id
  | save => exact absurd admitted id

theorem Appends.plain {call : Request} (admitted : Appends history state call)
    (recorded : Recorded history state pages chains) (plain : state.Plain) {reply : Reply}
    {after : Segments Device} (returned : state.step call = .ok (reply, after))
    (afterSmall : after.mgr.FileSmall) : after.Plain := by
  obtain ⟨fileSmall, admitted⟩ := admitted
  cases call with
  | createPageFile enumType sTableName minUnit =>
    obtain ⟨rfl, fresh, fits⟩ := admitted
    obtain ⟨_, _, afterEq, _⟩ := @Recorded.create _ _ history state pages chains recorded
      ⟨enumType, sTableName⟩ 0 fresh fits fileSmall reply after returned
    rw [afterEq]
    exact plain.after rfl _
  | put key bytes =>
    obtain ⟨some', short⟩ := admitted
    cases opened : state.files key with
    | none =>
      simp only [step, opened] at returned
      cases returned
      exact plain
    | some file =>
      obtain ⟨_, _, _, _, _, _, _, _, afterEq, _⟩ := recorded.put opened bytes some' short
        (plain.findable recorded key (List.length_pos_iff.mpr some')) fileSmall returned afterSmall
      rw [afterEq]
      refine plain.after ?_ _
      exact plain key file opened
  | get key offset =>
    obtain ⟨bytes, appended⟩ := admitted
    obtain ⟨held, known⟩ := Option.isSome_iff_exists.mp (contentsOf_appended appended)
    obtain ⟨_, getEq, kept, _⟩ := recorded.get fileSmall known
    rw [getEq] at returned
    cases returned
    exact kept plain
  | putAt key bytes offset => exact absurd admitted id
  | clearPage key => exact absurd admitted id
  | save => exact absurd admitted id

/-- The log of a segment that only grows holds what was appended to it: no offset is returned
twice. -/
theorem run_appended {device : Device} {pageSize : Nat} {mgr : SMDPageManagement Device}
    (flag : HoldsFlag device pageSize) (sizeLt : pageSize < 65536)
    (newEq : SMDPageManagement.new device false pageSize = .ok mgr)
    (run : Run step Appends (opened mgr) history state) (fileSmall : state.mgr.FileSmall) :
    (∃ pages chains, Recorded history state pages chains) ∧ state.Plain ∧
      ∀ key bytes offset, (.put key bytes, .offset offset) ∈ history →
        contentsOf history key offset = some bytes := by
  refine run.invariant (fun history state => state.mgr.FileSmall →
    (∃ pages chains, Recorded history state pages chains) ∧ state.Plain ∧
      ∀ key bytes offset, (.put key bytes, .offset offset) ∈ history →
        contentsOf history key offset = some bytes)
    (fun _ => ⟨⟨_, _, new_recorded flag sizeLt newEq⟩, (fun _ _ opened => by cases opened),
      fun _ _ _ member => by cases member⟩) ?_ fileSmall
  intro history state call reply after invariant admitted returned afterSmall
  obtain ⟨⟨pages, chains, recorded⟩, plain, appended⟩ := invariant admitted.1
  refine ⟨recorded.step call (admitted.keepsLogs recorded plain) returned afterSmall,
    admitted.plain recorded plain returned afterSmall, ?_⟩
  intro key bytes offset member
  rcases List.mem_cons.mp member with equal | old
  · cases equal
    rw [contentsOf_put, if_pos rfl]
  · have held := appended key bytes offset old
    cases call with
    | put other more =>
      by_cases same : key = other
      · subst same
        cases opened : state.files key with
        | none =>
          simp only [step, opened] at returned
          cases returned
          rw [contentsOf_quiet _ _ _ fun _ equal => by cases equal]
          exact held
        | some file =>
          obtain ⟨start, _, _, _, _, _, replyEq, free', _⟩ := recorded.put opened more admitted.2.1
            admitted.2.2 (plain.findable recorded key (List.length_pos_iff.mpr admitted.2.1))
            admitted.1 returned afterSmall
          have different : offset ≠ start := fun equal => by
            rw [← equal, held] at free'
            cases free'
          rw [replyEq, contentsOf_put, if_neg different]
          exact held
      · rw [contentsOf_other _ _ _ other key offset rfl same]
        exact held
    | putAt other more place => exact absurd admitted.2 id
    | _ => exact held

/-- Append and read back: in every state that a new file reaches over appends and reads, with the
page table on one page, `get` at an offset that `put` returned reads the string that was put. -/
theorem appended_is_read (device : Device) (pageSize : Nat) (mgr : SMDPageManagement Device)
    (flag : HoldsFlag device pageSize) (sizeLt : pageSize < 65536)
    (newEq : SMDPageManagement.new device false pageSize = .ok mgr)
    (history : History Request Reply) (state : Segments Device)
    (run : Run step Appends (opened mgr) history state) (fileSmall : state.mgr.FileSmall)
    (key : PageKey_t) (bytes : Bytes) (offset : Int)
    (appended : (.put key bytes, .offset offset) ∈ history) :
    ∃ after, state.step (.get key offset) = .ok (.bytes true bytes, after) := by
  obtain ⟨⟨pages, chains, recorded⟩, -, held⟩ := run_appended flag sizeLt newEq run fileSmall
  obtain ⟨after, getEq, _⟩ := recorded.get fileSmall (held key bytes offset appended)
  exact ⟨after, getEq⟩

/-- Four calls on a new file with pages of 96 bytes: the first segment, two strings put to it, and
the first of them overwritten. -/
theorem sampleCalls (minUnit : Nat) (isUnit : minUnit = 0 ∨ minUnit = 8) :
    ∃ (device : PageDisk) (mgr : SMDPageManagement PageDisk) (reply : Reply)
      (first second third fourth : Segments PageDisk), HoldsFlag device 96 ∧
    SMDPageManagement.new device false 96 = .ok mgr ∧
    step (opened mgr) (.createPageFile .SEG_TYPE_DATA [1] minUnit) = .ok (reply, first) ∧
    step first (.put ⟨.SEG_TYPE_DATA, [1]⟩ [4, 5]) = .ok (.offset 108, second) ∧
    step second (.put ⟨.SEG_TYPE_DATA, [1]⟩ [9]) = .ok (.offset 114, third) ∧
    step third (.putAt ⟨.SEG_TYPE_DATA, [1]⟩ [6, 7] 108) = .ok (.offset 108, fourth) ∧
    first.Findable ⟨.SEG_TYPE_DATA, [1]⟩ 2 ∧ second.Findable ⟨.SEG_TYPE_DATA, [1]⟩ 1 ∧
    ∀ state ∈ [first, second, third, fourth],
      state.mgr.m_nPageCnt = 1 ∧ state.mgr.m_nPageSize = 96 := by
  have evaluated : (do
      let disk ← PageDisk.create 96
      let mgr ← SMDPageManagement.new disk false 96
      let (_, first) ← step (opened mgr) (.createPageFile .SEG_TYPE_DATA [1] minUnit)
      let (put, second) ← step first (.put ⟨.SEG_TYPE_DATA, [1]⟩ [4, 5])
      let (more, third) ← step second (.put ⟨.SEG_TYPE_DATA, [1]⟩ [9])
      let (overwritten, fourth) ← step third (.putAt ⟨.SEG_TYPE_DATA, [1]⟩ [6, 7] 108)
      .ok ([put, more, overwritten], [decide (first.Findable ⟨.SEG_TYPE_DATA, [1]⟩ 2),
        decide (second.Findable ⟨.SEG_TYPE_DATA, [1]⟩ 1)], [first, second, third, fourth].map
          fun state => (state.mgr.m_nPageCnt, state.mgr.m_nPageSize))) =
      (Except.ok ([.offset 108, .offset 114, .offset 108], [true, true],
        [(1, 96), (1, 96), (1, 96), (1, 96)]) :
        Except Fault (List Reply × List Bool × List (Nat × Nat))) := by
    rcases isUnit with rfl | rfl <;> decide +kernel
  simp only [bind_eq_ok] at evaluated
  obtain ⟨device, created, mgr, newEq, ⟨reply, first⟩, createEq, ⟨put, second⟩, putEq,
    ⟨more, third⟩, moreEq, ⟨overwritten, fourth⟩, overEq, equal⟩ := evaluated
  simp only [Except.ok.injEq, Prod.mk.injEq, List.cons.injEq, decide_eq_true_eq, and_true] at equal
  obtain ⟨⟨rfl, rfl, rfl⟩, ⟨twoFits, oneFits⟩, counters⟩ := equal
  refine ⟨device, mgr, reply, first, second, third, fourth, holdsFlag_create created, newEq, createEq,
    putEq, moreEq, overEq, twoFits, oneFits, fun state member => ?_⟩
  let counts (state : Segments PageDisk) := (state.mgr.m_nPageCnt, state.mgr.m_nPageSize)
  have counted : counts state ∈ [first, second, third, fourth].map counts :=
    List.mem_map_of_mem member
  rw [counters] at counted
  simpa [counts] using counted

theorem newSegment_fits {device : PageDisk} {mgr : SMDPageManagement PageDisk}
    (newEq : SMDPageManagement.new device false 96 = .ok mgr) (minUnit : Nat) :
    mgr.FileSmall ∧ mgr.m_PageInfo.find ⟨.SEG_TYPE_DATA, [1]⟩ = none ∧
      (mgr.enrolled ⟨.SEG_TYPE_DATA, [1]⟩ (max minUnit 4)).TableFits := by
  cases newEq
  refine ⟨(by decide : (0 + 1) * 96 ≤ 2147483648), rfl, fun value found => ?_⟩
  rw [show value = ⟨0, 0, 0, 0⟩ from (Option.some.inj found).symm]
  exact (by decide : 64 + 4 ≤ 96 - 28)

theorem counted_small {state : Segments PageDisk}
    (counted : state.mgr.m_nPageCnt = 1 ∧ state.mgr.m_nPageSize = 96) : state.mgr.FileSmall := by
  rw [SMDPageManagement.FileSmall, counted.1, counted.2]
  decide

theorem appended_is_read_once : ∃ (device : PageDisk) (mgr : SMDPageManagement PageDisk)
    (history : History Request Reply) (state : Segments PageDisk),
    HoldsFlag device 96 ∧ Run step Appends (opened mgr) history state ∧
    (.put ⟨.SEG_TYPE_DATA, [1]⟩ [4, 5], .offset 108) ∈ history ∧
    ∃ after, state.step (.get ⟨.SEG_TYPE_DATA, [1]⟩ 108) = .ok (.bytes true [4, 5], after) := by
  obtain ⟨device, mgr, reply, first, second, third, fourth, flag, newEq, createEq, putEq, moreEq, _, _,
    _, counted⟩ := sampleCalls 0 (.inl rfl)
  obtain ⟨startSmall, fresh, fits⟩ := newSegment_fits newEq 0
  have created : Appends [] (opened mgr) (.createPageFile .SEG_TYPE_DATA [1] 0) :=
    And.intro startSmall ⟨rfl, fresh, fits⟩
  have put : Appends [(.createPageFile .SEG_TYPE_DATA [1] 0, reply)] first
      (.put ⟨.SEG_TYPE_DATA, [1]⟩ [4, 5]) :=
    And.intro (counted_small (counted first (by simp))) ⟨by decide, by decide⟩
  have more : Appends [(.put ⟨.SEG_TYPE_DATA, [1]⟩ [4, 5], .offset 108),
      (.createPageFile .SEG_TYPE_DATA [1] 0, reply)] second (.put ⟨.SEG_TYPE_DATA, [1]⟩ [9]) :=
    And.intro (counted_small (counted second (by simp))) ⟨by decide, by decide⟩
  have unmoved : Run step Appends (opened mgr) [] (opened mgr) := .start
  have run := ((unmoved.step created createEq).step put putEq).step more moreEq
  have appended := List.mem_cons_of_mem (.put ⟨.SEG_TYPE_DATA, [1]⟩ [9], .offset 114)
    (List.mem_cons_self : ((.put ⟨.SEG_TYPE_DATA, [1]⟩ [4, 5], .offset 108) : Request × Reply) ∈
      [(.put ⟨.SEG_TYPE_DATA, [1]⟩ [4, 5], .offset 108),
        (.createPageFile .SEG_TYPE_DATA [1] 0, reply)])
  exact ⟨device, mgr, _, third, flag, run, appended,
    appended_is_read device 96 mgr flag (by decide) newEq _ third run
      (counted_small (counted third (by simp))) ⟨.SEG_TYPE_DATA, [1]⟩ [4, 5] 108 appended⟩

/-- In place of the root page of its second segment this file has a page of zeros, whose link leads
to page 0: what is put to the segment ends up in the page table. -/
theorem appended_is_lost : ∃ (device : PageDisk) (mgr : SMDPageManagement PageDisk)
    (replies : List Reply) (state : Segments PageDisk), HoldsFlag device 96 ∧
    SMDPageManagement.new device false 96 = .ok mgr ∧
    Run step (fun _ _ _ => True) (opened mgr)
      (([.createPageFile .SEG_TYPE_DATA [1] 0, .createPageFile .SEG_TYPE_DATA [2] 0,
        .put ⟨.SEG_TYPE_DATA, [2]⟩ [4, 5]] : List Request).zip replies).reverse state ∧
    replies = [.created true, .created true, .offset 28] ∧
    ∀ after, state.step (.get ⟨.SEG_TYPE_DATA, [2]⟩ 28) ≠ .ok (.bytes true [4, 5], after) := by
  have evaluated : onNewFile 96
      [.createPageFile .SEG_TYPE_DATA [1] 0, .createPageFile .SEG_TYPE_DATA [2] 0,
        .put ⟨.SEG_TYPE_DATA, [2]⟩ [4, 5]]
      (fun replies state => (replies, decide
        ((state.step (.get ⟨.SEG_TYPE_DATA, [2]⟩ 28)).toOption.map Prod.fst =
          some (.bytes true [4, 5])))) =
      .ok ([.created true, .created true, .offset 28], false) := by decide +kernel
  obtain ⟨device, mgr, replies, state, flag, newEq, run, observed⟩ := run_of_onNewFile evaluated
  obtain ⟨repliesEq, different⟩ := Prod.mk.inj observed
  refine ⟨device, mgr, replies, state, flag, newEq, run, repliesEq, fun after getEq => ?_⟩
  rw [getEq] at different
  exact of_decide_eq_false different rfl

/-! ### Overwriting in place -/

/-- In-place overwrite: in every state that a new file reaches over appends, reads and aligned
overwrites of strings by strings of the same length, `get` at the offset of a string reads what was
last written there. -/
theorem overwritten_is_read (device : Device) (pageSize : Nat) (mgr : SMDPageManagement Device)
    (flag : HoldsFlag device pageSize) (sizeLt : pageSize < 65536)
    (newEq : SMDPageManagement.new device false pageSize = .ok mgr)
    (history : History Request Reply) (state : Segments Device)
    (run : Run step KeepsLogs (opened mgr) history state) (fileSmall : state.mgr.FileSmall)
    (key : PageKey_t) (bytes : Bytes) (offset : Int)
    (written : contentsOf history key offset = some bytes) :
    ∃ after, state.step (.get key offset) = .ok (.bytes true bytes, after) := by
  obtain ⟨pages, chains, recorded⟩ := run_recorded flag sizeLt newEq run fileSmall
  obtain ⟨after, getEq, _⟩ := recorded.get fileSmall written
  exact ⟨after, getEq⟩

/-- A segment with a unit above that of the length header. -/
theorem overwritten_is_read_once : ∃ (device : PageDisk) (mgr : SMDPageManagement PageDisk)
    (history : History Request Reply) (state : Segments PageDisk),
    HoldsFlag device 96 ∧ Run step KeepsLogs (opened mgr) history state ∧
    history.map Prod.fst = [.putAt ⟨.SEG_TYPE_DATA, [1]⟩ [6, 7] 108, .put ⟨.SEG_TYPE_DATA, [1]⟩ [9],
      .put ⟨.SEG_TYPE_DATA, [1]⟩ [4, 5], .createPageFile .SEG_TYPE_DATA [1] 8] ∧
    (∃ after, state.step (.get ⟨.SEG_TYPE_DATA, [1]⟩ 108) = .ok (.bytes true [6, 7], after)) ∧
    ∃ after, state.step (.get ⟨.SEG_TYPE_DATA, [1]⟩ 114) = .ok (.bytes true [9], after) := by
  obtain ⟨device, mgr, reply, first, second, third, fourth, flag, newEq, createEq, putEq, moreEq,
    overEq, twoFits, oneFits, counted⟩ := sampleCalls 8 (.inr rfl)
  obtain ⟨startSmall, fresh, fits⟩ := newSegment_fits newEq 8
  have created : KeepsLogs [] (opened mgr) (.createPageFile .SEG_TYPE_DATA [1] 8) :=
    And.intro startSmall ⟨fresh, fits⟩
  have put : KeepsLogs [(.createPageFile .SEG_TYPE_DATA [1] 8, reply)] first
      (.put ⟨.SEG_TYPE_DATA, [1]⟩ [4, 5]) :=
    And.intro (counted_small (counted first (by simp))) ⟨by decide, by decide, twoFits⟩
  have more : KeepsLogs [(.put ⟨.SEG_TYPE_DATA, [1]⟩ [4, 5], .offset 108),
      (.createPageFile .SEG_TYPE_DATA [1] 8, reply)] second (.put ⟨.SEG_TYPE_DATA, [1]⟩ [9]) :=
    And.intro (counted_small (counted second (by simp))) ⟨by decide, by decide, oneFits⟩
  have sizeEq := (counted third (by simp)).2
  have aligned : third.Aligned ⟨.SEG_TYPE_DATA, [1]⟩ 108 2 := by
    rw [Aligned, sizeEq]
    refine ⟨by decide, by decide, by decide, fun _ front rest _ _ pageno member => ?_⟩
    rw [show 2 - (96 - (Int.toNat 108 % 96 + 4)) = 0 from rfl, SMDPageFile.reached_zero] at member
    cases member
  have admitted : KeepsLogs [(.put ⟨.SEG_TYPE_DATA, [1]⟩ [9], .offset 114),
      (.put ⟨.SEG_TYPE_DATA, [1]⟩ [4, 5], .offset 108),
      (.createPageFile .SEG_TYPE_DATA [1] 8, reply)] third
      (.putAt ⟨.SEG_TYPE_DATA, [1]⟩ [6, 7] 108) :=
    And.intro (counted_small (counted third (by simp))) ⟨[4, 5], rfl, by decide, rfl, aligned⟩
  have unmoved : Run step KeepsLogs (opened mgr) [] (opened mgr) := .start
  have run := (((unmoved.step created createEq).step put putEq).step more moreEq).step admitted overEq
  have small := counted_small (counted fourth (by simp))
  exact ⟨device, mgr, _, fourth, flag, run, rfl,
    overwritten_is_read device 96 mgr flag (by decide) newEq _ fourth run small
      ⟨.SEG_TYPE_DATA, [1]⟩ [6, 7] 108 rfl,
    overwritten_is_read device 96 mgr flag (by decide) newEq _ fourth run small
      ⟨.SEG_TYPE_DATA, [1]⟩ [9] 114 rfl⟩

/-- A string whose length header ends its page: the data of the overwrite goes to the start of the
page with the header, and the data that `get` reads, on the next page, stays as it was. -/
theorem overwritten_is_lost : ∃ (device : PageDisk) (mgr : SMDPageManagement PageDisk)
    (replies : List Reply) (state : Segments PageDisk), HoldsFlag device 128 ∧
    SMDPageManagement.new device false 128 = .ok mgr ∧
    Run step (fun _ _ _ => True) (opened mgr)
      (([.createPageFile .SEG_TYPE_DATA [1] 0,
        .put ⟨.SEG_TYPE_DATA, [1]⟩ (List.replicate 108 7), .put ⟨.SEG_TYPE_DATA, [1]⟩ [8, 9],
        .putAt ⟨.SEG_TYPE_DATA, [1]⟩ [5, 6] 252] : List Request).zip replies).reverse state ∧
    replies = [.created true, .offset 140, .offset 252, .offset 252] ∧
    ∀ after, state.step (.get ⟨.SEG_TYPE_DATA, [1]⟩ 252) ≠ .ok (.bytes true [5, 6], after) := by
  have evaluated : onNewFile 128
      [.createPageFile .SEG_TYPE_DATA [1] 0,
        .put ⟨.SEG_TYPE_DATA, [1]⟩ (List.replicate 108 7), .put ⟨.SEG_TYPE_DATA, [1]⟩ [8, 9],
        .putAt ⟨.SEG_TYPE_DATA, [1]⟩ [5, 6] 252]
      (fun replies state => (replies, decide
        ((state.step (.get ⟨.SEG_TYPE_DATA, [1]⟩ 252)).toOption.map Prod.fst =
          some (.bytes true [5, 6])))) =
      .ok ([.created true, .offset 140, .offset 252, .offset 252], false) := by decide +kernel
  obtain ⟨device, mgr, replies, state, flag, newEq, run, observed⟩ := run_of_onNewFile evaluated
  obtain ⟨repliesEq, different⟩ := Prod.mk.inj observed
  refine ⟨device, mgr, replies, state, flag, newEq, run, repliesEq, fun after getEq => ?_⟩
  rw [getEq] at different
  exact of_decide_eq_false different rfl

end Segments

end LevelDBLib.KvDB
