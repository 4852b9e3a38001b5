/-
This file proves who owns the pages of a new file after any sequence of calls.

The pages stay with their segments in every run whose calls are admitted. What
has to be asked of a call is what the code leaves to chance: a new segment needs a
page table that still fits on the last page of the table's own segment, and `put`
at an offset needs an offset on a page of its segment, which nothing checks. A
file whose table outgrows its page when a segment is created loses the root page
of that segment, and with it the property.
-/

import LevelDBLib.KvDB.Ownership

namespace LevelDBLib.KvDB

open Buffers Tapes Runs

variable {Device : Type} [CoherentDevice Device]

/-! ### The calls that keep the pages apart -/

namespace SMDPageManagement

/-- The page table fits, with its length header, on the last page of its segment. -/
def TableFits (mgr : SMDPageManagement Device) : Prop :=
  ∀ value, mgr.m_PageInfo.find pageTableKey = some value →
    mgr.tableBytes.length + 4 ≤ mgr.m_nPageSize - bodyOffset value.nLastPageNo

instance (mgr : SMDPageManagement Device) : Decidable mgr.TableFits :=
  inferInstanceAs (Decidable (∀ value ∈ mgr.m_PageInfo.find pageTableKey, _))

/-- The lengths and the page numbers of a call that writes `count` bytes stay in the range of the
code's types. -/
def InRange (mgr : SMDPageManagement Device) (count : Nat) : Prop :=
  count + 4 < 2147483648 ∧ mgr.m_nPageCnt + 2 + count < 0xFFFFFFFF

end SMDPageManagement

namespace Segments

/-- A segment object of the page table holds a page as it is in the file. The allocator writes the
pages of the table through objects of its own. -/
def UpToDate (state : Segments Device) (key : PageKey_t) : Prop :=
  key = SMDPageManagement.pageTableKey → ∀ file, state.files key = some file → state.Current file

/-- The offset lies on a page of the segment. -/
def OnChain (state : Segments Device) (key : PageKey_t) (offset : Int) : Prop :=
  ∃ value chain, state.mgr.m_PageInfo.find key = some value ∧
    OwnedChain state.mgr value chain ∧ uint offset / state.mgr.m_nPageSize ∈ chain

/-- The calls that keep the pages of the segments apart. -/
def KeepsApart (state : Segments Device) : Request → Prop
  | .createPageFile enumType sTableName minUnit =>
    (state.mgr.m_PageInfo.find ⟨enumType, sTableName⟩).isSome ∨
      (state.mgr.enrolled ⟨enumType, sTableName⟩ (max minUnit 4)).TableFits ∧
        state.mgr.InRange
          ((state.mgr.enrolled ⟨enumType, sTableName⟩ (max minUnit 4)).tableBytes.length + 1)
  | .put key bytes => state.UpToDate key ∧ state.mgr.InRange bytes.length
  | .putAt key bytes offset =>
    bytes = [] ∨ state.UpToDate key ∧ state.mgr.InRange bytes.length ∧ state.OnChain key offset
  | .clearPage key => state.UpToDate key
  | .save => state.mgr.InRange state.mgr.tableBytes.length
  | .get _ _ => False

variable {state : Segments Device} {pages : PageMap} {chains : PageKey_t → List Nat}

/-! ### One call -/

/-- What one call leaves behind: the pages still belong to their segments, those that were saved
to the segments of the call. -/
def Keeps (state after : Segments Device) (chains : PageKey_t → List Nat)
    (segments : List PageKey_t) : Prop :=
  ∃ later laterChains, Sound after later laterChains ∧
    SavesOnly state.mgr after.mgr laterChains segments ∧
    ∀ key, (state.mgr.m_PageInfo.find key).isSome → chains key <+: laterChains key

theorem Sound.stays (sound : Sound state pages chains) (segments : List PageKey_t) :
    Keeps state state chains segments :=
  ⟨pages, chains, sound, ⟨[], (List.append_nil _).symm, fun _ member =>
    absurd member List.not_mem_nil⟩, fun _ _ => List.prefix_rfl⟩

/-- A call that grew the chain of one segment. -/
theorem keeps_of_grown {key : PageKey_t} {after : Segments Device} {later : PageMap}
    {fresh : List Nat} (grown : Grown state.mgr after.mgr pages later (chains key) fresh)
    (sound : Sound after later (Function.update chains key (chains key ++ fresh)))
    {segments : List PageKey_t} (member : key ∈ segments) : Keeps state after chains segments := by
  refine ⟨later, _, sound, ?_, fun other _ => ?_⟩
  · obtain ⟨log, equal, inside⟩ := grown.saves
    refine ⟨log, equal, fun pageno saved => ⟨key, member, ?_⟩⟩
    rw [Function.update_self]
    exact inside pageno saved
  · by_cases same : other = key
    · rw [same, Function.update_self]
      exact List.prefix_append _ _
    · have unchanged : Function.update chains key (chains key ++ fresh) other = chains other :=
        Function.update_of_ne same ..
      simp only [unchanged, List.prefix_rfl]

/-- The chain that the file shows for a segment is the one the invariant knows. -/
theorem Sound.owned_unique (sound : Sound state pages chains) {key : PageKey_t} {value : PageNo_t}
    {chain : List Nat} (found : state.mgr.m_PageInfo.find key = some value)
    (owned : OwnedChain state.mgr value chain) : chain = chains key := by
  obtain ⟨tail, equal⟩ := (sound.allocated.chainOf key value found).first
  have linked := (sound.allocated.pageOwnership.owned key value found).linked
  cases chain with
  | nil => cases owned.root
  | cons pageno rest =>
    have root : pageno = value.nRootPageNo := Option.some.inj owned.root
    have ownedLinked := owned.linked
    rw [equal] at linked ⊢
    rw [root] at ownedLinked ⊢
    rw [ownedLinked.unique linked]

/-- What `put` to a segment can do: nothing, or grow the chain of the segment. -/
theorem Sound.put_cases (sound : Sound state pages chains) (key : PageKey_t) (bytes : Bytes)
    (current : state.UpToDate key) (range : state.mgr.InRange bytes.length) {reply : Reply}
    {after : Segments Device} (returned : state.step (.put key bytes) = .ok (reply, after)) :
    after = state ∨ ∃ value later fresh, state.mgr.m_PageInfo.find key = some value ∧
      Grown state.mgr after.mgr pages later (chains key) fresh ∧
      Sound after later (Function.update chains key (chains key ++ fresh)) := by
  cases opened : state.files key with
  | none =>
    simp only [step, opened] at returned
    cases returned
    exact Or.inl rfl
  | some file =>
    by_cases empty : bytes = []
    · have same : file.put state.mgr ⟨bytes, 0⟩ = .ok (-1, file, state.mgr) := by
        rw [empty]
        rfl
      simp only [step, opened, same, ok_bind, state.after_self key file opened] at returned
      cases returned
      exact Or.inl rfl
    · obtain ⟨value, found, serves, chainOf⟩ := sound.opens opened fun table => current table _ opened
      obtain ⟨view, known, last⟩ := chainOf.last_view
      by_cases unit : bytes.length + 4 ≤ view.space ∨ file.minUint + 12 ≤ state.mgr.m_nPageSize
      · obtain ⟨page, mgr, later, fresh, putEq, grown, next, _⟩ := sound.put opened
          (fun table => current table _ opened) bytes empty range.1 range.2 found known unit
        rw [putEq] at returned
        cases returned
        exact Or.inr ⟨value, later, fresh, found, grown, next⟩
      · -- a unit larger than a page: the loop of put never ends
        rw [not_or, Nat.not_le, Nat.not_le] at unit
        simp only [step, opened, bind_eq_ok] at returned
        obtain ⟨result, putEq, _⟩ := returned
        exact absurd putEq (file.put_endless state.mgr pages value view bytes 0 serves known last
          unit.2 unit.1 empty range.1 result)

theorem keeps_putAt (sound : Sound state pages chains) (key : PageKey_t) (bytes : Bytes)
    (offset : Int)
    (admitted : bytes = [] ∨ state.UpToDate key ∧ state.mgr.InRange bytes.length ∧
      state.OnChain key offset) {reply : Reply} {after : Segments Device}
    (returned : state.step (.putAt key bytes offset) = .ok (reply, after)) :
    Keeps state after chains [key] := by
  cases opened : state.files key with
  | none =>
    simp only [step, opened] at returned
    cases returned
    exact sound.stays [key]
  | some file =>
    by_cases empty : bytes = []
    · have same : file.putAt state.mgr ⟨bytes, 0⟩ offset = .ok (-1, file, state.mgr) := by
        rw [empty]
        rfl
      simp only [step, opened, same, ok_bind, state.after_self key file opened] at returned
      cases returned
      exact sound.stays [key]
    · obtain ⟨current, range, value, chain, found, owned, onChain⟩ := admitted.resolve_left empty
      rw [sound.owned_unique found owned] at onChain
      have short := range.1
      have count := range.2
      obtain ⟨later, fresh, grown, next⟩ := sound.putAt opened
        (fun table => current table _ opened) bytes empty (by omega) (by omega) offset onChain
        returned
      exact keeps_of_grown grown next List.mem_cons_self

theorem keeps_clearPage (sound : Sound state pages chains) (key : PageKey_t)
    (current : state.UpToDate key) {reply : Reply} {after : Segments Device}
    (returned : state.step (.clearPage key) = .ok (reply, after)) :
    Keeps state after chains [key] := by
  cases opened : state.files key with
  | none =>
    simp only [step, opened] at returned
    cases returned
    exact sound.stays [key]
  | some file =>
    obtain ⟨page, device, clearEq, grown, next⟩ :=
      sound.clearPage opened fun table => current table _ opened
    rw [clearEq] at returned
    cases returned
    exact keeps_of_grown grown next List.mem_cons_self

theorem keeps_createPageFile (sound : Sound state pages chains) (key : PageKey_t) (minUnit : Nat)
    (admitted : (state.mgr.m_PageInfo.find key).isSome ∨
      (state.mgr.enrolled key (max minUnit 4)).TableFits ∧
        state.mgr.InRange ((state.mgr.enrolled key (max minUnit 4)).tableBytes.length + 1))
    {reply : Reply} {after : Segments Device}
    (returned : state.step (.createPageFile key.segType key.sTableName minUnit) =
      .ok (reply, after)) :
    Keeps state after chains [key, SMDPageManagement.pageTableKey] := by
  cases found : state.mgr.m_PageInfo.find key with
  | some value =>
    obtain ⟨reopenEq, next⟩ := sound.reopen found minUnit
    rw [reopenEq] at returned
    cases returned
    exact ⟨pages, chains, next, ⟨[], (List.append_nil _).symm, fun _ member =>
      absurd member List.not_mem_nil⟩, fun _ _ => List.prefix_rfl⟩
  | none =>
    rw [found] at admitted
    obtain ⟨fits, range⟩ := admitted.resolve_left (by exact Bool.false_ne_true)
    obtain ⟨last, table⟩ := sound.allocated.table
    have tableNe : SMDPageManagement.pageTableKey ≠ key := fun same => by
      rw [← same, table] at found
      cases found
    have enrolledTable : (state.mgr.enrolled key (max minUnit 4)).m_PageInfo.find
        SMDPageManagement.pageTableKey = some ⟨0, 0, 0, last⟩ := by
      show (state.mgr.m_PageInfo.insert key _).find SMDPageManagement.pageTableKey = _
      rw [PageInfo.find_insert key _ found, if_neg tableNe, table]
    have room := fits _ enrolledTable
    rw [show (state.mgr.enrolled key (max minUnit 4)).m_nPageSize = state.mgr.m_nPageSize from rfl]
      at room
    have count := range.2
    obtain ⟨device, later, createEq, next, _, _, log, savesEq, inside⟩ := sound.create found minUnit
      table room (by omega)
    rw [createEq] at returned
    cases returned
    refine ⟨later, _, next, ⟨log, savesEq, fun pageno member => ?_⟩, fun other known => ?_⟩
    · rcases List.mem_append.mp (inside pageno member) with inTable | isNew
      · refine ⟨SMDPageManagement.pageTableKey, List.mem_cons_of_mem _ List.mem_cons_self, ?_⟩
        rw [Function.update_of_ne tableNe]
        exact inTable
      · refine ⟨key, List.mem_cons_self, ?_⟩
        rw [Function.update_self]
        exact isNew
    · have different : other ≠ key := fun same => by
        rw [same, found] at known
        cases known
      simp only [Function.update_of_ne different, List.prefix_rfl]

/-- One admitted call. -/
theorem Sound.keeps (sound : Sound state pages chains) (call : Request)
    (admitted : state.KeepsApart call) {reply : Reply} {after : Segments Device}
    (returned : state.step call = .ok (reply, after)) : Keeps state after chains call.segments := by
  cases call with
  | createPageFile enumType sTableName minUnit =>
    exact keeps_createPageFile sound ⟨enumType, sTableName⟩ minUnit admitted returned
  | put key bytes =>
    rcases sound.put_cases key bytes admitted.1 admitted.2 returned with same | grew
    · rw [same]
      exact sound.stays [key]
    · obtain ⟨_, _, _, _, grown, next⟩ := grew
      exact keeps_of_grown grown next List.mem_cons_self
  | putAt key bytes offset => exact keeps_putAt sound key bytes offset admitted returned
  | get key offset => exact absurd admitted id
  | clearPage key => exact keeps_clearPage sound key admitted returned
  | save =>
    obtain ⟨mgr, later, fresh, saveEq, grown, next⟩ := sound.save admitted.1 admitted.2
    rw [saveEq] at returned
    cases returned
    exact keeps_of_grown grown next List.mem_cons_self

/-! ### Runs -/

theorem run_sound {device : Device} {pageSize : Nat} {mgr : SMDPageManagement Device}
    (flag : HoldsFlag device pageSize) (sizeLt : pageSize < 65536)
    (newEq : SMDPageManagement.new device false pageSize = .ok mgr)
    {history : History Request Reply} {state : Segments Device}
    (run : Run step (fun _ => KeepsApart) (opened mgr) history state) :
    ∃ pages chains, Sound state pages chains := by
  refine run.invariant (fun _ state => ∃ pages chains, Sound state pages chains)
    ⟨_, _, new_sound flag sizeLt newEq⟩ ?_
  rintro _ state call reply after ⟨pages, chains, sound⟩ admitted returned
  obtain ⟨later, laterChains, next, _⟩ := sound.keeps call admitted returned
  exact ⟨later, laterChains, next⟩

/-- Page ownership: in every state that a new file reaches over calls that keep the segments
apart, every page belongs to exactly one segment, each segment is a chain upwards from its root
page to its last page, and such a call saves pages of its own segments only. -/
theorem pages_owned (device : Device) (pageSize : Nat) (mgr : SMDPageManagement Device)
    (flag : HoldsFlag device pageSize) (sizeLt : pageSize < 65536)
    (newEq : SMDPageManagement.new device false pageSize = .ok mgr)
    (history : History Request Reply) (state : Segments Device)
    (run : Run step (fun _ => KeepsApart) (opened mgr) history state) :
    ∃ chains, PageOwnership state.mgr chains ∧
      ∀ call reply after, state.KeepsApart call → state.step call = .ok (reply, after) →
        ∃ laterChains, PageOwnership after.mgr laterChains ∧
          SavesOnly state.mgr after.mgr laterChains call.segments ∧
          ∀ key, (state.mgr.m_PageInfo.find key).isSome → chains key <+: laterChains key := by
  obtain ⟨pages, chains, sound⟩ := run_sound flag sizeLt newEq run
  refine ⟨chains, sound.allocated.pageOwnership, fun call reply after admitted returned => ?_⟩
  obtain ⟨later, laterChains, next, saves, grows⟩ := sound.keeps call admitted returned
  exact ⟨laterChains, next.allocated.pageOwnership, saves, grows⟩

/-- The first segment of a new file with pages of 96 bytes. -/
theorem keepsApart_first {device : PageDisk} {mgr : SMDPageManagement PageDisk}
    (newEq : SMDPageManagement.new device false 96 = .ok mgr) (minUnit : Nat) :
    KeepsApart (opened mgr) (.createPageFile .SEG_TYPE_DATA [1] minUnit) := by
  cases newEq
  refine Or.inr ⟨?_, (by decide : 64 + 1 + 4 < 2147483648),
    (by decide : 0 + 2 + (64 + 1) < 0xFFFFFFFF)⟩
  intro value found
  rw [show value = ⟨0, 0, 0, 0⟩ from (Option.some.inj found).symm]
  exact (by decide : 64 + 4 ≤ 96 - 28)

/-- A segment of two pages: two strings are put to it, the second one is overwritten on the second
page, and the pages are cleared. -/
theorem pages_owned_created : ∃ (device : PageDisk) (mgr : SMDPageManagement PageDisk)
    (state : Segments PageDisk), HoldsFlag device 96 ∧
    Run step (fun _ => KeepsApart) (opened mgr)
      [(.clearPage ⟨.SEG_TYPE_DATA, [1]⟩, .done true),
        (.putAt ⟨.SEG_TYPE_DATA, [1]⟩ [7] 234, .offset 234),
        (.put ⟨.SEG_TYPE_DATA, [1]⟩ [9], .offset 234),
        (.put ⟨.SEG_TYPE_DATA, [1]⟩ (List.replicate 110 5), .offset 108),
        (.createPageFile .SEG_TYPE_DATA [1] 0, .created true)] state ∧
    state.mgr.m_PageInfo.find ⟨.SEG_TYPE_DATA, [1]⟩ = some ⟨0, 4, 1, 2⟩ ∧
    ∃ chains, PageOwnership state.mgr chains := by
  let info (state : Segments PageDisk) :=
    (state.mgr.m_nPageCnt, state.mgr.m_nPageSize, state.mgr.m_PageInfo.find ⟨.SEG_TYPE_DATA, [1]⟩)
  have evaluated : (do
      let disk ← PageDisk.create 96
      let mgr ← SMDPageManagement.new disk false 96
      let (made, first) ← step (opened mgr) (.createPageFile .SEG_TYPE_DATA [1] 0)
      let (put, second) ← step first (.put ⟨.SEG_TYPE_DATA, [1]⟩ (List.replicate 110 5))
      let (more, third) ← step second (.put ⟨.SEG_TYPE_DATA, [1]⟩ [9])
      let (written, fourth) ← step third (.putAt ⟨.SEG_TYPE_DATA, [1]⟩ [7] 234)
      let (cleared, fifth) ← step fourth (.clearPage ⟨.SEG_TYPE_DATA, [1]⟩)
      .ok ([made, put, more, written, cleared], [first, second, third, fifth].map info)) =
      (Except.ok ([.created true, .offset 108, .offset 234, .offset 234, .done true],
        [(1, 96, some ⟨0, 4, 1, 1⟩), (2, 96, some ⟨0, 4, 1, 2⟩), (2, 96, some ⟨0, 4, 1, 2⟩),
          (2, 96, some ⟨0, 4, 1, 2⟩)]) :
        Except Fault (List Reply × List (Nat × Nat × Option PageNo_t))) := by decide +kernel
  simp only [bind_eq_ok] at evaluated
  obtain ⟨device, created, mgr, newEq, ⟨made, first⟩, madeEq, ⟨put, second⟩, putEq, ⟨more, third⟩,
    moreEq, ⟨written, fourth⟩, writtenEq, ⟨cleared, fifth⟩, clearedEq, equal⟩ := evaluated
  simp only [info, List.map_cons, List.map_nil, Except.ok.injEq, Prod.mk.injEq, List.cons.injEq,
    and_true] at equal
  obtain ⟨⟨rfl, rfl, rfl, rfl, rfl⟩, ⟨one, _⟩, ⟨two, _⟩, ⟨three, size, known⟩, _, _, last⟩ := equal
  have flag := holdsFlag_create created
  have upToDate (state : Segments PageDisk) : state.UpToDate ⟨.SEG_TYPE_DATA, [1]⟩ :=
    fun same => absurd same (by decide)
  have inRange {state : Segments PageDisk} {pages : Nat} (counted : state.mgr.m_nPageCnt = pages)
      (few : pages ≤ 2) (count : Nat) (short : count ≤ 110) : state.mgr.InRange count := by
    unfold SMDPageManagement.InRange
    omega
  have unmoved : Run step (fun _ => KeepsApart) (opened mgr) [] (opened mgr) := .start
  have strings := ((unmoved.step (keepsApart_first newEq 0) madeEq).step
    (show KeepsApart first (.put ⟨.SEG_TYPE_DATA, [1]⟩ (List.replicate 110 5)) from
      ⟨upToDate first, inRange one (by decide) _ (by decide)⟩) putEq).step
    (show KeepsApart second (.put ⟨.SEG_TYPE_DATA, [1]⟩ [9]) from
      ⟨upToDate second, inRange two (by decide) _ (by decide)⟩) moreEq
  -- the second string lies on the last page, which is on the chain of the segment
  obtain ⟨chains, owned, _⟩ := pages_owned device 96 mgr flag (by decide) newEq _ third strings
  have chain := owned.owned _ _ known
  have onChain : third.OnChain ⟨.SEG_TYPE_DATA, [1]⟩ 234 := by
    refine ⟨_, _, known, chain, ?_⟩
    rw [size]
    exact List.mem_of_getLast? chain.last
  have run := (strings.step
    (show KeepsApart third (.putAt ⟨.SEG_TYPE_DATA, [1]⟩ [7] 234) from
      .inr ⟨upToDate third, inRange three (by decide) _ (by decide), onChain⟩) writtenEq).step
    (show KeepsApart fourth (.clearPage ⟨.SEG_TYPE_DATA, [1]⟩) from upToDate fourth) clearedEq
  obtain ⟨chains, owned, _⟩ := pages_owned device 96 mgr flag (by decide) newEq _ fifth run
  exact ⟨device, mgr, fifth, flag, run, last, chains, owned⟩

/-- A page table that grows past its page when a segment is created: the root page of that segment
is page 2, the table goes on over page 3, and page 3 is what gets the fresh header. -/
theorem root_page_lost : ∃ (device : PageDisk) (mgr : SMDPageManagement PageDisk)
    (replies : List Reply) (state : Segments PageDisk), HoldsFlag device 96 ∧
    SMDPageManagement.new device false 96 = .ok mgr ∧
    Run step (fun _ _ _ => True) (opened mgr)
      (([.createPageFile .SEG_TYPE_DATA [1] 0, .createPageFile .SEG_TYPE_DATA [2] 0] :
        List Request).zip replies).reverse state ∧
    ¬ ∃ chains, PageOwnership state.mgr chains := by
  have evaluated : onNewFile 96
      [.createPageFile .SEG_TYPE_DATA [1] 0, .createPageFile .SEG_TYPE_DATA [2] 0]
      (fun _ state => (state.mgr.m_PageInfo.find ⟨.SEG_TYPE_DATA, [2]⟩,
        (filePages state.mgr 2).map PageView.next)) =
      .ok (some ⟨0, 4, 2, 2⟩, some 0) := by decide +kernel
  obtain ⟨device, mgr, replies, state, flag, newEq, run, observed⟩ := run_of_onNewFile evaluated
  refine ⟨device, mgr, replies, state, flag, newEq, run, ?_⟩
  rintro ⟨chains, owned, _⟩
  obtain ⟨found, next⟩ := Prod.mk.inj observed
  obtain ⟨view, known, nextEq⟩ := Option.map_eq_some_iff.mp next
  obtain ⟨root, last, linked, upward⟩ := owned _ _ found
  -- a chain from page 2 to page 2 that goes upwards is page 2 alone, and that page links to page 0
  cases equal : chains ⟨.SEG_TYPE_DATA, [2]⟩ with
  | nil =>
    rw [equal] at root
    cases root
  | cons pageno rest =>
    rw [equal] at root linked upward
    cases root
    cases rest with
    | nil =>
      obtain ⟨held, heldEq, ends⟩ := linked
      rw [known] at heldEq
      rw [← Option.some.inj heldEq, nextEq] at ends
      cases ends
    | cons second others =>
      obtain ⟨⟨held, heldEq, link, _⟩, _⟩ := linked
      rw [known] at heldEq
      rw [← Option.some.inj heldEq, nextEq] at link
      have less := List.rel_of_pairwise_cons upward List.mem_cons_self
      rw [← link] at less
      cases less

end Segments

end LevelDBLib.KvDB
