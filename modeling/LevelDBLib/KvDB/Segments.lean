/-
This file is the allocator at work: the states and the steps of one open
`SMDPageManagement` together with the segment objects its callers keep, one
`SMDPageFile` for each segment.
-/

import Mathlib.Logic.Function.Basic
import LevelDBLib.Library.Runs
import LevelDBLib.KvDB.PageDisk

namespace LevelDBLib.KvDB

open Runs

/-- An open allocator and the segment objects in use. -/
structure Segments (Device : Type) where
  mgr : SMDPageManagement Device
  files : PageKey_t → Option SMDPageFile

/-- A call on the allocator or on the segment object of a segment. -/
inductive Request where
  | createPageFile (enumType : SegType) (sTableName : Bytes) (minUnit : Nat)
  | put (key : PageKey_t) (bytes : Bytes)
  | putAt (key : PageKey_t) (bytes : Bytes) (offset : Int)
  | get (key : PageKey_t) (offset : Int)
  | clearPage (key : PageKey_t)
  | save
deriving DecidableEq, Repr

/-- What a call returns. -/
inductive Reply where
  | created (made : Bool)
  | offset (offset : Int)
  | bytes (found : Bool) (bytes : Bytes)
  | done (success : Bool)
  | noFile
deriving DecidableEq, Repr

namespace Segments

variable {Device : Type}

/-- An allocator that was just opened. -/
def opened (mgr : SMDPageManagement Device) : Segments Device := ⟨mgr, fun _ => none⟩

/-- The state after a call that changed the segment object of `key`. -/
def after (state : Segments Device) (key : PageKey_t) (file : SMDPageFile)
    (mgr : SMDPageManagement Device) : Segments Device :=
  { mgr := mgr, files := Function.update state.files key (some file) }

@[simp] theorem after_mgr (state : Segments Device) (key : PageKey_t) (file : SMDPageFile)
    (mgr : SMDPageManagement Device) : (state.after key file mgr).mgr = mgr := rfl

@[simp] theorem after_files_self (state : Segments Device) (key : PageKey_t) (file : SMDPageFile)
    (mgr : SMDPageManagement Device) : (state.after key file mgr).files key = some file :=
  Function.update_self ..

theorem after_files_other (state : Segments Device) (key other : PageKey_t) (file : SMDPageFile)
    (mgr : SMDPageManagement Device) (different : other ≠ key) :
    (state.after key file mgr).files other = state.files other :=
  Function.update_of_ne different ..

@[simp] theorem after_after (state : Segments Device) (key : PageKey_t) (file next : SMDPageFile)
    (mgr later : SMDPageManagement Device) :
    (state.after key file mgr).after key next later = state.after key next later := by
  rw [after, after, after, Function.update_idem]

/-- A segment object that is what it was. -/
theorem after_self (state : Segments Device) (key : PageKey_t) (file : SMDPageFile)
    (opened : state.files key = some file) : state.after key file state.mgr = state := by
  rw [after, ← opened, Function.update_eq_self]

variable [PageDevice Device]

/-- One call. A segment without a segment object takes no calls. -/
def step (state : Segments Device) : Request → Except Fault (Reply × Segments Device)
  | .createPageFile enumType sTableName minUnit => do
    let (file, mgr) ← state.mgr.createPageFile enumType sTableName minUnit
    .ok (.created file.isSome,
      { mgr := mgr, files := Function.update state.files ⟨enumType, sTableName⟩ file })
  | .put key bytes =>
    match state.files key with
    | none => .ok (.noFile, state)
    | some file => do
      let (offset, file, mgr) ← file.put state.mgr ⟨bytes, 0⟩
      .ok (.offset offset, state.after key file mgr)
  | .putAt key bytes offset =>
    match state.files key with
    | none => .ok (.noFile, state)
    | some file => do
      let (offset, file, mgr) ← file.putAt state.mgr ⟨bytes, 0⟩ offset
      .ok (.offset offset, state.after key file mgr)
  | .get key offset =>
    match state.files key with
    | none => .ok (.noFile, state)
    | some file => do
      let (found, stream, file, mgr) ← file.get state.mgr (SMDMemStream.new 0) offset
      .ok (.bytes found stream.data, state.after key file mgr)
  | .clearPage key =>
    match state.files key with
    | none => .ok (.noFile, state)
    | some file => do
      let (success, file, mgr) ← file.clearPage state.mgr
      .ok (.done success, state.after key file mgr)
  | .save => do
    let (success, mgr) ← state.mgr.save
    .ok (.done success, { state with mgr := mgr })

/-- The calls of a list on a new file, seen through `observe`. -/
def onNewFile {Result : Type} (pageSize : Nat) (calls : List Request)
    (observe : List Reply → Segments PageDisk → Result) : Except Fault Result := do
  let disk ← PageDisk.create pageSize
  let mgr ← SMDPageManagement.new disk false pageSize
  match runAll step (opened mgr) calls with
  | .error fault => .error fault
  | .ok (replies, state) => .ok (observe replies state)

theorem holdsFlag_create {pageSize : Nat} {disk : PageDisk}
    (created : PageDisk.create pageSize = .ok disk) : HoldsFlag disk pageSize := by
  rw [PageDisk.create, bind_eq_ok] at created
  obtain ⟨bytes, flagEq, equal⟩ := created
  cases equal
  exact ⟨bytes, flagEq, rfl⟩

/-- What is seen of calls on a new file is seen in a run of these calls. -/
theorem run_of_onNewFile {Result : Type} {pageSize : Nat} {calls : List Request}
    {observe : List Reply → Segments PageDisk → Result} {result : Result}
    (seen : onNewFile pageSize calls observe = .ok result) :
    ∃ (device : PageDisk) (mgr : SMDPageManagement PageDisk) (replies : List Reply)
        (state : Segments PageDisk), HoldsFlag device pageSize ∧
      SMDPageManagement.new device false pageSize = .ok mgr ∧
      Run step (fun _ _ _ => True) (opened mgr) (calls.zip replies).reverse state ∧
      observe replies state = result := by
  simp only [onNewFile, bind_eq_ok] at seen
  obtain ⟨disk, created, mgr, newEq, ended⟩ := seen
  split at ended
  · cases ended
  · rename_i replies state ran
    refine ⟨disk, mgr, replies, state, holdsFlag_create created, newEq, ?_,
      Except.ok.inj ended⟩
    have unmoved : Run step (fun _ _ _ => True) (opened mgr) [] (opened mgr) := .start
    have run := run_of_runAll calls unmoved (fun _ _ _ _ => trivial) ran
    rwa [List.append_nil] at run

end Segments

end LevelDBLib.KvDB
