/-
This file models the queue of writers, `DBImpl::Write` and `BuildBatchGroup` of
`db/db_impl.cpp`. Each thread waits in the queue until it is done or first. The first one
joins the batches behind it to its own, adds them to the log and to the memtable without the
mutex, and then hands its status to all that it took with it. What a thread does while it
holds the mutex is one step, and so is what the first one does without it.

Whatever the threads do, in any order, the batches are written as if one after another: in
the order of their arrival, each once, under numbers that follow one another.
-/

import LevelDBLib.Navi.MemTableInserter

namespace LevelDBLib.Navi

open KvDB

namespace Db

/-- A batch of some updates. Their number fits an `int`. -/
structure Given where
  batch : WriteBatch
  updates : List Update
  seq : BitVec 64
  holds : batch.Holds seq updates
  short : updates.length < 2 ^ 31

/-- The batch under another number. -/
def Given.numbered (given : Given) (seq : BitVec 64) : Given :=
  ⟨WriteBatchInternal.SetSequence given.batch seq, given.updates, seq,
    given.holds.SetSequence seq, given.short⟩

/-! ### The queue -/

namespace WriteQueue

/-- Where a thread is in `Write`. -/
inductive Phase where
  /-- Before the condition of the loop. -/
  | testing
  /-- In `w.cv.Wait()`. -/
  | waiting
  /-- Without the mutex, with its `last_writer`, its `updates`, whether these are the temporary batch,
  and its `last_sequence`. -/
  | leading (last_writer : Nat) (updates : WriteBatch) (grouped : Bool) (last_sequence : BitVec 64)
  | returned (status : Status)

def Phase.isTesting : Phase → Bool
  | testing => true
  | _ => false

/-- `DBImpl::Writer`, with the thread that waits on its `cv`. -/
structure Writer where
  batch : Option Given
  sync : Bool
  status : Status
  done : Bool
  phase : Phase

/-- `cv.Signal()`. -/
def Writer.signalled (w : Writer) : Writer :=
  match w.phase with
  | .waiting => { w with phase := .testing }
  | _ => w

/-- A writer that is taken from the queue by another one. -/
def Writer.answered (status : Status) (w : Writer) : Writer :=
  { w with status, done := true }.signalled

def Writer.returning (status : Status) (w : Writer) : Writer := { w with phase := .returned status }

/-- The status that a writer returned, or that it was given to return. -/
def Writer.result (w : Writer) : Option Status :=
  match w.phase with
  | .returned status => some status
  | _ => if w.done then some w.status else none

end WriteQueue

open WriteQueue

/-- The part of `DBImpl` that the writers use. A writer is the number of its arrival. -/
structure WriteQueue where
  table : List Writer
  writers_ : List Nat
  last_sequence : BitVec 64
  tmp_batch_ : WriteBatch
  bg_error_ : Status
  /-- The records that `log_` took. -/
  log : List Bytes
  /-- The records behind which `Sync` answered OK. -/
  synced : List Bytes
  /-- The batches that were inserted in `mem_`. -/
  mem : List WriteBatch

namespace WriteQueue

/-- The writers that have a result, in the order of their arrival. -/
def answered (state : WriteQueue) : List Writer := state.table.filter (·.result.isSome)

def opened (last_sequence : BitVec 64) : WriteQueue :=
  ⟨[], [], last_sequence, .Clear, .OK, [], [], []⟩

/-- The temporary batch, which begins with the first one. -/
def temporary (tmp_batch_ first : WriteBatch) (result : Option WriteBatch) : Except Fault WriteBatch :=
  match result with
  | some result => .ok result
  | none =>
    if WriteBatchInternal.Count tmp_batch_ ≠ 0 then .error .assertion
    else .ok (WriteBatchInternal.Append tmp_batch_ first)

/-- The loop of `BuildBatchGroup`, with the temporary batch once it is in use. -/
def groupLoop (tmp_batch_ first : WriteBatch) (sync : Bool) (max_size : Nat) :
    List (Nat × Writer) → Nat → Option WriteBatch → Nat → Except Fault (Option WriteBatch × Nat)
  | [], _, result, last_writer => .ok (result, last_writer)
  | (id, w) :: rest, size, result, last_writer =>
    if w.sync ∧ ¬ sync then .ok (result, last_writer)
    else
      match w.batch with
      | none => groupLoop tmp_batch_ first sync max_size rest size result id
      | some given =>
        let size := size + WriteBatchInternal.ByteSize given.batch
        if max_size < size then .ok (result, last_writer)
        else do
          let result ← temporary tmp_batch_ first result
          groupLoop tmp_batch_ first sync max_size rest size
            (some (WriteBatchInternal.Append result given.batch)) id

/-- The greatest size of a group with the first batch of a size. -/
def maxSize (size : Nat) : Nat := if size ≤ 131072 then size + 131072 else 1048576

/-- `BuildBatchGroup`, for the first writer. -/
def BuildBatchGroup (state : WriteQueue) (id : Nat) (first : WriteBatch) (sync : Bool) :
    Except Fault (Option WriteBatch × Nat) :=
  let size := WriteBatchInternal.ByteSize first
  let others := state.writers_.tail.filterMap fun id => state.table[id]?.map (id, ·)
  groupLoop state.tmp_batch_ first sync (maxSize size) others size none id

/-- The loop that takes writers from the queue up to the last one. -/
def pop (status : Status) (w last_writer : Nat) :
    List Nat → List Writer → Except Fault (List Nat × List Writer)
  | [], _ => .error .outOfBounds
  | ready :: writers_, table =>
    let table := if ready ≠ w then table.modify ready (Writer.answered status) else table
    if ready = last_writer then .ok (writers_, table) else pop status w last_writer writers_ table

/-- The end of `Write`. -/
def leave (state : WriteQueue) (w last_writer : Nat) (status : Status) : Except Fault WriteQueue := do
  let (writers_, table) ← pop status w last_writer state.writers_ state.table
  let table := (writers_.head?.map fun front => table.modify front Writer.signalled).getD table
  .ok { state with writers_, table := table.modify w (Writer.returning status) }

/-- `Write` up to the section without the mutex, with what `MakeRoomForWrite` answers if there is no
error yet. -/
def lead (state : WriteQueue) (w : Nat) (writer : Writer) (room : Status) : Except Fault WriteQueue :=
  let status := if state.bg_error_.ok then room else state.bg_error_
  match writer.batch with
  | none => state.leave w w status
  | some given =>
    if status.ok then do
      let (result, last_writer) ← state.BuildBatchGroup w given.batch writer.sync
      let seq := state.last_sequence + 1
      let updates := WriteBatchInternal.SetSequence (result.getD given.batch) seq
      let last_sequence :=
        state.last_sequence + (WriteBatchInternal.Count updates).signExtend 64
      -- the numbered batch is the temporary one, or the caller's own
      let batch := if result.isSome then some given else some (given.numbered seq)
      let phase := Phase.leading last_writer updates result.isSome last_sequence
      .ok { state with
        table := state.table.set w { writer with batch, phase }
        tmp_batch_ := if result.isSome then updates else state.tmp_batch_ }
    else state.leave w w status

/-- What the log, `Sync` and `InsertInto` answer. -/
structure Answers where
  added : Status
  synced : Status
  inserted : Status

/-- The status behind the section without the mutex. -/
def Answers.status (answers : Answers) (sync : Bool) : Status :=
  if answers.added.ok then
    if sync ∧ ¬ answers.synced.ok then answers.synced else answers.inserted
  else answers.added

/-- `Write` from the section without the mutex on. -/
def write (state : WriteQueue) (w : Nat) (sync : Bool) (last_writer : Nat) (updates : WriteBatch)
    (grouped : Bool) (last_sequence : BitVec 64) (answers : Answers) : Except Fault WriteQueue :=
  let syncs := answers.added.ok ∧ sync ∧ answers.synced.ok
  let unsynced := answers.added.ok ∧ sync ∧ ¬ answers.synced.ok
  let inserts := answers.added.ok ∧ ¬ (sync ∧ ¬ answers.synced.ok)
  if last_sequence < state.last_sequence then .error .assertion
  else
    { state with
      log := if answers.added.ok then state.log ++ [WriteBatchInternal.Contents updates] else state.log
      synced := if syncs then state.synced ++ [WriteBatchInternal.Contents updates] else state.synced
      mem := if inserts then state.mem ++ [updates] else state.mem
      bg_error_ := if unsynced ∧ state.bg_error_.ok then answers.synced else state.bg_error_
      tmp_batch_ := if grouped then .Clear else state.tmp_batch_
      last_sequence }.leave w last_writer (answers.status sync)

/-! ### Steps -/

/-- A step of a thread, or an error of the background work. -/
inductive Action where
  | arrive (batch : Option Given) (sync : Bool)
  | wait (w : Nat)
  /-- The wait ends without a signal. -/
  | wake (w : Nat)
  | lead (w : Nat) (room : Status)
  | write (w : Nat) (answers : Answers)
  | giveBack (w : Nat)
  | error (s : Status)

/-- A step of a thread that is at this place, and nothing for another one. -/
def step (state : WriteQueue) : Action → Except Fault WriteQueue
  | .arrive batch sync =>
    .ok { state with
      table := state.table ++ [⟨batch, sync, .OK, false, .testing⟩]
      writers_ := state.writers_ ++ [state.table.length] }
  | .wait w =>
    match state.table[w]? with
    | some writer =>
      if writer.phase.isTesting ∧ ¬ writer.done ∧ state.writers_.head? ≠ some w then
        .ok { state with table := state.table.set w { writer with phase := .waiting } }
      else .ok state
    | none => .ok state
  | .wake w =>
    match state.table[w]? with
    | some ⟨batch, sync, status, done, .waiting⟩ =>
      .ok { state with table := state.table.set w ⟨batch, sync, status, done, .testing⟩ }
    | _ => .ok state
  | .lead w room =>
    match state.table[w]? with
    | some writer =>
      if writer.phase.isTesting ∧ ¬ writer.done ∧ state.writers_.head? = some w then
        state.lead w writer room
      else .ok state
    | none => .ok state
  | .write w answers =>
    match state.table[w]? with
    | some ⟨_, sync, _, _, .leading last_writer updates grouped last_sequence⟩ =>
      state.write w sync last_writer updates grouped last_sequence answers
    | _ => .ok state
  | .giveBack w =>
    match state.table[w]? with
    | some writer =>
      if writer.phase.isTesting ∧ writer.done then
        .ok { state with table := state.table.set w (writer.returning writer.status) }
      else .ok state
    | none => .ok state
  | .error s => .ok { state with bg_error_ := if state.bg_error_.ok then s else state.bg_error_ }

def run (state : WriteQueue) (actions : List Action) : Except Fault WriteQueue :=
  actions.foldlM step state

end WriteQueue

end Db

end LevelDBLib.Navi
