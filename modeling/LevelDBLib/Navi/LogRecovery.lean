/-
This file models `RecoverLogFile` of `db/db_impl.cpp`, which reads the batches of a log into
memtables and builds tables of full ones, and `BuildTable` of `db/builder.cpp`. The size of a
memtable, what becomes of a table behind its file and the answers of the environment are
parameters.

A log of batches with consecutive numbers may be cut anywhere. The recovery then takes the
updates of the batches that lie in it as a whole, into memtables that follow one another
without a gap, and the greatest of their numbers. All tables go to one file, so of more than
one only the last is left, and none where the last memtable is empty.
-/

import LevelDBLib.Navi.LogReader
import LevelDBLib.Navi.MemTableInserter

namespace LevelDBLib.Navi

open KvDB Log

namespace Db

/-! ### Recovering -/

/-- What a recovery depends on beside the log. -/
structure RecoveryOptions where
  paranoid_checks : Bool
  reuse_logs : Bool
  /-- `mem->ApproximateMemoryUsage() > options_.write_buffer_size`. -/
  full : MemTable → Bool
  /-- `NewWritableFile`, for the table of a memtable. -/
  NewWritableFile : MemTable → Status
  /-- What building, syncing and reading back the table of a memtable comes to. -/
  built : MemTable → Status
  /-- `GetFileSize` and `NewAppendableFile` succeed. -/
  appendable : Bool

/-- The file of all tables, `TableFileName(dbpath, dbname, FILENUMBER_LDB)`. -/
inductive TableFile where
  /-- It is as the recovery found it. -/
  | before
  /-- It is the table of a memtable. -/
  | table (mem : MemTable)
  | deleted

/-- The memtable whose table the recovery has left. -/
def TableFile.toList : TableFile → List MemTable
  | .before => []
  | .table mem => [mem]
  | .deleted => []

structure LogRecovery where
  status : Status
  mem : Option MemTable
  compactions : Nat
  save_manifest : Bool
  max_sequence : BitVec 64
  /-- The memtables whose tables are in `edit`, each under the number of the one file. -/
  tables : List MemTable
  ldb : TableFile

def MaybeIgnoreError (paranoid_checks : Bool) (s : Status) : Status :=
  if s.ok ∨ paranoid_checks then s else .OK

/-- `LogReporter::Corruption`, for each of some drops. -/
def corrupted (paranoid_checks : Bool) (status : Status) (drops : List (Nat × Status)) : Status :=
  drops.foldl (fun status drop => if paranoid_checks ∧ status.ok then drop.2 else status) status

/-- The last sequence number of a batch, with its count as an `int`. -/
def last_seq (b : WriteBatch) : BitVec 64 :=
  WriteBatchInternal.Sequence b + (WriteBatchInternal.Count b).signExtend 64 - 1

/-- `BuildTable`: the answer, whether `meta->file_size` is positive, and what is in the file. An
open truncates the file, and an empty memtable deletes it. -/
def BuildTable (options : RecoveryOptions) (mem : MemTable) (ldb : TableFile) :
    Except Fault (Status × Bool × TableFile) := do
  let iter ← SkipList.Iterator.SeekToFirst mem.table_
  if iter.Valid then
    if ¬ (options.NewWritableFile mem).ok then .ok (options.NewWritableFile mem, false, ldb)
    else if (options.built mem).ok then .ok (options.built mem, true, .table mem)
    else .ok (options.built mem, false, .deleted)
  else .ok (.OK, false, .deleted)

/-- A memtable that is written as a table, with `save_manifest` set. -/
def LogRecovery.WriteLevel0Table (options : RecoveryOptions) (state : LogRecovery) (mem : MemTable) :
    Except Fault LogRecovery := do
  let (status, kept, ldb) ← BuildTable options mem state.ldb
  .ok { state with
    status
    mem := none
    save_manifest := true
    tables := if kept then state.tables ++ [mem] else state.tables
    ldb }

/-- The loop of `RecoverLogFile` on a record that is long enough, and whether it goes on. -/
def LogRecovery.add (user : Comparator) (options : RecoveryOptions) (state : LogRecovery)
    (record : Bytes) : Except Fault (Bool × LogRecovery) := do
  let batch ← WriteBatchInternal.SetContents record
  let (status, mem) ← WriteBatchInternal.InsertInto user batch (state.mem.getD .new)
  let status := MaybeIgnoreError options.paranoid_checks status
  if ¬ status.ok then .ok (false, { state with status, mem := some mem })
  else
    let max_sequence :=
      if state.max_sequence < last_seq batch then last_seq batch else state.max_sequence
    if options.full mem then do
      let counted := { state with max_sequence, compactions := state.compactions + 1 }
      let after ← counted.WriteLevel0Table options mem
      .ok (after.status.ok, after)
    else .ok (true, { state with status, mem := some mem, max_sequence })

variable {File : Type} [ReadableFile File]

/-- The loop of `RecoverLogFile`. -/
def recoverRecords (user : Comparator) (options : RecoveryOptions) (turns : Nat) :
    Nat → Reader File → LogRecovery → Except Fault LogRecovery
  | 0, _, _ => .error .nonTermination
  | rounds + 1, reader, state => do
    let (record, after) ← reader.ReadRecord turns
    let told := (after.reporter_.getD []).drop (reader.reporter_.getD []).length
    let state := { state with status := corrupted options.paranoid_checks state.status told }
    match record with
    | none => .ok state
    | some record =>
      if ¬ state.status.ok then .ok state
      else if record.length < kHeader then
        let small := (record.length, Status.Corruption (text "log record too small") [])
        let status := corrupted options.paranoid_checks state.status [small]
        recoverRecords user options turns rounds after { state with status }
      else do
        let (further, state) ← state.add user options record
        if further then recoverRecords user options turns rounds after state else .ok state

/-- The end of `RecoverLogFile`, with the memtable that the database goes on with if the log is kept
in use. -/
def LogRecovery.finish (options : RecoveryOptions) (last_log : Bool) (state : LogRecovery) :
    Except Fault (LogRecovery × Option MemTable) :=
  if state.status.ok ∧ options.reuse_logs ∧ last_log ∧ state.compactions = 0 ∧ options.appendable then
    .ok ({ state with mem := none }, some (state.mem.getD .new))
  else
    match state.mem with
    | none => .ok (state, none)
    | some mem =>
      if state.status.ok then do
        let after ← state.WriteLevel0Table options mem
        .ok (after, none)
      else .ok ({ state with mem := none }, none)

/-- `RecoverLogFile`, with what `NewSequentialFile` answers. -/
def RecoverLogFile (user : Comparator) (options : RecoveryOptions) (opened : Except Status File)
    (last_log : Bool) (max_sequence : BitVec 64) (turns : Nat) :
    Except Fault (LogRecovery × Option MemTable) :=
  match opened with
  | .error status =>
    .ok (⟨MaybeIgnoreError options.paranoid_checks status, none, 0, false, max_sequence, [], .before⟩,
      none)
  | .ok file => do
    let state ← recoverRecords user options turns turns (.new file true true 0)
      ⟨.OK, none, 0, false, max_sequence, [], .before⟩
    state.finish options last_log

/-! ### What is recovered -/

/-- Memtables that hold updates behind one another. -/
def Chunks (user : Comparator) : Nat → List MemTable → List Update → Prop
  | _, [], updates => updates = []
  | first, mem :: rest, updates => ∃ front back, updates = front ++ back ∧
      Numbered user mem first front ∧ Chunks user (first + front.length) rest back

theorem Chunks.concat {user : Comparator} {first : Nat} {tables : List MemTable}
    {updates more : List Update} {mem : MemTable} (chunks : Chunks user first tables updates)
    (numbered : Numbered user mem (first + updates.length) more) :
    Chunks user first (tables ++ [mem]) (updates ++ more) := by
  induction tables generalizing first updates with
  | nil =>
    obtain rfl : updates = [] := chunks
    exact ⟨more, [], (List.append_nil more).symm, numbered, rfl⟩
  | cons table rest hypothesis =>
    obtain ⟨front, back, rfl, here, behind⟩ := chunks
    rw [List.length_append, ← Nat.add_assoc] at numbered
    exact ⟨front, back ++ more, List.append_assoc .., here, hypothesis behind numbered⟩

/-- The greatest sequence number behind some batches of updates. -/
def top (first old : Nat) (batches : List (WriteBatch × List Update)) : Nat :=
  if batches = [] then old else max old (first + (batches.flatMap Prod.snd).length - 1)

/-- No table was built behind another one, and none was deleted. -/
def LogRecovery.Whole (state : LogRecovery) : Prop :=
  state.tables.length ≤ 1 ∧ (state.ldb = .deleted → state.tables = [])

/-- The updates that tables were built of. Some of them are lost, the others are in the file. -/
structure Stored (user : Comparator) (first : Nat) (state : LogRecovery) (updates : List Update) :
    Prop where
  tables : Chunks user first state.tables updates
  none_iff : state.tables = [] ↔ updates = []
  left : ∃ lost kept, updates = lost ++ kept ∧
    Chunks user (first + lost.length) state.ldb.toList kept ∧ (lost = [] ↔ state.Whole)

/-- The recovery behind some batches. -/
structure Recovering (user : Comparator) (first old : Nat) (batches : List (WriteBatch × List Update))
    (state : LogRecovery) : Prop where
  status : state.status = .OK
  held : ∃ stored current, batches.flatMap Prod.snd = stored ++ current ∧
    Stored user first state stored ∧
    Numbered user (state.mem.getD .new) (first + stored.length) current ∧
    (state.mem = none → current = [])
  started : state.compactions = 0 → state.tables = [] ∧ state.ldb = .before
  max_sequence : state.max_sequence.toNat = top first old batches

/-- What a recovery of some updates comes to. The tables that were built and the memtable that is
kept hold them behind one another. Those in front may be lost; the table in the file and the
memtable hold the others. -/
structure Recovers (user : Comparator) (first : Nat) (updates : List Update) (state : LogRecovery)
    (mem_ : Option MemTable) : Prop where
  status : state.status = .OK
  tables : Chunks user first (state.tables ++ mem_.toList) updates
  left : ∃ lost kept, updates = lost ++ kept ∧
    Chunks user (first + lost.length) (state.ldb.toList ++ mem_.toList) kept ∧
    (lost = [] ↔ state.Whole)
  small : state.compactions = 0 → state.Whole

variable {user : Comparator} {first old : Nat} {batches : List (WriteBatch × List Update)}
  {state : LogRecovery}

theorem toNat_last_seq {b : WriteBatch} {next : Nat} {updates : List Update}
    (holds : b.Holds (BitVec.ofNat 64 next) updates) (positive : 0 < next)
    (bound : next + updates.length ≤ 2 ^ 56) (count : updates.length < 2 ^ 31) :
    (last_seq b).toNat = next + updates.length - 1 := by
  have one : (1 : BitVec 64).toNat = 1 := rfl
  rw [last_seq, holds.sequence, holds.count_extended count, BitVec.toNat_sub, BitVec.toNat_add,
    BitVec.toNat_ofNat, BitVec.toNat_ofNat, one]
  omega

theorem top_concat (first old : Nat) (batches : List (WriteBatch × List Update))
    (batch : WriteBatch × List Update) (positive : 0 < first) :
    top first old (batches ++ [batch]) = max (top first old batches)
      (first + (batches.flatMap Prod.snd).length + batch.2.length - 1) := by
  rw [top, if_neg (List.append_ne_nil_of_right_ne_nil _ (List.cons_ne_nil _ _)), top,
    List.flatMap_append, List.flatMap_singleton, List.length_append]
  by_cases none' : batches = []
  · rw [if_pos none', none', List.flatMap_nil, List.length_nil]
    omega
  · rw [if_neg none']
    omega

/-- The environment answers OK to every table. -/
def RecoveryOptions.Stores (options : RecoveryOptions) : Prop :=
  ∀ mem, options.NewWritableFile mem = .OK ∧ options.built mem = .OK

/-- An iterator finds out whether a memtable is empty. -/
theorem Numbered.SeekToFirst {mem : MemTable} {next : Nat} {updates : List Update}
    (numbered : Numbered user mem next updates) :
    ∃ iter, SkipList.Iterator.SeekToFirst mem.table_ = .ok iter ∧
      (iter.Valid = true ↔ updates ≠ []) := by
  obtain ⟨versions, ⟨stored, linked, same⟩, told⟩ := numbered
  have length : stored.length = updates.length := by
    rw [← List.length_map (f := Prod.snd), same.length_eq, ← List.length_map (f := Db.told),
      told.length_eq, List.length_zipIdx]
  refine ⟨⟨((stored.map MemTable.node).map Prod.fst).head?⟩, ?_, ?_⟩
  · rw [SkipList.Iterator.SeekToFirst, linked.Next (List.nil_append _).symm, ok_bind]
  · show ((stored.map MemTable.node).map Prod.fst).head?.isSome = true ↔ _
    rw [← List.length_pos_iff, ← length, List.map_map]
    cases stored with
    | nil => exact ⟨(fun no => by cases no), fun no => absurd no (Nat.lt_irrefl 0)⟩
    | cons version rest => exact ⟨fun _ => Nat.succ_pos _, fun _ => rfl⟩

/-- A memtable is written. -/
theorem Stored.WriteLevel0Table {updates more : List Update} {mem : MemTable}
    (stored : Stored user first state updates) {options : RecoveryOptions} (stores : options.Stores)
    (numbered : Numbered user mem (first + updates.length) more) :
    ∃ tables ldb, state.WriteLevel0Table options mem = .ok
        { state with status := .OK, mem := none, save_manifest := true, tables, ldb } ∧
      Stored user first { state with
        status := .OK, mem := none, save_manifest := true, tables, ldb } (updates ++ more) ∧
      (state.tables = [] → tables.length ≤ 1 ∧ (ldb = .deleted → tables = [])) := by
  obtain ⟨iter, seekEq, valid⟩ := numbered.SeekToFirst
  unfold LogRecovery.WriteLevel0Table BuildTable
  rw [seekEq]
  simp only [ok_bind, (stores mem).1, (stores mem).2]
  by_cases empty : more = []
  · rw [if_neg (mt valid.mp (not_not_intro empty)), ok_bind, empty, List.append_nil]
    refine ⟨state.tables, .deleted, rfl, ⟨stored.tables, stored.none_iff, updates, [],
      (List.append_nil _).symm, rfl, ?_⟩, fun none' => ⟨by rw [none']; exact Nat.zero_le 1,
        fun _ => none'⟩⟩
    rw [← stored.none_iff]
    exact ⟨fun none' => ⟨by rw [none']; exact Nat.zero_le 1, fun _ => none'⟩,
      fun whole => whole.2 rfl⟩
  · rw [if_pos (valid.mpr empty), if_neg (by decide), if_pos (by decide), ok_bind]
    have length : (state.tables ++ [mem]).length = state.tables.length + 1 := List.length_append
    refine ⟨state.tables ++ [mem], .table mem, rfl, ⟨stored.tables.concat numbered, ?_, updates, more,
      rfl, ⟨more, [], (List.append_nil more).symm, numbered, rfl⟩, ?_⟩, fun none' => ⟨by
        rw [length, none', List.length_nil], nofun⟩⟩
    · exact ⟨fun none' => absurd none' (List.append_ne_nil_of_right_ne_nil _ (List.cons_ne_nil _ _)),
        fun none' => absurd (List.append_eq_nil_iff.mp none').2 empty⟩
    · rw [← stored.none_iff, ← List.length_eq_zero_iff]
      refine ⟨fun none' => ⟨by rw [length, none'], nofun⟩, fun whole => ?_⟩
      have short : (state.tables ++ [mem]).length ≤ 1 := whole.1
      omega

/-- The next batch of a log is added. -/
theorem Recovering.add (recovering : Recovering user first old batches state)
    {options : RecoveryOptions} (stores : options.Stores)
    {b : WriteBatch} {more : List Update}
    (holds : b.Holds (BitVec.ofNat 64 (first + (batches.flatMap Prod.snd).length)) more)
    (fits : ∀ u ∈ more, u.Fits) (positive : 0 < first) (count : more.length < 2 ^ 31)
    (bound : first + (batches.flatMap Prod.snd).length + more.length ≤ 2 ^ 56) :
    ∃ after, state.add user options (WriteBatchInternal.Contents b) = .ok (true, after) ∧
      Recovering user first old (batches ++ [(b, more)]) after := by
  obtain ⟨status, ⟨stored, current, split, held, numbered, -⟩, started, max_sequence⟩ := recovering
  have length := congrArg List.length split
  rw [List.length_append] at length
  have all : (batches ++ [(b, more)]).flatMap Prod.snd = stored ++ (current ++ more) := by
    rw [List.flatMap_append, List.flatMap_singleton, split, List.append_assoc]
  obtain ⟨mem, insertEq, now⟩ := numbered.InsertInto
    (by rw [Nat.add_assoc, ← length]; exact holds) fits (by omega)
  have last := toNat_last_seq holds (by omega) bound count
  have greatest : (if state.max_sequence < last_seq b then last_seq b
      else state.max_sequence).toNat = top first old (batches ++ [(b, more)]) := by
    rw [top_concat _ _ _ _ positive, ← max_sequence]
    dsimp only
    split
    · next less =>
      rw [BitVec.lt_def] at less
      omega
    · next not_less =>
      rw [BitVec.lt_def] at not_less
      omega
  have ignored : MaybeIgnoreError options.paranoid_checks .OK = .OK := if_pos (.inl rfl)
  have contents : WriteBatchInternal.SetContents (WriteBatchInternal.Contents b) = .ok b :=
    dif_pos b.header
  unfold LogRecovery.add
  rw [contents, ok_bind, insertEq, ok_bind]
  dsimp only
  rw [ignored, if_neg (by decide)]
  by_cases full : options.full mem = true
  · rw [if_pos full]
    have counted : Stored user first { state with
        max_sequence := if state.max_sequence < last_seq b then last_seq b else state.max_sequence
        compactions := state.compactions + 1 } stored := ⟨held.tables, held.none_iff, held.left⟩
    obtain ⟨tables, ldb, writeEq, written, -⟩ := counted.WriteLevel0Table stores now
    rw [writeEq, ok_bind]
    exact ⟨_, rfl, rfl, ⟨stored ++ (current ++ more), [], (List.append_nil _).symm ▸ all, written,
      numbered_new user _, fun _ => rfl⟩, (fun none' => absurd none' (Nat.succ_ne_zero _)), greatest⟩
  · rw [if_neg full]
    exact ⟨_, rfl, rfl, ⟨stored, current ++ more, all, ⟨held.tables, held.none_iff, held.left⟩, now,
      (fun none' => nomatch none')⟩, started, greatest⟩

/-! ### Runs over a log -/

theorem no_drops {drops more : List Outcome} {records : List Bytes}
    (whole : records.map Outcome.record = drops ++ more) (none' : recordsOf drops = []) :
    drops = [] := by
  cases drops with
  | nil => rfl
  | cons drop rest =>
    cases records with
    | nil => cases whole
    | cons record records =>
      obtain ⟨rfl, -⟩ := List.cons.inj whole
      cases none'

/-- The loop takes the batches of the rest of the log. -/
theorem Recovering.recoverRecords {options : RecoveryOptions}
    (stores : options.Stores) (positive : 0 < first)
    (turns rounds : Nat) (reader : Reader File) (events : List Log.Event)
    (rest : List (WriteBatch × List Update)) (recovering : Recovering user first old batches state)
    (before : reader.Before true events [])
    (assembled : (rest.map fun batch => WriteBatchInternal.Contents batch.1).map Outcome.record =
      assemble none events)
    (enough : events.length < turns) (all : events.length < rounds)
    (consecutive : Consecutive (first + (batches.flatMap Prod.snd).length) rest)
    (fits : ∀ batch ∈ rest, batch.2.length < 2 ^ 31 ∧ ∀ u ∈ batch.2, u.Fits)
    (bound : first + ((batches ++ rest).flatMap Prod.snd).length ≤ 2 ^ 56) :
    ∃ after, Db.recoverRecords user options turns rounds reader state = .ok after ∧
      Recovering user first old (batches ++ rest) after := by
  induction rounds generalizing reader events rest batches state with
  | zero => exact absurd all (Nat.not_lt_zero _)
  | succ rounds hypothesis =>
    have call : reader.ReadRecord turns = Reader.readRecord turns (none : Option Bytes).isSome
        ((none : Option Bytes).getD []) 0 [] reader := by
      rw [Reader.ReadRecord, if_neg (by rw [before.initial]; exact Nat.not_lt_zero _)]
      rfl
    have quiet : corrupted options.paranoid_checks state.status
        (([] : List (Nat × Status)).drop ([] : List (Nat × Status)).length) = state.status := rfl
    rw [Db.recoverRecords, call]
    rcases Reader.readRecord_returns true events none [] turns 0 [] reader before enough with
      ⟨record, left, drops, next, readEq, assembledEq, noRecord, now, shorter⟩ |
      ⟨drops, after, readEq, assembledEq, noRecord, tells⟩
    · rw [assembledEq] at assembled
      obtain rfl := no_drops assembled noRecord
      cases rest with
      | nil => cases assembled
      | cons batch rest =>
        obtain ⟨b, more⟩ := batch
        obtain ⟨holds, consecutive⟩ := consecutive
        obtain ⟨recordEq, behind⟩ := List.cons.inj assembled
        obtain rfl := Outcome.record.inj recordEq
        obtain ⟨count, here⟩ := fits (b, more) List.mem_cons_self
        rw [List.append_cons, List.flatMap_append, List.length_append] at bound
        have shorter' : first + (batches.flatMap Prod.snd).length + more.length ≤ 2 ^ 56 := by
          rw [List.flatMap_append, List.length_append, List.flatMap_singleton] at bound
          dsimp only at bound
          omega
        obtain ⟨middle, addEq, grown⟩ :=
          recovering.add stores holds here positive count shorter'
        obtain ⟨after, restEq, finally'⟩ := hypothesis next left rest grown now behind
          (Nat.lt_trans shorter enough) (Nat.lt_of_lt_of_le shorter (Nat.le_of_lt_succ all))
          (by rw [List.flatMap_append, List.length_append, List.flatMap_singleton, ← Nat.add_assoc]
              exact consecutive)
          (fun batch mem => fits batch (List.mem_cons_of_mem _ mem))
          (by rw [List.flatMap_append, List.length_append]; exact bound)
        refine ⟨after, ?_, by rw [List.append_cons]; exact finally'⟩
        have silent : next.reporter_ = some [] := now.told
        have header : ¬ (WriteBatchInternal.Contents b).length < kHeader := Nat.not_lt.mpr b.header
        rw [readEq, ok_bind]
        dsimp only
        rw [before.told, silent, Option.getD_some, quiet,
          if_neg (by rw [recovering.status]; decide), if_neg header, addEq, ok_bind]
        exact restEq
    · rw [assembledEq] at assembled
      obtain rfl := no_drops (assembled.trans (List.append_nil _).symm) noRecord
      obtain rfl := List.map_eq_nil_iff.mp (List.map_eq_nil_iff.mp assembled)
      refine ⟨state, ?_, (List.append_nil batches).symm ▸ recovering⟩
      have silent : after.reporter_ = some [] := tells
      rw [readEq, ok_bind]
      dsimp only
      rw [before.told, silent, Option.getD_some, quiet]

/-- What is left in memory is kept or written. -/
theorem Recovering.finish (recovering : Recovering user first old batches state)
    {options : RecoveryOptions} (stores : options.Stores) (last_log : Bool) :
    ∃ after mem_, state.finish options last_log = .ok (after, mem_) ∧
      Recovers user first (batches.flatMap Prod.snd) after mem_ ∧
      after.max_sequence.toNat = top first old batches := by
  obtain ⟨status, ⟨stored, current, split, held, numbered, none'⟩, started, max_sequence⟩ := recovering
  rw [split]
  have begun : state.compactions = 0 → state.Whole := fun none' => by
    obtain ⟨tables, ldb⟩ := started none'
    exact ⟨by rw [tables]; exact Nat.zero_le 1, fun _ => tables⟩
  unfold LogRecovery.finish
  split
  · rename_i reused
    obtain ⟨tables, ldb⟩ := started reused.2.2.2.1
    obtain rfl := held.none_iff.mp tables
    refine ⟨_, _, rfl, ⟨status, held.tables.concat numbered, ⟨[], current, rfl, ?_,
      fun _ => begun reused.2.2.2.1, fun _ => rfl⟩, begun⟩, max_sequence⟩
    show Chunks user first (state.ldb.toList ++ [_]) current
    rw [ldb]
    exact ⟨current, [], (List.append_nil current).symm, numbered, rfl⟩
  · cases memEq : state.mem with
    | none =>
      refine ⟨_, _, rfl, ⟨status, ?_, ?_, begun⟩, max_sequence⟩
      · rw [none' memEq, List.append_nil, Option.toList_none, List.append_nil]
        exact held.tables
      · rw [none' memEq, List.append_nil, Option.toList_none, List.append_nil]
        exact held.left
    | some mem =>
      rw [memEq, Option.getD_some] at numbered
      obtain ⟨tables, ldb, writeEq, written, small⟩ := held.WriteLevel0Table stores numbered
      dsimp only
      rw [status, if_pos (by decide), writeEq, ok_bind]
      refine ⟨_, _, rfl, ⟨rfl, ?_, ?_, fun none' => small (started none').1⟩, max_sequence⟩
      · rw [Option.toList_none, List.append_nil]
        exact written.tables
      · rw [Option.toList_none, List.append_nil]
        exact written.left

theorem consecutive_front {first : Nat} {front back : List (WriteBatch × List Update)}
    (consecutive : Consecutive first (front ++ back)) : Consecutive first front := by
  induction front generalizing first with
  | nil => trivial
  | cons batch front hypothesis => exact ⟨consecutive.1, hypothesis consecutive.2⟩

/-- A log of batches that is cut anywhere is recovered up to the last batch that lies in it as a
whole, each update under its number; nothing of it is lost where one table takes it. -/
theorem RecoverLogFile_cut {Dest : Type} [AcceptingFile Dest] (dest : Dest)
    (empty : AcceptingFile.contents dest = []) (user : Comparator) (options : RecoveryOptions)
    (stores : options.Stores) (first : Nat) (positive : 0 < first)
    (batches : List (WriteBatch × List Update)) (consecutive : Consecutive first batches)
    (fits : ∀ batch ∈ batches, batch.2.length < 2 ^ 31 ∧ ∀ u ∈ batch.2, u.Fits)
    (bound : first + (batches.flatMap Prod.snd).length ≤ 2 ^ 56) :
    ∃ whole, (Writer.new dest).AddRecords
        (batches.map fun batch => WriteBatchInternal.Contents batch.1) = .ok (.OK, whole) ∧
      ∀ (count : Nat) (file : File) (last_log : Bool) (max_sequence : BitVec 64),
        ReadableFile.unread file = (AcceptingFile.contents whole.dest_).take count →
        ∃ front back behind state mem_, batches = front ++ back ∧
          (Writer.new dest).AddRecords
              (front.map fun batch => WriteBatchInternal.Contents batch.1) = .ok (.OK, behind) ∧
          (AcceptingFile.contents behind.dest_).length ≤ count ∧
          (∀ next rest, back = next :: rest → ∃ after,
            behind.AddRecord (WriteBatchInternal.Contents next.1) = .ok (.OK, after) ∧
              count < (AcceptingFile.contents after.dest_).length) ∧
          RecoverLogFile user options (.ok file) last_log max_sequence (count + 1) =
            .ok (state, mem_) ∧
          Recovers user first (front.flatMap Prod.snd) state mem_ ∧
          state.max_sequence.toNat = top first max_sequence.toNat front := by
  have new := Writer.behind_new dest empty
  obtain ⟨whole, wholeEq, all⟩ :=
    Writer.AddRecords_ok new (batches.map fun batch => WriteBatchInternal.Contents batch.1)
  refine ⟨whole, wholeEq, fun count file last_log max_sequence cut => ?_⟩
  obtain ⟨frontRecords, backRecords, split, inside, next⟩ := exists_front []
    (batches.map fun batch => WriteBatchInternal.Contents batch.1) count (Nat.zero_le _)
  have found := outcomes_front true frontRecords backRecords count inside next
  rw [← split] at found
  obtain ⟨front, back, rfl, rfl, rfl⟩ := List.map_eq_append_iff.mp split
  obtain ⟨behind, frontEq, now⟩ :=
    Writer.AddRecords_ok new (front.map fun batch => WriteBatchInternal.Contents batch.1)
  have short : (ReadableFile.unread file).length < count + 1 := by
    rw [cut, List.length_take]
    omega
  have before : (Reader.new file true true 0).Before true
      (events true (ReadableFile.unread file)) [] :=
    ⟨by rw [Reader.new, Reader.block_short _ _ [] (by decide)]; rfl, rfl, rfl, rfl, rfl⟩
  have assembled : (front.map fun batch => WriteBatchInternal.Contents batch.1).map Outcome.record =
      assemble none (events true (ReadableFile.unread file)) := by
    rw [cut, all.contents]
    exact found.symm
  have enough := Nat.lt_of_le_of_lt (length_events true (ReadableFile.unread file)) short
  have start : Recovering user first max_sequence.toNat []
      ⟨.OK, none, 0, false, max_sequence, [], .before⟩ :=
    ⟨rfl, ⟨[], [], rfl, ⟨rfl, ⟨fun _ => rfl, fun _ => rfl⟩, [], [], rfl, rfl,
      fun _ => ⟨Nat.zero_le 1, fun no => by cases no⟩, fun _ => rfl⟩, numbered_new user _,
      fun _ => rfl⟩,
      fun _ => ⟨rfl, rfl⟩, rfl⟩
  have inFront : ∀ batch ∈ front, batch ∈ front ++ back := fun batch mem =>
    List.mem_append_left _ mem
  rw [List.flatMap_append, List.length_append] at bound
  obtain ⟨recovered, loopEq, recovering⟩ := start.recoverRecords stores positive (count + 1)
    (count + 1) (.new file true true 0) _ front before assembled enough enough
    (consecutive_front consecutive) (fun batch mem => fits batch (inFront batch mem))
    (by rw [List.nil_append]; omega)
  obtain ⟨state, mem_, finishEq, recovers, greatest⟩ := recovering.finish stores last_log
  refine ⟨front, back, behind, state, mem_, rfl, frontEq, now.contents.symm ▸ inside,
    fun batch rest backEq => ?_, ?_, recovers, greatest⟩
  · obtain ⟨after, addEq, then'⟩ := Writer.AddRecord_ok now (WriteBatchInternal.Contents batch.1)
    refine ⟨after, addEq, ?_⟩
    rw [then'.contents]
    refine Nat.lt_of_lt_of_eq (next _ (rest.map fun batch => WriteBatchInternal.Contents batch.1) ?_)
      (congrArg _ (logOf_concat _ _))
    rw [backEq, List.map_cons]
  · rw [RecoverLogFile, loopEq, ok_bind, finishEq]

/-- Options under which every memtable is full, and every table is written. -/
def sampleOptions : RecoveryOptions :=
  ⟨true, true, fun _ => true, fun _ => .OK, fun _ => .OK, true⟩

def sampleBatches : List (WriteBatch × List Update) :=
  [(WriteBatchInternal.SetSequence (WriteBatch.Clear.Put [1] [5]) 1, [.put [1] [5]]),
    (WriteBatchInternal.SetSequence (WriteBatch.Clear.Delete [1]) 2, [.delete [1]])]

theorem RecoverLogFile_cut_once : ∃ whole : Writer Bytes,
    (Writer.new []).AddRecords
        (sampleBatches.map fun batch => WriteBatchInternal.Contents batch.1) = .ok (.OK, whole) ∧
      ∀ (count : Nat) (file : Bytes) (last_log : Bool) (max_sequence : BitVec 64),
        file = whole.dest_.take count →
        ∃ front back behind state mem_, sampleBatches = front ++ back ∧
          (Writer.new ([] : Bytes)).AddRecords
              (front.map fun batch => WriteBatchInternal.Contents batch.1) = .ok (.OK, behind) ∧
          behind.dest_.length ≤ count ∧
          (∀ next rest, back = next :: rest → ∃ after,
            behind.AddRecord (WriteBatchInternal.Contents next.1) = .ok (.OK, after) ∧
              count < after.dest_.length) ∧
          RecoverLogFile BytewiseComparator sampleOptions (.ok file) last_log max_sequence
              (count + 1) = .ok (state, mem_) ∧
          Recovers BytewiseComparator 1 (front.flatMap Prod.snd) state mem_ ∧
          state.max_sequence.toNat = top 1 max_sequence.toNat front :=
  RecoverLogFile_cut ([] : Bytes) rfl BytewiseComparator sampleOptions (fun _ => ⟨rfl, rfl⟩) 1 Nat.one_pos
    sampleBatches
    ⟨(WriteBatch.holds_Clear.Put [1] [5]).SetSequence 1,
      (WriteBatch.holds_Clear.Delete [1]).SetSequence 2, trivial⟩
    (by simp [sampleBatches, Update.Fits]) (by decide)

end Db

end LevelDBLib.Navi
