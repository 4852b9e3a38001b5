/-
This file models the batches of the database as bytes, `db/write_batch.cpp`: a sequence
number and a count, with the updates behind them. However a batch was made, its updates are
handed on in the order in which they were made, each once, and the count is theirs.
-/

import LevelDBLib.Navi.Coding
import LevelDBLib.Navi.Status

namespace LevelDBLib.Navi

open KvDB Coding

namespace Db

/-! ### Batches -/

def kHeader : Nat := 12

/-- The two tags of a record, `kTypeValue` and `kTypeDeletion` as a `char`. -/
def kTypeValue : UInt8 := 1

def kTypeDeletion : UInt8 := 0

/-- A batch never has less than its header. -/
structure WriteBatch where
  rep_ : Bytes
  header : kHeader ≤ rep_.length

/-- `WriteBatch::Handler`. -/
structure Handler (State : Type) where
  Put : State → Bytes → Bytes → Except Fault State
  Delete : State → Bytes → Except Fault State

inductive Update where
  | put (key value : Bytes)
  | delete (key : Bytes)
deriving DecidableEq, Repr

def Handler.handle {State : Type} (handler : Handler State) (state : State) :
    Update → Except Fault State
  | .put key value => handler.Put state key value
  | .delete key => handler.Delete state key

/-- A batch with some more bytes. -/
def WriteBatch.push (b : WriteBatch) (bytes : Bytes) : WriteBatch :=
  ⟨b.rep_ ++ bytes, Nat.le_trans b.header (List.length_append ▸ Nat.le_add_right _ _)⟩

namespace WriteBatchInternal

def Count (b : WriteBatch) : BitVec 32 := DecodeFixed32 (b.rep_.drop 8)

def SetCount (b : WriteBatch) (n : BitVec 32) : WriteBatch :=
  ⟨b.rep_.take 8 ++ (EncodeFixed32 n ++ b.rep_.drop 12), by
    have header : 12 ≤ b.rep_.length := b.header
    simp only [kHeader, List.length_append, List.length_take, length_EncodeFixed32,
      List.length_drop]
    omega⟩

def Sequence (b : WriteBatch) : BitVec 64 := DecodeFixed64 b.rep_

def SetSequence (b : WriteBatch) (seq : BitVec 64) : WriteBatch :=
  ⟨EncodeFixed64 seq ++ b.rep_.drop 8, by
    have header : 12 ≤ b.rep_.length := b.header
    simp only [kHeader, List.length_append, length_EncodeFixed64, List.length_drop]
    omega⟩

def Contents (b : WriteBatch) : Bytes := b.rep_

def ByteSize (b : WriteBatch) : Nat := b.rep_.length

def SetContents (contents : Bytes) : Except Fault WriteBatch :=
  if header : kHeader ≤ contents.length then .ok ⟨contents, header⟩ else .error .assertion

def Append (dst src : WriteBatch) : WriteBatch :=
  (SetCount dst (Count dst + Count src)).push (src.rep_.drop kHeader)

end WriteBatchInternal

namespace WriteBatch

open WriteBatchInternal

/-- `Clear`, which is also the constructor. -/
def Clear : WriteBatch := ⟨List.replicate kHeader 0, Nat.le_refl _⟩

def Put (b : WriteBatch) (key value : Bytes) : WriteBatch :=
  (SetCount b (Count b + 1)).push
    (PutLengthPrefixedSlice (PutLengthPrefixedSlice [kTypeValue] key) value)

def Delete (b : WriteBatch) (key : Bytes) : WriteBatch :=
  (SetCount b (Count b + 1)).push (PutLengthPrefixedSlice [kTypeDeletion] key)

/-- The update behind its tag, or what is wrong there. -/
def record (tag : UInt8) (input : Bytes) : Except Status (Update × Bytes) :=
  if tag = kTypeValue then
    match GetLengthPrefixedSlice input with
    | some (key, input) =>
      match GetLengthPrefixedSlice input with
      | some (value, input) => .ok (.put key value, input)
      | none => .error (.Corruption (text "bad WriteBatch Put") [])
    | none => .error (.Corruption (text "bad WriteBatch Put") [])
  else if tag = kTypeDeletion then
    match GetLengthPrefixedSlice input with
    | some (key, input) => .ok (.delete key, input)
    | none => .error (.Corruption (text "bad WriteBatch Delete") [])
  else .error (.Corruption (text "unknown WriteBatch tag") [])

/-- The loop of `Iterate`, with the number of records found. -/
def iterate {State : Type} (handler : Handler State) (count : BitVec 32) :
    Nat → BitVec 32 → Bytes → State → Except Fault (Status × State)
  | _, found, [], state =>
    .ok (if found ≠ count then .Corruption (text "WriteBatch has wrong count") [] else .OK, state)
  | 0, _, _ :: _, _ => .error .nonTermination
  | turns + 1, found, tag :: input, state =>
    match record tag input with
    | .error status => .ok (status, state)
    | .ok (update, input) => do
      let state ← handler.handle state update
      iterate handler count turns (found + 1) input state

/-- `Iterate`. Each turn takes a byte at least. -/
def Iterate {State : Type} (b : WriteBatch) (handler : Handler State) (state : State) :
    Except Fault (Status × State) :=
  if b.rep_.length < kHeader then
    .ok (.Corruption (text "malformed WriteBatch (too small)") [], state)
  else iterate handler (Count b) b.rep_.length 0 (b.rep_.drop kHeader) state

end WriteBatch

/-! ### What a batch holds -/

namespace Update

def key : Update → Bytes
  | put key _ => key
  | delete key => key

def bytes : Update → Bytes
  | put key value => kTypeValue :: (PutLengthPrefixedSlice [] key ++ PutLengthPrefixedSlice [] value)
  | delete key => kTypeDeletion :: PutLengthPrefixedSlice [] key

/-- The lengths fit their fields, also behind an internal key. -/
def Fits : Update → Prop
  | put key value => key.length + 8 < 2 ^ 32 ∧ value.length < 2 ^ 32
  | delete key => key.length + 8 < 2 ^ 32

end Update

namespace WriteBatch

open WriteBatchInternal

/-- A batch of a sequence number and updates. -/
def Holds (b : WriteBatch) (seq : BitVec 64) (updates : List Update) : Prop :=
  b.rep_ = EncodeFixed64 seq ++ (EncodeFixed32 (BitVec.ofNat 32 updates.length) ++
    updates.flatMap Update.bytes)

variable {b : WriteBatch} {seq : BitVec 64} {updates : List Update}

theorem Holds.count (holds : b.Holds seq updates) :
    WriteBatchInternal.Count b = BitVec.ofNat 32 updates.length := by
  rw [WriteBatchInternal.Count, holds, List.drop_left' (length_EncodeFixed64 seq),
    DecodeFixed32_EncodeFixed32]

/-- The count as an `int`. -/
theorem Holds.count_extended (holds : b.Holds seq updates) (short : updates.length < 2 ^ 31) :
    (WriteBatchInternal.Count b).signExtend 64 = BitVec.ofNat 64 updates.length := by
  have narrow : (BitVec.ofNat 32 updates.length).toNat = updates.length := by
    rw [BitVec.toNat_ofNat, Nat.mod_eq_of_lt (by omega)]
  have wide : (BitVec.ofNat 64 updates.length).toNat = updates.length := by
    rw [BitVec.toNat_ofNat, Nat.mod_eq_of_lt (by omega)]
  refine BitVec.eq_of_toInt_eq ?_
  rw [holds.count, BitVec.toInt_signExtend_of_le (by decide), BitVec.toInt_eq_toNat_of_lt (by omega),
    narrow, BitVec.toInt_eq_toNat_of_lt (by omega), wide]

theorem Holds.sequence (holds : b.Holds seq updates) : WriteBatchInternal.Sequence b = seq := by
  rw [WriteBatchInternal.Sequence, holds, DecodeFixed64_EncodeFixed64]

theorem Holds.records (holds : b.Holds seq updates) :
    b.rep_.drop kHeader = updates.flatMap Update.bytes := by
  rw [holds, ← List.append_assoc]
  exact List.drop_left' (by rw [List.length_append, length_EncodeFixed64, length_EncodeFixed32]; rfl)

/-- A batch with its new count and more records. -/
theorem Holds.grown (holds : b.Holds seq updates) (more : List Update) {n : BitVec 32}
    {bytes : Bytes} (count : n = BitVec.ofNat 32 (updates ++ more).length)
    (records : bytes = more.flatMap Update.bytes) :
    ((SetCount b n).push bytes).Holds seq (updates ++ more) := by
  have front : b.rep_.take 8 = EncodeFixed64 seq := by
    rw [holds, List.take_left' (length_EncodeFixed64 seq)]
  show (b.rep_.take 8 ++ (EncodeFixed32 n ++ b.rep_.drop 12)) ++ bytes = _
  rw [front, show b.rep_.drop 12 = _ from holds.records, count, records, List.append_assoc,
    List.append_assoc, List.flatMap_append]

theorem holds_Clear : Clear.Holds 0 [] := rfl

theorem Holds.Put (holds : b.Holds seq updates) (key value : Bytes) :
    (b.Put key value).Holds seq (updates ++ [.put key value]) := by
  refine holds.grown [.put key value] ?_ ?_
  · rw [holds.count, List.length_append, BitVec.ofNat_add]
    rfl
  · rw [PutLengthPrefixedSlice_append, PutLengthPrefixedSlice_append [kTypeValue], List.flatMap_singleton]
    rfl

theorem Holds.Delete (holds : b.Holds seq updates) (key : Bytes) :
    (b.Delete key).Holds seq (updates ++ [.delete key]) := by
  refine holds.grown [.delete key] ?_ ?_
  · rw [holds.count, List.length_append, BitVec.ofNat_add]
    rfl
  · rw [PutLengthPrefixedSlice_append, List.flatMap_singleton]
    rfl

theorem Holds.Append {src : WriteBatch} {other : BitVec 64} {more : List Update}
    (holds : b.Holds seq updates) (appended : src.Holds other more) :
    (Append b src).Holds seq (updates ++ more) := by
  refine holds.grown more ?_ appended.records
  rw [holds.count, appended.count, List.length_append, BitVec.ofNat_add]

theorem Holds.SetSequence (holds : b.Holds seq updates) (other : BitVec 64) :
    (SetSequence b other).Holds other updates := by
  show EncodeFixed64 other ++ b.rep_.drop 8 = _
  rw [holds, List.drop_left' (length_EncodeFixed64 seq)]

/-! ### Handing updates on -/

/-- The record of an update is read back. -/
theorem record_bytes (update : Update) (fits : update.Fits) (rest : Bytes) :
    ∃ tag bytes, update.bytes = tag :: bytes ∧ record tag (bytes ++ rest) = .ok (update, rest) := by
  cases update with
  | put key value =>
    refine ⟨_, _, rfl, ?_⟩
    rw [record, if_pos rfl, List.append_assoc, GetLengthPrefixedSlice_Put key _ (by
      have short := fits.1
      omega)]
    dsimp only
    rw [GetLengthPrefixedSlice_Put value _ fits.2]
  | delete key =>
    have short : key.length + 8 < 2 ^ 32 := fits
    refine ⟨_, _, rfl, ?_⟩
    rw [record, if_neg (by decide), if_pos rfl, GetLengthPrefixedSlice_Put key _ (by omega)]

theorem iterate_bytes {State : Type} (handler : Handler State) (count : BitVec 32) (turns : Nat)
    (found : BitVec 32) (updates : List Update) (state : State) (fits : ∀ u ∈ updates, u.Fits)
    (enough : updates.length ≤ turns) (counted : found + BitVec.ofNat 32 updates.length = count) :
    iterate handler count turns found (updates.flatMap Update.bytes) state =
      updates.foldlM handler.handle state >>= fun state => .ok (.OK, state) := by
  induction updates generalizing turns found state with
  | nil =>
    have same : found = count := (BitVec.add_zero found).symm.trans counted
    rw [List.flatMap_nil, iterate, if_neg (not_not_intro same)]
    rfl
  | cons update rest hypothesis =>
    obtain ⟨tag, bytes, bytesEq, read⟩ :=
      record_bytes update (fits update List.mem_cons_self) (rest.flatMap Update.bytes)
    obtain ⟨turns, rfl⟩ : ∃ more, turns = more + 1 :=
      ⟨turns - 1, by rw [List.length_cons] at enough; omega⟩
    rw [List.flatMap_cons, bytesEq, List.cons_append, iterate, read, List.foldlM_cons]
    dsimp only
    cases handler.handle state update with
    | error fault => rfl
    | ok state =>
      rw [ok_bind, ok_bind]
      refine hypothesis turns _ state (fun u mem => fits u (List.mem_cons_of_mem _ mem))
        (Nat.le_of_succ_le_succ enough) ?_
      rw [← counted, List.length_cons, Nat.add_comm, BitVec.ofNat_add, BitVec.add_assoc]
      rfl

theorem length_le_flatMap (updates : List Update) :
    updates.length ≤ (updates.flatMap Update.bytes).length := by
  induction updates with
  | nil => exact Nat.le_refl 0
  | cons update rest hypothesis =>
    have byte : 1 ≤ update.bytes.length := by cases update <;> exact Nat.le_add_left 1 _
    rw [List.flatMap_cons, List.length_append, List.length_cons]
    omega

/-- The updates of a batch are handed on in their order, each once. -/
theorem Holds.Iterate {State : Type} (holds : b.Holds seq updates) (fits : ∀ u ∈ updates, u.Fits)
    (handler : Handler State) (state : State) :
    b.Iterate handler state =
      updates.foldlM handler.handle state >>= fun state => .ok (.OK, state) := by
  have bytes := length_le_flatMap updates
  rw [← holds.records, List.length_drop] at bytes
  rw [WriteBatch.Iterate, if_neg (Nat.not_lt.mpr b.header), holds.records]
  refine iterate_bytes handler _ _ _ updates state fits (by omega) ?_
  rw [holds.count]
  exact BitVec.zero_add _

end WriteBatch

/-! ### Batches that are made -/

/-- The ways to make a batch. -/
inductive Program where
  | clear
  | put (batch : Program) (key value : Bytes)
  | delete (batch : Program) (key : Bytes)
  | append (dst src : Program)
  | setSequence (batch : Program) (seq : BitVec 64)
  | setContents (batch : Program)

namespace Program

open WriteBatchInternal

/-- What a program makes. -/
def run : Program → Except Fault WriteBatch
  | clear => .ok .Clear
  | put batch key value => do
    let b ← batch.run
    .ok (b.Put key value)
  | delete batch key => do
    let b ← batch.run
    .ok (b.Delete key)
  | append dst src => do
    let dst ← dst.run
    let src ← src.run
    .ok (Append dst src)
  | setSequence batch seq => do
    let b ← batch.run
    .ok (SetSequence b seq)
  | setContents batch => do
    let b ← batch.run
    SetContents (Contents b)

/-- What is meant to be in it. -/
def updates : Program → List Update
  | clear => []
  | put batch key value => batch.updates ++ [.put key value]
  | delete batch key => batch.updates ++ [.delete key]
  | append dst src => dst.updates ++ src.updates
  | setSequence batch _ | setContents batch => batch.updates

/-- The sequence number that was set last. -/
def sequence : Program → BitVec 64
  | clear => 0
  | put batch _ _ | delete batch _ | append batch _ | setContents batch => batch.sequence
  | setSequence _ seq => seq

theorem run_holds (program : Program) :
    ∃ b, program.run = .ok b ∧ b.Holds program.sequence program.updates := by
  induction program with
  | clear => exact ⟨_, rfl, WriteBatch.holds_Clear⟩
  | put batch key value hypothesis =>
    obtain ⟨b, made, holds⟩ := hypothesis
    exact ⟨_, by rw [run, made]; rfl, holds.Put key value⟩
  | delete batch key hypothesis =>
    obtain ⟨b, made, holds⟩ := hypothesis
    exact ⟨_, by rw [run, made]; rfl, holds.Delete key⟩
  | append dst src first second =>
    obtain ⟨b, made, holds⟩ := first
    obtain ⟨other, madeOther, appended⟩ := second
    exact ⟨_, by rw [run, made, madeOther]; rfl, holds.Append appended⟩
  | setSequence batch seq hypothesis =>
    obtain ⟨b, made, holds⟩ := hypothesis
    exact ⟨_, by rw [run, made]; rfl, holds.SetSequence seq⟩
  | setContents batch hypothesis =>
    obtain ⟨b, made, holds⟩ := hypothesis
    exact ⟨b, by rw [run, made]; exact dif_pos b.header, holds⟩

/-- However a batch is made, it counts its updates, and any handler gets them in their order, each
once. -/
theorem handed_on {State : Type} (program : Program) (fits : ∀ u ∈ program.updates, u.Fits)
    (handler : Handler State) (state : State) :
    ∃ b, program.run = .ok b ∧ Count b = BitVec.ofNat 32 program.updates.length ∧
      Sequence b = program.sequence ∧
      b.Iterate handler state =
        program.updates.foldlM handler.handle state >>= fun state => .ok (.OK, state) := by
  obtain ⟨b, made, holds⟩ := program.run_holds
  exact ⟨b, made, holds.count, holds.sequence, holds.Iterate fits handler state⟩

/-- The handler that keeps what it is given. -/
def kept : Handler (List Update) where
  Put state key value := .ok (state ++ [.put key value])
  Delete state key := .ok (state ++ [.delete key])

theorem handed_on_once : ∃ b,
    (append (put (delete clear [1]) [2] [3, 4]) (setContents (put clear [1] []))).run = .ok b ∧
      Count b = 3 ∧ Sequence b = 0 ∧
      b.Iterate kept [] = .ok (.OK, [.delete [1], .put [2] [3, 4], .put [1] []]) :=
  handed_on (append (put (delete clear [1]) [2] [3, 4]) (setContents (put clear [1] [])))
    (by simp [updates, Update.Fits]) kept []

end Program

end Db

end LevelDBLib.Navi
