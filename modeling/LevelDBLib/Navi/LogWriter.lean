/-
This file models the writer of a log, `db/log_writer.cpp`, and proves what it leaves in its
file: the fragments of its records, each in one block. The writer never fails one of its
assertions.
-/

import LevelDBLib.Navi.LogFormat

namespace LevelDBLib.Navi

open KvDB Coding Log

/-- `WritableFile`, of `leveldb/env.h`. -/
class WritableFile (File : Type) where
  Append : File → Bytes → Status × File
  Flush : File → Status × File

/-- A file that takes everything. -/
class AcceptingFile (File : Type) extends WritableFile File where
  contents : File → Bytes
  append_ok : ∀ file data, (Append file data).1 = .OK
  append_contents : ∀ file data, contents (Append file data).2 = contents file ++ data
  flush_ok : ∀ file, (Flush file).1 = .OK
  flush_contents : ∀ file, contents (Flush file).2 = contents file

instance : AcceptingFile Bytes where
  Append file data := (.OK, file ++ data)
  Flush file := (.OK, file)
  contents file := file
  append_ok _ _ := rfl
  append_contents _ _ := rfl
  flush_ok _ := rfl
  flush_contents _ := rfl

namespace Log

structure Writer (File : Type) where
  dest_ : File
  block_offset_ : Nat

namespace Writer

variable {File : Type} [WritableFile File]

def new (dest : File) : Writer File := ⟨dest, 0⟩

/-- The writer of a file with `dest_length` bytes. -/
def newAt (dest : File) (dest_length : BitVec 64) : Writer File :=
  ⟨dest, dest_length.toNat % kBlockSize⟩

def EmitPhysicalRecord (writer : Writer File) (t : RecordType) (ptr : Bytes) :
    Except Fault (Status × Writer File) :=
  if 0xffff < ptr.length ∨ kBlockSize < writer.block_offset_ + kHeaderSize + ptr.length then
    .error .assertion
  else
    let block_offset_ := writer.block_offset_ + kHeaderSize + ptr.length
    let (s, dest_) := WritableFile.Append writer.dest_ (header t ptr)
    if s.ok then
      let (s, dest_) := WritableFile.Append dest_ ptr
      if s.ok then
        let (s, dest_) := WritableFile.Flush dest_
        .ok (s, ⟨dest_, block_offset_⟩)
      else .ok (s, ⟨dest_, block_offset_⟩)
    else .ok (s, ⟨dest_, block_offset_⟩)

/-- The writer at a place for a header: in a new block, behind zeros, if the block has none. -/
def turned (writer : Writer File) : Writer File :=
  let leftover := kBlockSize - writer.block_offset_
  if leftover < kHeaderSize then
    ⟨if 0 < leftover then (WritableFile.Append writer.dest_ (List.replicate leftover 0)).2
      else writer.dest_, 0⟩
  else writer

/-- The loop of `AddRecord`. -/
def addRecord : Nat → Bool → Bytes → Writer File → Except Fault (Status × Writer File)
  | 0, _, _, _ => .error .nonTermination
  | turns + 1, begin, left, writer =>
    if kBlockSize < writer.block_offset_ then .error .assertion
    else do
      let writer := writer.turned
      let avail := kBlockSize - writer.block_offset_ - kHeaderSize
      let fragment_length := if left.length < avail then left.length else avail
      let last := decide (left.length = fragment_length)
      let type : RecordType :=
        if begin && last then .kFullType
        else if begin then .kFirstType
        else if last then .kLastType
        else .kMiddleType
      let (s, writer) ← writer.EmitPhysicalRecord type (left.take fragment_length)
      let left := left.drop fragment_length
      if s.ok ∧ 0 < left.length then addRecord turns false left writer
      else .ok (s, writer)

/-- `AddRecord`, whose loop makes at most one turn that takes no byte, and one for no bytes. -/
def AddRecord (writer : Writer File) (slice : Bytes) : Except Fault (Status × Writer File) :=
  writer.addRecord (slice.length + 2) true slice

/-- `AddRecord` for one record after the other, until one fails. -/
def AddRecords (writer : Writer File) : List Bytes → Except Fault (Status × Writer File)
  | [] => .ok (.OK, writer)
  | record :: rest => do
    let (s, writer) ← writer.AddRecord record
    if s.ok then writer.AddRecords rest else .ok (s, writer)

/-! ### What is written -/

section Accepting

variable {File : Type} [AcceptingFile File]

/-- The writer behind the bytes of a log. -/
structure Behind (writer : Writer File) (log : Bytes) : Prop where
  contents : AcceptingFile.contents writer.dest_ = log
  offset : writer.block_offset_ % 32768 = log.length % 32768
  inside : writer.block_offset_ ≤ 32768

theorem EmitPhysicalRecord_ok (writer : Writer File) (t : RecordType) (ptr : Bytes)
    (fits : writer.block_offset_ + 7 + ptr.length ≤ 32768) :
    ∃ dest, writer.EmitPhysicalRecord t ptr =
        .ok (.OK, ⟨dest, writer.block_offset_ + 7 + ptr.length⟩) ∧
      AcceptingFile.contents dest = AcceptingFile.contents writer.dest_ ++ piece t ptr := by
  unfold EmitPhysicalRecord
  rw [if_neg (by simp only [kBlockSize, kHeaderSize]; omega)]
  simp only [AcceptingFile.append_ok, AcceptingFile.flush_ok, Status.ok, decide_true, if_true]
  exact ⟨_, rfl, by rw [AcceptingFile.flush_contents, AcceptingFile.append_contents,
    AcceptingFile.append_contents, piece, List.append_assoc]⟩

theorem Behind.turned {writer : Writer File} {log : Bytes} (behind : writer.Behind log) :
    AcceptingFile.contents writer.turned.dest_ =
        log ++ List.replicate (place log.length - log.length) 0 ∧
      writer.turned.block_offset_ = place log.length % 32768 := by
  have offset := behind.offset
  have inside := behind.inside
  unfold Writer.turned
  simp only [kBlockSize, kHeaderSize]
  rcases place_cases log.length with ⟨same, header⟩ | ⟨zero, positive, short, sum⟩
  · rw [same, Nat.sub_self]
    by_cases full : writer.block_offset_ = 32768
    · have zero : 0 = log.length % 32768 := by omega
      rw [full, if_pos (by decide), if_neg (by decide), behind.contents]
      exact ⟨(List.append_nil log).symm, zero⟩
    · rw [if_neg (by omega), behind.contents]
      exact ⟨(List.append_nil log).symm, by omega⟩
  · rw [if_pos (by omega), if_pos (by omega), AcceptingFile.append_contents, behind.contents,
      zero, show 32768 - writer.block_offset_ = place log.length - log.length by omega]
    exact ⟨rfl, rfl⟩

/-- One turn of the loop leaves a fragment in its place. -/
theorem Behind.emit {writer : Writer File} {log : Bytes} (behind : writer.Behind log)
    (t : RecordType) (payload : Bytes) (fits : payload.length ≤ space log.length) :
    ∃ after, writer.turned.EmitPhysicalRecord t payload = .ok (.OK, after) ∧
      after.Behind (log ++ (List.replicate (place log.length - log.length) 0 ++ piece t payload)) := by
  obtain ⟨contents, offset⟩ := behind.turned
  have inBlock := place_fits fits
  have further := le_place log.length
  obtain ⟨dest, emitEq, written⟩ := EmitPhysicalRecord_ok writer.turned t payload (by omega)
  refine ⟨_, emitEq, ?_, ?_, ?_⟩
  · rw [written, contents, List.append_assoc]
  · rw [List.length_append, List.length_append, List.length_replicate, length_piece]
    show (writer.turned.block_offset_ + 7 + payload.length) % 32768 = _
    omega
  · show writer.turned.block_offset_ + 7 + payload.length ≤ 32768
    omega

/-- The loop leaves the fragments of what is left of a record. -/
theorem addRecord_ok (turns : Nat) (begin : Bool) (left log : Bytes) (writer : Writer File)
    (behind : writer.Behind log)
    (enough : left.length + (if space log.length = 0 then 2 else 1) ≤ turns) :
    ∃ after, writer.addRecord turns begin left = .ok (.OK, after) ∧
      after.Behind (log ++ laid log.length (typed begin (split log.length left))) := by
  induction turns generalizing begin left log writer with
  | zero => split at enough <;> omega
  | succ turns hypothesis =>
    have room : 32768 - writer.turned.block_offset_ - 7 = space log.length := by
      rw [behind.turned.2, space]
    have inside : ¬ kBlockSize < writer.block_offset_ := Nat.not_lt.mpr behind.inside
    rw [addRecord, if_neg inside]
    simp only [kBlockSize, kHeaderSize, Nat.reduceAdd, room]
    by_cases last : left.length ≤ space log.length
    · have length : (if left.length < space log.length then left.length else space log.length) =
          left.length := by
        split <;> omega
      rw [length, List.take_length, List.drop_length, decide_eq_true rfl, Bool.and_true, split,
        if_pos last]
      obtain ⟨after, emitEq, now⟩ := behind.emit (if begin then .kFullType else .kLastType) left last
      refine ⟨after, ?_, by rw [typed, laid, laid, List.append_nil]; exact now⟩
      cases begin <;> exact (congrArg (· >>= _) emitEq).trans rfl
    · have length : (if left.length < space log.length then left.length else space log.length) =
          space log.length := if_neg (by omega)
      have taken : (left.take (space log.length)).length = space log.length := by
        rw [List.length_take]
        omega
      have more : left.length ≠ space log.length := by omega
      rw [length, decide_eq_false more, Bool.and_false, split, if_neg last]
      obtain ⟨after, emitEq, now⟩ := behind.emit (if begin then .kFirstType else .kMiddleType)
        (left.take (space log.length)) (Nat.le_of_eq taken)
      have further := le_place log.length
      have position : (log ++ (List.replicate (place log.length - log.length) 0 ++ piece
          (if begin then .kFirstType else .kMiddleType) (left.take (space log.length)))).length =
          place log.length + 7 + space log.length := by
        rw [List.length_append, List.length_append, List.length_replicate, length_piece, taken]
        omega
      obtain ⟨final, loopEq, ended⟩ := hypothesis false (left.drop (space log.length)) _ after now (by
        rw [position, space_turned, if_neg (by decide), List.length_drop]
        split at enough <;> omega)
      refine ⟨final, ?_, ?_⟩
      · have rest : 0 < (left.drop (space log.length)).length := by
          rw [List.length_drop]
          omega
        cases begin <;>
          exact (congrArg (· >>= _) emitEq).trans ((if_pos ⟨rfl, rest⟩).trans loopEq)
      · rw [position, List.append_assoc, List.append_assoc] at ended
        obtain ⟨next, others, splitEq⟩ := List.exists_cons_of_ne_nil
          (split_ne_nil (place log.length + 7 + space log.length) (left.drop (space log.length)))
        rw [splitEq] at ended ⊢
        rw [typed, laid, taken]
        exact ended

theorem AddRecord_ok {writer : Writer File} {log : Bytes} (behind : writer.Behind log)
    (slice : Bytes) :
    ∃ after, writer.AddRecord slice = .ok (.OK, after) ∧
      after.Behind (log ++ laid log.length (fragments log.length slice)) :=
  addRecord_ok _ true slice log writer behind (by split <;> omega)

/-- A writer leaves the log of its records. -/
theorem AddRecords_ok {writer : Writer File} {log : Bytes} (behind : writer.Behind log)
    (records : List Bytes) :
    ∃ after, writer.AddRecords records = .ok (.OK, after) ∧
      after.Behind (log ++ laid log.length (fragmentsOf log.length records)) := by
  induction records generalizing writer log with
  | nil => exact ⟨writer, rfl, by rw [fragmentsOf, laid, List.append_nil]; exact behind⟩
  | cons record rest hypothesis =>
    obtain ⟨next, addEq, now⟩ := AddRecord_ok behind record
    obtain ⟨after, restEq, ended⟩ := hypothesis now
    refine ⟨after, ?_, ?_⟩
    · rw [AddRecords, addEq]
      exact restEq
    · rw [fragmentsOf, laid_append]
      rw [List.append_assoc, List.length_append] at ended
      exact ended

theorem behind_new (dest : File) (empty : AcceptingFile.contents dest = []) :
    (new dest).Behind [] :=
  ⟨empty, rfl, Nat.zero_le _⟩

/-- A writer that goes on behind a log. -/
theorem behind_newAt (dest : File) (log : Bytes) (contents : AcceptingFile.contents dest = log)
    (small : log.length < 2 ^ 64) : (newAt dest (BitVec.ofNat 64 log.length)).Behind log := by
  have length : (BitVec.ofNat 64 log.length).toNat = log.length := by
    rw [BitVec.toNat_ofNat, Nat.mod_eq_of_lt small]
  refine ⟨contents, ?_, ?_⟩
  · rw [newAt, length]
    exact Nat.mod_mod ..
  · rw [newAt, length]
    exact Nat.le_of_lt (Nat.mod_lt _ (by decide))

end Accepting

end Writer

end Log

end LevelDBLib.Navi
