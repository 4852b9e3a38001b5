/-
This file models the reader of a log, `db/log_reader.cpp`. On every file, however damaged,
a reader that starts at the front gives the records that the events of its bytes make up,
and reports their drops. So it reads a log that was cut anywhere up to the last record that
was written as a whole, and reports nothing.
-/

import LevelDBLib.Navi.LogWriter
import LevelDBLib.Navi.VirtualMemFile

namespace LevelDBLib.Navi

open KvDB Coding Crc32c Log

/-- `SequentialFile`, of `leveldb/env.h`. -/
class SequentialFile (File : Type) where
  Read : File → Nat → Status × Bytes × File
  Skip : File → Nat → Status × File

/-- A file whose reads succeed, and end with its bytes. -/
class ReadableFile (File : Type) extends SequentialFile File where
  unread : File → Bytes
  read_ok : ∀ file n, (Read file n).1 = .OK
  read_bytes : ∀ file n, (Read file n).2.1 = (unread file).take n
  read_unread : ∀ file n, unread (Read file n).2.2 = (unread file).drop n

instance : ReadableFile Bytes where
  Read file n := (.OK, file.take n, file.drop n)
  Skip file n := (.OK, file.drop n)
  unread file := file
  read_ok _ _ := rfl
  read_bytes _ _ := rfl
  read_unread _ _ := rfl

namespace Log

/-- Two numbers beyond the types of records. -/
def kEof : Nat := kMaxRecordType + 1

def kBadRecord : Nat := kMaxRecordType + 2

structure Reader (File : Type) where
  file_ : File
  /-- What the reporter was told, if there is one. -/
  reporter_ : Option (List (Nat × Status))
  checksum_ : Bool
  buffer_ : Bytes
  eof_ : Bool
  last_record_offset_ : Nat
  end_of_buffer_offset_ : Nat
  initial_offset_ : Nat
  resyncing_ : Bool

namespace Reader

variable {File : Type}

def new (file : File) (reporter checksum : Bool) (initial_offset : BitVec 64) : Reader File :=
  ⟨file, if reporter then some [] else none, checksum, [], false, 0, 0, initial_offset.toNat,
    decide (0 < initial_offset.toNat)⟩

def ReportDrop (reader : Reader File) (bytes : Nat) (reason : Status) : Reader File :=
  match reader.reporter_ with
  | some told =>
    if reader.initial_offset_ ≤
        size_t (reader.end_of_buffer_offset_ - reader.buffer_.length - bytes) then
      { reader with reporter_ := some (told ++ [(bytes, reason)]) }
    else reader
  | none => reader

def ReportCorruption (reader : Reader File) (bytes : Nat) (reason : Bytes) : Reader File :=
  reader.ReportDrop bytes (.Corruption reason [])

/-- `ReadPhysicalRecord` behind its loop, where the buffer has a header: the type, and the fragment
if it is set. -/
def parse (reader : Reader File) : Nat × Option Bytes × Reader File :=
  let header := reader.buffer_
  let type := typeOf header
  let length := lengthOf header
  if kHeaderSize + length > reader.buffer_.length then
    let drop_size := reader.buffer_.length
    let reader := { reader with buffer_ := [] }
    if ¬ reader.eof_ then
      (kBadRecord, none, reader.ReportCorruption drop_size (text "bad record length"))
    else (kEof, none, reader)
  else if type = RecordType.kZeroType.number ∧ length = 0 then
    (kBadRecord, none, { reader with buffer_ := [] })
  else if reader.checksum_ = true ∧
      Crc32c.Value ((header.drop 6).take (1 + length)) ≠ Unmask (DecodeFixed32 header) then
    let drop_size := reader.buffer_.length
    let reader := { reader with buffer_ := [] }
    (kBadRecord, none, reader.ReportCorruption drop_size (text "checksum mismatch"))
  else
    let reader := { reader with buffer_ := reader.buffer_.drop (kHeaderSize + length) }
    if size_t (reader.end_of_buffer_offset_ - reader.buffer_.length - kHeaderSize - length) <
        reader.initial_offset_ then
      (kBadRecord, some [], reader)
    else (type, some ((header.drop kHeaderSize).take length), reader)

/-- The reader behind a read of the file, which is the last one if it does not fill the block. -/
def filled (reader : Reader File) (buffer_ : Bytes) (file_ : File) : Reader File :=
  { reader with
    file_ := file_
    buffer_ := buffer_
    eof_ := decide (buffer_.length < kBlockSize)
    end_of_buffer_offset_ := size_t (reader.end_of_buffer_offset_ + buffer_.length) }

variable [SequentialFile File]

/-- `ReadPhysicalRecord`: its loop ends behind one read at the latest, since a read that does not
fill the block is the last one. -/
def ReadPhysicalRecord (reader : Reader File) : Nat × Option Bytes × Reader File :=
  if reader.buffer_.length < kHeaderSize then
    if reader.eof_ then (kEof, none, { reader with buffer_ := [] })
    else
      let (status, buffer_, file_) := SequentialFile.Read reader.file_ kBlockSize
      let reader := reader.filled buffer_ file_
      if ¬ status.ok then
        let reader := { reader with buffer_ := [] }.ReportDrop kBlockSize status
        (kEof, none, { reader with eof_ := true })
      else if reader.buffer_.length < kHeaderSize then (kEof, none, { reader with buffer_ := [] })
      else reader.parse
  else reader.parse

/-- `SkipToInitialBlock`. -/
def SkipToInitialBlock (reader : Reader File) : Bool × Reader File :=
  let offset_in_block := reader.initial_offset_ % kBlockSize
  let block_start_location := reader.initial_offset_ - offset_in_block
  let block_start_location :=
    if offset_in_block > kBlockSize - 6 then size_t (block_start_location + kBlockSize)
    else block_start_location
  let reader := { reader with end_of_buffer_offset_ := block_start_location }
  if 0 < block_start_location then
    let (skip_status, file_) := SequentialFile.Skip reader.file_ block_start_location
    let reader := { reader with file_ := file_ }
    if ¬ skip_status.ok then (false, reader.ReportDrop block_start_location skip_status)
    else (true, reader)
  else (true, reader)

/-- The report of the beginning of a record that another one follows, unless it is empty. -/
def interrupt (reader : Reader File) (in_fragmented_record : Bool) (scratch : Bytes)
    (reason : String) : Reader File :=
  if in_fragmented_record ∧ ¬ scratch.isEmpty then
    reader.ReportCorruption scratch.length (text reason)
  else reader

/-- What a turn of the loop of `ReadRecord` comes to. -/
inductive Turn (File : Type) where
  | returns (record : Option Bytes) (reader : Reader File)
  | continues (in_fragmented_record : Bool) (scratch : Bytes) (prospective_record_offset : Nat)
      (reader : Reader File)

/-- The `switch` in the loop of `ReadRecord`. -/
def switch (record_type physical_record_offset : Nat) (fragment : Bytes)
    (in_fragmented_record : Bool) (scratch : Bytes) (prospective_record_offset : Nat)
    (reader : Reader File) : Turn File :=
  match record_type with
  -- kFullType
  | 1 =>
    let reader := reader.interrupt in_fragmented_record scratch "partial record without end(1)"
    .returns (some fragment) { reader with last_record_offset_ := physical_record_offset }
  -- kFirstType
  | 2 =>
    .continues true fragment physical_record_offset
      (reader.interrupt in_fragmented_record scratch "partial record without end(2)")
  -- kMiddleType
  | 3 =>
    if ¬ in_fragmented_record then
      .continues in_fragmented_record scratch prospective_record_offset
        (reader.ReportCorruption fragment.length (text "missing start of fragmented record(1)"))
    else .continues in_fragmented_record (scratch ++ fragment) prospective_record_offset reader
  -- kLastType
  | 4 =>
    if ¬ in_fragmented_record then
      .continues in_fragmented_record scratch prospective_record_offset
        (reader.ReportCorruption fragment.length (text "missing start of fragmented record(2)"))
    else
      .returns (some (scratch ++ fragment))
        { reader with last_record_offset_ := prospective_record_offset }
  -- kEof
  | 5 => .returns none reader
  -- kBadRecord
  | 6 =>
    if in_fragmented_record then
      .continues false [] prospective_record_offset
        (reader.ReportCorruption scratch.length (text "error in middle of record"))
    else .continues in_fragmented_record scratch prospective_record_offset reader
  | other =>
    .continues false [] prospective_record_offset
      (reader.ReportCorruption (fragment.length + if in_fragmented_record then scratch.length else 0)
        (text s!"unknown record type {other}"))

/-- The loop of `ReadRecord`, in which the fragment keeps its last value. -/
def readRecord : Nat → Bool → Bytes → Nat → Bytes → Reader File →
    Except Fault (Option Bytes × Reader File)
  | 0, _, _, _, _, _ => .error .nonTermination
  | turns + 1, in_fragmented_record, scratch, prospective_record_offset, fragment, reader =>
    let (record_type, result, reader) := reader.ReadPhysicalRecord
    let fragment := result.getD fragment
    let physical_record_offset := size_t
      (reader.end_of_buffer_offset_ - reader.buffer_.length - kHeaderSize - fragment.length)
    if reader.resyncing_ ∧ record_type = RecordType.kMiddleType.number then
      readRecord turns in_fragmented_record scratch prospective_record_offset fragment reader
    else if reader.resyncing_ ∧ record_type = RecordType.kLastType.number then
      readRecord turns in_fragmented_record scratch prospective_record_offset fragment
        { reader with resyncing_ := false }
    else
      match switch record_type physical_record_offset fragment in_fragmented_record scratch
        prospective_record_offset { reader with resyncing_ := false } with
      | .returns record reader => .ok (record, reader)
      | .continues in_fragmented_record scratch prospective_record_offset reader =>
        readRecord turns in_fragmented_record scratch prospective_record_offset fragment reader

/-- `ReadRecord`, whose loop makes so many turns at most: the record, if there is one. -/
def ReadRecord (turns : Nat) (reader : Reader File) : Except Fault (Option Bytes × Reader File) :=
  if reader.last_record_offset_ < reader.initial_offset_ then
    let (skipped, reader) := reader.SkipToInitialBlock
    if ¬ skipped then .ok (none, reader) else readRecord turns false [] 0 [] reader
  else readRecord turns false [] 0 [] reader

/-- `ReadRecord` until it returns false. -/
def readAll (turns : Nat) : Nat → Reader File → Except Fault (List Bytes × Reader File)
  | 0, _ => .error .nonTermination
  | rounds + 1, reader => do
    let (record, reader) ← reader.ReadRecord turns
    match record with
    | none => .ok ([], reader)
    | some record =>
      let (records, reader) ← readAll turns rounds reader
      .ok (record :: records, reader)

/-! ### What is read -/

end Reader

/-- The records of outcomes. -/
def recordsOf (outcomes : List Outcome) : List Bytes :=
  outcomes.filterMap fun outcome => match outcome with
    | .record record => some record
    | .drop _ _ => none

/-- What a reporter is told of outcomes. -/
def dropsOf (outcomes : List Outcome) : List (Nat × Status) :=
  outcomes.filterMap fun outcome => match outcome with
    | .record _ => none
    | .drop bytes reason => some (bytes, .Corruption reason [])

theorem recordsOf_append (front back : List Outcome) :
    recordsOf (front ++ back) = recordsOf front ++ recordsOf back := List.filterMap_append ..

theorem dropsOf_append (front back : List Outcome) :
    dropsOf (front ++ back) = dropsOf front ++ dropsOf back := List.filterMap_append ..

theorem recordsOf_map (records : List Bytes) : recordsOf (records.map .record) = records := by
  rw [recordsOf, List.filterMap_map]
  exact List.filterMap_some

theorem dropsOf_map (records : List Bytes) : dropsOf (records.map .record) = [] := by
  rw [dropsOf, List.filterMap_map]
  exact List.filterMap_eq_nil_iff.mpr fun _ _ => rfl

/-- A log has less events than bytes. -/
theorem length_block (checksum last : Bool) (buffer : Bytes) :
    (block checksum last buffer).length ≤ buffer.length := by
  induction buffer using block.induct checksum with
  | case1 buffer short => rw [block, if_pos short]; exact Nat.zero_le _
  | case2 buffer header short =>
    rw [block, if_neg header, if_pos short, List.length_singleton]
    omega
  | case3 buffer header long zero =>
    rw [block, if_neg header, if_neg long, if_pos zero, List.length_singleton]
    omega
  | case4 buffer header long number differs =>
    rw [block, if_neg header, if_neg long, if_neg number, if_pos differs, List.length_singleton]
    omega
  | case5 buffer header long number same hypothesis =>
    rw [block, if_neg header, if_neg long, if_neg number, if_neg same, List.length_cons]
    rw [List.length_drop] at hypothesis
    omega

theorem length_events (checksum : Bool) (log : Bytes) : (events checksum log).length ≤ log.length := by
  induction log using events.induct with
  | case1 log last =>
    rw [events, if_pos last]
    exact length_block ..
  | case2 log more hypothesis =>
    have first := length_block checksum false (log.take 32768)
    rw [events, if_neg more, List.length_append]
    rw [List.length_take] at first
    rw [List.length_drop] at hypothesis
    omega

namespace Reader

variable {File : Type} [ReadableFile File]

/-- A reader in front of events, which has told its reporter of drops. -/
structure Before (reader : Reader File) (checksum : Bool) (events : List Event)
    (told : List (Nat × Status)) : Prop where
  events : events = block checksum reader.eof_ reader.buffer_ ++
    if reader.eof_ then [] else Log.events checksum (ReadableFile.unread reader.file_)
  told : reader.reporter_ = some told
  checksum : reader.checksum_ = checksum
  initial : reader.initial_offset_ = 0
  resyncing : reader.resyncing_ = false

/-- What comes back for the first of the events. -/
def Gives (checksum : Bool) (told : List (Nat × Status)) (read : Nat × Option Bytes × Reader File) :
    List Event → Prop
  | [] | .cut :: _ => ∃ after, read = (kEof, none, after) ∧ after.reporter_ = some told ∧
      after.resyncing_ = false
  | .bad drop :: rest => ∃ after, read = (kBadRecord, none, after) ∧
      after.Before checksum rest
        (told ++ drop.toList.map fun drop => (drop.1, .Corruption drop.2 []))
  | .fragment type payload :: rest => ∃ after, read = (type, some payload, after) ∧
      after.Before checksum rest told

/-- A report is one more drop. -/
theorem Before.report {reader : Reader File} {checksum : Bool} {events : List Event}
    {told : List (Nat × Status)} (before : reader.Before checksum events told) (bytes : Nat)
    (reason : Bytes) : (reader.ReportCorruption bytes reason).Before checksum events
      (told ++ [(bytes, .Corruption reason [])]) := by
  have reported : reader.ReportCorruption bytes reason =
      { reader with reporter_ := some (told ++ [(bytes, .Corruption reason [])]) } := by
    rw [ReportCorruption, ReportDrop, before.told]
    simp only [before.initial, Nat.zero_le, if_true]
  rw [reported]
  exact ⟨before.events, rfl, before.checksum, before.initial, before.resyncing⟩

theorem block_short (checksum last : Bool) (buffer : Bytes) (short : buffer.length < 7) :
    block checksum last buffer = [] := by
  rw [block, if_pos short]

/-- A reader that drops its buffer goes on with the next block. -/
theorem Before.cleared {reader : Reader File} {checksum : Bool} {events : List Event}
    {told : List (Nat × Status)} (before : reader.Before checksum events told) :
    { reader with buffer_ := [] : Reader File }.Before checksum
      (if reader.eof_ then [] else Log.events checksum (ReadableFile.unread reader.file_)) told :=
  ⟨by rw [block_short _ _ [] (by decide)]; rfl, before.told, before.checksum, before.initial,
    before.resyncing⟩

theorem Before.parse {reader : Reader File} {checksum : Bool} {events : List Event}
    {told : List (Nat × Status)} (before : reader.Before checksum events told)
    (header : 7 ≤ reader.buffer_.length) : Gives checksum told reader.parse events := by
  obtain rfl := before.checksum
  have eventsEq := before.events
  rw [block, if_neg (by omega)] at eventsEq
  unfold Reader.parse
  simp only [kHeaderSize, Nat.reduceAdd]
  by_cases short : reader.buffer_.length < 7 + lengthOf reader.buffer_
  · rw [if_pos short] at eventsEq
    rw [if_pos short, eventsEq]
    by_cases eof : reader.eof_ = true
    · rw [if_pos eof, if_neg (not_not_intro eof)]
      exact ⟨_, rfl, before.told, before.resyncing⟩
    · rw [if_neg eof, if_pos eof]
      exact ⟨_, rfl, before.cleared.report _ _⟩
  rw [if_neg short] at eventsEq ⊢
  by_cases zero : typeOf reader.buffer_ = 0 ∧ lengthOf reader.buffer_ = 0
  · rw [if_pos zero] at eventsEq
    rw [eventsEq, show RecordType.kZeroType.number = 0 by rfl, if_pos zero]
    exact ⟨_, rfl, by rw [Option.toList_none, List.map_nil, List.append_nil]; exact before.cleared⟩
  rw [if_neg zero] at eventsEq
  rw [show RecordType.kZeroType.number = 0 by rfl, if_neg zero]
  by_cases differs : reader.checksum_ = true ∧
      Crc32c.Value ((reader.buffer_.drop 6).take (1 + lengthOf reader.buffer_)) ≠
        Unmask (DecodeFixed32 reader.buffer_)
  · rw [if_pos differs] at eventsEq
    rw [if_pos differs, eventsEq]
    exact ⟨_, rfl, before.cleared.report _ _⟩
  · rw [if_neg differs] at eventsEq
    rw [if_neg differs, if_neg (by rw [before.initial]; exact Nat.not_lt_zero _), eventsEq]
    exact ⟨_, rfl, rfl, before.told, rfl, before.initial, before.resyncing⟩

/-- A reader that fills its buffer from the file stays in front of the same events. -/
theorem Before.filled {reader : Reader File} {checksum : Bool} {events : List Event}
    {told : List (Nat × Status)} (before : reader.Before checksum events told)
    (short : reader.buffer_.length < 7) (more : ¬ reader.eof_ = true) {file_ : File}
    (unread : ReadableFile.unread file_ = (ReadableFile.unread reader.file_).drop kBlockSize) :
    (reader.filled ((ReadableFile.unread reader.file_).take kBlockSize) file_).Before checksum events
      told := by
  refine ⟨?_, before.told, before.checksum, before.initial, before.resyncing⟩
  rw [before.events, block_short _ _ _ short, if_neg more, Log.events, List.nil_append]
  simp only [Reader.filled, kBlockSize, unread, List.length_take]
  by_cases last : (ReadableFile.unread reader.file_).length < 32768
  · rw [if_pos last, decide_eq_true (by omega), List.take_of_length_le (Nat.le_of_lt last)]
    exact (List.append_nil _).symm
  · rw [if_neg last, decide_eq_false (by omega)]
    rfl

/-- `ReadPhysicalRecord` gives the first event. -/
theorem Before.physical {reader : Reader File} {checksum : Bool} {events : List Event}
    {told : List (Nat × Status)} (before : reader.Before checksum events told) :
    Gives checksum told reader.ReadPhysicalRecord events := by
  rw [ReadPhysicalRecord]
  simp only [kHeaderSize, Nat.reduceAdd]
  by_cases header : reader.buffer_.length < 7
  · rw [if_pos header]
    by_cases eof : reader.eof_ = true
    · have eventsEq := before.events
      rw [block_short _ _ _ header, List.nil_append, if_pos eof] at eventsEq
      rw [if_pos eof, eventsEq]
      exact ⟨_, rfl, before.told, before.resyncing⟩
    · have ok := ReadableFile.read_ok reader.file_ kBlockSize
      have bytes := ReadableFile.read_bytes reader.file_ kBlockSize
      have unread := ReadableFile.read_unread reader.file_ kBlockSize
      rw [if_neg eof]
      generalize SequentialFile.Read reader.file_ kBlockSize = read at ok bytes unread
      obtain ⟨status, buffer_, file_⟩ := read
      simp only at ok bytes unread ⊢
      subst ok bytes
      rw [if_neg (fun fails => fails rfl)]
      have filled := before.filled header eof unread
      have last : (reader.filled ((ReadableFile.unread reader.file_).take kBlockSize)
          file_).buffer_.length < 7 → (reader.filled ((ReadableFile.unread reader.file_).take
          kBlockSize) file_).eof_ = true :=
        fun empty => decide_eq_true (Nat.lt_trans empty (by decide))
      generalize reader.filled ((ReadableFile.unread reader.file_).take kBlockSize) file_ = next
        at filled last ⊢
      by_cases empty : next.buffer_.length < 7
      · have eventsEq := filled.events
        rw [block_short _ _ _ empty, List.nil_append, if_pos (last empty)] at eventsEq
        rw [if_pos empty, eventsEq]
        exact ⟨_, rfl, filled.told, filled.resyncing⟩
      · rw [if_neg empty]
        exact filled.parse (Nat.le_of_not_lt empty)
  · rw [if_neg header]
    exact before.parse (Nat.le_of_not_lt header)

/-- What one call of `ReadRecord` has read: a record behind some drops, or only drops. -/
def Returns (checksum : Bool) (begun : Option Bytes) (events : List Event)
    (told : List (Nat × Status)) (result : Except Fault (Option Bytes × Reader File)) : Prop :=
  (∃ record rest drops after, result = .ok (some record, after) ∧
    assemble begun events = drops ++ .record record :: assemble none rest ∧ recordsOf drops = [] ∧
    after.Before checksum rest (told ++ dropsOf drops) ∧ rest.length < events.length) ∨
  ∃ drops after, result = .ok (none, after) ∧ assemble begun events = drops ∧
    recordsOf drops = [] ∧ after.reporter_ = some (told ++ dropsOf drops)

/-- A drop in front of what the rest of the call has read. -/
theorem Returns.drop {checksum : Bool} {begun later : Option Bytes} {events rest : List Event}
    {told : List (Nat × Status)} {drops : List Outcome}
    {result : Except Fault (Option Bytes × Reader File)} (none : recordsOf drops = [])
    (assembled : assemble begun events = drops ++ assemble later rest)
    (shorter : rest.length < events.length)
    (returns : Returns checksum later rest (told ++ dropsOf drops) result) :
    Returns checksum begun events told result := by
  have records : ∀ more, recordsOf (drops ++ more) = recordsOf more := fun more => by
    rw [recordsOf_append, none, List.nil_append]
  rcases returns with ⟨record, behind, more, after, ok, split, noRecord, before, shorter'⟩ |
    ⟨more, after, ok, split, noRecord, tells⟩
  · refine .inl ⟨record, behind, drops ++ more, after, ok, ?_, (records more).trans noRecord, ?_,
      Nat.lt_trans shorter' shorter⟩
    · rw [assembled, split, List.append_assoc]
    · rw [dropsOf_append, ← List.append_assoc]
      exact before
  · refine .inr ⟨drops ++ more, after, ok, ?_, (records more).trans noRecord, ?_⟩
    · rw [assembled, split]
    · rw [dropsOf_append, ← List.append_assoc]
      exact tells

theorem readRecord_succ {reader after : Reader File} {type : Nat} {result : Option Bytes}
    (readEq : reader.ReadPhysicalRecord = (type, result, after)) (resyncing : after.resyncing_ = false)
    (turns : Nat) (in_fragmented_record : Bool) (scratch : Bytes) (offset : Nat) (fragment : Bytes) :
    readRecord (turns + 1) in_fragmented_record scratch offset fragment reader =
      match switch type (size_t (after.end_of_buffer_offset_ - after.buffer_.length - kHeaderSize -
        (result.getD fragment).length)) (result.getD fragment) in_fragmented_record scratch offset
        after with
      | .returns record reader => .ok (record, reader)
      | .continues in_fragmented_record scratch offset reader =>
        readRecord turns in_fragmented_record scratch offset (result.getD fragment) reader := by
  have same : { after with resyncing_ := false } = after := by rw [← resyncing]
  rw [readRecord, readEq]
  simp only [same]
  rw [resyncing, if_neg (fun both => Bool.false_ne_true both.1),
    if_neg (fun both => Bool.false_ne_true both.1)]

theorem recordsOf_lost (begun : Option Bytes) (reason : String) :
    recordsOf (lost begun reason) = [] := by
  cases begun <;> rfl

/-- The report of the beginning of a record that another one follows. -/
theorem Before.interrupt {reader : Reader File} {checksum : Bool} {events : List Event}
    {told : List (Nat × Status)} (before : reader.Before checksum events told)
    (begun : Option Bytes) (reason : String) :
    (reader.interrupt begun.isSome (begun.getD []) reason).Before checksum events
      (told ++ dropsOf (interrupted begun reason)) := by
  rw [Reader.interrupt]
  cases begun with
  | none =>
    rw [if_neg fun begins => Bool.false_ne_true begins.1]
    exact (List.append_nil told).symm ▸ before
  | some scratch =>
    cases scratch with
    | nil =>
      rw [if_neg fun begins => begins.2 rfl]
      exact (List.append_nil told).symm ▸ before
    | cons => exact before.report _ _

/-- What a turn of the loop makes of the events behind the beginning of a record. -/
def Does (checksum : Bool) (begun : Option Bytes) (events rest : List Event)
    (told : List (Nat × Status)) : Turn File → Prop
  | .returns (some record) after => ∃ drops,
    assemble begun events = drops ++ .record record :: assemble none rest ∧ recordsOf drops = [] ∧
      after.Before checksum rest (told ++ dropsOf drops)
  | .returns none after => assemble begun events = [] ∧ after.reporter_ = some told
  | .continues in_fragmented_record scratch _ after => ∃ later drops,
    in_fragmented_record = later.isSome ∧ scratch = later.getD [] ∧
      assemble begun events = drops ++ assemble later rest ∧ recordsOf drops = [] ∧
      after.Before checksum rest (told ++ dropsOf drops)

/-- A turn for a fragment. -/
theorem Before.fragment {reader : Reader File} {checksum : Bool} {rest : List Event}
    {told : List (Nat × Status)} (before : reader.Before checksum rest told) (type : Nat)
    (payload : Bytes) (begun : Option Bytes) (physical prospective : Nat) :
    Does checksum begun (.fragment type payload :: rest) rest told
      (switch type physical payload begun.isSome (begun.getD []) prospective reader) := by
  have quiet : reader.Before checksum rest (told ++ dropsOf []) :=
    (List.append_nil told).symm ▸ before
  unfold switch
  split
  · have after := before.interrupt begun "partial record without end(1)"
    exact ⟨_, rfl, recordsOf_lost _ _, after.events, after.told, after.checksum, after.initial,
      after.resyncing⟩
  · exact ⟨some payload, _, rfl, rfl, rfl, recordsOf_lost _ _, before.interrupt _ _⟩
  · cases begun with
    | none => exact ⟨none, _, rfl, rfl, (List.singleton_append ..).symm, rfl, before.report _ _⟩
    | some scratch => exact ⟨some (scratch ++ payload), [], rfl, rfl, rfl, rfl, quiet⟩
  · cases begun with
    | none => exact ⟨none, _, rfl, rfl, (List.singleton_append ..).symm, rfl, before.report _ _⟩
    | some scratch =>
      exact ⟨[], rfl, rfl, quiet.events, quiet.told, quiet.checksum, quiet.initial, quiet.resyncing⟩
  · exact ⟨rfl, before.told⟩
  · cases begun with
    | none => exact ⟨none, [], rfl, rfl, rfl, rfl, quiet⟩
    | some scratch =>
      exact ⟨none, _, rfl, rfl, rfl, recordsOf_lost (some scratch) _, before.report _ _⟩
  · next not_full not_first not_middle not_last not_eof not_bad =>
    have unknown : assemble begun (.fragment type payload :: rest) =
        .drop (payload.length + (begun.getD []).length) (text s!"unknown record type {type}") ::
          assemble none rest := by
      rw [assemble] <;> assumption
    have size : (if begun.isSome = true then (begun.getD []).length else 0) =
        (begun.getD []).length := by
      cases begun <;> rfl
    rw [size]
    exact ⟨none, _, rfl, rfl, unknown.trans (List.singleton_append ..).symm, rfl,
      before.report _ _⟩

/-- A turn for bytes that cannot be read. -/
theorem Before.bad {reader : Reader File} {checksum : Bool} {rest : List Event}
    {told : List (Nat × Status)} {drop : Option (Nat × Bytes)}
    (before : reader.Before checksum rest
      (told ++ drop.toList.map fun drop => (drop.1, .Corruption drop.2 [])))
    (physical : Nat) (fragment : Bytes) (begun : Option Bytes) (prospective : Nat) :
    Does checksum begun (.bad drop :: rest) rest told
      (switch kBadRecord physical fragment begun.isSome (begun.getD []) prospective reader) := by
  have drops : ∀ more, dropsOf (drop.toList.map (fun drop => .drop drop.1 drop.2) ++ more) =
      (drop.toList.map fun drop => (drop.1, .Corruption drop.2 [])) ++ dropsOf more := by
    cases drop <;> exact fun _ => rfl
  have none' : ∀ more, recordsOf (drop.toList.map (fun drop => .drop drop.1 drop.2) ++ more) =
      recordsOf more := by
    cases drop <;> exact fun _ => rfl
  cases begun with
  | none =>
    refine ⟨none, drop.toList.map (fun drop => .drop drop.1 drop.2) ++ [], rfl, rfl, rfl,
      none' [], ?_⟩
    rw [drops, ← List.append_assoc]
    exact (List.append_nil _).symm ▸ before
  | some scratch =>
    refine ⟨none, _, rfl, rfl, rfl, (none' _).trans (recordsOf_lost (some scratch) _), ?_⟩
    rw [drops, ← List.append_assoc]
    exact before.report _ _

/-- A turn that goes on leads to what the rest of the loop makes of the rest of the events. -/
theorem Does.returns {checksum : Bool} {begun : Option Bytes} {event : Event} {rest : List Event}
    {told : List (Nat × Status)} {turn : Turn File}
    (further : Bool → Bytes → Nat → Reader File → Except Fault (Option Bytes × Reader File))
    (does : Does checksum begun (event :: rest) rest told turn) :
    (∀ later told offset after, after.Before checksum rest told →
      Returns checksum later rest told (further later.isSome (later.getD []) offset after)) →
    Returns checksum begun (event :: rest) told
      (match turn with
      | .returns record reader => .ok (record, reader)
      | .continues in_fragmented_record scratch offset reader =>
        further in_fragmented_record scratch offset reader) := by
  intro goes
  cases turn with
  | returns record after =>
    cases record with
    | none =>
      obtain ⟨assembled, tells⟩ := does
      exact .inr ⟨[], after, rfl, assembled, rfl, (List.append_nil _).symm ▸ tells⟩
    | some record =>
      obtain ⟨drops, assembled, noRecord, before⟩ := does
      exact .inl ⟨record, rest, drops, after, rfl, assembled, noRecord, before,
        Nat.lt_succ_self _⟩
  | continues in_fragmented_record scratch offset after =>
    obtain ⟨later, drops, rfl, rfl, assembled, noRecord, before⟩ := does
    exact (goes later _ offset after before).drop noRecord assembled (Nat.lt_succ_self _)

/-- The loop of `ReadRecord` reads the next record that the events make up. -/
theorem readRecord_returns (checksum : Bool) (events : List Event) (begun : Option Bytes)
    (told : List (Nat × Status)) (turns offset : Nat) (fragment : Bytes) (reader : Reader File)
    (before : reader.Before checksum events told) (enough : events.length < turns) :
    Returns checksum begun events told
      (readRecord turns begun.isSome (begun.getD []) offset fragment reader) := by
  induction events generalizing begun told turns offset fragment reader with
  | nil =>
    obtain ⟨turns, rfl⟩ := Nat.exists_eq_succ_of_ne_zero (Nat.ne_zero_of_lt enough)
    obtain ⟨after, readEq, tells, resyncing⟩ := before.physical
    rw [readRecord_succ readEq resyncing]
    exact .inr ⟨[], after, rfl, rfl, rfl, (List.append_nil told).symm ▸ tells⟩
  | cons event rest hypothesis =>
    obtain ⟨turns, rfl⟩ := Nat.exists_eq_succ_of_ne_zero (Nat.ne_zero_of_lt enough)
    have goes : ∀ fragment later told offset (after : Reader File),
        after.Before checksum rest told → Returns checksum later rest told
          (readRecord turns later.isSome (later.getD []) offset fragment after) :=
      fun fragment later told offset after before =>
        hypothesis later told turns offset fragment after before (Nat.lt_of_succ_lt_succ enough)
    have first := before.physical
    cases event with
    | cut =>
      obtain ⟨after, readEq, tells, resyncing⟩ := first
      rw [readRecord_succ readEq resyncing]
      exact .inr ⟨[], after, rfl, rfl, rfl, (List.append_nil told).symm ▸ tells⟩
    | bad drop =>
      obtain ⟨after, readEq, now⟩ := first
      rw [readRecord_succ readEq now.resyncing]
      exact (now.bad _ _ begun offset).returns (fun begins scratch offset => readRecord turns begins
        scratch offset _) (goes _)
    | fragment type payload =>
      obtain ⟨after, readEq, now⟩ := first
      rw [readRecord_succ readEq now.resyncing]
      exact (now.fragment type payload begun _ offset).returns (fun begins scratch offset =>
        readRecord turns begins scratch offset _) (goes _)

/-- All records that the events make up are read, and all drops reported. -/
theorem readAll_returns (checksum : Bool) (turns rounds : Nat) (events : List Event)
    (told : List (Nat × Status)) (reader : Reader File)
    (before : reader.Before checksum events told) (enough : events.length < turns)
    (all : events.length < rounds) :
    ∃ after, reader.readAll turns rounds = .ok (recordsOf (assemble none events), after) ∧
      after.reporter_ = some (told ++ dropsOf (assemble none events)) := by
  induction rounds generalizing events told reader with
  | zero => exact absurd all (Nat.not_lt_zero _)
  | succ rounds hypothesis =>
    have call : reader.ReadRecord turns =
        readRecord turns (none : Option Bytes).isSome ((none : Option Bytes).getD []) 0 [] reader := by
      rw [ReadRecord, if_neg (by rw [before.initial]; exact Nat.not_lt_zero _)]
      rfl
    rw [readAll, call]
    rcases readRecord_returns checksum events none told turns 0 [] reader before enough with
      ⟨record, rest, drops, next, readEq, assembled, noRecord, now, shorter⟩ |
      ⟨drops, after, readEq, assembled, noRecord, tells⟩
    · obtain ⟨after, restEq, tells⟩ := hypothesis rest _ next now (Nat.lt_trans shorter enough)
        (Nat.lt_of_lt_of_le shorter (Nat.le_of_lt_succ all))
      refine ⟨after, ?_, ?_⟩
      · rw [readEq, assembled, recordsOf_append, noRecord]
        show (readAll turns rounds next >>= _) = _
        rw [restEq]
        rfl
      · rw [assembled, dropsOf_append, ← List.append_assoc]
        exact tells
    · refine ⟨after, ?_, ?_⟩
      · rw [readEq, assembled, noRecord]
        rfl
      · rw [assembled]
        exact tells

/-- A reader of any file gives the records of its events, and reports their drops. -/
theorem readAll_outcomes (file : File) (checksum : Bool) (turns : Nat)
    (enough : (ReadableFile.unread file).length < turns) :
    ∃ after, (new file true checksum 0).readAll turns turns =
        .ok (recordsOf (outcomes checksum (ReadableFile.unread file)), after) ∧
      after.reporter_ = some (dropsOf (outcomes checksum (ReadableFile.unread file))) := by
  have before : (new file true checksum 0).Before checksum
      (events checksum (ReadableFile.unread file)) [] :=
    ⟨by rw [new, block_short _ _ [] (by decide)]; rfl, rfl, rfl, rfl, rfl⟩
  have all := Nat.lt_of_le_of_lt (length_events checksum (ReadableFile.unread file)) enough
  exact readAll_returns checksum turns turns _ [] _ before all all

/-- Two records around the end of a third one, and a fragment that was damaged. -/
def damaged : Bytes :=
  piece .kFullType [1, 2, 3] ++ (piece .kLastType [4, 5] ++
    (piece .kFullType [6] ++ (piece .kFullType [7, 8]).set 8 9))

theorem readAll_outcomes_once : ∃ after,
    (new damaged true true 0).readAll 64 64 = .ok ([[1, 2, 3], [6]], after) ∧
      after.reporter_ = some
        [(2, .Corruption (text "missing start of fragmented record(2)") []),
          (9, .Corruption (text "checksum mismatch") [])] := by
  have last : block true true ((piece .kFullType [7, 8]).set 8 9) =
      [.bad (some (9, text "checksum mismatch"))] := by
    rw [block]
    decide +kernel
  have small : damaged.length < 32768 := by decide +kernel
  have found : outcomes true damaged = [.record [1, 2, 3],
      .drop 2 (text "missing start of fragmented record(2)"), .record [6],
      .drop 9 (text "checksum mismatch")] := by
    rw [outcomes, events, if_pos small, damaged, block_piece _ _ _ _ _ (by decide) (by decide),
      block_piece _ _ _ _ _ (by decide) (by decide), block_piece _ _ _ _ _ (by decide) (by decide),
      last]
    rfl
  have read := readAll_outcomes damaged true 64 (by decide +kernel)
  rwa [show ReadableFile.unread damaged = damaged from rfl, found] at read

/-- A log that is cut anywhere is read up to the last record that lies in it as a whole, and no
drop is reported. -/
theorem readAll_cut {Dest : Type} [AcceptingFile Dest] (dest : Dest)
    (empty : AcceptingFile.contents dest = []) (records : List Bytes) :
    ∃ whole, (Writer.new dest).AddRecords records = .ok (.OK, whole) ∧
      ∀ (count : Nat) (file : File) (checksum : Bool),
        ReadableFile.unread file = (AcceptingFile.contents whole.dest_).take count →
        ∃ front back behind read, records = front ++ back ∧
          (new file true checksum 0).readAll (count + 1) (count + 1) = .ok (front, read) ∧
          read.reporter_ = some [] ∧
          (Writer.new dest).AddRecords front = .ok (.OK, behind) ∧
          (AcceptingFile.contents behind.dest_).length ≤ count ∧
          ∀ next rest, back = next :: rest → ∃ after, behind.AddRecord next = .ok (.OK, after) ∧
            count < (AcceptingFile.contents after.dest_).length := by
  have new := Writer.behind_new dest empty
  obtain ⟨whole, wholeEq, all⟩ := Writer.AddRecords_ok new records
  refine ⟨whole, wholeEq, fun count file checksum cut => ?_⟩
  obtain ⟨front, back, split, inside, next⟩ := exists_front [] records count (Nat.zero_le _)
  obtain ⟨behind, frontEq, now⟩ := Writer.AddRecords_ok new front
  have short : (ReadableFile.unread file).length < count + 1 := by
    rw [cut, List.length_take]
    omega
  obtain ⟨read, readEq, tells⟩ := readAll_outcomes file checksum (count + 1) short
  have found : outcomes checksum (ReadableFile.unread file) = front.map .record := by
    have front' := outcomes_front checksum front back count inside next
    rw [← split] at front'
    rw [cut, all.contents]
    exact front'
  rw [found, recordsOf_map] at readEq
  rw [found, dropsOf_map] at tells
  refine ⟨front, back, behind, read, split, readEq, tells, frontEq, now.contents.symm ▸ inside,
    fun record rest backEq => ?_⟩
  obtain ⟨after, addEq, then'⟩ := Writer.AddRecord_ok now record
  refine ⟨after, addEq, ?_⟩
  rw [then'.contents]
  exact Nat.lt_of_lt_of_eq (next record rest backEq) (congrArg _ (logOf_concat front record))

theorem readAll_cut_once : ∃ whole : Writer Bytes,
    (Writer.new []).AddRecords [text "first", [], text "third"] = .ok (.OK, whole) ∧
      ∀ (count : Nat) (file : Bytes) (checksum : Bool), file = whole.dest_.take count →
        ∃ front back behind read, [text "first", [], text "third"] = front ++ back ∧
          (new file true checksum 0).readAll (count + 1) (count + 1) = .ok (front, read) ∧
          read.reporter_ = some [] ∧
          (Writer.new ([] : Bytes)).AddRecords front = .ok (.OK, behind) ∧
          behind.dest_.length ≤ count ∧
          ∀ next rest, back = next :: rest → ∃ after, behind.AddRecord next = .ok (.OK, after) ∧
            count < after.dest_.length :=
  readAll_cut ([] : Bytes) rfl [text "first", [], text "third"]

end Reader

end Log

end LevelDBLib.Navi
