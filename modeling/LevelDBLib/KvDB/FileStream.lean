/-
This file models `SMDFileStream`, the `SMDStream` over a C stream, and compares it with
`SMDMemStream` over the same bytes. The file stream measures its size when it is first
asked for and counts on from there. Two answers go wrong: a read that has to measure the
size leaves the file at its end, behind what it was to read, and a write to a file that
was not measured makes its own end the size. Under a condition that says which calls meet
neither, every run of calls has the same answers, positions and contents on both.
-/

import LevelDBLib.KvDB.Stdio
import LevelDBLib.KvDB.StreamBounds

namespace LevelDBLib.KvDB

open Buffers Runs

/-- `SMDFileStream`; a size of 0 was not measured, or is the size of an empty file. -/
structure SMDFileStream where
  file : FILE
  pos : Nat
  fileSize : Nat
deriving DecidableEq, Repr

namespace SMDFileStream

def new (file : FILE) : SMDFileStream := ⟨file, 0, 0⟩

def size (stream : SMDFileStream) : Nat × SMDFileStream :=
  if stream.fileSize = 0 then
    (uint stream.file.fseekEnd.ftell,
      { stream with file := stream.file.fseekEnd, fileSize := uint stream.file.fseekEnd.ftell })
  else (stream.fileSize, stream)

def setPosition (stream : SMDFileStream) (pos : Nat) : Bool × SMDFileStream :=
  if stream.size.1 < pos then (false, stream.size.2)
  else (true, { stream.size.2 with pos := pos })

/-- `seekTo`, which moves the file to the position of the stream. -/
def seekTo (stream : SMDFileStream) : Bool × SMDFileStream :=
  ((stream.file.fseek stream.pos).1, { stream with file := (stream.file.fseek stream.pos).2 })

/-- `read`, which asks for the size after the file was moved. -/
def read (stream : SMDFileStream) (sz : Nat) : Option Bytes × SMDFileStream :=
  if stream.size.1 < uint (stream.pos + sz) then (none, stream.size.2)
  else
    let (buffer, file) := stream.size.2.file.fread sz
    if buffer.length ≠ sz then (none, { stream.size.2 with file := file })
    else (some buffer, { stream.size.2 with file := file, pos := uint (stream.pos + sz) })

def write (stream : SMDFileStream) (buffer : Bytes) : SMDFileStream where
  file := stream.file.fwrite buffer
  pos := uint (stream.pos + buffer.length)
  fileSize := max stream.fileSize (uint (stream.pos + buffer.length))

def readBytes (stream : SMDFileStream) (sz : Nat) : Option Bytes × SMDFileStream :=
  if stream.seekTo.1 then stream.seekTo.2.read sz else (none, stream.seekTo.2)

def writeBytes (stream : SMDFileStream) (buffer : Bytes) : Bool × SMDFileStream :=
  if stream.seekTo.1 then (true, stream.seekTo.2.write buffer) else (false, stream.seekTo.2)

end SMDFileStream

namespace SMDStream

/-! ### One call on both streams -/

inductive Call where
  | setPosition (pos : BitVec 32)
  | size
  | readBytes (sz : BitVec 32)
  | writeBytes (buffer : Bytes)
deriving DecidableEq, Repr

inductive Reply where
  | done (success : Bool)
  | length (sz : Nat)
  | bytes (bytes : Option Bytes)
deriving DecidableEq, Repr

def onFile (stream : SMDFileStream) : Call → Reply × SMDFileStream
  | .setPosition pos => (.done (stream.setPosition pos.toNat).1, (stream.setPosition pos.toNat).2)
  | .size => (.length stream.size.1, stream.size.2)
  | .readBytes sz => (.bytes (stream.readBytes sz.toNat).1, (stream.readBytes sz.toNat).2)
  | .writeBytes buffer => (.done (stream.writeBytes buffer).1, (stream.writeBytes buffer).2)

def onMemory (stream : SMDMemStream) : Call → Except Fault (Reply × SMDMemStream)
  | .setPosition pos =>
    .ok (.done (stream.setPosition pos.toNat).1, (stream.setPosition pos.toNat).2)
  | .size => .ok (.length stream.size, stream)
  | .readBytes sz => do
    let (bytes, stream) ← stream.readBytes sz.toNat
    .ok (.bytes bytes, stream)
  | .writeBytes buffer => do
    let stream ← stream.writeBytes buffer
    .ok (.done true, stream)

/-- Two streams that take the same calls. -/
structure Twins where
  file : SMDFileStream
  memory : SMDMemStream
deriving DecidableEq, Repr

/-- Fresh streams over the same bytes, the file at any position. -/
def Twins.new (contents : Bytes) (position : Nat) : Twins :=
  ⟨.new ⟨contents, position⟩, ⟨contents, 0⟩⟩

def step (twins : Twins) (call : Call) : Except Fault ((Reply × Reply) × Twins) := do
  let (reply, memory) ← onMemory twins.memory call
  .ok (((onFile twins.file call).1, reply), ⟨(onFile twins.file call).2, memory⟩)

/-- The streams hold the same bytes and stand at the same position. -/
structure Twins.Level (twins : Twins) : Prop where
  contents : twins.file.file.contents = twins.memory.data
  pos : twins.file.pos = twins.memory.pos

/-- Both return the same, and stay level. -/
def Agrees (twins : Twins) (call : Call) : Prop :=
  ∃ reply after, step twins call = .ok ((reply, reply), after) ∧ after.Level

/-- The streams stay below 2^31 bytes. -/
def Below (twins : Twins) : Call → Prop
  | .writeBytes buffer => twins.memory.pos + buffer.length < 2147483648
  | _ => True

/-- The condition under which a call agrees: nothing depends on a size that a write has set below
the end of the file, a read does not have to measure the size of a file it reads from, and its
end is a 32-bit number. -/
def Answerable (twins : Twins) : Call → Prop
  | .setPosition pos => twins.file.fileSize = 0 ∨ pos.toNat ≤ twins.file.fileSize ∨
      twins.file.file.contents.length < pos.toNat
  | .size => twins.file.fileSize = 0 ∨ twins.file.fileSize = twins.file.file.contents.length
  | .readBytes sz => twins.file.pos + sz.toNat < 4294967296 ∧
      (twins.file.pos + sz.toNat ≤ twins.file.fileSize ∨
        twins.file.file.contents.length < twins.file.pos + sz.toNat)
  | .writeBytes _ => True

/-- Level streams whose size, as far as the file stream knows it, is none too large. -/
structure Twins.Kept (twins : Twins) : Prop where
  level : twins.Level
  pos_le : twins.file.pos ≤ twins.file.fileSize
  fileSize_le : twins.file.fileSize ≤ twins.file.file.contents.length
  small : twins.file.file.contents.length < 2147483648

/-! ### The size of a file -/

section Calls

variable {twins : Twins}

/-- The size that the file stream finds. -/
def found (stream : SMDFileStream) : Nat :=
  if stream.fileSize = 0 then stream.file.contents.length else stream.fileSize

theorem size_eq {stream : SMDFileStream} (small : stream.file.contents.length < 2147483648) :
    stream.size.1 = found stream ∧ stream.size.2.fileSize = found stream ∧
      stream.size.2.pos = stream.pos ∧ stream.size.2.file.contents = stream.file.contents := by
  have whole : uint stream.file.fseekEnd.ftell = stream.file.contents.length :=
    uint_of_lt _ (Nat.lt_trans small (by decide))
  unfold SMDFileStream.size found
  split
  · exact ⟨whole, whole, rfl, rfl⟩
  · exact ⟨rfl, rfl, rfl, rfl⟩

theorem found_le {stream : SMDFileStream}
    (fileSize_le : stream.fileSize ≤ stream.file.contents.length) :
    stream.fileSize ≤ found stream ∧ found stream ≤ stream.file.contents.length := by
  unfold found
  split
  · exact ⟨fileSize_le, Nat.le_refl _⟩
  · exact ⟨Nat.le_refl _, fileSize_le⟩

theorem Twins.Kept.inside (kept : twins.Kept) : twins.memory.Inside := by
  have pos_le := Nat.le_trans kept.pos_le kept.fileSize_le
  rw [kept.level.pos, kept.level.contents] at pos_le
  have small := kept.small
  rw [kept.level.contents] at small
  exact ⟨pos_le, Nat.lt_trans small (by decide)⟩

theorem Twins.Kept.length_eq (kept : twins.Kept) :
    twins.memory.data.length = twins.file.file.contents.length := by
  rw [kept.level.contents]

/-- The file stream after it was measured is level with the memory stream, whatever position is
given to both. -/
theorem Twins.Kept.measured (kept : twins.Kept) {file : SMDFileStream} {pos : Nat}
    (fileSize : file.fileSize = found twins.file) (posEq : file.pos = pos)
    (contents : file.file.contents = twins.file.file.contents) (pos_le : pos ≤ found twins.file) :
    Twins.Kept ⟨file, { twins.memory with pos := pos }⟩ where
  level := ⟨contents.trans kept.level.contents, posEq⟩
  pos_le := by rw [posEq, fileSize]; exact pos_le
  fileSize_le := by rw [fileSize, contents]; exact (found_le kept.fileSize_le).2
  small := by rw [contents]; exact kept.small

/-! ### The calls -/

/-- Both return the same and are kept. -/
def Fits (twins : Twins) (call : Call) : Prop :=
  ∃ reply after, step twins call = .ok ((reply, reply), after) ∧ after.Kept

theorem Fits.agrees {call : Call} (fits : Fits twins call) : Agrees twins call := by
  obtain ⟨reply, after, returned, kept⟩ := fits
  exact ⟨reply, after, returned, kept.level⟩

theorem not_agrees {call : Call} {first second : Reply} {after : Twins}
    (returned : step twins call = .ok ((first, second), after)) (differ : first ≠ second) :
    ¬ Agrees twins call := by
  rintro ⟨reply, _, equal, _⟩
  cases returned.symm.trans equal
  exact differ rfl

theorem size_of_kept (kept : twins.Kept) :
    step twins .size = .ok ((.length (found twins.file),
      .length twins.file.file.contents.length), ⟨twins.file.size.2, twins.memory⟩) := by
  rw [← kept.length_eq, ← kept.inside.size_eq, ← (size_eq kept.small).1]
  rfl

theorem size_fits_iff (kept : twins.Kept) :
    (Answerable twins .size → Fits twins .size) ∧
      (¬ Answerable twins .size → ¬ Agrees twins .size) := by
  obtain ⟨_, fileSize, pos, contents⟩ := size_eq kept.small
  constructor
  · intro answerable
    have whole : found twins.file = twins.file.file.contents.length := by
      unfold found
      split
      · rfl
      · rename_i measured
        exact answerable.resolve_left measured
    refine ⟨_, _, by rw [size_of_kept kept, whole], ?_⟩
    refine kept.measured fileSize (pos.trans kept.level.pos) contents ?_
    rw [← kept.level.pos]
    exact Nat.le_trans kept.pos_le (found_le kept.fileSize_le).1
  · intro unanswerable
    obtain ⟨measured, other⟩ := not_or.mp unanswerable
    refine not_agrees (size_of_kept kept) fun equal => other ?_
    rw [← Reply.length.inj equal, found, if_neg measured]

theorem setPosition_of_kept (kept : twins.Kept) (pos : BitVec 32) :
    step twins (.setPosition pos) = .ok
      ((.done (decide (pos.toNat ≤ found twins.file)),
        .done (decide (pos.toNat ≤ twins.file.file.contents.length))),
        ⟨(twins.file.setPosition pos.toNat).2, (twins.memory.setPosition pos.toNat).2⟩) := by
  have onFile : (twins.file.setPosition pos.toNat).1 = decide (pos.toNat ≤ found twins.file) := by
    unfold SMDFileStream.setPosition
    rw [(size_eq kept.small).1]
    split
    · exact (decide_eq_false (by omega)).symm
    · exact (decide_eq_true (by omega)).symm
  have onMemory : (twins.memory.setPosition pos.toNat).1 =
      decide (pos.toNat ≤ twins.file.file.contents.length) := by
    unfold SMDMemStream.setPosition
    rw [kept.inside.size_eq, kept.length_eq]
    split
    · exact (decide_eq_false (by omega)).symm
    · exact (decide_eq_true (by omega)).symm
  rw [← onFile, ← onMemory]
  rfl

theorem setPosition_fits_iff (kept : twins.Kept) (pos : BitVec 32) :
    (Answerable twins (.setPosition pos) → Fits twins (.setPosition pos)) ∧
      (¬ Answerable twins (.setPosition pos) → ¬ Agrees twins (.setPosition pos)) := by
  obtain ⟨size, fileSize, posEq, contents⟩ := size_eq kept.small
  have bounds := found_le kept.fileSize_le
  constructor
  · intro answerable
    have same : pos.toNat ≤ found twins.file ↔ pos.toNat ≤ twins.file.file.contents.length := by
      refine ⟨fun reached => Nat.le_trans reached bounds.2, fun reached => ?_⟩
      rcases answerable with fresh | below | beyond
      · rw [found, if_pos fresh]
        exact reached
      · exact Nat.le_trans below bounds.1
      · exact absurd reached (Nat.not_le.mpr beyond)
    refine ⟨_, _, by rw [setPosition_of_kept kept, decide_eq_decide.mpr same], ?_⟩
    unfold SMDFileStream.setPosition SMDMemStream.setPosition
    rw [size, kept.inside.size_eq, kept.length_eq]
    by_cases reached : pos.toNat ≤ found twins.file
    · rw [if_neg (Nat.not_lt.mpr reached), if_neg (Nat.not_lt.mpr (same.mp reached))]
      exact @Twins.Kept.measured twins kept { twins.file.size.2 with pos := pos.toNat } pos.toNat
        fileSize rfl contents reached
    · rw [if_pos (Nat.not_le.mp reached), if_pos (Nat.not_le.mp (mt same.mpr reached))]
      refine kept.measured fileSize (posEq.trans kept.level.pos) contents ?_
      rw [← kept.level.pos]
      exact Nat.le_trans kept.pos_le bounds.1
  · intro unanswerable
    obtain ⟨measured, other⟩ := not_or.mp unanswerable
    obtain ⟨above, inside⟩ := not_or.mp other
    refine not_agrees (setPosition_of_kept kept pos) fun equal => above ?_
    have same := decide_eq_decide.mp (Reply.done.inj equal)
    have reached := same.mpr (Nat.le_of_not_lt inside)
    rwa [found, if_neg measured] at reached

/-- The file stream moved to its position and measured: where the size was not known, the file is
left at its end. -/
theorem seekTo_eq {stream : SMDFileStream} (small : stream.file.contents.length < 2147483648) :
    stream.seekTo.1 = true ∧ stream.seekTo.2.pos = stream.pos ∧
      stream.seekTo.2.size.1 = found stream ∧ stream.seekTo.2.size.2.fileSize = found stream ∧
      stream.seekTo.2.size.2.pos = stream.pos ∧
      stream.seekTo.2.size.2.file = ⟨stream.file.contents,
        if stream.fileSize = 0 then stream.file.contents.length else stream.pos⟩ := by
  have moved : stream.file.fseek stream.pos = (true, ⟨stream.file.contents, stream.pos⟩) :=
    stream.file.fseek_of_nonneg stream.pos
  have sought : stream.seekTo = (true, { stream with file := ⟨stream.file.contents, stream.pos⟩ }) := by
    rw [SMDFileStream.seekTo, moved]
  rw [sought]
  obtain ⟨size, fileSize, pos, _⟩ :=
    @size_eq { stream with file := ⟨stream.file.contents, stream.pos⟩ } small
  refine ⟨rfl, rfl, size, fileSize, pos, ?_⟩
  unfold SMDFileStream.size
  split
  · rfl
  · rfl

theorem readBytes_beyond (kept : twins.Kept) (sz : Nat)
    (plain : twins.file.pos + sz < 4294967296)
    (beyond : found twins.file < twins.file.pos + sz) :
    twins.file.readBytes sz = (none, twins.file.seekTo.2.size.2) := by
  obtain ⟨moved, pos, size, _⟩ := seekTo_eq kept.small
  rw [SMDFileStream.readBytes, if_pos moved, SMDFileStream.read, size, pos,
    uint_add_of_lt _ _ plain, if_pos beyond]

/-- A read up to the size asks the file for the bytes where it stands. -/
theorem readBytes_within (kept : twins.Kept) (sz : Nat)
    (plain : twins.file.pos + sz < 4294967296)
    (within : twins.file.pos + sz ≤ found twins.file) (bytes : Bytes)
    (bytesEq : bytes = slice twins.file.file.contents
      (if twins.file.fileSize = 0 then twins.file.file.contents.length else twins.file.pos) sz) :
    (bytes.length ≠ sz → (twins.file.readBytes sz).1 = none) ∧
      (bytes.length = sz → (twins.file.readBytes sz).1 = some bytes ∧
        (twins.file.readBytes sz).2.pos = twins.file.pos + sz ∧
        (twins.file.readBytes sz).2.fileSize = found twins.file ∧
        (twins.file.readBytes sz).2.file.contents = twins.file.file.contents) := by
  obtain ⟨moved, pos, size, fileSize, _, file⟩ := seekTo_eq kept.small
  have fetched : (twins.file.seekTo.2.size.2.file.fread sz).1 = bytes := by
    rw [file, bytesEq]
    rfl
  have contents : (twins.file.seekTo.2.size.2.file.fread sz).2.contents =
      twins.file.file.contents := by
    rw [FILE.contents_fread, file]
  rw [SMDFileStream.readBytes, if_pos moved, SMDFileStream.read, size, pos,
    uint_add_of_lt _ _ plain, if_neg (Nat.not_lt.mpr within)]
  dsimp only
  rw [fetched]
  refine ⟨fun short => ?_, fun whole => ?_⟩
  · rw [if_pos short]
  · rw [if_neg (not_not.mpr whole)]
    exact ⟨rfl, rfl, fileSize, contents⟩

theorem readBytes_fits_iff (kept : twins.Kept) (sz : BitVec 32) :
    (Answerable twins (.readBytes sz) → Fits twins (.readBytes sz)) ∧
      (¬ Answerable twins (.readBytes sz) → ¬ Agrees twins (.readBytes sz)) := by
  have bounds := found_le kept.fileSize_le
  have pos_le := kept.pos_le
  constructor
  · rintro ⟨plain, answered⟩
    have within : SMDMemStream.ReadsWithin twins.memory sz.toNat :=
      (kept.inside.readsWithin_iff sz).mpr (by rw [← kept.level.pos]; exact plain)
    rw [SMDMemStream.ReadsWithin, kept.length_eq, ← kept.level.pos] at within
    by_cases beyond : twins.file.file.contents.length < twins.file.pos + sz.toNat
    · have onFile := readBytes_beyond kept sz.toNat plain (Nat.lt_of_le_of_lt bounds.2 beyond)
      obtain ⟨_, _, _, fileSize, pos, file⟩ := seekTo_eq kept.small
      refine ⟨.bytes none, ⟨twins.file.seekTo.2.size.2, twins.memory⟩, ?_, ?_⟩
      · rw [step, onMemory, within, if_neg (Nat.not_le.mpr beyond), SMDStream.onFile, onFile]
        rfl
      · refine kept.measured fileSize (pos.trans kept.level.pos) (by rw [file]) ?_
        rw [← kept.level.pos]
        exact Nat.le_trans pos_le bounds.1
    · have reached := answered.resolve_right beyond
      have read : slice twins.file.file.contents (if twins.file.fileSize = 0 then
          twins.file.file.contents.length else twins.file.pos) sz.toNat =
          slice twins.file.file.contents twins.file.pos sz.toNat := by
        by_cases fresh : twins.file.fileSize = 0
        · have nothing : sz.toNat = 0 := by omega
          rw [nothing, slice_zero, slice_zero]
        · rw [if_neg fresh]
      have length := length_slice twins.file.file.contents twins.file.pos sz.toNat
        (Nat.le_of_not_lt beyond)
      obtain ⟨bytes, pos, fileSize, contents⟩ := (readBytes_within kept sz.toNat plain
        (Nat.le_trans reached bounds.1) _ read.symm).2 length
      refine ⟨.bytes (some (slice twins.memory.data twins.file.pos sz.toNat)),
        ⟨(twins.file.readBytes sz.toNat).2,
          { twins.memory with pos := twins.file.pos + sz.toNat }⟩, ?_, ?_⟩
      · rw [kept.level.contents] at bytes
        rw [step, onMemory, within, if_pos (Nat.le_of_not_lt beyond), SMDStream.onFile, bytes]
        rfl
      · exact kept.measured fileSize pos contents (Nat.le_trans reached bounds.1)
  · intro unanswerable
    by_cases plain : twins.file.pos + sz.toNat < 4294967296
    · obtain ⟨above, inside⟩ := not_or.mp fun answered => unanswerable ⟨plain, answered⟩
      have within : SMDMemStream.ReadsWithin twins.memory sz.toNat :=
        (kept.inside.readsWithin_iff sz).mpr (by rw [← kept.level.pos]; exact plain)
      rw [SMDMemStream.ReadsWithin, kept.length_eq, ← kept.level.pos,
        if_pos (Nat.le_of_not_lt inside)] at within
      have onFile : (twins.file.readBytes sz.toNat).1 = none := by
        by_cases beyond : found twins.file < twins.file.pos + sz.toNat
        · rw [readBytes_beyond kept sz.toNat plain beyond]
        · have fresh : twins.file.fileSize = 0 := by
            by_contra measured
            rw [found, if_neg measured] at beyond
            exact above (Nat.le_of_not_lt beyond)
          refine (readBytes_within kept sz.toNat plain (Nat.le_of_not_lt beyond) _ rfl).1 ?_
          rw [if_pos fresh, slice, List.drop_length, List.take_nil, List.length_nil]
          omega
      refine not_agrees (by rw [step, onMemory, within]; rfl) ?_
      rw [SMDStream.onFile, onFile]
      exact fun equal => (Option.some_ne_none _).symm (Reply.bytes.inj equal)
    · have wrapped := kept.inside.readBytes_wrapped sz (by rw [← kept.level.pos]; omega)
      rintro ⟨_, _, returned, _⟩
      rw [step, onMemory, wrapped] at returned
      cases returned

theorem writeBytes_fits (kept : twins.Kept) (buffer : Bytes)
    (below : Below twins (.writeBytes buffer)) : Fits twins (.writeBytes buffer) := by
  have inside := kept.inside
  have stop : uint (↑twins.memory.pos + ↑buffer.length) = twins.memory.pos + buffer.length :=
    uint_add_of_lt _ _ (Nat.lt_trans below (by decide))
  obtain ⟨moved, pos, _⟩ := seekTo_eq kept.small
  have sought : twins.file.seekTo.2 = ⟨⟨twins.memory.data, twins.memory.pos⟩, twins.memory.pos,
      twins.file.fileSize⟩ := by
    rw [SMDFileStream.seekTo, FILE.fseek_of_nonneg, kept.level.pos, kept.level.contents]
  have grown : (if twins.memory.data.length < twins.memory.pos + buffer.length then
      SMDMemStream.resized twins.memory.data (twins.memory.pos + buffer.length)
      else twins.memory.data) = FILE.grown twins.memory.data (twins.memory.pos + buffer.length) := by
    unfold SMDMemStream.resized FILE.grown
    split
    · rw [List.take_of_length_le (by omega)]
    · rw [Nat.sub_eq_zero_of_le (by omega), List.replicate_zero, List.append_nil]
  have room : twins.memory.pos + buffer.length ≤
      (FILE.grown twins.memory.data (twins.memory.pos + buffer.length)).length := by
    rw [FILE.length_grown]
    exact Nat.le_max_right _ _
  have contents : (FILE.fwrite ⟨twins.memory.data, twins.memory.pos⟩ buffer).contents =
      splice (FILE.grown twins.memory.data (twins.memory.pos + buffer.length)) twins.memory.pos
        buffer := by
    unfold FILE.fwrite
    split
    · rename_i nothing
      rw [nothing, splice_nil]
      exact (FILE.grown_of_le _ _ inside.pos_le).symm
    · rfl
  have onFile : twins.file.writeBytes buffer = (true, ⟨FILE.fwrite ⟨twins.memory.data,
      twins.memory.pos⟩ buffer, twins.memory.pos + buffer.length,
      max twins.file.fileSize (twins.memory.pos + buffer.length)⟩) := by
    rw [SMDFileStream.writeBytes, if_pos moved, sought, SMDFileStream.write, stop]
  have onMemory : twins.memory.writeBytes buffer = .ok ⟨(FILE.fwrite ⟨twins.memory.data,
      twins.memory.pos⟩ buffer).contents, twins.memory.pos + buffer.length⟩ := by
    rw [SMDMemStream.writeBytes, inside.size_eq, stop, grown, memcpy_of_le _ _ _ room, ok_bind, contents]
  have length : (FILE.fwrite ⟨twins.memory.data, twins.memory.pos⟩ buffer).contents.length =
      max twins.memory.data.length (twins.memory.pos + buffer.length) := by
    rw [contents, length_splice _ _ _ room, FILE.length_grown]
  refine ⟨.done true, ⟨(twins.file.writeBytes buffer).2, ⟨(FILE.fwrite ⟨twins.memory.data,
    twins.memory.pos⟩ buffer).contents, twins.memory.pos + buffer.length⟩⟩, ?_, ?_⟩
  · rw [step, SMDStream.onMemory, onMemory, SMDStream.onFile, onFile]
    rfl
  · rw [onFile]
    have small := kept.small
    have fileSize_le := kept.fileSize_le
    rw [← kept.length_eq] at small fileSize_le
    refine ⟨⟨rfl, rfl⟩, Nat.le_max_right _ _, ?_, ?_⟩
    · rw [length]
      exact Nat.max_le.mpr
        ⟨Nat.le_trans fileSize_le (Nat.le_max_left _ _), Nat.le_max_right _ _⟩
    · rw [length]
      exact Nat.max_lt.mpr ⟨small, below⟩

/-! ### Runs -/

theorem fits_iff (kept : twins.Kept) (call : Call) (below : Below twins call) :
    (Answerable twins call → Fits twins call) ∧ (¬ Answerable twins call → ¬ Agrees twins call) :=
  match call with
  | .setPosition pos => setPosition_fits_iff kept pos
  | .size => size_fits_iff kept
  | .readBytes sz => readBytes_fits_iff kept sz
  | .writeBytes buffer => ⟨fun _ => writeBytes_fits kept buffer below, fun no => absurd trivial no⟩

theorem new_kept (contents : Bytes) (position : Nat) (small : contents.length < 2147483648) :
    (Twins.new contents position).Kept :=
  ⟨⟨rfl, rfl⟩, Nat.le_refl _, Nat.zero_le _, small⟩

/-- Two fresh streams over the same bytes agree on every call of a run exactly when every call
meets its condition. -/
theorem streams_agree_iff (contents : Bytes) (position : Nat) (calls : List Call)
    (small : contents.length < 2147483648)
    (below : Along step Below (.new contents position) calls) :
    Along step Agrees (.new contents position) calls ↔
      Along step Answerable (.new contents position) calls := by
  refine along_iff Twins.Kept (fun twins call kept below => ?_)
    (fun twins call reply after kept below answerable returned => ?_) calls
    (new_kept contents position small) below
  · obtain ⟨fits, differs⟩ := fits_iff kept call below
    exact ⟨not_imp_not.mp differs, fun answerable => (fits answerable).agrees⟩
  · obtain ⟨_, _, returnedEq, keptAfter⟩ := (fits_iff kept call below).1 answerable
    cases returned.symm.trans returnedEq
    exact keptAfter

end Calls

/-- A stream of one byte that is measured, read and written over. -/
theorem streams_agree_iff_once :
    Along step Agrees (.new [7] 0) [.size, .readBytes 1, .writeBytes [8]] ↔
      Along step Answerable (.new [7] 0) [.size, .readBytes 1, .writeBytes [8]] :=
  streams_agree_iff [7] 0 _ (by decide)
    ⟨trivial, fun _ _ returned => by
      cases returned
      exact ⟨trivial, fun _ _ returned => by
        cases returned
        exact ⟨show 1 + 1 < 2147483648 by decide, fun _ _ _ => trivial⟩⟩⟩

/-- The first read of a file fails, and the second one does not; in memory both return the byte. -/
theorem streams_disagree :
    runAll step (.new [7] 0) [.readBytes 1, .readBytes 1] =
        .ok ([(.bytes none, .bytes (some [7])), (.bytes (some [7]), .bytes none)],
          ⟨⟨⟨[7], 1⟩, 1, 1⟩, ⟨[7], 1⟩⟩) ∧
      ¬ Along step Agrees (.new [7] 0) [.readBytes 1, .readBytes 1] := by
  refine ⟨by decide, fun along => ?_⟩
  exact @not_agrees _ _ (.bytes none) (.bytes (some [7])) _ rfl (by decide) along.1

end SMDStream

end LevelDBLib.KvDB
