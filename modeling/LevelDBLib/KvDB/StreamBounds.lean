/-
This file is about the bounds of `SMDMemStream`: a stream in use, seen as a state
that takes one call after another, and what its reads touch.

The bounds test of `readBytes` adds the position and the size as `unsigned int`.
Whatever was called before, the position lies inside the contents, so the test
decides right as long as the sum is below 2^32. A sum that wraps around is below
the position again and passes, and the copy leaves the stream.
-/

import LevelDBLib.Library.Runs
import LevelDBLib.KvDB.Record

namespace LevelDBLib.KvDB

open Buffers Runs

namespace SMDMemStream

/-! ### A stream in use -/

/-- A call that reads, writes or moves a stream. -/
inductive StreamCall where
  | setPosition (pos : BitVec 32)
  | resize (sz : BitVec 32)
  | readBytes (sz : BitVec 32)
  | writeBytes (buffer : Bytes)
deriving DecidableEq, Repr

inductive StreamReply where
  | done (success : Bool)
  | bytes (bytes : Option Bytes)
deriving DecidableEq, Repr

def step (stream : SMDMemStream) : StreamCall → Except Fault (StreamReply × SMDMemStream)
  | .setPosition pos =>
    let moved := stream.setPosition pos.toNat
    .ok (.done moved.1, moved.2)
  | .resize sz => .ok (.done true, stream.resize sz.toNat)
  | .readBytes sz => do
    let (bytes, stream) ← stream.readBytes sz.toNat
    .ok (.bytes bytes, stream)
  | .writeBytes buffer => do
    let stream ← stream.writeBytes buffer
    .ok (.done true, stream)

/-- The streams that the calls make of a new one. -/
abbrev InUse (size : BitVec 32) (history : History StreamCall StreamReply)
    (stream : SMDMemStream) : Prop :=
  Run step (fun _ _ _ => True) (new size.toNat) history stream

/-- The position lies inside the contents, whose length is 32-bit. -/
structure Inside (stream : SMDMemStream) : Prop where
  pos_le : stream.pos ≤ stream.data.length
  small : stream.data.length < 4294967296

theorem length_resized (data : Bytes) (sz : Nat) : (resized data sz).length = sz := by
  rw [resized, List.length_append, List.length_take, List.length_replicate]
  omega

variable {stream next : SMDMemStream}

theorem Inside.size_eq (inside : stream.Inside) : stream.size = stream.data.length :=
  uint_of_lt _ inside.small

theorem Inside.setPosition (inside : stream.Inside) (pos : Nat) :
    (stream.setPosition pos).2.Inside := by
  unfold SMDMemStream.setPosition
  split
  · exact inside
  · rename_i reached
    rw [inside.size_eq] at reached
    exact ⟨by dsimp only; omega, inside.small⟩

theorem Inside.resize (stream : SMDMemStream) (sz : BitVec 32) :
    (stream.resize sz.toNat).Inside := by
  have bound := sz.isLt
  unfold SMDMemStream.resize SMDMemStream.setPosition
  rw [if_neg (Nat.not_lt_zero _)]
  exact ⟨Nat.zero_le _, by dsimp only; rw [length_resized]; omega⟩

theorem Inside.readBytes (inside : stream.Inside) {sz : Nat} {bytes : Option Bytes}
    (read : stream.readBytes sz = .ok (bytes, next)) : next.Inside := by
  unfold SMDMemStream.readBytes at read
  rw [inside.size_eq] at read
  split at read
  · cases read
    exact inside
  · rename_i passed
    obtain ⟨_, _, equal⟩ := (bind_eq_ok _ _ _).mp read
    cases equal
    exact ⟨Nat.le_of_not_lt passed, inside.small⟩

theorem memcpy_returns_iff (buffer : Bytes) (offset : Nat) (source copied : Bytes) :
    memcpy buffer offset source = .ok copied ↔
      offset + source.length ≤ buffer.length ∧ splice buffer offset source = copied := by
  unfold memcpy
  split
  · rename_i fits
    simp [fits]
  · rename_i beyond
    simp [beyond]

theorem Inside.writeBytes (inside : stream.Inside) {buffer : Bytes}
    (written : stream.writeBytes buffer = .ok next) : next.Inside := by
  obtain ⟨data, copied, equal⟩ := (bind_eq_ok _ _ _).mp written
  obtain ⟨fits, spliced⟩ := (memcpy_returns_iff _ _ _ _).mp copied
  cases equal
  have stop : uint (↑stream.pos + ↑buffer.length) < 4294967296 := by
    unfold uint
    omega
  have lengthEq := length_splice _ _ _ fits
  rw [spliced, inside.size_eq] at lengthEq
  have small := inside.small
  by_cases grows : stream.data.length < uint (↑stream.pos + ↑buffer.length)
  · rw [if_pos grows, length_resized] at lengthEq
    exact ⟨Nat.le_of_eq lengthEq.symm, by dsimp only; omega⟩
  · rw [if_neg grows] at lengthEq
    exact ⟨by dsimp only; omega, by dsimp only; omega⟩

theorem Inside.step (inside : stream.Inside) {call : StreamCall} {reply : StreamReply}
    (returned : stream.step call = .ok (reply, next)) : next.Inside := by
  cases call with
  | setPosition pos =>
    cases returned
    exact inside.setPosition pos.toNat
  | resize sz =>
    cases returned
    exact Inside.resize stream sz
  | readBytes sz =>
    obtain ⟨⟨bytes, after⟩, read, equal⟩ := (bind_eq_ok _ _ _).mp returned
    cases equal
    exact inside.readBytes read
  | writeBytes buffer =>
    obtain ⟨after, written, equal⟩ := (bind_eq_ok _ _ _).mp returned
    cases equal
    exact inside.writeBytes written

/-- The position of a stream in use stays inside its contents. -/
theorem InUse.inside {size : BitVec 32} {history : History StreamCall StreamReply}
    (inUse : InUse size history stream) : stream.Inside :=
  inUse.invariant (fun _ state => state.Inside)
    ⟨Nat.zero_le _, by rw [new, List.length_replicate]; exact size.isLt⟩
    fun _ _ _ _ _ inside _ returned => inside.step returned

/-! ### Reads within bounds -/

/-- `readBytes` hands out the next `sz` bytes where there are as many, and otherwise fails where
it stands. -/
def ReadsWithin (stream : SMDMemStream) (sz : Nat) : Prop :=
  stream.readBytes sz =
    if stream.pos + sz ≤ stream.data.length then
      .ok (some (slice stream.data stream.pos sz), { stream with pos := stream.pos + sz })
    else .ok (none, stream)

/-- A sum that wraps around passes the test, since it is below the position, and then the copy
leaves the stream. -/
theorem Inside.readBytes_wrapped (inside : stream.Inside) (sz : BitVec 32)
    (wrapped : 4294967296 ≤ stream.pos + sz.toNat) :
    stream.readBytes sz.toNat = .error .outOfBounds := by
  have bound := sz.isLt
  have pos_le := inside.pos_le
  have small := inside.small
  have below : uint (↑stream.pos + ↑sz.toNat) ≤ stream.data.length := by
    unfold uint
    omega
  rw [SMDMemStream.readBytes, inside.size_eq, if_neg (Nat.not_lt.mpr below), fetch,
    if_neg (by omega), error_bind]

theorem Inside.readsWithin_iff (inside : stream.Inside) (sz : BitVec 32) :
    ReadsWithin stream sz.toNat ↔ stream.pos + sz.toNat < 4294967296 := by
  unfold ReadsWithin
  constructor
  · intro within
    by_contra wrapped
    rw [inside.readBytes_wrapped sz (by omega)] at within
    split at within
    · cases within
    · cases within
  · intro plain
    rw [SMDMemStream.readBytes, inside.size_eq, uint_add_of_lt _ _ plain]
    by_cases remain : stream.pos + sz.toNat ≤ stream.data.length
    · rw [if_pos remain, if_neg (by omega), fetch_of_le _ _ _ remain, ok_bind]
    · rw [if_neg remain, if_pos (by omega)]

/-- The length field that `readString` finds, where the stream still holds one. -/
def storedLength (stream : SMDMemStream) : Option (BitVec 32) :=
  if stream.pos + 4 ≤ stream.data.length then
    some (SMDValue.getInt (slice stream.data stream.pos 4))
  else none

/-- The field and the bytes it counts end below 2^32. -/
def StringBelow (stream : SMDMemStream) : Prop :=
  stream.pos + 4 < 4294967296 ∧ ∀ sz, stream.storedLength = some sz → 0 ≤ sz.toInt →
    stream.pos + 4 + sz.toNat < 4294967296

theorem Inside.readInt_eq (inside : stream.Inside) (plain : stream.pos + 4 < 4294967296) :
    stream.readInt = .ok (stream.storedLength,
      if stream.pos + 4 ≤ stream.data.length then { stream with pos := stream.pos + 4 }
      else stream) := by
  have read : ReadsWithin stream 4 := (inside.readsWithin_iff 4#32).mpr plain
  unfold ReadsWithin at read
  rw [SMDMemStream.readInt, read, storedLength]
  split
  · rfl
  · rfl

/-- `readString` stays inside the stream, whatever length is stored, unless a sum wraps around. -/
theorem Inside.readString_iff (inside : stream.Inside) :
    stream.readString ≠ .error .outOfBounds ↔ StringBelow stream := by
  by_cases plain : stream.pos + 4 < 4294967296
  · rw [SMDMemStream.readString, inside.readInt_eq plain, ok_bind, StringBelow,
      and_iff_right plain]
    by_cases remain : stream.pos + 4 ≤ stream.data.length
    · have after : Inside { stream with pos := stream.pos + 4 } := ⟨remain, inside.small⟩
      rw [storedLength, if_pos remain, if_pos remain]
      generalize SMDValue.getInt (slice stream.data stream.pos 4) = sz
      simp only [Option.some.injEq, forall_eq']
      by_cases negative : sz.toInt < 0
      · rw [if_pos negative]
        exact ⟨fun _ nonneg => absurd negative (by omega), fun _ leaves => by cases leaves⟩
      · rw [if_neg negative]
        have plainly := after.readsWithin_iff sz
        constructor
        · intro stays _
          by_contra wrapped
          exact stays (after.readBytes_wrapped sz (by dsimp only; omega))
        · intro below leaves
          have within := plainly.mpr (below (by omega))
          rw [ReadsWithin, leaves] at within
          split at within
          · cases within
          · cases within
    · rw [storedLength, if_neg remain]
      simp
  · have wrapped := inside.readBytes_wrapped 4#32 (by rw [BitVec.toNat_ofNat]; omega)
    have leaves : stream.readString = .error .outOfBounds := by
      rw [SMDMemStream.readString, SMDMemStream.readInt]
      rw [show stream.readBytes 4 = .error .outOfBounds from wrapped]
      rfl
    constructor
    · intro stays
      exact absurd leaves stays
    · intro below
      exact absurd below.1 plain

/-- Stream bounds: in every stream in use, a read of any 32-bit size hands out the bytes that
remain, or fails and stays, exactly when the position and the size add up below 2^32; and
`readString` touches no byte outside the stream exactly when its length field and a stored length
that is not negative end below 2^32. -/
theorem reads_within_bounds (size : BitVec 32) (history : History StreamCall StreamReply)
    (stream : SMDMemStream) (inUse : InUse size history stream) :
    (∀ sz : BitVec 32, ReadsWithin stream sz.toNat ↔ stream.pos + sz.toNat < 4294967296) ∧
      (stream.readString ≠ .error .outOfBounds ↔ StringBelow stream) :=
  ⟨inUse.inside.readsWithin_iff, inUse.inside.readString_iff⟩

/-- Four bytes were written and the position set behind the first of them. -/
def fourBytes : SMDMemStream := ⟨[255, 255, 255, 255], 1⟩

theorem fourBytes_inUse : InUse 0 [(.setPosition 1, .done true),
    (.writeBytes [255, 255, 255, 255], .done true)] fourBytes :=
  (Run.start.step trivial rfl).step trivial rfl

theorem reads_within_bounds_once :
    (∀ sz : BitVec 32, ReadsWithin fourBytes sz.toNat ↔ 1 + sz.toNat < 4294967296) ∧
      (fourBytes.readString ≠ .error .outOfBounds ↔ StringBelow fourBytes) :=
  reads_within_bounds 0 _ fourBytes fourBytes_inUse

/-- A size that is a negative `int` passes the test, and the copy leaves the stream. So does the
read of a binary whose stored length is negative. -/
theorem reads_beyond_bounds :
    InUse 0 [(.setPosition 1, .done true), (.writeBytes [255, 255, 255, 255], .done true)]
      fourBytes ∧
    ¬ ReadsWithin fourBytes (4294967295#32).toNat ∧
    fourBytes.readBytes (4294967295#32).toNat = .error .outOfBounds ∧
    (Field.init (.binary 2)).read .taken ⟨[255, 255, 255, 255], 0⟩ = .error .outOfBounds := by
  refine ⟨fourBytes_inUse, ?_, by decide, by decide⟩
  unfold ReadsWithin
  decide

end SMDMemStream

end LevelDBLib.KvDB
