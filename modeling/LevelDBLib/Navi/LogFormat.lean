/-
This file is about the bytes of a log, of `db/log_format.h`. A log is cut into blocks of
32768 bytes. A record is one fragment or several, each with a header of seven bytes and
inside one block, and the last bytes of a block that hold no header are zero.

Next to the bytes stands what they mean: the fragments that can be read from any bytes at
all, and the records that fragments make up. A log that ends anywhere means the records
that lie in it as a whole.
-/

import LevelDBLib.Navi.Crc32c
import LevelDBLib.Navi.Status

namespace LevelDBLib.Navi

open KvDB Coding Crc32c

namespace Log

/-! ### The format -/

inductive RecordType where
  /-- Zero is reserved for preallocated files. -/
  | kZeroType
  | kFullType
  | kFirstType
  | kMiddleType
  | kLastType
deriving DecidableEq, Repr

def RecordType.number : RecordType → Nat
  | kZeroType => 0
  | kFullType => 1
  | kFirstType => 2
  | kMiddleType => 3
  | kLastType => 4

def kMaxRecordType : Nat := RecordType.kLastType.number

abbrev kBlockSize : Nat := 32768

/-- The checksum, the length and the type. -/
abbrev kHeaderSize : Nat := 4 + 2 + 1

/-- The checksum of the byte of a type, which the checksum of a fragment continues. -/
def type_crc_ (t : RecordType) : BitVec 32 := Crc32c.Value [UInt8.ofNat t.number]

/-- The header of a fragment. -/
def header (t : RecordType) (payload : Bytes) : Bytes :=
  let n := BitVec.ofNat 64 payload.length
  EncodeFixed32 (Mask (Extend (type_crc_ t) payload)) ++
    [byte (n &&& 0xff), byte (n >>> 8), UInt8.ofNat t.number]

/-- The length in a header. -/
def lengthOf (header : Bytes) : Nat := (header.getD 4 0).toNat + 256 * (header.getD 5 0).toNat

/-- The type in a header, a `char` that becomes an `unsigned int`. -/
def typeOf (header : Bytes) : Nat := uint (header.getD 6 0).toInt8.toInt

@[simp] theorem length_header (t : RecordType) (payload : Bytes) : (header t payload).length = 7 := by
  rw [header, List.length_append, length_EncodeFixed32]
  rfl

theorem header_append (t : RecordType) (payload rest : Bytes) :
    header t payload ++ rest = EncodeFixed32 (Mask (Extend (type_crc_ t) payload)) ++
      (byte (BitVec.ofNat 64 payload.length &&& 0xff) ::
        byte (BitVec.ofNat 64 payload.length >>> 8) :: UInt8.ofNat t.number :: rest) := by
  rw [header, List.append_assoc]
  rfl

theorem getD_header (t : RecordType) (payload rest : Bytes) (index : Nat) :
    (header t payload ++ rest).getD (4 + index) 0 =
      (byte (BitVec.ofNat 64 payload.length &&& 0xff) ::
        byte (BitVec.ofNat 64 payload.length >>> 8) :: UInt8.ofNat t.number :: rest).getD index 0 := by
  rw [header_append, List.getD_eq_getElem?_getD,
    List.getElem?_append_right (by rw [length_EncodeFixed32]; omega), length_EncodeFixed32,
    Nat.add_sub_cancel_left, ← List.getD_eq_getElem?_getD]

theorem lengthOf_header (t : RecordType) (payload rest : Bytes) (fits : payload.length < 65536) :
    lengthOf (header t payload ++ rest) = payload.length := by
  have small : payload.length % 2 ^ 64 = payload.length := Nat.mod_eq_of_lt (by omega)
  have low : (byte (BitVec.ofNat 64 payload.length &&& 0xff)).toNat = payload.length % 256 := by
    rw [toNat_byte, BitVec.toNat_and, BitVec.toNat_ofNat, small]
    exact (congrArg (· % 256) (Nat.and_two_pow_sub_one_eq_mod payload.length 8)).trans
      (Nat.mod_mod ..)
  have high : (byte (BitVec.ofNat 64 payload.length >>> 8)).toNat = payload.length / 256 := by
    rw [toNat_byte, BitVec.toNat_ushiftRight, BitVec.toNat_ofNat, small, Nat.shiftRight_eq_div_pow,
      Nat.mod_eq_of_lt (by omega)]
  rw [lengthOf, getD_header t payload rest 0, getD_header t payload rest 1, List.getD_cons_zero,
    List.getD_cons_succ, List.getD_cons_zero, low, high]
  omega

theorem typeOf_header (t : RecordType) (payload rest : Bytes) :
    typeOf (header t payload ++ rest) = t.number := by
  rw [typeOf, getD_header t payload rest 2]
  cases t <;> rfl

/-- The checksum in a header is the one of the type and the payload. -/
theorem checksum_header (t : RecordType) (payload rest : Bytes) :
    Unmask (DecodeFixed32 (header t payload ++ (payload ++ rest))) =
      Crc32c.Value (((header t payload ++ (payload ++ rest)).drop 6).take (1 + payload.length)) := by
  have behind : (header t payload ++ (payload ++ rest)).drop 6 =
      [UInt8.ofNat t.number] ++ payload ++ rest := by
    rw [header_append, List.drop_append, length_EncodeFixed32,
      List.drop_eq_nil_of_le (by rw [length_EncodeFixed32]; decide)]
    rfl
  rw [behind, List.take_left' (by rw [List.length_append, List.length_singleton]), header_append,
    DecodeFixed32_EncodeFixed32, Unmask_Mask, type_crc_, Crc32c.Value, Extend_append]
  rfl

/-! ### The meaning of bytes -/

/-- What a reader finds in the bytes of a log. -/
inductive Event where
  | fragment (type : Nat) (payload : Bytes)
  /-- The rest of a block that cannot be read, with the bytes dropped and the reason if it is told. -/
  | bad (drop : Option (Nat × Bytes))
  /-- A fragment that the log ends in. -/
  | cut
deriving DecidableEq, Repr

/-- The events in what is left of a block, which is the last one if the log ends in it. -/
def block (checksum last : Bool) (buffer : Bytes) : List Event :=
  if buffer.length < 7 then []
  else if buffer.length < 7 + lengthOf buffer then
    [if last then .cut else .bad (some (buffer.length, text "bad record length"))]
  else if typeOf buffer = 0 ∧ lengthOf buffer = 0 then [.bad none]
  else if checksum = true ∧ Crc32c.Value ((buffer.drop 6).take (1 + lengthOf buffer)) ≠
      Unmask (DecodeFixed32 buffer) then
    [.bad (some (buffer.length, text "checksum mismatch"))]
  else .fragment (typeOf buffer) ((buffer.drop 7).take (lengthOf buffer)) ::
    block checksum last (buffer.drop (7 + lengthOf buffer))
termination_by buffer.length
decreasing_by
  rw [List.length_drop]
  omega

/-- The events in a log. -/
def events (checksum : Bool) (log : Bytes) : List Event :=
  if log.length < 32768 then block checksum true log
  else block checksum false (log.take 32768) ++ events checksum (log.drop 32768)
termination_by log.length
decreasing_by
  rw [List.length_drop]
  omega

/-- The events in the rest of a log whose block has `room` bytes left. -/
def eventsFrom (checksum : Bool) (room : Nat) (log : Bytes) : List Event :=
  if log.length < room then block checksum true log
  else block checksum false (log.take room) ++ events checksum (log.drop room)

/-- What a reader of a log gives: records, and the drops it reports. -/
inductive Outcome where
  | record (record : Bytes)
  | drop (bytes : Nat) (reason : Bytes)
deriving DecidableEq, Repr

/-- The drop of the beginning of a record. -/
def lost (begun : Option Bytes) (reason : String) : List Outcome :=
  begun.toList.map fun scratch => .drop scratch.length (text reason)

/-- The drop of a beginning that is followed by another one, which is reported unless it is empty. -/
def interrupted (begun : Option Bytes) (reason : String) : List Outcome :=
  lost (begun.filter fun scratch => ¬ scratch.isEmpty) reason

/-- What the events make up, behind the beginning of a record. -/
def assemble : Option Bytes → List Event → List Outcome
  | _, [] => []
  | _, .cut :: _ => []
  | begun, .bad drop :: rest =>
    drop.toList.map (fun drop => .drop drop.1 drop.2) ++ lost begun "error in middle of record" ++
      assemble none rest
  | begun, .fragment type payload :: rest =>
    match type with
    | 1 => interrupted begun "partial record without end(1)" ++ .record payload :: assemble none rest
    | 2 => interrupted begun "partial record without end(2)" ++ assemble (some payload) rest
    | 3 => match begun with
      | none => .drop payload.length (text "missing start of fragmented record(1)") ::
          assemble none rest
      | some scratch => assemble (some (scratch ++ payload)) rest
    | 4 => match begun with
      | none => .drop payload.length (text "missing start of fragmented record(2)") ::
          assemble none rest
      | some scratch => .record (scratch ++ payload) :: assemble none rest
    -- the two numbers that stand for the end of the file and for a bad fragment
    | 5 => []
    | 6 => lost begun "error in middle of record" ++ assemble none rest
    | other => .drop (payload.length + (begun.getD []).length)
        (text s!"unknown record type {other}") :: assemble none rest

/-- The outcomes of a log. -/
def outcomes (checksum : Bool) (log : Bytes) : List Outcome := assemble none (events checksum log)

theorem events_eq_eventsFrom (checksum : Bool) (log : Bytes) :
    events checksum log = eventsFrom checksum 32768 log := by
  rw [events, eventsFrom]

/-- The bytes of a fragment. -/
def piece (t : RecordType) (payload : Bytes) : Bytes := header t payload ++ payload

@[simp] theorem length_piece (t : RecordType) (payload : Bytes) :
    (piece t payload).length = 7 + payload.length := by
  rw [piece, List.length_append, length_header]

/-- A fragment at the front of what is left of a block. -/
theorem block_piece (checksum last : Bool) (t : RecordType) (payload rest : Bytes)
    (fits : payload.length < 65536) (known : t ≠ .kZeroType) :
    block checksum last (piece t payload ++ rest) =
      .fragment t.number payload :: block checksum last rest := by
  have length : lengthOf (piece t payload ++ rest) = payload.length := by
    rw [piece, List.append_assoc, lengthOf_header _ _ _ fits]
  have type : typeOf (piece t payload ++ rest) = t.number := by
    rw [piece, List.append_assoc, typeOf_header]
  have behind : (piece t payload ++ rest).drop (7 + payload.length) = rest :=
    List.drop_left' (length_piece t payload)
  have inside : ((piece t payload ++ rest).drop 7).take payload.length = payload := by
    rw [piece, List.append_assoc, List.drop_left' (length_header t payload), List.take_left' rfl]
  have sum : Crc32c.Value (((piece t payload ++ rest).drop 6).take (1 + payload.length)) =
      Unmask (DecodeFixed32 (piece t payload ++ rest)) := by
    rw [piece, List.append_assoc, checksum_header]
  have number : ¬ (t.number = 0 ∧ payload.length = 0) := fun zero => known (by
    cases t <;> first | rfl | exact absurd zero.1 (by decide))
  rw [block, length, type, behind, inside, if_neg, if_neg, if_neg number,
    if_neg fun differs => differs.2 sum]
  all_goals
    rw [List.length_append, length_piece]
    omega

/-- A fragment that the log ends in is none, or it is seen to be cut. -/
theorem block_cut (checksum : Bool) (t : RecordType) (payload : Bytes)
    (fits : payload.length < 65536) (count : Nat) (short : count < 7 + payload.length) :
    block checksum true ((piece t payload).take count) = [] ∨
      block checksum true ((piece t payload).take count) = [.cut] := by
  have length : ((piece t payload).take count).length = count := by
    rw [List.length_take, length_piece, Nat.min_eq_left (Nat.le_of_lt short)]
  by_cases header : count < 7
  · exact .inl (by rw [block, length, if_pos header])
  · have same : (piece t payload).take count =
        Log.header t payload ++ payload.take (count - 7) := by
      rw [piece, List.take_append, length_header, List.take_of_length_le
        (by rw [length_header]; omega)]
    have inHeader : lengthOf ((piece t payload).take count) = payload.length := by
      rw [same, lengthOf_header _ _ _ fits]
    exact .inr (by rw [block, length, inHeader, if_neg header, if_pos short, if_pos rfl])

/-! ### The place of fragments -/

/-- Where a fragment goes that comes behind `pos` bytes: a header stays in one block. -/
def place (pos : Nat) : Nat := if pos % 32768 + 7 ≤ 32768 then pos else (pos / 32768 + 1) * 32768

/-- How many bytes of a record a fragment has room for, behind `pos` bytes. -/
def space (pos : Nat) : Nat := 32768 - place pos % 32768 - 7

/-- Each of the fragments, the first behind `pos` bytes, is in one block. -/
def Placed : Nat → List (RecordType × Bytes) → Prop
  | _, [] => True
  | pos, (t, payload) :: rest =>
    t ≠ .kZeroType ∧ payload.length ≤ space pos ∧ Placed (place pos + 7 + payload.length) rest

/-- The bytes of fragments, the first behind `pos` bytes. -/
def laid : Nat → List (RecordType × Bytes) → Bytes
  | _, [] => []
  | pos, (t, payload) :: rest =>
    List.replicate (place pos - pos) 0 ++ (piece t payload ++
      laid (place pos + 7 + payload.length) rest)

/-- The fragments that lie in the first `count` bytes as a whole. -/
def whole : Nat → List (RecordType × Bytes) → Nat → List (RecordType × Bytes)
  | _, [], _ => []
  | pos, (t, payload) :: rest, count =>
    if place pos - pos + (7 + payload.length) ≤ count then
      (t, payload) :: whole (place pos + 7 + payload.length) rest
        (count - (place pos - pos + (7 + payload.length)))
    else []

theorem place_cases (pos : Nat) :
    place pos = pos ∧ pos % 32768 + 7 ≤ 32768 ∨
      place pos % 32768 = 0 ∧ 0 < place pos - pos ∧ place pos - pos < 7 ∧
        pos % 32768 + (place pos - pos) = 32768 := by
  unfold place
  split
  · exact .inl ⟨rfl, by assumption⟩
  · exact .inr (by omega)

theorem le_place (pos : Nat) : pos ≤ place pos := by
  rcases place_cases pos with ⟨same, _⟩ | next <;> omega

theorem space_lt (pos : Nat) : space pos < 65536 := by
  unfold space
  omega

/-- The end of a fragment in its block. -/
theorem place_fits {pos length : Nat} (fits : length ≤ space pos) :
    place pos % 32768 + (7 + length) ≤ 32768 := by
  unfold space at fits
  rcases place_cases pos with ⟨same, header⟩ | ⟨zero, _⟩ <;> omega

theorem laid_append (pos : Nat) (front back : List (RecordType × Bytes)) :
    laid pos (front ++ back) = laid pos front ++ laid (pos + (laid pos front).length) back := by
  induction front generalizing pos with
  | nil => rfl
  | cons fragment front hypothesis =>
    obtain ⟨t, payload⟩ := fragment
    have further := le_place pos
    rw [List.cons_append, laid, hypothesis, laid]
    simp only [List.append_assoc, List.length_append, List.length_replicate, length_piece]
    congr 4
    omega

theorem eventsFrom_append (checksum : Bool) (room : Nat) (front rest : Bytes)
    (inside : front.length ≤ room) (event : List Event)
    (read : ∀ last more, block checksum last (front ++ more) = event ++ block checksum last more) :
    eventsFrom checksum room (front ++ rest) =
      event ++ eventsFrom checksum (room - front.length) rest := by
  unfold eventsFrom
  rw [List.length_append]
  by_cases ends : front.length + rest.length < room
  · rw [if_pos ends, if_pos (by omega), read]
  · rw [if_neg ends, if_neg (by omega), List.take_append, List.drop_append,
      List.take_of_length_le inside, List.drop_eq_nil_of_le inside, read, List.nil_append,
      List.append_assoc]

/-- The bytes behind the last header of a block mean nothing. -/
theorem eventsFrom_trailer (checksum : Bool) (room : Nat) (front rest : Bytes)
    (short : room < 7) (all : front.length = room) :
    eventsFrom checksum room (front ++ rest) = eventsFrom checksum 32768 rest := by
  rw [eventsFrom, if_neg (by rw [List.length_append]; omega), List.take_left' all,
    List.drop_left' all, block, if_pos (by omega), List.nil_append, events_eq_eventsFrom]

/-- The zeros in front of a fragment mean nothing. -/
theorem eventsFrom_place (checksum : Bool) (pos count : Nat) (bytes : Bytes) :
    eventsFrom checksum (32768 - pos % 32768)
        ((List.replicate (place pos - pos) 0 ++ bytes).take count) =
      if count < place pos - pos then []
      else eventsFrom checksum (32768 - place pos % 32768)
        (bytes.take (count - (place pos - pos))) := by
  rcases place_cases pos with ⟨same, _⟩ | ⟨zero, positive, short, sum⟩
  · rw [same, Nat.sub_self, if_neg (Nat.not_lt_zero _)]
    rfl
  · have room : 32768 - pos % 32768 = place pos - pos := by omega
    rw [room, zero]
    by_cases ends : count < place pos - pos
    · have length : ((List.replicate (place pos - pos) (0 : UInt8) ++ bytes).take count).length =
          count := by
        rw [List.length_take, List.length_append, List.length_replicate]
        omega
      rw [if_pos ends, eventsFrom, length, if_pos ends, block, length, if_pos (by omega)]
    · rw [if_neg ends, List.take_append, List.length_replicate,
        List.take_of_length_le (by rw [List.length_replicate]; omega)]
      exact eventsFrom_trailer checksum _ _ _ short (List.length_replicate ..)

/-- The room behind a fragment. -/
theorem eventsFrom_behind (checksum : Bool) {pos length : Nat} (fits : length ≤ space pos)
    (rest : Bytes) :
    eventsFrom checksum (32768 - place pos % 32768 - (7 + length)) rest =
      eventsFrom checksum (32768 - (place pos + 7 + length) % 32768) rest := by
  have inBlock := place_fits fits
  by_cases full : place pos % 32768 + (7 + length) = 32768
  · rw [show 32768 - place pos % 32768 - (7 + length) = 0 by omega,
      show (place pos + 7 + length) % 32768 = 0 by omega]
    exact eventsFrom_trailer checksum 0 [] rest (by decide) rfl
  · rw [show 32768 - place pos % 32768 - (7 + length) =
      32768 - (place pos + 7 + length) % 32768 by omega]

/-- The bytes of fragments, cut anywhere, mean the fragments that lie in them as a whole. -/
theorem events_laid (checksum : Bool) (pos : Nat) (fragments : List (RecordType × Bytes))
    (placed : Placed pos fragments) (count : Nat) :
    ∃ tail, (tail = [] ∨ tail = [.cut]) ∧
      eventsFrom checksum (32768 - pos % 32768) ((laid pos fragments).take count) =
        (whole pos fragments count).map (fun fragment => .fragment fragment.1.number fragment.2) ++
          tail := by
  induction fragments generalizing pos count with
  | nil =>
    have room : ([] : Bytes).length < 32768 - pos % 32768 := by
      rw [List.length_nil]
      omega
    refine ⟨[], .inl rfl, ?_⟩
    rw [laid, List.take_nil, eventsFrom, if_pos room, block, if_pos (by decide)]
    rfl
  | cons fragment rest hypothesis =>
    obtain ⟨t, payload⟩ := fragment
    obtain ⟨known, fits, after⟩ := placed
    have inBlock := place_fits fits
    have small : payload.length < 65536 := Nat.lt_of_le_of_lt fits (space_lt pos)
    rw [laid, whole, eventsFrom_place]
    by_cases turned : count < place pos - pos
    · exact ⟨[], .inl rfl, by rw [if_pos turned, if_neg (by omega)]; rfl⟩
    rw [if_neg turned]
    by_cases inside : place pos - pos + (7 + payload.length) ≤ count
    · obtain ⟨tail, cases, eventsEq⟩ := hypothesis _ after
        (count - (place pos - pos + (7 + payload.length)))
      refine ⟨tail, cases, ?_⟩
      rw [if_pos inside, List.take_append, length_piece,
        List.take_of_length_le (by rw [length_piece]; omega),
        eventsFrom_append checksum _ _ _ (by rw [length_piece]; omega) [.fragment t.number payload]
          fun last more => block_piece checksum last t payload more small known,
        length_piece, eventsFrom_behind checksum fits, Nat.sub_sub, eventsEq]
      rfl
    · have short : count - (place pos - pos) < 7 + payload.length := by omega
      have length : ((piece t payload).take (count - (place pos - pos))).length =
          count - (place pos - pos) := by
        rw [List.length_take, length_piece]
        omega
      rw [if_neg inside, List.take_append_of_le_length (by rw [length_piece]; omega), eventsFrom,
        length, if_pos (by omega)]
      exact ⟨_, block_cut checksum t payload small _ short, rfl⟩

/-- Behind a fragment that fills its block comes an empty one. -/
theorem space_turned (pos : Nat) : space (place pos + 7 + space pos) = 32761 := by
  have multiple : (place pos + 7 + space pos) % 32768 = 0 := by
    have header := place_cases pos
    unfold space
    omega
  have same : place (place pos + 7 + space pos) = place pos + 7 + space pos := by
    rw [place, if_pos (by omega)]
  rw [space, same, multiple]

/-! ### The fragments of a record -/

/-- A record in fragments, the first behind `pos` bytes. -/
def split (pos : Nat) (record : Bytes) : List Bytes :=
  if record.length ≤ space pos then [record]
  else record.take (space pos) ::
    split (place pos + 7 + space pos) (record.drop (space pos))
termination_by (record.length, if space pos = 0 then 1 else 0)
decreasing_by
  rw [List.length_drop]
  by_cases full : space pos = 0
  · rw [if_pos full, if_neg (by rw [space_turned]; decide), full]
    exact Prod.Lex.right _ Nat.one_pos
  · exact Prod.Lex.left _ _ (by omega)

/-- The types of the fragments of a record, which begins with them or goes on. -/
def typed : Bool → List Bytes → List (RecordType × Bytes)
  | _, [] => []
  | begin, [last] => [(if begin then .kFullType else .kLastType, last)]
  | begin, payload :: next :: rest => (if begin then .kFirstType else .kMiddleType, payload) ::
      typed false (next :: rest)

/-- The fragments of a record, the first behind `pos` bytes. -/
def fragments (pos : Nat) (record : Bytes) : List (RecordType × Bytes) :=
  typed true (split pos record)

/-- The fragments of records, the first behind `pos` bytes. -/
def fragmentsOf : Nat → List Bytes → List (RecordType × Bytes)
  | _, [] => []
  | pos, record :: rest => fragments pos record ++
      fragmentsOf (pos + (laid pos (fragments pos record)).length) rest

/-- The log of records. -/
def logOf (records : List Bytes) : Bytes := laid 0 (fragmentsOf 0 records)

theorem flatten_split (pos : Nat) (record : Bytes) : (split pos record).flatten = record := by
  induction pos, record using split.induct with
  | case1 pos record last =>
    rw [split, if_pos last]
    exact List.append_nil record
  | case2 pos record more hypothesis =>
    rw [split, if_neg more, List.flatten_cons, hypothesis, List.take_append_drop]

theorem split_ne_nil (pos : Nat) (record : Bytes) : split pos record ≠ [] := by
  rw [split]
  split <;> exact List.cons_ne_nil _ _

theorem placed_typed (begin : Bool) (pos : Nat) (record : Bytes) :
    Placed pos (typed begin (split pos record)) := by
  induction pos, record using split.induct generalizing begin with
  | case1 pos record last =>
    rw [split, if_pos last]
    exact ⟨by cases begin <;> decide, last, trivial⟩
  | case2 pos record more hypothesis =>
    rw [split, if_neg more]
    obtain ⟨next, rest, restEq⟩ := List.exists_cons_of_ne_nil
      (split_ne_nil (place pos + 7 + space pos) (record.drop (space pos)))
    have length : (record.take (space pos)).length = space pos := by
      rw [List.length_take]
      omega
    have placed := hypothesis false
    rw [restEq] at placed ⊢
    rw [typed, Placed, length]
    exact ⟨by cases begin <;> decide, Nat.le_refl _, placed⟩

theorem placed_append (pos : Nat) (front back : List (RecordType × Bytes)) :
    Placed pos (front ++ back) ↔
      Placed pos front ∧ Placed (pos + (laid pos front).length) back := by
  induction front generalizing pos with
  | nil => exact ⟨fun placed => ⟨trivial, placed⟩, And.right⟩
  | cons fragment front hypothesis =>
    obtain ⟨t, payload⟩ := fragment
    have further := le_place pos
    have same : pos + (laid pos ((t, payload) :: front)).length = place pos + 7 + payload.length +
        (laid (place pos + 7 + payload.length) front).length := by
      rw [laid, List.length_append, List.length_append, List.length_replicate, length_piece]
      omega
    rw [same, List.cons_append, Placed, hypothesis, Placed, and_assoc, and_assoc]

theorem placed_fragmentsOf (pos : Nat) (records : List Bytes) :
    Placed pos (fragmentsOf pos records) := by
  induction records generalizing pos with
  | nil => trivial
  | cons record rest hypothesis =>
    exact (placed_append ..).mpr ⟨placed_typed true pos record, hypothesis _⟩

theorem fragmentsOf_append (pos : Nat) (front back : List Bytes) :
    fragmentsOf pos (front ++ back) = fragmentsOf pos front ++
      fragmentsOf (pos + (laid pos (fragmentsOf pos front)).length) back := by
  induction front generalizing pos with
  | nil => rfl
  | cons record front hypothesis =>
    rw [List.cons_append, fragmentsOf, hypothesis, fragmentsOf, laid_append, List.append_assoc,
      List.length_append, Nat.add_assoc]

theorem logOf_append (front back : List Bytes) :
    logOf (front ++ back) = logOf front ++
      laid (logOf front).length (fragmentsOf (logOf front).length back) := by
  rw [logOf, fragmentsOf_append, laid_append, Nat.zero_add]
  rfl

/-! ### Cut logs -/

/-- Fragments in front of the cut. -/
theorem whole_behind (pos : Nat) (front back : List (RecordType × Bytes)) (count : Nat)
    (behind : (laid pos front).length ≤ count) :
    whole pos (front ++ back) count =
      front ++ whole (pos + (laid pos front).length) back (count - (laid pos front).length) := by
  induction front generalizing pos count with
  | nil => rfl
  | cons fragment front hypothesis =>
    obtain ⟨t, payload⟩ := fragment
    have further := le_place pos
    have length : (laid pos ((t, payload) :: front)).length = place pos - pos +
        (7 + payload.length) + (laid (place pos + 7 + payload.length) front).length := by
      rw [laid, List.length_append, List.length_append, List.length_replicate, length_piece]
      omega
    rw [length] at behind ⊢
    rw [List.cons_append, whole, if_pos (by omega), hypothesis _ _ (by omega), List.cons_append]
    congr 3 <;> omega

/-- Fragments that the cut is in. -/
theorem whole_before (pos : Nat) (front back : List (RecordType × Bytes)) (count : Nat)
    (before : count < (laid pos front).length) :
    ∃ rest, rest ≠ [] ∧ whole pos (front ++ back) count ++ rest = front := by
  induction front generalizing pos count with
  | nil => exact absurd before (Nat.not_lt_zero _)
  | cons fragment front hypothesis =>
    obtain ⟨t, payload⟩ := fragment
    rw [laid, List.length_append, List.length_append, List.length_replicate, length_piece] at before
    rw [List.cons_append, whole]
    by_cases inside : place pos - pos + (7 + payload.length) ≤ count
    · obtain ⟨rest, more, split⟩ := hypothesis (place pos + 7 + payload.length)
        (count - (place pos - pos + (7 + payload.length))) (by omega)
      exact ⟨rest, more, by rw [if_pos inside, List.cons_append, split]⟩
    · exact ⟨_, List.cons_ne_nil _ _, by rw [if_neg inside, List.nil_append]⟩

/-- The event of a fragment. -/
def event (fragment : RecordType × Bytes) : Event := .fragment fragment.1.number fragment.2

/-- The fragments of a record make it up. -/
theorem assemble_typed (scratch : Bytes) (payloads : List Bytes) (more : payloads ≠ [])
    (rest : List Event) :
    assemble (some scratch) ((typed false payloads).map event ++ rest) =
      .record (scratch ++ payloads.flatten) :: assemble none rest := by
  induction payloads generalizing scratch with
  | nil => exact absurd rfl more
  | cons payload payloads hypothesis =>
    cases payloads with
    | nil =>
      rw [List.flatten_singleton]
      rfl
    | cons next payloads =>
      rw [List.flatten_cons, ← List.append_assoc, ← hypothesis _ (List.cons_ne_nil _ _)]
      rfl

theorem assemble_fragments (pos : Nat) (record : Bytes) (rest : List Event) :
    assemble none ((fragments pos record).map event ++ rest) =
      .record record :: assemble none rest := by
  rw [fragments]
  conv => rhs; rw [← flatten_split pos record]
  obtain ⟨payload, payloads, splitEq⟩ := List.exists_cons_of_ne_nil (split_ne_nil pos record)
  rw [splitEq]
  cases payloads with
  | nil =>
    rw [List.flatten_singleton]
    rfl
  | cons next payloads =>
    rw [List.flatten_cons]
    exact assemble_typed payload (next :: payloads) (List.cons_ne_nil _ _) rest

/-- The first fragments of a record make up nothing. -/
theorem assemble_begun (begin : Bool) (begun : Option Bytes) (agrees : begun.isNone = begin)
    (payloads : List Bytes) (front rest : List (RecordType × Bytes)) (more : rest ≠ [])
    (splitEq : front ++ rest = typed begin payloads) (tail : List Event)
    (ends : tail = [] ∨ tail = [.cut]) :
    assemble begun (front.map event ++ tail) = [] := by
  induction front generalizing begin begun payloads with
  | nil => rcases ends with rfl | rfl <;> rfl
  | cons fragment front hypothesis =>
    cases payloads with
    | nil => cases splitEq
    | cons payload payloads =>
      cases payloads with
      | nil =>
        rw [typed, List.cons_append, List.cons.injEq, List.append_eq_nil_iff] at splitEq
        exact absurd splitEq.2.2 more
      | cons next payloads =>
        rw [typed, List.cons_append, List.cons.injEq] at splitEq
        rw [splitEq.1]
        cases begin with
        | true =>
          obtain rfl : begun = none := Option.isNone_iff_eq_none.mp agrees
          exact hypothesis false (some payload) rfl _ splitEq.2
        | false =>
          cases begun with
          | none => cases agrees
          | some scratch => exact hypothesis false (some (scratch ++ payload)) rfl _ splitEq.2

theorem assemble_fragmentsOf (pos : Nat) (records : List Bytes) (rest : List Event) :
    assemble none ((fragmentsOf pos records).map event ++ rest) =
      records.map .record ++ assemble none rest := by
  induction records generalizing pos with
  | nil => rfl
  | cons record records hypothesis =>
    rw [fragmentsOf, List.map_append, List.append_assoc, assemble_fragments, hypothesis]
    rfl

/-- A log that is cut behind some records, in the next one, means these records. -/
theorem outcomes_cut (checksum : Bool) (records more : List Bytes) (record : Bytes) (count : Nat)
    (behind : (logOf records).length ≤ count) (before : count < (logOf (records ++ [record])).length) :
    outcomes checksum ((logOf (records ++ record :: more)).take count) = records.map .record := by
  obtain ⟨tail, ends, eventsEq⟩ := events_laid checksum 0 _
    (placed_fragmentsOf 0 (records ++ record :: more)) count
  rw [logOf_append, List.length_append, fragmentsOf, fragmentsOf, List.append_nil] at before
  obtain ⟨rest, left, splitEq⟩ := whole_before (logOf records).length
    (fragments (logOf records).length record) (fragmentsOf ((logOf records).length +
      (laid (logOf records).length (fragments (logOf records).length record)).length) more)
    (count - (logOf records).length) (by omega)
  have found : whole 0 (fragmentsOf 0 (records ++ record :: more)) count =
      fragmentsOf 0 records ++ whole (logOf records).length
        (fragmentsOf (logOf records).length (record :: more)) (count - (logOf records).length) := by
    rw [fragmentsOf_append, whole_behind _ _ _ _ behind, Nat.zero_add]
    rfl
  rw [outcomes, events_eq_eventsFrom]
  refine (congrArg (assemble none) eventsEq).trans ?_
  rw [found, List.map_append, List.append_assoc]
  refine (assemble_fragmentsOf 0 records _).trans ?_
  rw [fragmentsOf]
  refine (congrArg _ (assemble_begun true none rfl _ _ rest left splitEq tail ends)).trans ?_
  exact List.append_nil _

/-- One more record. -/
theorem logOf_concat (records : List Bytes) (record : Bytes) :
    logOf (records ++ [record]) = logOf records ++
      laid (logOf records).length (fragments (logOf records).length record) := by
  rw [logOf_append, fragmentsOf, fragmentsOf, List.append_nil]

/-- The records that lie in the first `count` bytes of their log as a whole. -/
theorem exists_front (begun records : List Bytes) (count : Nat)
    (inside : (logOf begun).length ≤ count) :
    ∃ front back, begun ++ records = front ++ back ∧ (logOf front).length ≤ count ∧
      ∀ record rest, back = record :: rest → count < (logOf (front ++ [record])).length := by
  induction records generalizing begun with
  | nil => exact ⟨begun, [], rfl, inside, fun _ _ more => nomatch more⟩
  | cons record rest hypothesis =>
    by_cases further : (logOf (begun ++ [record])).length ≤ count
    · obtain ⟨front, back, split, found⟩ := hypothesis (begun ++ [record]) further
      exact ⟨front, back, (List.append_cons ..).trans split, found⟩
    · refine ⟨begun, record :: rest, rfl, inside, fun first more split => ?_⟩
      obtain ⟨rfl, -⟩ := List.cons.inj split
      exact Nat.lt_of_not_le further

/-- A log means the records that lie in it as a whole. -/
theorem outcomes_front (checksum : Bool) (front back : List Bytes) (count : Nat)
    (inside : (logOf front).length ≤ count)
    (next : ∀ record rest, back = record :: rest → count < (logOf (front ++ [record])).length) :
    outcomes checksum ((logOf (front ++ back)).take count) = front.map .record := by
  cases back with
  | cons record rest => exact outcomes_cut checksum front rest record count inside (next _ _ rfl)
  | nil =>
    have longer : (logOf front).length < (logOf (front ++ [[]])).length := by
      have single : split (logOf front).length [] = [[]] := by
        rw [split, if_pos (by exact Nat.zero_le _)]
      rw [logOf_concat, List.length_append, fragments, single, typed, laid, List.length_append,
        List.length_append, length_piece]
      omega
    have same := outcomes_cut checksum front [] [] (logOf front).length (Nat.le_refl _) longer
    rw [logOf_append, List.take_left' rfl] at same
    rw [List.append_nil, List.take_of_length_le inside, same]

end Log

end LevelDBLib.Navi
