/-
This file models `MyStream`, the byte stream of the geometry query, and its variable-length
integers. The writer shifts a signed number, which never becomes zero once it is negative,
and the reader shifts one back. Both are right as long as the zigzag code of a value leaves
the sign bit free; for other values the writer runs out of its buffer, however large, and
the reader decodes what `Record` wrote to another value.
-/

import LevelDBLib.KvDB.VarInt

namespace LevelDBLib.KvDB

open Buffers Varints

/-- `MyStream`; nothing is known of the bytes of a new buffer. -/
structure MyStream where
  _pcBuf : Bytes
  _nReadPos : Nat
  _nWritePos : Nat
deriving DecidableEq, Repr

def ENCODE_ZIG_ZAG (n : BitVec 32) : BitVec 32 := (n <<< 1) ^^^ n.sshiftRight 31

def DECODE_ZIG_ZAG (n : BitVec 32) : BitVec 32 := n.sshiftRight 1 ^^^ -(n &&& 1)

namespace MyStream

/-- `MyStream(nBufSize)`, over the buffer it allocates. -/
def new (_pcBuf : Bytes) : MyStream := ⟨_pcBuf, 0, 0⟩

/-- `MyStream(pcBuf, nSize)`, over bytes that are there. -/
def filled (pcBuf : Bytes) : MyStream := ⟨pcBuf, 0, pcBuf.length⟩

def rest_size (stream : MyStream) : Int := stream._nWritePos - stream._nReadPos

/-- `_pcBuf[_nWritePos++] = byte`. -/
def put (stream : MyStream) (byte : UInt8) : Except Fault MyStream := do
  let _pcBuf ← memcpy stream._pcBuf stream._nWritePos [byte]
  .ok { stream with _pcBuf := _pcBuf, _nWritePos := stream._nWritePos + 1 }

/-- `b = _pcBuf[_nReadPos++]`. -/
def next (stream : MyStream) : Except Fault (BitVec 32 × MyStream) :=
  match stream._pcBuf[stream._nReadPos]? with
  | none => .error .outOfBounds
  | some b => .ok (b.toBitVec.setWidth 32, { stream with _nReadPos := stream._nReadPos + 1 })

/-- The loop of `writeVarInt`. -/
def writeGroups : Nat → MyStream → BitVec 32 → Except Fault MyStream
  | 0, _, _ => .error .nonTermination
  | fuel + 1, stream, nVal =>
    if nVal &&& ~~~0x7F#32 = 0 then stream.put (UInt8.ofNat nVal.toNat)
    else do
      let stream ← stream.put (UInt8.ofNat (nVal &&& 0x7F ||| 0x80).toNat)
      writeGroups fuel stream (nVal.sshiftRight 7)

/-- `writeVarInt`; every iteration takes a byte of the buffer. -/
def writeVarInt (stream : MyStream) (nVal : BitVec 32) : Except Fault MyStream :=
  writeGroups (stream._pcBuf.length - stream._nWritePos + 1) stream (ENCODE_ZIG_ZAG nVal)

/-- `readVarInt`: up to five bytes, the last one unmasked. -/
def readVarInt (stream : MyStream) : Except Fault (BitVec 32 × MyStream) := do
  let (b, stream) ← stream.next
  let result := b &&& 0x7F
  if b &&& 0x80 = 0 then .ok (DECODE_ZIG_ZAG result, stream)
  else
    let (b, stream) ← stream.next
    let result := result ||| ((b &&& 0x7F) <<< 7)
    if b &&& 0x80 = 0 then .ok (DECODE_ZIG_ZAG result, stream)
    else
      let (b, stream) ← stream.next
      let result := result ||| ((b &&& 0x7F) <<< 14)
      if b &&& 0x80 = 0 then .ok (DECODE_ZIG_ZAG result, stream)
      else
        let (b, stream) ← stream.next
        let result := result ||| ((b &&& 0x7F) <<< 21)
        if b &&& 0x80 = 0 then .ok (DECODE_ZIG_ZAG result, stream)
        else
          let (b, stream) ← stream.next
          let result := result ||| (b <<< 28)
          .ok (DECODE_ZIG_ZAG result, stream)

/-! ### The zigzag code -/

/-- The values whose zigzag code leaves the sign bit free. -/
def Small (value : BitVec 32) : Prop := -1073741824 ≤ value.toInt ∧ value.toInt < 1073741824

instance (value : BitVec 32) : Decidable (Small value) := inferInstanceAs (Decidable (_ ∧ _))

theorem msb_Zig_iff (value : BitVec 32) : (Zig value).msb = false ↔ Small value :=
  @msb_zig_eq_false_iff 30 value

theorem sshiftRight_of_msb {number : BitVec 32} (nonneg : number.msb = false) (count : Nat) :
    number.sshiftRight count = number >>> count :=
  BitVec.sshiftRight_eq_of_msb_false nonneg

/-- The signed decoding is the unsigned one as long as the sign bit is free. -/
theorem DECODE_ZIG_ZAG_of_msb {number : BitVec 32} (nonneg : number.msb = false) :
    DECODE_ZIG_ZAG number = zag number := by
  rw [DECODE_ZIG_ZAG, sshiftRight_of_msb nonneg, BitVec.xor_comm]
  rfl

theorem getLsbD_zag_top (number : BitVec 32) : (zag number).getLsbD 31 = number.getLsbD 0 := by
  rw [zag, neg_and_one, BitVec.getLsbD_xor, BitVec.getLsbD_ushiftRight,
    BitVec.getLsbD_of_ge number (1 + 31) (by decide), Bool.xor_false]
  cases number.getLsbD 0 <;> simp

/-- A sign bit comes back from the shift, and the decoded value is another one. -/
theorem DECODE_ZIG_ZAG_ne_zag {number : BitVec 32} (negative : number.msb = true) :
    DECODE_ZIG_ZAG number ≠ zag number := by
  intro equal
  have top := congrArg (fun value => value.getLsbD 31) equal
  have kept : (number.sshiftRight 1).getLsbD 31 = true := by
    rw [BitVec.getLsbD_sshiftRight]
    simpa using negative
  have spread : (-(number &&& 1)).getLsbD 31 = number.getLsbD 0 := by
    rw [show (1 : BitVec 32) = 1#(31 + 1) from rfl, neg_and_one]
    cases number.getLsbD 0 <;> simp
  rw [getLsbD_zag_top, DECODE_ZIG_ZAG, BitVec.getLsbD_xor, kept, spread] at top
  cases number.getLsbD 0 <;> simp at top

theorem DECODE_ZIG_ZAG_Zig_iff (value : BitVec 32) :
    DECODE_ZIG_ZAG (Zig value) = value ↔ Small value := by
  have back : zag (Zig value) = value := zag_zig value
  rw [← msb_Zig_iff]
  constructor
  · intro decoded
    by_contra negative
    exact DECODE_ZIG_ZAG_ne_zag (Bool.not_eq_false _ ▸ negative) (decoded.trans back.symm)
  · intro nonneg
    rw [DECODE_ZIG_ZAG_of_msb nonneg, back]

/-! ### Writing -/

variable {stream : MyStream}

theorem put_eq (stream : MyStream) (byte : UInt8) :
    stream.put byte = if stream._nWritePos + 1 ≤ stream._pcBuf.length then
      .ok { stream with _pcBuf := splice stream._pcBuf stream._nWritePos [byte]
                        _nWritePos := stream._nWritePos + 1 }
    else .error .outOfBounds := by
  rw [put, memcpy, List.length_singleton]
  split <;> rfl

/-- The mask leaves nothing when no bit is left for another group. -/
theorem mask_eq_zero_iff (number : BitVec 32) : number &&& ~~~0x7F#32 = 0 ↔ number.toNat < 128 := by
  have mask : number &&& ~~~0x7F#32 = (number >>> 7) <<< 7 := by
    have bits : ∀ index : Fin 32, (~~~0x7F#32).getLsbD index = decide (7 ≤ index.val) := by decide
    refine BitVec.eq_of_getLsbD_eq fun index bound => ?_
    rw [BitVec.getLsbD_and, BitVec.getLsbD_shiftLeft, BitVec.getLsbD_ushiftRight,
      bits ⟨index, bound⟩]
    by_cases low : index < 7
    · simp [low, Nat.not_le.mpr low]
    · simp [low, Nat.le_of_not_lt low, bound]
  have shifted : ((number >>> 7) <<< 7).toNat = number.toNat / 128 * 128 := by
    have bound := number.isLt
    rw [BitVec.toNat_shiftLeft, BitVec.toNat_ushiftRight, Nat.shiftRight_eq_div_pow,
      Nat.shiftLeft_eq]
    exact Nat.mod_eq_of_lt (Nat.lt_of_le_of_lt (Nat.div_mul_le_self _ _) bound)
  rw [mask, ← BitVec.toNat_inj, shifted]
  show number.toNat / 128 * 128 = 0 ↔ _
  omega

theorem toNat_marked (number : BitVec 32) :
    (number &&& 0x7F ||| 0x80).toNat = number.toNat % 128 + 128 := by
  have low : number.toNat &&& 127 = number.toNat % 128 :=
    Nat.and_two_pow_sub_one_eq_mod number.toNat 7
  have digit : number.toNat % 128 < 2 ^ 7 := Nat.mod_lt _ (by decide)
  have apart := Nat.two_pow_add_eq_or_of_lt digit 1
  rw [BitVec.toNat_or, BitVec.toNat_and]
  show number.toNat &&& 127 ||| 128 = _
  rw [low, Nat.or_comm, Nat.add_comm]
  exact apart.symm

theorem shifted_of_msb {number : BitVec 32} (nonneg : number.msb = false) :
    (number.sshiftRight 7).toNat = number.toNat / 128 ∧ (number.sshiftRight 7).msb = false := by
  have shifted : (number.sshiftRight 7).toNat = number.toNat / 128 := by
    rw [sshiftRight_of_msb nonneg, BitVec.toNat_ushiftRight, Nat.shiftRight_eq_div_pow]
  refine ⟨shifted, ?_⟩
  have bound := number.isLt
  rw [BitVec.msb_eq_false_iff_two_mul_lt, shifted]
  omega

/-- The loop writes the groups of a number without a sign, if there is room for them. -/
theorem writeGroups_of_msb (fuel : Nat) (stream : MyStream) (nVal : BitVec 32)
    (nonneg : nVal.msb = false) (enough : stream._pcBuf.length - stream._nWritePos < fuel) :
    writeGroups fuel stream nVal =
      if stream._nWritePos + (groups nVal.toNat).length ≤ stream._pcBuf.length then
        .ok ⟨splice stream._pcBuf stream._nWritePos ((groups nVal.toNat).map UInt8.ofNat),
          stream._nReadPos, stream._nWritePos + (groups nVal.toNat).length⟩
      else .error .outOfBounds := by
  induction fuel generalizing stream nVal with
  | zero => exact absurd enough (Nat.not_lt_zero _)
  | succ fuel hypothesis =>
    rw [writeGroups, put_eq, put_eq]
    by_cases last : nVal.toNat < 128
    · rw [if_pos ((mask_eq_zero_iff nVal).mpr last), groups_of_lt last]
      rfl
    · obtain ⟨shifted, nonnegative⟩ := shifted_of_msb nonneg
      rw [if_neg (mt (mask_eq_zero_iff nVal).mp last), groups_of_ge last, List.length_cons]
      by_cases room : stream._nWritePos + 1 ≤ stream._pcBuf.length
      · have length := length_splice stream._pcBuf stream._nWritePos
          [UInt8.ofNat (nVal &&& 0x7F ||| 0x80).toNat] room
        rw [if_pos room, ok_bind, hypothesis _ _ nonnegative (by dsimp only; omega)]
        dsimp only
        rw [length, shifted, Nat.add_right_comm stream._nWritePos 1, Nat.add_assoc]
        by_cases fits : stream._nWritePos + ((groups (nVal.toNat / 128)).length + 1) ≤
            stream._pcBuf.length
        · have joined := splice_append stream._pcBuf stream._nWritePos
            [UInt8.ofNat (nVal &&& 0x7F ||| 0x80).toNat]
            ((groups (nVal.toNat / 128)).map UInt8.ofNat)
            (by rw [List.length_singleton, List.length_map]; omega)
          rw [List.length_singleton] at joined
          rw [if_pos fits, if_pos fits, joined, toNat_marked]
          rfl
        · rw [if_neg fits, if_neg fits]
      · rw [if_neg room, if_neg (by omega)]
        rfl

/-- Behind a sign bit the loop does not end before the buffer does. -/
theorem writeGroups_of_negative (fuel : Nat) (stream : MyStream) (nVal : BitVec 32)
    (negative : nVal.msb = true) (enough : stream._pcBuf.length - stream._nWritePos < fuel) :
    writeGroups fuel stream nVal = .error .outOfBounds := by
  induction fuel generalizing stream nVal with
  | zero => exact absurd enough (Nat.not_lt_zero _)
  | succ fuel hypothesis =>
    have more : ¬ nVal.toNat < 128 := by
      have large := BitVec.msb_eq_true_iff_two_mul_ge.mp negative
      omega
    rw [writeGroups, put_eq, put_eq, if_neg (mt (mask_eq_zero_iff nVal).mp more)]
    by_cases room : stream._nWritePos + 1 ≤ stream._pcBuf.length
    · have length := length_splice stream._pcBuf stream._nWritePos
        [UInt8.ofNat (nVal &&& 0x7F ||| 0x80).toNat] room
      rw [if_pos room, ok_bind]
      exact hypothesis _ _ (BitVec.msb_sshiftRight.trans negative) (by dsimp only; omega)
    · rw [if_neg room]
      rfl

theorem ENCODE_ZIG_ZAG_eq (value : BitVec 32) : ENCODE_ZIG_ZAG value = Zig value := rfl

theorem length_varIntWrite_eq (value : BitVec 32) :
    (varIntWrite value).length = (groups (Zig value).toNat).length := by
  rw [varIntWrite_eq, List.length_map]

/-- `writeVarInt` writes what `varIntWrite` of a record does, or leaves the buffer. -/
theorem writeVarInt_eq (stream : MyStream) (value : BitVec 32) :
    stream.writeVarInt value =
      if Small value ∧ stream._nWritePos + (varIntWrite value).length ≤ stream._pcBuf.length then
        .ok ⟨splice stream._pcBuf stream._nWritePos (varIntWrite value), stream._nReadPos,
          stream._nWritePos + (varIntWrite value).length⟩
      else .error .outOfBounds := by
  rw [writeVarInt, ENCODE_ZIG_ZAG_eq]
  by_cases small : Small value
  · rw [writeGroups_of_msb _ _ _ ((msb_Zig_iff value).mpr small) (Nat.lt_succ_self _),
      length_varIntWrite_eq, varIntWrite_eq]
    simp only [small, true_and]
  · have negative : (Zig value).msb = true :=
      (Bool.not_eq_false _).mp (mt (msb_Zig_iff value).mp small)
    rw [writeGroups_of_negative _ _ _ negative (Nat.lt_succ_self _),
      if_neg fun both => small both.1]

/-! ### Reading -/

/-- `readVarInt` as a loop: a fifth byte is masked in vain, and ends the number in either case. -/
def gathered : Nat → Nat → BitVec 32 → MyStream → Except Fault (BitVec 32 × MyStream)
  | 0, _, result, stream => .ok (DECODE_ZIG_ZAG result, stream)
  | left + 1, shift, result, stream => do
    let (b, stream) ← stream.next
    if b &&& 0x80 = 0 then .ok (DECODE_ZIG_ZAG (result ||| ((b &&& 0x7F) <<< shift)), stream)
    else gathered left (shift + 7) (result ||| ((b &&& 0x7F) <<< shift)) stream

theorem readVarInt_eq (stream : MyStream) : stream.readVarInt = gathered 5 0 0 stream := by
  unfold readVarInt
  simp only [gathered, or_first, masked_last, Nat.zero_add, Nat.reduceAdd, ite_self]

/-- The bytes that were not read. -/
def unread (stream : MyStream) : Bytes := stream._pcBuf.drop stream._nReadPos

theorem next_of_unread {byte : UInt8} {rest : Bytes} (held : stream.unread = byte :: rest) :
    stream.next = .ok (byte.toBitVec.setWidth 32,
        { stream with _nReadPos := stream._nReadPos + 1 }) ∧
      unread { stream with _nReadPos := stream._nReadPos + 1 } = rest := by
  have here : stream._pcBuf[stream._nReadPos]? = some byte := by
    rw [← List.head?_drop, ← unread, held, List.head?_cons]
  refine ⟨by rw [next, here], ?_⟩
  show stream._pcBuf.drop (stream._nReadPos + 1) = rest
  rw [← List.tail_drop, ← unread, held, List.tail_cons]

theorem toNat_byte (byte : UInt8) : (byte.toBitVec.setWidth 32).toNat = byte.toNat := by
  have bound := byte.toBitVec.isLt
  rw [BitVec.toNat_setWidth, UInt8.toNat_toBitVec]
  exact Nat.mod_eq_of_lt (Nat.lt_trans bound (by decide))

theorem toNat_group (group : Nat) (bound : group < 256) :
    ((UInt8.ofNat group).toBitVec.setWidth 32).toNat = group := by
  rw [toNat_byte, UInt8.toNat_ofNat', Nat.mod_eq_of_lt bound]

/-- The reader rebuilds a number from its groups and stops behind them. -/
theorem gathered_groups (left shift number : Nat) (result : BitVec 32) (rest : Bytes)
    (stream : MyStream) (fits : (groups number).length ≤ left) (low : result.toNat < 2 ^ shift)
    (small : result.toNat + number * 2 ^ shift < 4294967296)
    (held : stream.unread = (groups number).map UInt8.ofNat ++ rest) :
    gathered left shift result stream =
      .ok (DECODE_ZIG_ZAG (BitVec.ofNat 32 (result.toNat + number * 2 ^ shift)),
        { stream with _nReadPos := stream._nReadPos + (groups number).length }) := by
  induction left generalizing shift number result stream with
  | zero => exact absurd (List.length_eq_zero_iff.mp (Nat.le_zero.mp fits)) (groups_ne_nil number)
  | succ left hypothesis =>
    by_cases last : number < 128
    · rw [groups_of_lt last, List.map_singleton, List.singleton_append] at held
      obtain ⟨read, _⟩ := next_of_unread held
      have chunk := toNat_group number (by omega)
      rw [gathered, read, ok_bind, groups_of_lt last]
      dsimp only
      rw [if_pos ((chunk_mark _ (by omega)).mpr (by omega)), gather_last low chunk last small]
      rfl
    · rw [groups_of_ge last, List.map_cons, List.cons_append] at held
      obtain ⟨read, after⟩ := next_of_unread held
      have chunk := toNat_group (number % 128 + 128) (by omega)
      obtain ⟨below, sum⟩ := gather_more low chunk small
      rw [groups_of_ge last, List.length_cons] at fits
      rw [gathered, read, ok_bind, groups_of_ge last, List.length_cons]
      dsimp only
      rw [if_neg (mt (chunk_mark _ (by omega)).mp (by omega)),
        hypothesis _ _ _ _ (by omega) below (by omega) after, sum,
        Nat.add_right_comm stream._nReadPos 1, Nat.add_assoc stream._nReadPos]

theorem readVarInt_varIntWrite (stream : MyStream) (value : BitVec 32) (rest : Bytes)
    (held : stream.unread = varIntWrite value ++ rest) :
    stream.readVarInt = .ok (DECODE_ZIG_ZAG (Zig value),
      { stream with _nReadPos := stream._nReadPos + (varIntWrite value).length }) := by
  have nothing : (0 : BitVec 32).toNat = 0 := rfl
  rw [varIntWrite_eq] at held
  have read := gathered_groups 5 0 (Zig value).toNat 0 rest stream (length_groups_toNat _)
    (by decide) (by rw [nothing]; have := (Zig value).isLt; omega) held
  rw [nothing, Nat.zero_add, Nat.pow_zero, Nat.mul_one, BitVec.ofNat_toNat,
    BitVec.setWidth_eq] at read
  rw [readVarInt_eq, read, length_varIntWrite_eq]

/-! ### Sequences -/

/-- The values are written one after the other, each in at most five bytes. -/
def Written : MyStream → List (BitVec 32) → MyStream → Prop
  | stream, [], last => last = stream
  | stream, nVal :: rest, last => ∃ next, stream.writeVarInt nVal = .ok next ∧
      next._nWritePos ≤ stream._nWritePos + 5 ∧ Written next rest last

/-- `readVarInt`, as often as values are wanted. -/
def readAll : MyStream → Nat → Except Fault (List (BitVec 32) × MyStream)
  | stream, 0 => .ok ([], stream)
  | stream, count + 1 => do
    let (value, stream) ← stream.readVarInt
    let (values, stream) ← readAll stream count
    .ok (value :: values, stream)

/-- Values written into a new stream are read back, with exactly the bytes written. -/
def RoundTrips (_pcBuf : Bytes) (values : List (BitVec 32)) : Prop :=
  ∃ stream, Written (new _pcBuf) values stream ∧
    ∃ after, stream.readAll values.length = .ok (values, after) ∧
      after._nReadPos = stream._nWritePos

/-- What a record writes for the value is read as the value. -/
def Decodes (value : BitVec 32) : Prop :=
  ∃ after, (filled (varIntWrite value)).readVarInt = .ok (value, after) ∧ after.rest_size = 0

/-- The bytes that a record writes for the values. -/
def image (values : List (BitVec 32)) : Bytes := values.flatMap varIntWrite

theorem decodes_iff (value : BitVec 32) : Decodes value ↔ Small value := by
  have read := readVarInt_varIntWrite (filled (varIntWrite value)) value []
    (List.append_nil _).symm
  rw [← DECODE_ZIG_ZAG_Zig_iff]
  constructor
  · rintro ⟨after, returned, _⟩
    exact congrArg Prod.fst (Except.ok.inj (read.symm.trans returned))
  · intro decoded
    rw [decoded] at read
    refine ⟨_, read, ?_⟩
    show ((varIntWrite value).length : Int) - (0 + (varIntWrite value).length : Nat) = 0
    omega

theorem readAll_image (values : List (BitVec 32)) (rest : Bytes) (stream : MyStream)
    (small : ∀ value ∈ values, Small value) (held : stream.unread = image values ++ rest) :
    stream.readAll values.length = .ok (values,
      { stream with _nReadPos := stream._nReadPos + (image values).length }) := by
  induction values generalizing stream with
  | nil => rfl
  | cons value values hypothesis =>
    rw [image, List.flatMap_cons, List.append_assoc] at held
    have read := readVarInt_varIntWrite stream value _ held
    have after : unread { stream with _nReadPos := stream._nReadPos + (varIntWrite value).length } =
        image values ++ rest := by
      show stream._pcBuf.drop (stream._nReadPos + (varIntWrite value).length) = _
      rw [← List.drop_drop, ← unread, held, List.drop_left]
      rfl
    rw [List.length_cons, readAll, read,
      (DECODE_ZIG_ZAG_Zig_iff value).mpr (small value List.mem_cons_self), ok_bind]
    dsimp only
    rw [hypothesis _ (fun other member => small other (List.mem_cons_of_mem _ member)) after,
      ok_bind, image, image, List.flatMap_cons, List.length_append, Nat.add_assoc]

/-- Small values are written one behind the other, if there is room. -/
theorem written_of_small (values : List (BitVec 32)) (stream : MyStream)
    (small : ∀ value ∈ values, Small value)
    (room : stream._nWritePos + (image values).length ≤ stream._pcBuf.length) :
    Written stream values ⟨splice stream._pcBuf stream._nWritePos (image values),
      stream._nReadPos, stream._nWritePos + (image values).length⟩ := by
  induction values generalizing stream with
  | nil => rw [image, List.flatMap_nil, splice_nil]; rfl
  | cons value values hypothesis =>
    rw [image, List.flatMap_cons, List.length_append] at room
    have first : stream._nWritePos + (varIntWrite value).length ≤ stream._pcBuf.length := by omega
    have length := length_splice stream._pcBuf stream._nWritePos (varIntWrite value) first
    have joined := splice_append stream._pcBuf stream._nWritePos (varIntWrite value)
      (image values) room
    refine ⟨⟨splice stream._pcBuf stream._nWritePos (varIntWrite value), stream._nReadPos,
      stream._nWritePos + (varIntWrite value).length⟩, ?_, ?_, ?_⟩
    · rw [writeVarInt_eq, if_pos ⟨small value List.mem_cons_self, first⟩]
    · exact Nat.add_le_add_left (length_varIntWrite value).2 _
    · have later := hypothesis ⟨splice stream._pcBuf stream._nWritePos (varIntWrite value),
        stream._nReadPos, stream._nWritePos + (varIntWrite value).length⟩
        (fun other member => small other (List.mem_cons_of_mem _ member))
        (by rw [length, Nat.add_assoc]; exact room)
      rw [joined, Nat.add_assoc] at later
      rw [image, List.flatMap_cons, List.length_append]
      exact later

theorem Written.small {values : List (BitVec 32)} {stream last : MyStream}
    (written : Written stream values last) (inside : stream._nWritePos ≤ stream._pcBuf.length) :
    (∀ value ∈ values, Small value) ∧
      stream._nWritePos + (image values).length ≤ stream._pcBuf.length := by
  induction values generalizing stream with
  | nil => exact ⟨fun _ member => absurd member List.not_mem_nil, inside⟩
  | cons value values hypothesis =>
    obtain ⟨next, returned, _, later⟩ := written
    rw [writeVarInt_eq] at returned
    split at returned
    · rename_i fits
      cases returned
      have length := length_splice stream._pcBuf stream._nWritePos (varIntWrite value) fits.2
      obtain ⟨small, room⟩ := hypothesis later (by dsimp only; rw [length]; exact fits.2)
      dsimp only at room
      rw [length] at room
      refine ⟨fun other member => ?_, ?_⟩
      · rcases List.mem_cons.mp member with rfl | there
        · exact fits.1
        · exact small other there
      · rw [image, List.flatMap_cons, List.length_append]
        unfold image at room
        omega
    · cases returned

theorem roundTrips_iff (_pcBuf : Bytes) (values : List (BitVec 32)) :
    RoundTrips _pcBuf values ↔
      (∀ value ∈ values, Small value) ∧ (image values).length ≤ _pcBuf.length := by
  constructor
  · rintro ⟨stream, written, _⟩
    obtain ⟨small, room⟩ := written.small (Nat.zero_le _)
    rw [new, Nat.zero_add] at room
    exact ⟨small, room⟩
  · rintro ⟨small, room⟩
    have written := written_of_small values (new _pcBuf) small (by rw [new, Nat.zero_add]; exact room)
    refine ⟨_, written, _, readAll_image values (_pcBuf.drop (image values).length) _ small ?_, rfl⟩
    show (splice _pcBuf 0 (image values)).drop 0 = _
    rw [List.drop_zero, splice, List.take_zero, List.nil_append, Nat.zero_add]

/-- Variable-length integers: values written into a new stream come back exactly when each leaves
the sign bit of its zigzag code free and the buffer has room for their bytes; and what a record
writes for a value is read as the value exactly when the sign bit is free. -/
theorem varInts_round_trip_iff (_pcBuf : Bytes) (values : List (BitVec 32)) (value : BitVec 32) :
    (RoundTrips _pcBuf values ↔
      (∀ value ∈ values, Small value) ∧ (image values).length ≤ _pcBuf.length) ∧
    (Decodes value ↔ Small value) :=
  ⟨roundTrips_iff _pcBuf values, decodes_iff value⟩

/-- The value 2^30 fills every buffer, and a record writes it so that it is read as -2^30. -/
theorem varInts_not_kept :
    (∀ _pcBuf, (new _pcBuf).writeVarInt 1073741824 = .error .outOfBounds) ∧
      (∀ _pcBuf, ¬ RoundTrips _pcBuf [1073741824]) ∧
      (filled (varIntWrite 1073741824)).readVarInt =
        .ok (-1073741824, ⟨[128, 128, 128, 128, 8], 5, 5⟩) ∧
      ¬ Decodes 1073741824 := by
  have large : ¬ Small 1073741824 := by decide
  refine ⟨fun _pcBuf => ?_, fun _pcBuf => ?_, by decide, mt (decodes_iff _).mp large⟩
  · rw [writeVarInt_eq, if_neg fun both => large both.1]
  · exact fun kept => large (((roundTrips_iff _ _).mp kept).1 _ List.mem_cons_self)

end MyStream

end LevelDBLib.KvDB
