/-
This file models `GeometryQuery::getGeometryByRoadId`: the bytes of a field are read as
variable-length integers until none is left, and every two of them are a point, relative to
the first one. The loop asks whether exactly nothing is left, so a last integer that is cut
off is read past the end of the bytes. Where none is cut off the loop ends, and it returns
the points that were encoded when each coordinate is one that `MyStream` can read.
-/

import LevelDBLib.KvDB.MyStream

namespace LevelDBLib.KvDB

namespace GeometryQuery

/-- What the loop changes. -/
structure Decoding where
  oStream : MyStream
  arrayPoint : BitVec 32 × BitVec 32
  nCount : Nat
  bFirstPoint : Bool
  nFirX : BitVec 32
  nFirY : BitVec 32
  vecGeometry : List (BitVec 32)
deriving DecidableEq, Repr

namespace Decoding

def start (pcBuf : Bytes) (vecGeometry : List (BitVec 32)) : Decoding :=
  ⟨.filled pcBuf, (0, 0), 0, true, 0, 0, vecGeometry⟩

/-- `arrayPoint[nCount++ % 2] = value`. -/
def store (decoding : Decoding) (value : BitVec 32) (oStream : MyStream) : Decoding :=
  { decoding with
    oStream := oStream
    arrayPoint := if decoding.nCount % 2 = 0 then (value, decoding.arrayPoint.2)
      else (decoding.arrayPoint.1, value)
    nCount := decoding.nCount + 1 }

/-- A point is complete after every second value. -/
def point (decoding : Decoding) : Decoding :=
  if decoding.nCount % 2 = 0 then
    if decoding.bFirstPoint then
      { decoding with
        bFirstPoint := false
        nFirX := decoding.arrayPoint.1
        nFirY := decoding.arrayPoint.2
        vecGeometry := decoding.vecGeometry ++ [decoding.arrayPoint.1, decoding.arrayPoint.2] }
    else
      { decoding with
        vecGeometry := decoding.vecGeometry ++ [decoding.arrayPoint.1 + decoding.nFirX,
          decoding.arrayPoint.2 + decoding.nFirY] }
  else decoding

/-- The loop; every iteration reads a byte. -/
def loop : Nat → Decoding → Except Fault Decoding
  | 0, _ => .error .nonTermination
  | fuel + 1, decoding =>
    if decoding.oStream.rest_size ≠ 0 then do
      let (value, oStream) ← decoding.oStream.readVarInt
      loop fuel (decoding.store value oStream).point
    else .ok decoding

end Decoding

/-- `getGeometryByRoadId`; `pcBuf` is the field of the record that the search found. -/
def getGeometryByRoadId (_bIsOpen : Bool) (pcBuf : Option Bytes)
    (vecGeometry : List (BitVec 32)) : Except Fault (Bool × List (BitVec 32)) :=
  if _bIsOpen then
    match pcBuf with
    | none => .ok (false, vecGeometry)
    | some pcBuf => do
      let decoding ← Decoding.loop (pcBuf.length + 1) (.start pcBuf vecGeometry)
      .ok (true, decoding.vecGeometry)
  else .ok (false, vecGeometry)

/-! ### The end of an integer -/

/-- Behind `pending` marked bytes of an integer, the bytes finish it and are whole integers from
there on; an integer ends with a byte that is not marked or with its fifth byte. -/
def whole : Nat → Bytes → Bool
  | pending, [] => pending = 0
  | pending, b :: rest => if b.toNat < 128 ∨ pending = 4 then whole 0 rest else whole (pending + 1) rest

/-- The loop ends and touches no byte outside the field. -/
def Total (vecGeometry : List (BitVec 32)) (pcBuf : Bytes) : Prop :=
  ∃ geometry, getGeometryByRoadId true (some pcBuf) vecGeometry = .ok (true, geometry)

open MyStream

/-- A read that ended on a byte of the buffer, with as many whole integers behind as before; or one
that left the buffer in the middle of an integer. -/
def Reads (pending : Nat) (stream : MyStream) (read : Except Fault (BitVec 32 × MyStream)) : Prop :=
  (∃ value pos, read = .ok (value, { stream with _nReadPos := pos }) ∧
    stream._nReadPos < pos ∧ pos ≤ stream._pcBuf.length ∧
    whole pending stream.unread = whole 0 (unread { stream with _nReadPos := pos })) ∨
  (read = .error .outOfBounds ∧ whole pending stream.unread = false)

/-- The last byte of an integer. -/
theorem gathered_last {left pending : Nat} (shift : Nat) (result : BitVec 32) {stream : MyStream}
    {b : UInt8} {rest : Bytes} (held : stream.unread = b :: rest)
    (ends : b.toNat < 128 ∨ pending = 4) (count : left + pending = 4) :
    Reads pending stream (gathered (left + 1) shift result stream) := by
  obtain ⟨read, after⟩ := next_of_unread held
  have inside : stream._nReadPos < stream._pcBuf.length := by
    have length := congrArg List.length held
    rw [unread, List.length_drop, List.length_cons] at length
    omega
  refine .inl ⟨DECODE_ZIG_ZAG (result ||| ((b.toBitVec.setWidth 32 &&& 0x7F) <<< shift)),
    stream._nReadPos + 1, ?_, Nat.lt_succ_self _, inside, ?_⟩
  · rw [gathered, read, ok_bind]
    dsimp only
    by_cases marked : b.toBitVec.setWidth 32 &&& 0x80 = 0
    · rw [if_pos marked]
    · have last : pending = 4 := by
        refine ends.resolve_left fun low => marked ((chunk_mark _ ?_).mpr ?_)
        · rw [toNat_byte]
          exact b.toBitVec.isLt
        · rw [toNat_byte]
          exact low
      obtain rfl : left = 0 := by omega
      rw [if_neg marked, gathered]
  · rw [held, after, whole, if_pos ends]

theorem gathered_past {left pending : Nat} (shift : Nat) (result : BitVec 32) {stream : MyStream}
    (held : stream.unread = []) (more : pending ≠ 0) :
    Reads pending stream (gathered (left + 1) shift result stream) := by
  have past : stream._pcBuf[stream._nReadPos]? = none := by
    rw [← List.head?_drop, ← unread, held, List.head?_nil]
  refine .inr ⟨?_, ?_⟩
  · rw [gathered, next, past]
    rfl
  · rw [held, whole]
    exact decide_eq_false more

theorem gathered_reads (left pending shift : Nat) (result : BitVec 32) (stream : MyStream)
    (count : left + pending = 4) (more : pending ≠ 0 ∨ stream.unread ≠ []) :
    Reads pending stream (gathered (left + 1) shift result stream) := by
  induction left generalizing pending shift result stream with
  | zero =>
    cases held : stream.unread with
    | nil => exact gathered_past shift result held (more.resolve_right (not_not.mpr held))
    | cons b rest => exact gathered_last shift result held (.inr (by omega)) count
  | succ left hypothesis =>
    cases held : stream.unread with
    | nil => exact gathered_past shift result held (more.resolve_right (not_not.mpr held))
    | cons b rest =>
      by_cases ends : b.toNat < 128 ∨ pending = 4
      · exact gathered_last shift result held ends count
      · obtain ⟨read, after⟩ := next_of_unread held
        obtain ⟨marked, _⟩ := not_or.mp ends
        have mark : ¬ b.toBitVec.setWidth 32 &&& 0x80 = 0 := by
          refine mt (chunk_mark _ ?_).mp ?_
          · rw [toNat_byte]
            exact b.toBitVec.isLt
          · rw [toNat_byte]
            exact marked
        have pendingEq : whole pending stream.unread = whole (pending + 1) rest := by
          rw [held, whole, if_neg ends]
        have later := hypothesis (pending + 1) (shift + 7)
          (result ||| ((b.toBitVec.setWidth 32 &&& 0x7F) <<< shift))
          { stream with _nReadPos := stream._nReadPos + 1 } (by omega) (.inl (Nat.succ_ne_zero _))
        rw [gathered, read, ok_bind]
        dsimp only
        rw [if_neg mark]
        rw [Reads, after] at later
        rw [Reads, pendingEq]
        refine later.imp_left ?_
        rintro ⟨value, pos, returned, advanced, inside, equal⟩
        exact ⟨value, pos, returned, Nat.lt_of_succ_lt advanced, inside, equal⟩

theorem readVarInt_reads (stream : MyStream) (more : stream.unread ≠ []) :
    Reads 0 stream stream.readVarInt := by
  rw [readVarInt_eq]
  exact gathered_reads 4 0 0 0 stream rfl (.inr more)

/-! ### The loop -/

namespace Decoding

theorem oStream_point (decoding : Decoding) : decoding.point.oStream = decoding.oStream := by
  unfold point
  split
  · split
    · rfl
    · rfl
  · rfl

/-- The loop looks at the bytes of a field up to its end. -/
structure Inside (decoding : Decoding) : Prop where
  writePos : decoding.oStream._nWritePos = decoding.oStream._pcBuf.length
  readPos : decoding.oStream._nReadPos ≤ decoding.oStream._pcBuf.length

theorem Inside.rest_size_ne_zero_iff {decoding : Decoding} (inside : decoding.Inside) :
    decoding.oStream.rest_size ≠ 0 ↔ decoding.oStream.unread ≠ [] := by
  have readPos := inside.readPos
  have length : decoding.oStream.unread.length =
      decoding.oStream._pcBuf.length - decoding.oStream._nReadPos := List.length_drop
  rw [MyStream.rest_size, inside.writePos, ← List.length_pos_iff, length]
  omega

/-- The loop ends when whole integers are left, and otherwise leaves the field. -/
theorem loop_cases (fuel : Nat) (decoding : Decoding) (inside : decoding.Inside)
    (enough : decoding.oStream._pcBuf.length - decoding.oStream._nReadPos < fuel) :
    (whole 0 decoding.oStream.unread = true ∧ ∃ last, loop fuel decoding = .ok last) ∨
      (whole 0 decoding.oStream.unread = false ∧ loop fuel decoding = .error .outOfBounds) := by
  induction fuel generalizing decoding with
  | zero => exact absurd enough (Nat.not_lt_zero _)
  | succ fuel hypothesis =>
    rw [loop]
    by_cases more : decoding.oStream.unread = []
    · rw [if_neg fun left => inside.rest_size_ne_zero_iff.mp left more, more]
      exact .inl ⟨rfl, decoding, rfl⟩
    · rw [if_pos (inside.rest_size_ne_zero_iff.mpr more)]
      rcases readVarInt_reads decoding.oStream more with ⟨value, pos, returned, advanced, reached,
        equal⟩ | ⟨returned, cutOff⟩
      · rw [returned, ok_bind, equal]
        have streamEq := oStream_point
          (decoding.store value { decoding.oStream with _nReadPos := pos })
        have later := hypothesis (decoding.store value { decoding.oStream with _nReadPos := pos }).point
          ⟨by rw [streamEq]; exact inside.writePos, by rw [streamEq]; exact reached⟩
          (by rw [streamEq]; dsimp only [store]; omega)
        rw [streamEq] at later
        exact later
      · rw [returned]
        exact .inr ⟨cutOff, rfl⟩

end Decoding

theorem total_iff (vecGeometry : List (BitVec 32)) (pcBuf : Bytes) :
    Total vecGeometry pcBuf ↔ whole 0 pcBuf = true := by
  rcases Decoding.loop_cases (pcBuf.length + 1) (.start pcBuf vecGeometry)
    ⟨rfl, Nat.zero_le _⟩ (Nat.lt_succ_self _) with ⟨wholeEq, last, ended⟩ | ⟨cutOff, left⟩
  · refine iff_of_true ⟨last.vecGeometry, ?_⟩ wholeEq
    rw [getGeometryByRoadId, if_pos rfl, ended, ok_bind]
  · refine iff_of_false ?_ (by rw [show whole 0 pcBuf = false from cutOff]; exact Bool.false_ne_true)
    rintro ⟨geometry, returned⟩
    rw [getGeometryByRoadId, if_pos rfl, left] at returned
    cases returned

/-! ### Points -/

/-- The coordinates of the points one after the other. -/
def coordinates (points : List (BitVec 32 × BitVec 32)) : List (BitVec 32) :=
  points.flatMap fun point => [point.1, point.2]

/-- The first point, and the others offset by it. -/
def geometryOf : List (BitVec 32 × BitVec 32) → List (BitVec 32)
  | [] => []
  | first :: others =>
    first.1 :: first.2 :: coordinates (others.map fun point => (point.1 + first.1, point.2 + first.2))

/-- The encoded points are returned. -/
def ReturnsPoints (vecGeometry : List (BitVec 32)) (points : List (BitVec 32 × BitVec 32)) : Prop :=
  getGeometryByRoadId true (some (image (coordinates points))) vecGeometry =
    .ok (true, vecGeometry ++ geometryOf points)

/-- What `MyStream` reads where a point was encoded. -/
def seen (point : BitVec 32 × BitVec 32) : BitVec 32 × BitVec 32 :=
  (DECODE_ZIG_ZAG (Zig point.1), DECODE_ZIG_ZAG (Zig point.2))

theorem seen_eq_iff (point : BitVec 32 × BitVec 32) :
    seen point = point ↔ Small point.1 ∧ Small point.2 := by
  rw [Prod.ext_iff, ← DECODE_ZIG_ZAG_Zig_iff, ← DECODE_ZIG_ZAG_Zig_iff]
  rfl

theorem image_coordinates_cons (point : BitVec 32 × BitVec 32)
    (points : List (BitVec 32 × BitVec 32)) :
    image (coordinates (point :: points)) =
      varIntWrite point.1 ++ (varIntWrite point.2 ++ image (coordinates points)) := by
  rw [coordinates, List.flatMap_cons, image, List.flatMap_append, List.flatMap_cons,
    List.flatMap_singleton, List.append_assoc]
  rfl

namespace Decoding

theorem loop_value (fuel : Nat) (decoding : Decoding) (value : BitVec 32) (rest : Bytes)
    (inside : decoding.Inside) (held : decoding.oStream.unread = varIntWrite value ++ rest) :
    ∃ oStream, loop (fuel + 1) decoding =
        loop fuel (decoding.store (DECODE_ZIG_ZAG (Zig value)) oStream).point ∧
      oStream.unread = rest ∧
      Inside (decoding.store (DECODE_ZIG_ZAG (Zig value)) oStream).point := by
  have positive := (length_varIntWrite value).1
  have lengths := congrArg List.length held
  rw [unread, List.length_drop, List.length_append] at lengths
  have more : decoding.oStream.unread ≠ [] := by
    rw [held]
    exact List.append_ne_nil_of_left_ne_nil (List.length_pos_iff.mp positive) _
  refine ⟨{ decoding.oStream with
    _nReadPos := decoding.oStream._nReadPos + (varIntWrite value).length }, ?_, ?_, ?_, ?_⟩
  · rw [loop, if_pos (inside.rest_size_ne_zero_iff.mpr more),
      MyStream.readVarInt_varIntWrite _ _ _ held, ok_bind]
  · show decoding.oStream._pcBuf.drop (decoding.oStream._nReadPos + (varIntWrite value).length) = _
    rw [← List.drop_drop, ← unread, held, List.drop_left]
  · rw [oStream_point]
    exact inside.writePos
  · rw [oStream_point]
    dsimp only [store]
    omega

/-- The two values of a point are stored, before it is complete. -/
def stored (decoding : Decoding) (oStream : MyStream) (point : BitVec 32 × BitVec 32) : Decoding :=
  { decoding with oStream := oStream, arrayPoint := point, nCount := decoding.nCount + 2 }

theorem store_twice (decoding : Decoding) (even : decoding.nCount % 2 = 0) (x y : BitVec 32)
    (first second : MyStream) :
    (decoding.store x first).point.store y second = decoding.stored second (x, y) := by
  have odd : ¬ (decoding.nCount + 1) % 2 = 0 := by omega
  have between : (decoding.store x first).point = decoding.store x first := by
    rw [point]
    exact if_neg odd
  rw [between]
  simp only [store, stored, if_pos even, if_neg odd]

theorem point_stored (decoding : Decoding) (even : decoding.nCount % 2 = 0) (oStream : MyStream)
    (point : BitVec 32 × BitVec 32) :
    (decoding.stored oStream point).point =
      if decoding.bFirstPoint then
        { decoding.stored oStream point with
          bFirstPoint := false
          nFirX := point.1
          nFirY := point.2
          vecGeometry := decoding.vecGeometry ++ [point.1, point.2] }
      else
        { decoding.stored oStream point with
          vecGeometry :=
            decoding.vecGeometry ++ [point.1 + decoding.nFirX, point.2 + decoding.nFirY] } := by
  have again : (decoding.stored oStream point).nCount % 2 = 0 := by
    rw [stored, Nat.add_mod_right]
    exact even
  rw [Decoding.point, if_pos again]
  rfl

/-- Between two points, with `rest` still to be read. -/
structure Between (decoding : Decoding) (rest : Bytes) : Prop where
  inside : decoding.Inside
  held : decoding.oStream.unread = rest
  even : decoding.nCount % 2 = 0

theorem loop_point (fuel : Nat) (decoding : Decoding) (point : BitVec 32 × BitVec 32) (rest : Bytes)
    (between : decoding.Between (varIntWrite point.1 ++ (varIntWrite point.2 ++ rest))) :
    ∃ oStream, loop (fuel + 2) decoding = loop fuel (decoding.stored oStream (seen point)).point ∧
      (decoding.stored oStream (seen point)).point.Between rest := by
  obtain ⟨middle, first, middleHolds, middleInside⟩ :=
    loop_value (fuel + 1) decoding point.1 _ between.inside between.held
  obtain ⟨last, second, lastHolds, lastInside⟩ := loop_value fuel _ point.2 rest middleInside
    (by rw [oStream_point]; exact middleHolds)
  rw [store_twice decoding between.even] at second lastInside
  refine ⟨last, first.trans second, lastInside, ?_, ?_⟩
  · rw [oStream_point]
    exact lastHolds
  · rw [point_stored decoding between.even]
    have even : (decoding.nCount + 2) % 2 = 0 := (Nat.add_mod_right _ 2).trans between.even
    split
    · exact even
    · exact even

theorem loop_end (fuel : Nat) (decoding : Decoding) (between : decoding.Between []) :
    loop (fuel + 1) decoding = .ok decoding := by
  rw [loop, if_neg fun left => between.inside.rest_size_ne_zero_iff.mp left between.held]

/-- The points behind the first one. -/
theorem loop_others (others : List (BitVec 32 × BitVec 32)) (fuel : Nat) (decoding : Decoding)
    (between : decoding.Between (image (coordinates others)))
    (later : decoding.bFirstPoint = false) (enough : 2 * others.length < fuel) :
    ∃ last, loop fuel decoding = .ok last ∧
      last.vecGeometry = decoding.vecGeometry ++ coordinates (others.map fun point =>
        ((seen point).1 + decoding.nFirX, (seen point).2 + decoding.nFirY)) := by
  induction others generalizing fuel decoding with
  | nil =>
    obtain ⟨left, rfl⟩ := Nat.exists_eq_succ_of_ne_zero (Nat.ne_of_gt enough)
    exact ⟨decoding, loop_end left decoding between, (List.append_nil _).symm⟩
  | cons point others hypothesis =>
    rw [List.length_cons] at enough
    obtain ⟨left, rfl⟩ : ∃ left, fuel = left + 2 := ⟨fuel - 2, by omega⟩
    rw [image_coordinates_cons] at between
    obtain ⟨oStream, looped, after⟩ := loop_point left decoding point _ between
    have pointEq := point_stored decoding between.even oStream (seen point)
    rw [if_neg (by rw [later]; exact Bool.false_ne_true)] at pointEq
    rw [pointEq] at looped after
    obtain ⟨last, ended, geometry⟩ := hypothesis left _ after later (by omega)
    refine ⟨last, looped.trans ended, geometry.trans ?_⟩
    exact List.append_assoc _ _ _

/-- What the loop reads of the encoding of points. -/
theorem loop_points (points : List (BitVec 32 × BitVec 32)) (fuel : Nat) (decoding : Decoding)
    (between : decoding.Between (image (coordinates points)))
    (first : decoding.bFirstPoint = true) (enough : 2 * points.length < fuel) :
    ∃ last, loop fuel decoding = .ok last ∧
      last.vecGeometry = decoding.vecGeometry ++ geometryOf (points.map seen) := by
  cases points with
  | nil =>
    obtain ⟨left, rfl⟩ := Nat.exists_eq_succ_of_ne_zero (Nat.ne_of_gt enough)
    exact ⟨decoding, loop_end left decoding between, (List.append_nil _).symm⟩
  | cons point others =>
    rw [List.length_cons] at enough
    obtain ⟨left, rfl⟩ : ∃ left, fuel = left + 2 := ⟨fuel - 2, by omega⟩
    rw [image_coordinates_cons] at between
    obtain ⟨oStream, looped, after⟩ := loop_point left decoding point _ between
    have pointEq := point_stored decoding between.even oStream (seen point)
    rw [if_pos first] at pointEq
    rw [pointEq] at looped after
    obtain ⟨last, ended, geometry⟩ := loop_others others left _ after rfl (by omega)
    refine ⟨last, looped.trans ended, geometry.trans ?_⟩
    rw [List.map_cons, geometryOf, List.map_map, List.append_assoc]
    rfl

end Decoding

theorem length_image_coordinates (points : List (BitVec 32 × BitVec 32)) :
    2 * points.length ≤ (image (coordinates points)).length := by
  induction points with
  | nil => exact Nat.zero_le _
  | cons point points hypothesis =>
    have first := (length_varIntWrite point.1).1
    have second := (length_varIntWrite point.2).1
    rw [image_coordinates_cons, List.length_append, List.length_append, List.length_cons]
    omega

theorem getGeometryByRoadId_image (vecGeometry : List (BitVec 32))
    (points : List (BitVec 32 × BitVec 32)) :
    getGeometryByRoadId true (some (image (coordinates points))) vecGeometry =
      .ok (true, vecGeometry ++ geometryOf (points.map seen)) := by
  obtain ⟨last, ended, geometry⟩ := Decoding.loop_points points
    ((image (coordinates points)).length + 1) (.start (image (coordinates points)) vecGeometry)
    ⟨⟨rfl, Nat.zero_le _⟩, rfl, rfl⟩ rfl (Nat.lt_succ_of_le (length_image_coordinates points))
  rw [getGeometryByRoadId, if_pos rfl, ended, ok_bind, geometry]
  rfl

theorem coordinates_inj (first second : List (BitVec 32 × BitVec 32))
    (equal : coordinates first = coordinates second) : first = second := by
  induction first generalizing second with
  | nil =>
    cases second with
    | nil => rfl
    | cons point second => exact absurd equal (List.cons_ne_nil _ _).symm
  | cons point first hypothesis =>
    cases second with
    | nil => exact absurd equal (List.cons_ne_nil _ _)
    | cons other second =>
      obtain ⟨x, equal⟩ := List.cons.inj equal
      obtain ⟨y, equal⟩ := List.cons.inj equal
      rw [hypothesis second equal, Prod.ext x y]

theorem geometryOf_map_seen_iff (points : List (BitVec 32 × BitVec 32)) :
    geometryOf (points.map seen) = geometryOf points ↔
      ∀ point ∈ points, Small point.1 ∧ Small point.2 := by
  cases points with
  | nil => exact iff_of_true rfl fun point listed => absurd listed List.not_mem_nil
  | cons first others =>
    refine ⟨fun equal => ?_, fun small => ?_⟩
    · obtain ⟨x, equal⟩ := List.cons.inj equal
      obtain ⟨y, equal⟩ := List.cons.inj equal
      have firstSeen : seen first = first := Prod.ext x y
      have othersSeen := coordinates_inj _ _ equal
      rw [firstSeen, List.map_map, List.map_inj_left] at othersSeen
      refine List.forall_mem_cons.mpr ⟨(seen_eq_iff first).mp firstSeen, fun point listed => ?_⟩
      obtain ⟨offsetX, offsetY⟩ := Prod.ext_iff.mp (othersSeen point listed)
      exact (seen_eq_iff point).mp
        (Prod.ext (BitVec.add_left_inj _ |>.mp offsetX) (BitVec.add_left_inj _ |>.mp offsetY))
    · rw [List.map_congr_left fun point listed => (seen_eq_iff point).mpr (small point listed),
        List.map_id']

theorem returnsPoints_iff (vecGeometry : List (BitVec 32)) (points : List (BitVec 32 × BitVec 32)) :
    ReturnsPoints vecGeometry points ↔ ∀ point ∈ points, Small point.1 ∧ Small point.2 := by
  rw [ReturnsPoints, getGeometryByRoadId_image, ← geometryOf_map_seen_iff]
  refine ⟨fun equal => ?_, fun equal => by rw [equal]⟩
  exact List.append_cancel_left (Prod.ext_iff.mp (Except.ok.inj equal)).2

/-- The decoding of a field is total exactly where whole integers are stored, and returns the
points of an encoding exactly where every coordinate is one that the stream reads. -/
theorem geometry_decoded_iff (vecGeometry : List (BitVec 32)) :
    (∀ pcBuf, Total vecGeometry pcBuf ↔ whole 0 pcBuf = true) ∧
      ∀ points, ReturnsPoints vecGeometry points ↔
        ∀ point ∈ points, Small point.1 ∧ Small point.2 :=
  ⟨total_iff vecGeometry, returnsPoints_iff vecGeometry⟩

/-- One marked byte is read past its end, and a large coordinate comes back with its sign
changed. -/
theorem geometry_left :
    getGeometryByRoadId true (some [0x80]) [] = .error .outOfBounds ∧
      getGeometryByRoadId true (some (image (coordinates [(0x40000000#32, 0#32)]))) [] =
        .ok (true, [0xC0000000#32, 0#32]) := by
  decide +kernel

end GeometryQuery

end LevelDBLib.KvDB
