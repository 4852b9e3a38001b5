/-
This file models the keys of the database: `util/comparator.cpp` and `db/dbformat.cpp`.
An internal key is a user key with a sequence number and a type behind it. Internal keys
are in the order of their user keys, and the newest comes first among those of one user
key. Comparators also find short keys between two others; what they find is where it
should be, in both orders.
-/

import LevelDBLib.Library.Comparisons
import LevelDBLib.Navi.Coding
import LevelDBLib.Navi.Keys

namespace LevelDBLib.Navi

open KvDB Coding

/-! ### Comparators -/

/-- `Comparator`, of `leveldb/comparator.h`, with what an implementation has to do. -/
structure Comparator where
  order : Comparison Bytes
  FindShortestSeparator : Bytes → Bytes → Except Fault Bytes
  FindShortSuccessor : Bytes → Bytes
  separates : ∀ start limit, ∃ short, FindShortestSeparator start limit = .ok short ∧
    (order.compare start limit < 0 → order.compare start short ≤ 0 ∧ order.compare short limit < 0) ∧
    (0 ≤ order.compare start limit → short = start)
  succeeds : ∀ key, order.compare key (FindShortSuccessor key) ≤ 0

/-- `Slice::compare` as a comparison. -/
def Slice.order : Comparison Bytes where
  compare := Slice.compare
  swap one two := by
    rw [(Slice.compare_spec one two).1, (Slice.compare_spec two one).2.2]
  trans one two three := by
    have le (one two : Bytes) : Slice.compare one two ≤ 0 ↔ ¬ two < one := by
      rw [← (Slice.compare_spec one two).2.2]
      omega
    rw [le, le, le]
    exact fun first second => List.not_lt.mpr
      (List.le_trans (List.not_lt.mp first) (List.not_lt.mp second))

namespace BytewiseComparator

/-- The length of the common prefix. -/
def diff_index : Bytes → Bytes → Nat
  | byte :: start, other :: limit => if byte = other then diff_index start limit + 1 else 0
  | _, _ => 0

def FindShortestSeparator (start limit : Bytes) : Except Fault Bytes :=
  let min_length := min start.length limit.length
  let diff := diff_index start limit
  if diff ≥ min_length then .ok start
  else
    let diff_byte := start.getD diff 0
    if diff_byte < 0xff ∧ diff_byte.toNat + 1 < (limit.getD diff 0).toNat then
      let start := (start.set diff (diff_byte + 1)).take (diff + 1)
      if Slice.compare start limit < 0 then .ok start else .error .assertion
    else .ok start

/-- The first byte that can be incremented is the last of the successor. -/
def FindShortSuccessor : Bytes → Bytes
  | [] => []
  | byte :: key => if byte ≠ 0xff then [byte + 1] else byte :: FindShortSuccessor key

theorem exists_diff (start limit : Bytes)
    (inside : diff_index start limit < min start.length limit.length) :
    ∃ front byte other one two, start = front ++ byte :: one ∧ limit = front ++ other :: two ∧
      byte ≠ other ∧ diff_index start limit = front.length := by
  induction start generalizing limit with
  | nil => exact absurd inside (by rw [List.length_nil, Nat.zero_min]; exact Nat.not_lt_zero _)
  | cons byte start hypothesis =>
    cases limit with
    | nil => exact absurd inside (by rw [List.length_nil, Nat.min_zero]; exact Nat.not_lt_zero _)
    | cons other limit =>
      by_cases same : byte = other
      · subst same
        rw [diff_index, if_pos rfl, List.length_cons, List.length_cons, Nat.succ_min_succ] at inside
        obtain ⟨front, first, second, one, two, rfl, rfl, apart, length⟩ :=
          hypothesis limit (Nat.lt_of_succ_lt_succ inside)
        refine ⟨byte :: front, first, second, one, two, rfl, rfl, apart, ?_⟩
        rw [diff_index, if_pos rfl, length, List.length_cons]
      · exact ⟨[], byte, other, start, limit, rfl, rfl, same, by rw [diff_index, if_neg same]; rfl⟩

theorem compare_append (front one two : Bytes) :
    Slice.compare (front ++ one) (front ++ two) = Slice.compare one two := by
  induction front with
  | nil => rfl
  | cons byte front hypothesis =>
    rw [List.cons_append, List.cons_append, Slice.compare_cons, if_pos rfl, hypothesis]

theorem compare_apart {byte other : UInt8} (apart : byte ≠ other) (one two : Bytes) :
    Slice.compare (byte :: one) (other :: two) = (byte.toNat : Int) - other.toNat := by
  rw [Slice.compare_cons, if_neg apart]

theorem toNat_succ {byte : UInt8} (small : byte < 0xff) : (byte + 1).toNat = byte.toNat + 1 := by
  have bound : byte.toNat < 255 := UInt8.lt_iff_toNat_lt.mp small
  rw [UInt8.toNat_add]
  exact Nat.mod_eq_of_lt (show byte.toNat + 1 < 256 by omega)

theorem separates (start limit : Bytes) :
    ∃ short, FindShortestSeparator start limit = .ok short ∧
      (Slice.compare start limit < 0 →
        Slice.compare start short ≤ 0 ∧ Slice.compare short limit < 0) ∧
      (0 ≤ Slice.compare start limit → short = start) := by
  have unchanged (result : FindShortestSeparator start limit = .ok start) :
      ∃ short, FindShortestSeparator start limit = .ok short ∧
        (Slice.compare start limit < 0 →
          Slice.compare start short ≤ 0 ∧ Slice.compare short limit < 0) ∧
        (0 ≤ Slice.compare start limit → short = start) :=
    ⟨start, result, fun less => ⟨Int.le_of_eq (Slice.order.compare_self start), less⟩, fun _ => rfl⟩
  by_cases inside : diff_index start limit < min start.length limit.length
  · obtain ⟨front, byte, other, one, two, startEq, limitEq, apart, length⟩ :=
      exists_diff start limit inside
    have first : start.getD (diff_index start limit) 0 = byte := by
      rw [length, startEq, List.getD_eq_getElem?_getD, List.getElem?_append_right (Nat.le_refl _),
        Nat.sub_self]
      rfl
    have second : limit.getD (diff_index start limit) 0 = other := by
      rw [length, limitEq, List.getD_eq_getElem?_getD, List.getElem?_append_right (Nat.le_refl _),
        Nat.sub_self]
      rfl
    by_cases room : byte < 0xff ∧ byte.toNat + 1 < other.toNat
    · have shortEq : (start.set (diff_index start limit) (byte + 1)).take
          (diff_index start limit + 1) = front ++ [byte + 1] := by
        rw [length, startEq, List.set_append_right _ _ (Nat.le_refl _), Nat.sub_self,
          List.take_append, List.take_of_length_le (Nat.le_succ _), Nat.add_sub_cancel_left]
        rfl
      have next := toNat_succ room.1
      have below : Slice.compare (front ++ [byte + 1]) limit < 0 := by
        rw [limitEq, compare_append, compare_apart fun same => by
          rw [same] at next
          omega]
        omega
      have above : Slice.compare start (front ++ [byte + 1]) < 0 := by
        rw [startEq, compare_append, compare_apart fun same => by
          rw [← same] at next
          omega]
        omega
      have less : Slice.compare start limit < 0 := by
        rw [startEq, limitEq, compare_append, compare_apart apart]
        omega
      refine ⟨front ++ [byte + 1], ?_, fun _ => ⟨Int.le_of_lt above, below⟩,
        fun more => absurd less (Int.not_lt.mpr more)⟩
      simp only [FindShortestSeparator, first, second]
      rw [if_neg (Nat.not_le.mpr inside), if_pos room, shortEq, if_pos below]
    · refine unchanged ?_
      simp only [FindShortestSeparator, first, second]
      rw [if_neg (Nat.not_le.mpr inside), if_neg room]
  · exact unchanged (if_pos (Nat.le_of_not_lt inside))

theorem succeeds (key : Bytes) : Slice.compare key (FindShortSuccessor key) ≤ 0 := by
  induction key with
  | nil => decide
  | cons byte key hypothesis =>
    rw [FindShortSuccessor]
    by_cases last : byte ≠ 0xff
    · have bound : byte.toNat ≠ 255 := fun same => last (UInt8.toNat_inj.mp same)
      have small : byte < 0xff := UInt8.lt_iff_toNat_lt.mpr
        (show byte.toNat < 255 by have := byte.toNat_lt; omega)
      have next := toNat_succ small
      rw [if_pos last, compare_apart fun same => by
        rw [← same] at next
        omega]
      omega
    · rw [if_neg last, Slice.compare_cons, if_pos rfl]
      exact hypothesis

end BytewiseComparator

/-- The comparator of a database that was given none. -/
def BytewiseComparator : Comparator where
  order := Slice.order
  FindShortestSeparator := BytewiseComparator.FindShortestSeparator
  FindShortSuccessor := BytewiseComparator.FindShortSuccessor
  separates := BytewiseComparator.separates
  succeeds := BytewiseComparator.succeeds

/-! ### Internal keys -/

inductive ValueType where
  | kTypeDeletion
  | kTypeValue
deriving DecidableEq, Repr

def ValueType.code : ValueType → BitVec 64
  | kTypeDeletion => 0
  | kTypeValue => 1

/-- `static_cast<ValueType>` of a number that is a type. -/
def ValueType.ofCode (code : BitVec 64) : Option ValueType :=
  if code = 0 then some kTypeDeletion else if code = 1 then some kTypeValue else none

def kValueTypeForSeek : ValueType := .kTypeValue

def kMaxSequenceNumber : BitVec 64 := (1#64 <<< 56) - 1

structure ParsedInternalKey where
  user_key : Bytes
  sequence : BitVec 64
  type : ValueType
deriving DecidableEq, Repr

def PackSequenceAndType (seq : BitVec 64) (t : ValueType) : Except Fault (BitVec 64) :=
  if kMaxSequenceNumber < seq then .error .assertion else .ok (seq <<< 8 ||| t.code)

def AppendInternalKey (result : Bytes) (key : ParsedInternalKey) : Except Fault Bytes := do
  let packed ← PackSequenceAndType key.sequence key.type
  .ok (PutFixed64 (result ++ key.user_key) packed)

/-- The sequence number and the type of an internal key. -/
def tagOf (internal_key : Bytes) : BitVec 64 :=
  DecodeFixed64 (internal_key.drop (internal_key.length - 8))

def ParseInternalKey (internal_key : Bytes) : Option ParsedInternalKey :=
  if internal_key.length < 8 then none
  else
    let num := tagOf internal_key
    (ValueType.ofCode (num &&& 0xff)).map fun type =>
      ⟨internal_key.take (internal_key.length - 8), num >>> 8, type⟩

def ExtractUserKey (internal_key : Bytes) : Except Fault Bytes :=
  if internal_key.length < 8 then .error .assertion
  else .ok (internal_key.take (internal_key.length - 8))

namespace InternalKeyComparator

def Compare (user_comparator_ : Comparator) (akey bkey : Bytes) : Except Fault Int := do
  let a ← ExtractUserKey akey
  let b ← ExtractUserKey bkey
  let r := user_comparator_.order.compare a b
  if r = 0 then
    let anum := tagOf akey
    let bnum := tagOf bkey
    .ok (if bnum < anum then -1 else if anum < bnum then 1 else r)
  else .ok r

def FindShortestSeparator (user_comparator_ : Comparator) (start limit : Bytes) :
    Except Fault Bytes := do
  let user_start ← ExtractUserKey start
  let user_limit ← ExtractUserKey limit
  let tmp ← user_comparator_.FindShortestSeparator user_start user_limit
  if tmp.length < user_start.length ∧ user_comparator_.order.compare user_start tmp < 0 then
    let packed ← PackSequenceAndType kMaxSequenceNumber kValueTypeForSeek
    let tmp := PutFixed64 tmp packed
    let above ← Compare user_comparator_ start tmp
    let below ← Compare user_comparator_ tmp limit
    if above < 0 ∧ below < 0 then .ok tmp else .error .assertion
  else .ok start

def FindShortSuccessor (user_comparator_ : Comparator) (key : Bytes) : Except Fault Bytes := do
  let user_key ← ExtractUserKey key
  let tmp := user_comparator_.FindShortSuccessor user_key
  if tmp.length < user_key.length ∧ user_comparator_.order.compare user_key tmp < 0 then
    let packed ← PackSequenceAndType kMaxSequenceNumber kValueTypeForSeek
    let tmp := PutFixed64 tmp packed
    let above ← Compare user_comparator_ key tmp
    if above < 0 then .ok tmp else .error .assertion
  else .ok key

end InternalKeyComparator

/-- `LookupKey`, as the bytes from `start_` on, with the places of the internal key in them. -/
structure LookupKey where
  start_ : Bytes
  kstart_ : Nat

namespace LookupKey

def new (user_key : Bytes) (s : BitVec 64) : Except Fault LookupKey := do
  let length := EncodeVarint32 (BitVec.ofNat 32 (user_key.length + 8))
  let packed ← PackSequenceAndType s kValueTypeForSeek
  .ok ⟨length ++ (user_key ++ EncodeFixed64 packed), length.length⟩

def memtable_key (key : LookupKey) : Bytes := key.start_

def internal_key (key : LookupKey) : Bytes := key.start_.drop key.kstart_

def user_key (key : LookupKey) : Bytes :=
  key.internal_key.take (key.start_.length - key.kstart_ - 8)

end LookupKey

/-! ### What internal keys mean -/

/-- The bytes of an internal key, that has a user key and a tag. -/
abbrev Encoded := { key : Bytes // 8 ≤ key.length }

namespace Encoded

def userKey (key : Encoded) : Bytes := key.1.take (key.1.length - 8)

def tag (key : Encoded) : Nat := (tagOf key.1).toNat

end Encoded

/-- Internal keys by their user keys, and from the newest to the oldest where these are equal. -/
def Comparator.internal (user : Comparator) : Comparison Encoded :=
  (user.order.along Encoded.userKey).thenBy (Comparison.descending.along Encoded.tag)

theorem ExtractUserKey_encoded (key : Encoded) : ExtractUserKey key.1 = .ok key.userKey :=
  if_neg (Nat.not_lt.mpr key.2)

/-- `Compare` is the comparison of internal keys. -/
theorem InternalKeyComparator.Compare_eq (user : Comparator) (a b : Encoded) :
    Compare user a.1 b.1 = .ok (user.internal.compare a b) := by
  rw [Compare, ExtractUserKey_encoded, ok_bind, ExtractUserKey_encoded, ok_bind]
  show _ = Except.ok (if user.order.compare a.userKey b.userKey = 0 then
    (if b.tag < a.tag then -1 else if a.tag < b.tag then 1 else 0)
    else user.order.compare a.userKey b.userKey)
  by_cases equal : user.order.compare a.userKey b.userKey = 0
  · rw [if_pos equal, if_pos equal, equal]
    rfl
  · rw [if_neg equal, if_neg equal]

theorem internal_lt_of_user {user : Comparator} {a b : Encoded}
    (less : user.order.compare a.userKey b.userKey < 0) : user.internal.compare a b < 0 := by
  have apart : (user.order.along Encoded.userKey).compare a b ≠ 0 := Int.ne_of_lt less
  exact (if_neg apart).trans_lt less

theorem user_le_of_internal {user : Comparator} {a b : Encoded}
    (le : user.internal.compare a b ≤ 0) : user.order.compare a.userKey b.userKey ≤ 0 := by
  by_contra more
  have apart : (user.order.along Encoded.userKey).compare a b ≠ 0 := fun equal => by
    have zero : user.order.compare a.userKey b.userKey = 0 := equal
    omega
  have same : user.internal.compare a b = user.order.compare a.userKey b.userKey := if_neg apart
  omega

/-- A user key with a tag. -/
def encoded (user_key : Bytes) (tag : BitVec 64) : Encoded :=
  ⟨user_key ++ EncodeFixed64 tag, by
    rw [List.length_append, length_EncodeFixed64]
    exact Nat.le_add_left 8 _⟩

theorem take_encoded (user_key : Bytes) (tag : BitVec 64) :
    (user_key ++ EncodeFixed64 tag).take ((user_key ++ EncodeFixed64 tag).length - 8) = user_key := by
  rw [List.length_append, length_EncodeFixed64, Nat.add_sub_cancel, List.take_left' rfl]

theorem tagOf_encoded (user_key : Bytes) (tag : BitVec 64) :
    tagOf (user_key ++ EncodeFixed64 tag) = tag := by
  rw [tagOf, List.length_append, length_EncodeFixed64, Nat.add_sub_cancel, List.drop_left' rfl,
    ← List.append_nil (EncodeFixed64 tag), DecodeFixed64_EncodeFixed64]

@[simp] theorem userKey_encoded (user_key : Bytes) (tag : BitVec 64) :
    (encoded user_key tag).userKey = user_key := take_encoded user_key tag

@[simp] theorem tag_encoded (user_key : Bytes) (tag : BitVec 64) :
    (encoded user_key tag).tag = tag.toNat := congrArg BitVec.toNat (tagOf_encoded user_key tag)

/-- Every internal key is a user key with a tag. -/
theorem encoded_tagOf (key : Encoded) : encoded key.userKey (tagOf key.1) = key := by
  have last : EncodeFixed64 (tagOf key.1) = key.1.drop (key.1.length - 8) := by
    have length : (key.1.drop (key.1.length - 8)).length = 8 := by
      have enough := key.2
      rw [List.length_drop]
      omega
    rw [tagOf, DecodeFixed64, EncodeFixed64, encodeFixed_decodeFixed 8 _ (Nat.le_of_eq length.symm),
      List.take_of_length_le (Nat.le_of_eq length)]
  exact Subtype.ext ((congrArg (key.userKey ++ ·) last).trans (List.take_append_drop ..))

theorem toNat_code (t : ValueType) : t.code.toNat < 2 := by
  cases t <;> decide

theorem ofCode_code (t : ValueType) : ValueType.ofCode t.code = some t := by
  cases t <;> rfl

theorem toNat_kMaxSequenceNumber : kMaxSequenceNumber.toNat = 2 ^ 56 - 1 := by
  decide

/-- The number of a sequence number and a type. -/
theorem toNat_packed (seq : BitVec 64) (t : ValueType) (bound : seq.toNat < 2 ^ 56) :
    (seq <<< 8 ||| t.code).toNat = seq.toNat * 256 + t.code.toNat := by
  have small := toNat_code t
  rw [BitVec.toNat_or, BitVec.toNat_shiftLeft, Nat.shiftLeft_eq, Nat.mod_eq_of_lt (by omega),
    Nat.mul_comm]
  exact (Nat.two_pow_add_eq_or_of_lt (by omega) _).symm

theorem PackSequenceAndType_ok (seq : BitVec 64) (t : ValueType) (bound : seq.toNat < 2 ^ 56) :
    PackSequenceAndType seq t = .ok (seq <<< 8 ||| t.code) := by
  refine if_neg ?_
  rw [BitVec.lt_def, toNat_kMaxSequenceNumber]
  omega

/-- A tag is its sequence number and its type. -/
theorem tag_split (num : BitVec 64) : num >>> 8 <<< 8 ||| (num &&& 0xff) = num := by
  refine BitVec.eq_of_getLsbD_eq fun index bound => ?_
  rw [BitVec.getLsbD_or, BitVec.getLsbD_shiftLeft, BitVec.getLsbD_ushiftRight, BitVec.getLsbD_and,
    show (0xff : BitVec 64) = BitVec.ofNat 64 (2 ^ 8 - 1) by rfl, BitVec.getLsbD_ofNat,
    Nat.testBit_two_pow_sub_one]
  by_cases low : index < 8
  · simp [low, bound]
  · simp [low, bound, show 8 + (index - 8) = index by omega]

theorem shifted_packed (seq : BitVec 64) (t : ValueType) (bound : seq.toNat < 2 ^ 56) :
    (seq <<< 8 ||| t.code) >>> 8 = seq ∧ (seq <<< 8 ||| t.code) &&& 0xff = t.code := by
  have value := toNat_packed seq t bound
  have small := toNat_code t
  constructor
  · refine BitVec.eq_of_toNat_eq ?_
    rw [BitVec.toNat_ushiftRight, value, Nat.shiftRight_eq_div_pow]
    omega
  · refine BitVec.eq_of_toNat_eq ?_
    have low := Nat.and_two_pow_sub_one_eq_mod (seq.toNat * 256 + t.code.toNat) 8
    rw [BitVec.toNat_and, value]
    exact low.trans (by omega)

theorem ofCode_eq_some {code : BitVec 64} {t : ValueType} (same : ValueType.ofCode code = some t) :
    code = t.code := by
  unfold ValueType.ofCode at same
  split at same
  · next zero =>
    cases same
    exact zero
  · split at same
    · next one =>
      cases same
      exact one
    · cases same

/-- An internal key is parsed back, and only internal keys are parsed. -/
theorem ParseInternalKey_iff (internal_key : Bytes) (key : ParsedInternalKey) :
    ParseInternalKey internal_key = some key ↔ AppendInternalKey [] key = .ok internal_key := by
  obtain ⟨user_key, sequence, type⟩ := key
  constructor
  · intro parsed
    unfold ParseInternalKey at parsed
    by_cases short : internal_key.length < 8
    · rw [if_pos short] at parsed
      cases parsed
    · rw [if_neg short, Option.map_eq_some_iff] at parsed
      obtain ⟨t, typeEq, same⟩ := parsed
      obtain ⟨rfl, rfl, rfl⟩ := ParsedInternalKey.mk.inj same
      have bound : (tagOf internal_key >>> 8).toNat < 2 ^ 56 := by
        have whole := (tagOf internal_key).isLt
        rw [BitVec.toNat_ushiftRight, Nat.shiftRight_eq_div_pow]
        omega
      have back := congrArg Subtype.val (encoded_tagOf ⟨internal_key, Nat.le_of_not_lt short⟩)
      rw [AppendInternalKey, PackSequenceAndType_ok _ _ bound, ok_bind, ← ofCode_eq_some typeEq,
        tag_split]
      exact congrArg Except.ok back
  · intro appended
    rw [AppendInternalKey] at appended
    by_cases bound : sequence.toNat < 2 ^ 56
    · dsimp only at appended
      rw [PackSequenceAndType_ok _ _ bound, ok_bind] at appended
      obtain rfl := Except.ok.inj appended
      obtain ⟨high, low⟩ := shifted_packed sequence type bound
      rw [ParseInternalKey, if_neg (by
        rw [PutFixed64, List.length_append, length_EncodeFixed64]
        omega), PutFixed64, List.nil_append]
      dsimp only
      rw [tagOf_encoded, take_encoded, high, low, ofCode_code]
      rfl
    · have over' : kMaxSequenceNumber < sequence := by
        rw [BitVec.lt_def, toNat_kMaxSequenceNumber]
        omega
      rw [PackSequenceAndType, if_pos over'] at appended
      cases appended

/-- The first internal key of a user key at a sequence number. -/
def lookedUp (user_key : Bytes) (s : BitVec 64) : Encoded :=
  encoded user_key (s <<< 8 ||| kValueTypeForSeek.code)

/-- The three keys of a lookup. -/
theorem LookupKey.new_keys (user_key : Bytes) (s : BitVec 64) (bound : s.toNat < 2 ^ 56) :
    ∃ key, LookupKey.new user_key s = .ok key ∧ key.user_key = user_key ∧
      key.internal_key = (lookedUp user_key s).1 ∧
      key.memtable_key = PutLengthPrefixedSlice [] (lookedUp user_key s).1 := by
  have length : (lookedUp user_key s).1.length = user_key.length + 8 := by
    show (user_key ++ EncodeFixed64 _).length = _
    rw [List.length_append, length_EncodeFixed64]
  have internal (front : Bytes) : (front ++ (lookedUp user_key s).1).drop front.length =
      (lookedUp user_key s).1 := List.drop_left' rfl
  refine ⟨⟨EncodeVarint32 (BitVec.ofNat 32 (user_key.length + 8)) ++ (lookedUp user_key s).1,
    (EncodeVarint32 (BitVec.ofNat 32 (user_key.length + 8))).length⟩, ?_, ?_, internal _, ?_⟩
  · rw [LookupKey.new, PackSequenceAndType_ok _ _ bound]
    rfl
  · rw [LookupKey.user_key, LookupKey.internal_key]
    dsimp only
    rw [internal, List.length_append, Nat.add_sub_cancel_left, length, Nat.add_sub_cancel]
    exact List.take_left' rfl
  · rw [LookupKey.memtable_key, PutLengthPrefixedSlice, PutVarint32, List.nil_append, length]

/-! ### Short keys -/

/-- A shortened user key has the first tag there is. -/
theorem packed_max : PackSequenceAndType kMaxSequenceNumber kValueTypeForSeek =
    .ok (kMaxSequenceNumber <<< 8 ||| kValueTypeForSeek.code) :=
  PackSequenceAndType_ok _ _ (by decide)

/-- A separator of internal keys is between them, and not longer. -/
theorem InternalKeyComparator.FindShortestSeparator_between (user : Comparator)
    (start limit : Encoded) (less : user.internal.compare start limit < 0) :
    ∃ short : Encoded, FindShortestSeparator user start.1 limit.1 = .ok short.1 ∧
      user.internal.compare start short ≤ 0 ∧ user.internal.compare short limit < 0 ∧
      short.1.length ≤ start.1.length := by
  obtain ⟨tmp, tmpEq, between, unchanged⟩ := user.separates start.userKey limit.userKey
  rw [FindShortestSeparator, ExtractUserKey_encoded, ok_bind, ExtractUserKey_encoded, ok_bind, tmpEq,
    ok_bind]
  by_cases shorter : tmp.length < start.userKey.length ∧ user.order.compare start.userKey tmp < 0
  · have strict : user.order.compare start.userKey limit.userKey < 0 := by
      by_contra equal
      rw [unchanged (Int.not_lt.mp equal)] at shorter
      exact absurd shorter.1 (Nat.lt_irrefl _)
    let short := encoded tmp (kMaxSequenceNumber <<< 8 ||| kValueTypeForSeek.code)
    have above : user.internal.compare start short < 0 := internal_lt_of_user (by
      rw [userKey_encoded]
      exact shorter.2)
    have below : user.internal.compare short limit < 0 := internal_lt_of_user (by
      rw [userKey_encoded]
      exact (between strict).2)
    have first := Compare_eq user start short
    have second := Compare_eq user short limit
    refine ⟨short, ?_, Int.le_of_lt above, below, ?_⟩
    · rw [if_pos shorter, packed_max, ok_bind]
      show (Compare user start.1 short.1 >>= _) = _
      rw [first, ok_bind]
      show (Compare user short.1 limit.1 >>= _) = _
      rw [second, ok_bind, if_pos ⟨above, below⟩]
      rfl
    · have smaller := shorter.1
      have length : start.userKey.length = start.1.length - 8 := by
        rw [Encoded.userKey, List.length_take]
        omega
      show (tmp ++ EncodeFixed64 _).length ≤ _
      rw [List.length_append, length_EncodeFixed64]
      omega
  · exact ⟨start, by rw [if_neg shorter], Int.le_of_eq (user.internal.compare_self start), less,
      Nat.le_refl _⟩

theorem InternalKeyComparator.FindShortestSeparator_between_once : ∃ short : Encoded,
    FindShortestSeparator BytewiseComparator (encoded [1, 2, 3] 256).1 (encoded [1, 9] 256).1 =
        .ok short.1 ∧
      BytewiseComparator.internal.compare (encoded [1, 2, 3] 256) short ≤ 0 ∧
      BytewiseComparator.internal.compare short (encoded [1, 9] 256) < 0 ∧
      short.1.length ≤ (encoded [1, 2, 3] 256).1.length :=
  FindShortestSeparator_between BytewiseComparator (encoded [1, 2, 3] 256) (encoded [1, 9] 256)
    (internal_lt_of_user (by decide))

/-- A successor of an internal key is not below it, and not longer. -/
theorem InternalKeyComparator.FindShortSuccessor_behind (user : Comparator) (key : Encoded) :
    ∃ short : Encoded, FindShortSuccessor user key.1 = .ok short.1 ∧
      user.internal.compare key short ≤ 0 ∧ short.1.length ≤ key.1.length := by
  rw [FindShortSuccessor, ExtractUserKey_encoded, ok_bind]
  dsimp only
  by_cases shorter : (user.FindShortSuccessor key.userKey).length < key.userKey.length ∧
      user.order.compare key.userKey (user.FindShortSuccessor key.userKey) < 0
  · let short := encoded (user.FindShortSuccessor key.userKey)
      (kMaxSequenceNumber <<< 8 ||| kValueTypeForSeek.code)
    have above : user.internal.compare key short < 0 := internal_lt_of_user (by
      rw [userKey_encoded]
      exact shorter.2)
    have first := Compare_eq user key short
    refine ⟨short, ?_, Int.le_of_lt above, ?_⟩
    · rw [if_pos shorter, packed_max, ok_bind]
      show (Compare user key.1 short.1 >>= _) = _
      rw [first, ok_bind, if_pos above]
      rfl
    · have smaller := shorter.1
      have length : key.userKey.length = key.1.length - 8 := by
        rw [Encoded.userKey, List.length_take]
        omega
      show (user.FindShortSuccessor key.userKey ++ EncodeFixed64 _).length ≤ _
      rw [List.length_append, length_EncodeFixed64]
      omega
  · exact ⟨key, by rw [if_neg shorter], Int.le_of_eq (user.internal.compare_self key), Nat.le_refl _⟩

end LevelDBLib.Navi
