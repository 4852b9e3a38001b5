/-
This file models the memtable, `db/memtable.cpp`: a skip list of entries, each an internal
key behind its length and a value behind its. An entry carries the proof that its key can
be read, so the list compares entries by a total order.

A lookup at a sequence number finds the newest version of its key that is not newer than
the number, whatever else the table holds.
-/

import LevelDBLib.Navi.InternalKeys
import LevelDBLib.Navi.SkipListRuns
import LevelDBLib.Navi.Status

namespace LevelDBLib.Navi

open KvDB Coding

/-! ### Entries -/

namespace MemTable

/-- The slice behind its length at a place in memory, which is not corrupted. -/
def slice (data : Bytes) : Except Fault Bytes :=
  match GetLengthPrefixedSlice data with
  | some (found, _) => .ok found
  | none => .error .outOfBounds

/-- The memory from a pointer on where an internal key can be read. -/
structure Entry where
  data : Bytes
  key : Encoded
  rest : Bytes
  holds : GetLengthPrefixedSlice data = some (key.1, rest)

def Entry.ofData (data : Bytes) : Except Fault Entry :=
  match holds : GetLengthPrefixedSlice data with
  | some (key, rest) =>
    if long : 8 ≤ key.length then .ok ⟨data, ⟨key, long⟩, rest, holds⟩ else .error .assertion
  | none => .error .outOfBounds

/-- `KeyComparator`. -/
def compareData (user : Comparator) (aptr bptr : Bytes) : Except Fault Int := do
  let a ← slice aptr
  let b ← slice bptr
  InternalKeyComparator.Compare user a b

/-- Entries by their internal keys. -/
def order (user : Comparator) : Comparison Entry := user.internal.along Entry.key

theorem slice_entry (entry : Entry) : slice entry.data = .ok entry.key.1 := by
  rw [slice, entry.holds]

/-- `KeyComparator` is the comparison of entries. -/
theorem compareData_eq (user : Comparator) (a b : Entry) :
    compareData user a.data b.data = .ok ((order user).compare a b) := by
  rw [compareData, slice_entry, ok_bind, slice_entry, ok_bind, InternalKeyComparator.Compare_eq]
  rfl

theorem ofData_entry (entry : Entry) : Entry.ofData entry.data = .ok entry := by
  obtain ⟨data, key, rest, read⟩ := entry
  unfold Entry.ofData
  dsimp only
  split
  · next found rest' holds =>
    obtain ⟨rfl, rfl⟩ := Prod.mk.inj (Option.some.inj (holds.symm.trans read))
    exact dif_pos key.2
  · next missing =>
    rw [missing] at read
    cases read

end MemTable

/-! ### The table -/

structure MemTable where
  table_ : SkipList MemTable.Entry

namespace MemTable

/-- An entry for the head of a list, whose key is never compared. -/
def null : Entry :=
  ⟨8 :: List.replicate 8 0, ⟨List.replicate 8 0, Nat.le_refl 8⟩, [], rfl⟩

def new : MemTable := ⟨.new null⟩

def Add (user : Comparator) (mem : MemTable) (s : BitVec 64) (type : ValueType) (key value : Bytes) :
    Except Fault MemTable :=
  let internal_key_size := key.length + 8
  let encoded_len := VarintLength (BitVec.ofNat 64 internal_key_size) + internal_key_size +
    VarintLength (BitVec.ofNat 64 value.length) + value.length
  let buf := EncodeVarint32 (BitVec.ofNat 32 internal_key_size) ++
    (key ++ EncodeFixed64 (s <<< 8 ||| type.code) ++
      (EncodeVarint32 (BitVec.ofNat 32 value.length) ++ value))
  if buf.length ≠ encoded_len then .error .assertion
  else do
    let entry ← Entry.ofData buf
    let table_ ← mem.table_.Insert (order user) entry
    .ok ⟨table_⟩

/-- What a lookup finds: a value, or that the key was deleted. -/
inductive Found where
  | value (value : Bytes)
  | status (s : Status)
deriving DecidableEq, Repr

def Get (user : Comparator) (mem : MemTable) (key : LookupKey) : Except Fault (Option Found) := do
  let memkey ← Entry.ofData key.memtable_key
  let iter ← SkipList.Iterator.Seek (order user) mem.table_ memkey
  if iter.Valid then
    let entry ← SkipList.Iterator.key mem.table_ iter
    match GetVarint32Ptr entry.data with
    | none => .error .nullPointer
    | some (key_length, key_ptr) =>
      let key_length := key_length.toNat
      if user.order.compare (key_ptr.take (key_length - 8)) key.user_key = 0 then
        let tag := DecodeFixed64 (key_ptr.drop (key_length - 8))
        match ValueType.ofCode (tag &&& 0xff) with
        | some .kTypeValue => do
          let v ← slice (key_ptr.drop key_length)
          .ok (some (.value v))
        | some .kTypeDeletion => .ok (some (.status (.NotFound [] [])))
        | none => .ok none
      else .ok none
  else .ok none

/-! ### Versions -/

/-- A version of a user key: a value, or a deletion, with its sequence number. The lengths fit their
fields. -/
structure Version where
  key : Bytes
  sequence : BitVec 64
  type : ValueType
  value : Bytes
  numbered : sequence.toNat < 2 ^ 56
  short : key.length + 8 < 2 ^ 32
  fits : value.length < 2 ^ 32

namespace Version

def tag (version : Version) : BitVec 64 := version.sequence <<< 8 ||| version.type.code

def internalKey (version : Version) : Encoded := encoded version.key version.tag

/-- What a lookup that finds the version gives. -/
def found (version : Version) : Found :=
  match version.type with
  | .kTypeValue => .value version.value
  | .kTypeDeletion => .status (.NotFound [] [])

/-- The bytes of an entry. -/
def data (version : Version) : Bytes :=
  PutLengthPrefixedSlice [] version.internalKey.1 ++ PutLengthPrefixedSlice [] version.value

theorem length_internalKey (version : Version) :
    version.internalKey.1.length = version.key.length + 8 := by
  show (version.key ++ EncodeFixed64 _).length = _
  rw [List.length_append, length_EncodeFixed64]

theorem toNat_tag (version : Version) :
    version.tag.toNat = version.sequence.toNat * 256 + version.type.code.toNat :=
  toNat_packed _ _ version.numbered

/-- The entry of a version. -/
def entry (version : Version) : Entry :=
  ⟨version.data, version.internalKey, PutLengthPrefixedSlice [] version.value,
    GetLengthPrefixedSlice_Put _ _ (version.length_internalKey ▸ version.short)⟩

end Version

/-- The node of a version in a list. -/
def node (stored : Nat × Version) : Nat × Entry := (stored.1, stored.2.entry)

/-- A table of versions. -/
def Holds (user : Comparator) (mem : MemTable) (versions : List Version) : Prop :=
  ∃ stored : List (Nat × Version), mem.table_.Linked (order user) (stored.map node) ∧
    (stored.map Prod.snd).Perm versions

theorem holds_new (user : Comparator) : new.Holds user [] :=
  ⟨[], SkipList.linked_new _ _, .refl _⟩

theorem length_EncodeVarint32 (number : Nat) (fits : number < 2 ^ 32) :
    (EncodeVarint32 (BitVec.ofNat 32 number)).length = VarintLength (BitVec.ofNat 64 number) := by
  rw [VarintLength_eq, EncodeVarint32_eq, EncodeVarint64_eq, List.length_map, List.length_map,
    BitVec.toNat_ofNat, BitVec.toNat_ofNat, Nat.mod_eq_of_lt fits, Nat.mod_eq_of_lt (by omega)]

theorem Version.data_eq (version : Version) :
    EncodeVarint32 (BitVec.ofNat 32 (version.key.length + 8)) ++
      (version.key ++ EncodeFixed64 (version.sequence <<< 8 ||| version.type.code) ++
        (EncodeVarint32 (BitVec.ofNat 32 version.value.length) ++ version.value)) = version.data := by
  rw [Version.data, PutLengthPrefixedSlice, PutLengthPrefixedSlice, PutVarint32, PutVarint32,
    List.nil_append, List.nil_append, Version.length_internalKey]
  exact (List.append_assoc ..).symm

/-- A version that is in the table yet by no other internal key is added. -/
theorem Holds.Add {user : Comparator} {mem : MemTable} {versions : List Version}
    (holds : mem.Holds user versions) (version : Version)
    (new : ∀ other ∈ versions,
      user.internal.compare other.internalKey version.internalKey ≠ 0) :
    ∃ after, mem.Add user version.sequence version.type version.key version.value = .ok after ∧
      after.Holds user (version :: versions) := by
  obtain ⟨stored, linked, same⟩ := holds
  have apart : ∀ entry ∈ stored.map node, (order user).compare entry.2 version.entry ≠ 0 := by
    intro entry mem
    obtain ⟨other, inStored, rfl⟩ := List.mem_map.mp mem
    exact new other.2 (same.subset (List.mem_map_of_mem inStored))
  obtain ⟨table_, insertEq, now⟩ := linked.Insert apart
  obtain ⟨low, high, rfl, lowEq, highEq⟩ :=
    List.map_eq_append_iff.mp (SkipList.lower_append_upper (order user) (stored.map node) version.entry)
  rw [← lowEq, ← highEq] at now
  have length : version.data.length =
      VarintLength (BitVec.ofNat 64 (version.key.length + 8)) + (version.key.length + 8) +
        VarintLength (BitVec.ofNat 64 version.value.length) + version.value.length := by
    rw [← version.data_eq, List.length_append, List.length_append, List.length_append,
      List.length_append, length_EncodeVarint32 _ version.short, length_EncodeVarint32 _ version.fits,
      length_EncodeFixed64]
    omega
  refine ⟨⟨table_⟩, ?_, low ++ (mem.table_.nodes.length, version) :: high, ?_, ?_⟩
  · unfold MemTable.Add
    simp only [version.data_eq]
    rw [if_neg (not_not_intro length)]
    show (Entry.ofData version.entry.data >>= _) = _
    rw [ofData_entry, ok_bind, insertEq, ok_bind]
  · rw [List.map_append, List.map_cons]
    exact now
  · rw [List.map_append, List.map_cons]
    refine List.perm_middle.trans (List.Perm.cons _ ?_)
    rw [← List.map_append]
    exact same

/-! ### Lookups -/

/-- The newest version of a user key, of those up to a sequence number. -/
structure Newest (user : Comparator) (versions : List Version) (key : Bytes) (s : BitVec 64)
    (version : Version) : Prop where
  mem : version ∈ versions
  same : user.order.compare version.key key = 0
  visible : version.sequence ≤ s
  newest : ∀ other ∈ versions, user.order.compare other.key key = 0 → other.sequence ≤ s →
    other.tag ≤ version.tag

/-- What a lookup of a user key finds at a sequence number. -/
def Finds (user : Comparator) (versions : List Version) (key : Bytes) (s : BitVec 64) :
    Option Found → Prop
  | some found => ∃ version, Newest user versions key s version ∧ found = version.found
  | none => ∀ version ∈ versions, user.order.compare version.key key = 0 → s < version.sequence

/-- Among the versions of a user key, the visible ones are those from what is looked up on. -/
theorem Version.below_iff {user : Comparator} (version : Version) {key : Bytes} {s : BitVec 64}
    (bound : s.toNat < 2 ^ 56) (same : user.order.compare version.key key = 0) :
    user.internal.compare version.internalKey (lookedUp key s) < 0 ↔ s < version.sequence := by
  have small := toNat_code version.type
  have zero : (user.order.along Encoded.userKey).compare version.internalKey (lookedUp key s) = 0 := by
    show user.order.compare version.internalKey.userKey (lookedUp key s).userKey = 0
    rw [internalKey, lookedUp, userKey_encoded, userKey_encoded]
    exact same
  have number : user.internal.compare version.internalKey (lookedUp key s) =
      Comparison.descending.compare version.internalKey.tag (lookedUp key s).tag := if_pos zero
  have code : kValueTypeForSeek.code.toNat = 1 := rfl
  rw [number, internalKey, lookedUp, tag_encoded, tag_encoded, version.toNat_tag,
    toNat_packed _ _ bound, code, BitVec.lt_def]
  show (if _ then (-1 : Int) else if _ then 1 else 0) < 0 ↔ _
  split
  · omega
  · split <;> omega

theorem Version.read_data (version : Version) :
    GetVarint32Ptr version.data = some (BitVec.ofNat 32 (version.key.length + 8),
      version.internalKey.1 ++ PutLengthPrefixedSlice [] version.value) := by
  rw [Version.data, PutLengthPrefixedSlice, PutVarint32, List.nil_append, List.append_assoc,
    Version.length_internalKey]
  exact GetVarint32_EncodeVarint32 _ _

/-- A lookup that stands at the entry of a version finds it, if it is of the user key. -/
theorem Get_at (user : Comparator) {mem : MemTable} {lookup : LookupKey} {memkey : Entry}
    {iter : SkipList.Iterator} {version : Version}
    (memkeyEq : Entry.ofData lookup.memtable_key = .ok memkey)
    (seekEq : SkipList.Iterator.Seek (order user) mem.table_ memkey = .ok iter)
    (valid : iter.Valid = true)
    (keyEq : SkipList.Iterator.key mem.table_ iter = .ok version.entry) :
    mem.Get user lookup = .ok (if user.order.compare version.key lookup.user_key = 0 then
      some version.found else none) := by
  have length : (BitVec.ofNat 32 (version.key.length + 8)).toNat = version.key.length + 8 := by
    rw [BitVec.toNat_ofNat, Nat.mod_eq_of_lt version.short]
  have user_key : (version.internalKey.1 ++ PutLengthPrefixedSlice [] version.value).take
      version.key.length = version.key := by
    show (version.key ++ _ ++ _).take _ = _
    rw [List.append_assoc, List.take_left' rfl]
  have tag : DecodeFixed64 ((version.internalKey.1 ++
      PutLengthPrefixedSlice [] version.value).drop version.key.length) = version.tag := by
    show DecodeFixed64 ((version.key ++ EncodeFixed64 version.tag ++ _).drop _) = _
    rw [List.append_assoc, List.drop_left' rfl, DecodeFixed64_EncodeFixed64]
  have rest : (version.internalKey.1 ++ PutLengthPrefixedSlice [] version.value).drop
      (version.key.length + 8) = PutLengthPrefixedSlice [] version.value :=
    List.drop_left' version.length_internalKey
  have value : slice (PutLengthPrefixedSlice [] version.value) = .ok version.value := by
    have read := GetLengthPrefixedSlice_Put version.value [] version.fits
    rw [List.append_nil] at read
    rw [slice, read]
  rw [Get, memkeyEq, ok_bind, seekEq, ok_bind, if_pos valid, keyEq, ok_bind]
  have read : GetVarint32Ptr version.entry.data = _ := version.read_data
  rw [read]
  dsimp only
  rw [length, Nat.add_sub_cancel, user_key, tag, rest]
  by_cases same : user.order.compare version.key lookup.user_key = 0
  · rw [if_pos same, if_pos same, Version.tag, (shifted_packed _ _ version.numbered).2, ofCode_code]
    unfold Version.found
    cases version.type with
    | kTypeValue =>
      dsimp only
      rw [value, ok_bind]
    | kTypeDeletion => rfl
  · rw [if_neg same, if_neg same]

/-- In a sorted list, the first version that is not below what is looked up is the newest visible one
of its user key, and if it is of another one there is none. -/
theorem finds_first {user : Comparator} {versions : List Version} {key : Bytes} {s : BitVec 64}
    (bound : s.toNat < 2 ^ 56) {low : List Version} {first : Version} {rest : List Version}
    (same : ∀ version, version ∈ versions ↔ version ∈ low ++ first :: rest)
    (before : ∀ version ∈ low,
      user.internal.compare version.internalKey (lookedUp key s) < 0)
    (behind : 0 ≤ user.internal.compare first.internalKey (lookedUp key s))
    (sorted : ∀ version ∈ rest, user.internal.compare first.internalKey version.internalKey < 0) :
    Finds user versions key s
      (if user.order.compare first.key key = 0 then some first.found else none) := by
  have places : ∀ version ∈ versions, version ∈ low ∨ version = first ∨ version ∈ rest :=
    fun version mem => by
      have listed := (same version).mp mem
      rwa [List.mem_append, List.mem_cons] at listed
  by_cases here : user.order.compare first.key key = 0
  · rw [if_pos here]
    refine ⟨first, ⟨(same first).mpr (List.mem_append_right _ List.mem_cons_self), here, ?_, ?_⟩, rfl⟩
    · have visible := (not_congr (first.below_iff bound here)).mp (Int.not_lt.mpr behind)
      exact BitVec.not_lt.mp visible
    · intro other mem equal visible
      rcases places other mem with inLow | rfl | inRest
      · have newer := (other.below_iff bound equal).mp (before other inLow)
        exact absurd visible (BitVec.not_le.mpr newer)
      · exact BitVec.le_refl _
      · have zero : (user.order.along Encoded.userKey).compare first.internalKey other.internalKey =
            0 := by
          show user.order.compare first.internalKey.userKey other.internalKey.userKey = 0
          rw [Version.internalKey, Version.internalKey, userKey_encoded, userKey_encoded]
          exact Comparison.zero_trans here ((user.order.zero_iff _ _).mp equal)
        have less := sorted other inRest
        have number : user.internal.compare first.internalKey other.internalKey =
            Comparison.descending.compare first.internalKey.tag other.internalKey.tag := if_pos zero
        rw [number, Version.internalKey, Version.internalKey, tag_encoded, tag_encoded] at less
        rw [BitVec.le_def]
        by_contra more
        have not_less : ¬ other.tag.toNat < first.tag.toNat := by omega
        have value : Comparison.descending.compare first.tag.toNat other.tag.toNat =
          if first.tag.toNat < other.tag.toNat then 1 else 0 := if_neg not_less
        rw [value] at less
        split at less <;> omega
  · rw [if_neg here]
    intro version mem equal
    rcases places version mem with inLow | rfl | inRest
    · exact (version.below_iff bound equal).mp (before version inLow)
    · exact absurd equal here
    · exfalso
      -- its user key would be below the first one's, which is behind what is looked up
      have above := user_le_of_internal ((user.internal.nonneg_iff _ _).mp behind)
      have next := user_le_of_internal (Int.le_of_lt (sorted version inRest))
      rw [Version.internalKey, lookedUp, userKey_encoded, userKey_encoded] at above
      rw [Version.internalKey, Version.internalKey, userKey_encoded, userKey_encoded] at next
      have back := user.order.trans _ _ _ next (Int.le_of_eq equal)
      have forth := (user.order.nonneg_iff first.key key).mpr above
      omega

/-- A lookup finds the newest version of its user key that is not newer than its number. -/
theorem Holds.Get {user : Comparator} {mem : MemTable} {versions : List Version}
    (holds : mem.Holds user versions) (key : Bytes) (s : BitVec 64) (short : key.length + 8 < 2 ^ 32)
    (bound : s.toNat < 2 ^ 56) :
    ∃ lookup found, LookupKey.new key s = .ok lookup ∧ mem.Get user lookup = .ok found ∧
      Finds user versions key s found := by
  obtain ⟨stored, linked, perm⟩ := holds
  obtain ⟨lookup, newEq, userEq, -, memkeyEq⟩ := LookupKey.new_keys key s bound
  have length : (lookedUp key s).1.length < 2 ^ 32 := by
    show (key ++ EncodeFixed64 _).length < _
    rw [List.length_append, length_EncodeFixed64]
    exact short
  obtain ⟨memkey, readEq, memkeyKey⟩ : ∃ memkey : Entry,
      Entry.ofData lookup.memtable_key = .ok memkey ∧ memkey.key = lookedUp key s := by
    rw [memkeyEq, ← List.append_nil (PutLengthPrefixedSlice [] _)]
    exact ⟨_, ofData_entry ⟨_, lookedUp key s, [], GetLengthPrefixedSlice_Put _ [] length⟩, rfl⟩
  obtain ⟨prev, findEq, -⟩ := linked.FindGreaterOrEqual memkey
  obtain ⟨low, high, rfl, lowEq, highEq⟩ :=
    List.map_eq_append_iff.mp (SkipList.lower_append_upper (order user) (stored.map node) memkey)
  have before : ∀ version ∈ low.map Prod.snd,
      user.internal.compare version.internalKey (lookedUp key s) < 0 := by
    intro version inLow
    obtain ⟨place, placed, rfl⟩ := List.mem_map.mp inLow
    have mem : node place ∈ SkipList.lower (order user) ((low ++ high).map node) memkey :=
      lowEq ▸ List.mem_map_of_mem placed
    have less := SkipList.lt_of_mem_lower mem
    rw [← memkeyKey]
    exact less
  have seekEq : SkipList.Iterator.Seek (order user) mem.table_ memkey =
      .ok ⟨((high.map node).map Prod.fst).head?⟩ := by
    rw [SkipList.Iterator.Seek, findEq, ok_bind, highEq]
  cases high with
  | nil =>
    refine ⟨lookup, none, newEq, ?_, fun version mem equal => ?_⟩
    · rw [MemTable.Get, readEq, ok_bind, seekEq]
      rfl
    · rw [List.append_nil] at perm
      exact (version.below_iff bound equal).mp (before version (perm.symm.subset mem))
  | cons first rest =>
    have sorted := linked.sorted
    rw [List.map_append, List.map_cons] at sorted
    have next := (List.pairwise_cons.mp (List.pairwise_append.mp sorted).2.1).1
    have behind : 0 ≤ user.internal.compare first.2.internalKey (lookedUp key s) := by
      have mem : node first ∈ SkipList.upper (order user) ((low ++ first :: rest).map node) memkey :=
        highEq ▸ List.mem_map_of_mem List.mem_cons_self
      have le := linked.le_of_mem_upper mem
      rw [← memkeyKey]
      exact le
    have keyEq : SkipList.Iterator.key mem.table_ ⟨some first.1⟩ = .ok first.2.entry := by
      have listed := linked.key (node first)
        (List.mem_map_of_mem (List.mem_append_right _ List.mem_cons_self))
      exact listed
    have same : ∀ version, version ∈ versions ↔
        version ∈ low.map Prod.snd ++ first.2 :: rest.map Prod.snd := fun version => by
      rw [← perm.mem_iff, List.map_append, List.map_cons]
    have after : ∀ version ∈ rest.map Prod.snd,
        user.internal.compare first.2.internalKey version.internalKey < 0 := by
      intro version inRest
      obtain ⟨place, placed, rfl⟩ := List.mem_map.mp inRest
      exact next (node place) (List.mem_map_of_mem placed)
    have found := finds_first bound same before behind after
    refine ⟨lookup, _, newEq, Get_at user readEq seekEq rfl keyEq, ?_⟩
    rw [userEq]
    exact found

/-! ### Additions -/

theorem Holds.perm {user : Comparator} {mem : MemTable} {versions others : List Version}
    (holds : mem.Holds user versions) (same : versions.Perm others) : mem.Holds user others := by
  obtain ⟨stored, linked, perm⟩ := holds
  exact ⟨stored, linked, perm.trans same⟩

/-- Versions of different numbers have different internal keys. -/
theorem Version.apart {user : Comparator} {one two : Version} (numbers : one.sequence ≠ two.sequence) :
    user.internal.compare one.internalKey two.internalKey ≠ 0 := by
  intro equal
  have smallOne := toNat_code one.type
  have smallTwo := toNat_code two.type
  have differ : one.sequence.toNat ≠ two.sequence.toNat := fun same =>
    numbers (BitVec.eq_of_toNat_eq same)
  by_cases users : (user.order.along Encoded.userKey).compare one.internalKey two.internalKey = 0
  · have number : user.internal.compare one.internalKey two.internalKey =
        Comparison.descending.compare one.internalKey.tag two.internalKey.tag := if_pos users
    have value : Comparison.descending.compare one.tag.toNat two.tag.toNat =
      if two.tag.toNat < one.tag.toNat then -1 else if one.tag.toNat < two.tag.toNat then 1 else 0 :=
      rfl
    rw [number, internalKey, internalKey, tag_encoded, tag_encoded, value, toNat_tag, toNat_tag] at equal
    split at equal
    · omega
    · split at equal <;> omega
  · have other : user.internal.compare one.internalKey two.internalKey =
        (user.order.along Encoded.userKey).compare one.internalKey two.internalKey := if_neg users
    exact users (other.symm.trans equal)

/-- A list of additions. -/
def Adds (user : Comparator) (mem : MemTable) (versions : List Version) : Except Fault MemTable :=
  versions.foldlM (fun mem version =>
    mem.Add user version.sequence version.type version.key version.value) mem

theorem Holds.Adds {user : Comparator} {mem : MemTable} {before : List Version}
    (holds : mem.Holds user before) (versions : List Version)
    (apart : (before ++ versions).Pairwise fun one two =>
      user.internal.compare one.internalKey two.internalKey ≠ 0) :
    ∃ after, mem.Adds user versions = .ok after ∧ after.Holds user (before ++ versions) := by
  induction versions generalizing mem before with
  | nil => exact ⟨mem, rfl, (List.append_nil before).symm ▸ holds⟩
  | cons version rest hypothesis =>
    have new : ∀ other ∈ before,
        user.internal.compare other.internalKey version.internalKey ≠ 0 := fun other mem =>
      (List.pairwise_append.mp apart).2.2 other mem version List.mem_cons_self
    obtain ⟨middle, addEq, now⟩ := holds.Add version new
    have grown : middle.Holds user (before ++ [version]) :=
      now.perm (List.perm_append_singleton version before).symm
    obtain ⟨after, restEq, all⟩ := hypothesis grown
      (by rw [List.append_assoc]; exact apart)
    refine ⟨after, ?_, ?_⟩
    · rw [MemTable.Adds, List.foldlM_cons, addEq, ok_bind]
      exact restEq
    · rw [List.append_assoc] at all
      exact all

/-- Versions of different internal keys are added, in any order, and every lookup then finds the
newest version of its user key that is visible. -/
theorem lookups (user : Comparator) (versions : List Version)
    (apart : versions.Pairwise fun one two =>
      user.internal.compare one.internalKey two.internalKey ≠ 0) :
    ∃ mem, new.Adds user versions = .ok mem ∧
      ∀ (key : Bytes) (s : BitVec 64), key.length + 8 < 2 ^ 32 → s.toNat < 2 ^ 56 →
        ∃ lookup found, LookupKey.new key s = .ok lookup ∧ mem.Get user lookup = .ok found ∧
          Finds user versions key s found := by
  obtain ⟨mem, addsEq, holds⟩ := (holds_new user).Adds versions apart
  exact ⟨mem, addsEq, fun key s short bound => holds.Get key s short bound⟩

theorem lookups_once : ∃ mem,
    new.Adds BytewiseComparator
        [⟨[1, 2], 5, .kTypeDeletion, [], by decide, by decide, by decide⟩,
          ⟨[1, 2], 3, .kTypeValue, [7], by decide, by decide, by decide⟩] = .ok mem ∧
      ∀ (key : Bytes) (s : BitVec 64), key.length + 8 < 2 ^ 32 → s.toNat < 2 ^ 56 →
        ∃ lookup found, LookupKey.new key s = .ok lookup ∧
          mem.Get BytewiseComparator lookup = .ok found ∧
          Finds BytewiseComparator [⟨[1, 2], 5, .kTypeDeletion, [], by decide, by decide, by decide⟩,
            ⟨[1, 2], 3, .kTypeValue, [7], by decide, by decide, by decide⟩] key s found :=
  lookups BytewiseComparator _ (List.pairwise_pair.mpr (Version.apart (by decide)))

end MemTable

end LevelDBLib.Navi
