/-
This file models `InsertInto` of `db/write_batch.cpp`, which adds the updates of a batch to a
memtable under numbers that follow one another. A memtable that took batches with the
numbers behind one another is a history: a lookup at a number finds what the last update
of its key up to that number says.
-/

import LevelDBLib.Navi.MemTable
import LevelDBLib.Navi.WriteBatch

namespace LevelDBLib.Navi

open KvDB

namespace Db

/-! ### Inserting -/

structure MemTableInserter where
  sequence_ : BitVec 64
  mem_ : MemTable

/-- `MemTableInserter` as a handler. -/
def MemTableInserter.handler (user : Comparator) : Handler MemTableInserter where
  Put inserter key value := do
    let mem_ ← inserter.mem_.Add user inserter.sequence_ .kTypeValue key value
    .ok ⟨inserter.sequence_ + 1, mem_⟩
  Delete inserter key := do
    let mem_ ← inserter.mem_.Add user inserter.sequence_ .kTypeDeletion key []
    .ok ⟨inserter.sequence_ + 1, mem_⟩

def WriteBatchInternal.InsertInto (user : Comparator) (b : WriteBatch) (memtable : MemTable) :
    Except Fault (Status × MemTable) := do
  let (status, inserter) ← b.Iterate (MemTableInserter.handler user)
    ⟨WriteBatchInternal.Sequence b, memtable⟩
  .ok (status, inserter.mem_)

/-! ### Histories -/

/-- What a version says, with its number. -/
def told (version : MemTable.Version) : Update × Nat :=
  (match version.type with
    | .kTypeValue => .put version.key version.value
    | .kTypeDeletion => .delete version.key, version.sequence.toNat)

/-- What a lookup that ends at an update finds. -/
def Update.found : Update → MemTable.Found
  | put _ value => .value value
  | delete _ => .status (.NotFound [] [])

/-- The last update of a user key. -/
def latest (user : Comparator) (updates : List Update) (key : Bytes) : Option Update :=
  (updates.filter fun update => user.order.compare update.key key = 0).getLast?

/-- The table holds the updates, numbered from the first number on. -/
def Numbered (user : Comparator) (mem : MemTable) (first : Nat) (updates : List Update) : Prop :=
  ∃ versions, mem.Holds user versions ∧ (versions.map told).Perm (updates.zipIdx first)

theorem numbered_new (user : Comparator) (first : Nat) : Numbered user .new first [] :=
  ⟨[], MemTable.holds_new user, .refl _⟩

theorem told_found (version : MemTable.Version) : (told version).1.found = version.found := by
  unfold told MemTable.Version.found
  cases version.type <;> rfl

theorem told_key (version : MemTable.Version) : (told version).1.key = version.key := by
  unfold told
  cases version.type <;> rfl

variable {user : Comparator} {mem : MemTable} {first : Nat} {updates : List Update}

/-- The next update is added under the next number. -/
theorem Numbered.handle (numbered : Numbered user mem first updates) (update : Update)
    (fits : update.Fits) (bound : first + updates.length < 2 ^ 56) :
    ∃ after, (MemTableInserter.handler user).handle
        ⟨BitVec.ofNat 64 (first + updates.length), mem⟩ update =
        .ok ⟨BitVec.ofNat 64 (first + updates.length + 1), after⟩ ∧
      Numbered user after first (updates ++ [update]) := by
  obtain ⟨versions, holds, same⟩ := numbered
  have number : (BitVec.ofNat 64 (first + updates.length)).toNat = first + updates.length := by
    rw [BitVec.toNat_ofNat, Nat.mod_eq_of_lt (by omega)]
  have next : BitVec.ofNat 64 (first + updates.length) + 1 =
      BitVec.ofNat 64 (first + updates.length + 1) := by
    rw [BitVec.ofNat_add _ 1]
    rfl
  obtain ⟨version, sequenceEq, toldEq, handleEq⟩ : ∃ version : MemTable.Version,
      version.sequence = BitVec.ofNat 64 (first + updates.length) ∧
      told version = (update, first + updates.length) ∧
      (MemTableInserter.handler user).handle ⟨version.sequence, mem⟩ update =
        (mem.Add user version.sequence version.type version.key version.value >>= fun mem =>
          .ok ⟨version.sequence + 1, mem⟩) := by
    have numbered : (BitVec.ofNat 64 (first + updates.length)).toNat < 2 ^ 56 := by
      rw [number]
      exact bound
    cases update with
    | put key value =>
      exact ⟨⟨key, _, .kTypeValue, value, numbered, fits.1, fits.2⟩, rfl,
        congrArg (Prod.mk _) number, rfl⟩
    | delete key =>
      exact ⟨⟨key, _, .kTypeDeletion, [], numbered, fits, by decide⟩, rfl,
        congrArg (Prod.mk _) number, rfl⟩
  -- every number in the table is smaller
  have apart : ∀ other ∈ versions,
      user.internal.compare other.internalKey version.internalKey ≠ 0 := by
    intro other inVersions
    refine MemTable.Version.apart fun equal => ?_
    have listed := same.subset (List.mem_map_of_mem inVersions)
    have small := (List.mem_zipIdx listed).2.1
    have value : other.sequence.toNat = first + updates.length := by
      rw [equal, sequenceEq, number]
    exact absurd small (Nat.not_lt.mpr (Nat.le_of_eq value.symm))
  obtain ⟨after, addEq, now⟩ := holds.Add version apart
  refine ⟨after, ?_, version :: versions, now, ?_⟩
  · rw [← sequenceEq, handleEq, addEq, ok_bind, sequenceEq, next]
  · rw [List.map_cons, toldEq, List.zipIdx_append, List.zipIdx_singleton]
    exact (List.Perm.cons _ same).trans (List.perm_append_singleton _ _).symm

theorem Numbered.handleAll (numbered : Numbered user mem first updates) (more : List Update)
    (fits : ∀ u ∈ more, u.Fits) (bound : first + updates.length + more.length ≤ 2 ^ 56) :
    ∃ after, more.foldlM (MemTableInserter.handler user).handle
        ⟨BitVec.ofNat 64 (first + updates.length), mem⟩ =
        .ok ⟨BitVec.ofNat 64 (first + updates.length + more.length), after⟩ ∧
      Numbered user after first (updates ++ more) := by
  induction more generalizing mem updates with
  | nil => exact ⟨mem, rfl, (List.append_nil updates).symm ▸ numbered⟩
  | cons update rest hypothesis =>
    rw [List.length_cons] at bound
    obtain ⟨middle, handleEq, now⟩ :=
      numbered.handle update (fits update List.mem_cons_self) (by omega)
    obtain ⟨after, restEq, all⟩ := hypothesis now
      (fun u mem => fits u (List.mem_cons_of_mem _ mem)) (by
        rw [List.length_append, List.length_singleton]
        omega)
    rw [List.length_append, List.length_singleton, ← Nat.add_assoc] at restEq
    refine ⟨after, ?_, ?_⟩
    · rw [List.foldlM_cons, handleEq, ok_bind, restEq, List.length_cons, Nat.add_assoc _ 1,
        Nat.add_comm 1]
    · rw [List.append_assoc] at all
      exact all

/-- A batch is inserted behind the updates that the table holds. -/
theorem Numbered.InsertInto (numbered : Numbered user mem first updates) {b : WriteBatch}
    {more : List Update} (holds : b.Holds (BitVec.ofNat 64 (first + updates.length)) more)
    (fits : ∀ u ∈ more, u.Fits) (bound : first + updates.length + more.length ≤ 2 ^ 56) :
    ∃ after, WriteBatchInternal.InsertInto user b mem = .ok (.OK, after) ∧
      Numbered user after first (updates ++ more) := by
  obtain ⟨after, handledEq, now⟩ := numbered.handleAll more fits bound
  refine ⟨after, ?_, now⟩
  rw [WriteBatchInternal.InsertInto, holds.sequence, holds.Iterate fits, handledEq]
  rfl

/-! ### Lookups -/

theorem latest_eq {key : Bytes} {front back : List Update} {update : Update}
    (here : user.order.compare update.key key = 0)
    (last : ∀ other ∈ back, user.order.compare other.key key ≠ 0) :
    latest user (front ++ update :: back) key = some update := by
  have none' : (back.filter fun other => user.order.compare other.key key = 0) = [] :=
    List.filter_eq_nil_iff.mpr fun other mem equal => last other mem (of_decide_eq_true equal)
  rw [latest, List.filter_append, List.filter_cons, if_pos (decide_eq_true here), none',
    List.getLast?_append, List.getLast?_singleton, Option.some_or]

/-- A lookup finds what the last update of its key says, of those up to its number. -/
theorem Numbered.Get (numbered : Numbered user mem first updates) (key : Bytes) (s : Nat)
    (short : key.length + 8 < 2 ^ 32) (bound : s < 2 ^ 56) :
    ∃ lookup, LookupKey.new key (BitVec.ofNat 64 s) = .ok lookup ∧
      mem.Get user lookup =
        .ok ((latest user (updates.take (s + 1 - first)) key).map Update.found) := by
  obtain ⟨versions, holds, same⟩ := numbered
  have number : (BitVec.ofNat 64 s).toNat = s := by
    rw [BitVec.toNat_ofNat, Nat.mod_eq_of_lt (by omega)]
  -- the versions are the updates by their places
  have placed : ∀ index update, updates[index]? = some update → ∃ version ∈ versions,
      told version = (update, first + index) := fun index update found => by
    have listed : (update, first + index) ∈ updates.zipIdx first :=
      List.mk_mem_zipIdx_iff_le_and_getElem?_sub.mpr
        ⟨Nat.le_add_right _ _, by rw [Nat.add_sub_cancel_left]; exact found⟩
    exact List.mem_map.mp (same.symm.subset listed)
  obtain ⟨lookup, found, newEq, getEq, finds⟩ :=
    holds.Get key (BitVec.ofNat 64 s) short (by rw [number]; exact bound)
  refine ⟨lookup, newEq, getEq.trans (congrArg Except.ok ?_)⟩
  cases found with
  | none =>
    have none' : latest user (updates.take (s + 1 - first)) key = none := by
      refine List.getLast?_eq_none_iff.mpr (List.filter_eq_nil_iff.mpr fun update mem equal => ?_)
      obtain ⟨index, found⟩ := List.mem_iff_getElem?.mp mem
      rw [List.getElem?_take] at found
      split at found
      · next inside =>
        obtain ⟨version, inVersions, toldEq⟩ := placed index update found
        have sameKey : version.key = update.key := by rw [← told_key, toldEq]
        have newer := finds version inVersions (by rw [sameKey]; exact of_decide_eq_true equal)
        have place : version.sequence.toNat = first + index := congrArg Prod.snd toldEq
        rw [BitVec.lt_def, number, place] at newer
        omega
      · cases found
    rw [none']
    rfl
  | some found =>
    obtain ⟨version, newest, rfl⟩ := finds
    have listed := same.subset (List.mem_map_of_mem newest.mem)
    obtain ⟨after, foundEq⟩ := List.mk_mem_zipIdx_iff_le_and_getElem?_sub.mp
      (show ((told version).1, version.sequence.toNat) ∈ _ from listed)
    have visible := newest.visible
    rw [BitVec.le_def, number] at visible
    have taken : (updates.take (s + 1 - first))[version.sequence.toNat - first]? =
        some (told version).1 := by
      rw [List.getElem?_take, if_pos (by omega), foundEq]
    obtain ⟨inside, valueEq⟩ := List.getElem?_eq_some_iff.mp taken
    have split := List.take_append_drop (version.sequence.toNat - first)
      (updates.take (s + 1 - first))
    rw [List.drop_eq_getElem_cons inside, valueEq] at split
    have last : latest user (updates.take (s + 1 - first)) key = some (told version).1 := by
      rw [← split]
      refine latest_eq (by rw [told_key]; exact newest.same) fun other mem equal => ?_
      obtain ⟨index, otherEq⟩ := List.mem_iff_getElem?.mp mem
      rw [List.getElem?_drop, List.getElem?_take] at otherEq
      split at otherEq
      · next within =>
        obtain ⟨later, inVersions, toldEq⟩ := placed _ other otherEq
        have place : later.sequence.toNat =
          first + (version.sequence.toNat - first + 1 + index) := congrArg Prod.snd toldEq
        have sameKey : later.key = other.key := by rw [← told_key, toldEq]
        have tags := newest.newest later inVersions (by rw [sameKey]; exact equal)
          (by rw [BitVec.le_def, number]; omega)
        rw [BitVec.le_def, MemTable.Version.toNat_tag, MemTable.Version.toNat_tag] at tags
        have small := toNat_code version.type
        omega
      · cases otherEq
    rw [last, Option.map_some, told_found]

/-! ### Runs -/

/-- Batches that are inserted one after the other. -/
def insertAll (user : Comparator) (mem : MemTable) : List WriteBatch → Except Fault (Status × MemTable)
  | [] => .ok (.OK, mem)
  | b :: rest => do
    let (status, mem) ← WriteBatchInternal.InsertInto user b mem
    if status.ok then insertAll user mem rest else .ok (status, mem)

/-- The batches of some programs, each numbered behind the updates of the last one. -/
def Consecutive : Nat → List (WriteBatch × List Update) → Prop
  | _, [] => True
  | next, (b, updates) :: rest =>
    b.Holds (BitVec.ofNat 64 next) updates ∧ Consecutive (next + updates.length) rest

theorem Numbered.insertAll (numbered : Numbered user mem first updates)
    (batches : List (WriteBatch × List Update))
    (consecutive : Consecutive (first + updates.length) batches)
    (fits : ∀ u ∈ batches.flatMap Prod.snd, u.Fits)
    (bound : first + updates.length + (batches.flatMap Prod.snd).length ≤ 2 ^ 56) :
    ∃ after, Db.insertAll user mem (batches.map Prod.fst) = .ok (.OK, after) ∧
      Numbered user after first (updates ++ batches.flatMap Prod.snd) := by
  induction batches generalizing mem updates with
  | nil => exact ⟨mem, rfl, (List.append_nil updates).symm ▸ numbered⟩
  | cons batch rest hypothesis =>
    obtain ⟨holds, consecutive⟩ := consecutive
    rw [List.flatMap_cons, List.length_append] at bound
    rw [List.flatMap_cons] at fits
    obtain ⟨middle, insertEq, now⟩ := numbered.InsertInto holds
      (fun u mem => fits u (List.mem_append_left _ mem)) (by omega)
    obtain ⟨after, restEq, all⟩ := hypothesis now
      (by rw [List.length_append, ← Nat.add_assoc]; exact consecutive)
      (fun u mem => fits u (List.mem_append_right _ mem))
      (by rw [List.length_append]; omega)
    refine ⟨after, ?_, ?_⟩
    · rw [List.map_cons, Db.insertAll, insertEq, ok_bind]
      exact restEq
    · rw [List.flatMap_cons, ← List.append_assoc]
      exact all

/-- Batches that are numbered behind one another make a history: a lookup of any key at any number
finds what the last update of the key up to that number says. -/
theorem history (user : Comparator) (first : Nat) (batches : List (WriteBatch × List Update))
    (consecutive : Consecutive first batches) (fits : ∀ u ∈ batches.flatMap Prod.snd, u.Fits)
    (bound : first + (batches.flatMap Prod.snd).length ≤ 2 ^ 56) :
    ∃ mem, insertAll user .new (batches.map Prod.fst) = .ok (.OK, mem) ∧
      ∀ (key : Bytes) (s : Nat), key.length + 8 < 2 ^ 32 → s < 2 ^ 56 →
        ∃ lookup, LookupKey.new key (BitVec.ofNat 64 s) = .ok lookup ∧
          mem.Get user lookup = .ok ((latest user
            ((batches.flatMap Prod.snd).take (s + 1 - first)) key).map Update.found) := by
  obtain ⟨mem, insertEq, numbered⟩ :=
    (numbered_new user first).insertAll batches consecutive fits bound
  exact ⟨mem, insertEq, fun key s short small => numbered.Get key s short small⟩

/-- Two batches, the second of which deletes what the first one put. -/
theorem history_once : ∃ mem,
    insertAll BytewiseComparator .new
        [WriteBatchInternal.SetSequence (WriteBatch.Clear.Put [1] [5]) 7,
          WriteBatchInternal.SetSequence (WriteBatch.Clear.Delete [1]) 8] = .ok (.OK, mem) ∧
      ∀ (key : Bytes) (s : Nat), key.length + 8 < 2 ^ 32 → s < 2 ^ 56 →
        ∃ lookup, LookupKey.new key (BitVec.ofNat 64 s) = .ok lookup ∧
          mem.Get BytewiseComparator lookup = .ok ((latest BytewiseComparator
            ([.put [1] [5], .delete [1]].take (s + 1 - 7)) key).map Update.found) :=
  history BytewiseComparator 7
    [(WriteBatchInternal.SetSequence (WriteBatch.Clear.Put [1] [5]) 7, [.put [1] [5]]),
      (WriteBatchInternal.SetSequence (WriteBatch.Clear.Delete [1]) 8, [.delete [1]])]
    ⟨(WriteBatch.holds_Clear.Put [1] [5]).SetSequence 7,
      (WriteBatch.holds_Clear.Delete [1]).SetSequence 8, trivial⟩
    (by simp [Update.Fits]) (by decide)

end Db

end LevelDBLib.Navi
