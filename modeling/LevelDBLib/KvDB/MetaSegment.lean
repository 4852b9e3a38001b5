/-
This file models `SMDMetaSegment`, the map of strings that a table keeps beside
its data, and settles when the map survives its file.

`save` writes every entry and `read` refuses a map of more than
`MAX_META_INFO_COUNT` of them, which leaves the new segment empty. An entry whose
value is the empty string reads the same as one that is missing.

Of the page file of the segment only the string last put to it is kept.
-/

import Mathlib.Data.List.Induction
import LevelDBLib.KvDB.SchemaCodec

namespace LevelDBLib.KvDB

open Schema SMDMemStream

def MAX_META_INFO_COUNT : Nat := 256

structure SMDMetaSegment where
  metas : ExternFields
deriving DecidableEq, Repr

/-- Assignment to a key of the map. -/
def Schema.ExternFields.assign (fields : ExternFields) (key val : Bytes) : ExternFields where
  entries := fields.entries.map fun entry => if entry.1 = key then (key, val) else entry
  sorted := by
    refine List.pairwise_map.mpr (fields.sorted.imp ?_)
    intro first second less
    have same (entry : Bytes × Bytes) :
        (if entry.1 = key then (key, val) else entry).1 = entry.1 := by
      split
      · rename_i equal
        exact equal.symm
      · rfl
    rw [same, same]
    exact less

namespace SMDMetaSegment

def addMetaInfo (segment : SMDMetaSegment) (key value : Bytes) : SMDMetaSegment :=
  if (List.lookup key segment.metas.entries).isSome then ⟨segment.metas.assign key value⟩
  else ⟨segment.metas.insert key value⟩

def getMetaInfo (segment : SMDMetaSegment) (key : Bytes) : Bytes :=
  (List.lookup key segment.metas.entries).getD []

/-- `save`, over the string that the page file holds, if there is one. -/
def save (segment : SMDMetaSegment) (stored : Option Bytes) : Except Fault (Bool × Option Bytes) :=
  if segment.metas.entries = [] then .ok (true, stored)
  else do
    let stream ← (SMDMemStream.new 0).writeInt (BitVec.ofNat 32 segment.metas.entries.length)
    let stream ← writeEntries segment.metas.entries stream
    .ok (true, some stream.data)

/-- The loop of `read`. -/
def readMetas (segment : SMDMetaSegment) :
    Nat → SMDMemStream → Except Fault ((Bool × SMDMetaSegment) × SMDMemStream)
  | 0, stream => .ok ((true, segment), stream)
  | left + 1, stream => do
    let (strKey, stream) ← stream.readString
    match strKey with
    | none => .ok ((false, segment), stream)
    | some strKey => do
      let (strVal, stream) ← stream.readString
      match strVal with
      | none => .ok ((false, segment), stream)
      | some strVal => readMetas (segment.addMetaInfo strKey strVal) left stream

def read (segment : SMDMetaSegment) (stored : Option Bytes) :
    Except Fault (Bool × SMDMetaSegment) :=
  match stored with
  | none => .ok (false, segment)
  | some data => do
    let (sz, stream) ← (⟨data, 0⟩ : SMDMemStream).readInt
    match sz with
    | none => .ok (false, segment)
    | some sz =>
      if (MAX_META_INFO_COUNT : Int) < sz.toInt then .ok (false, segment)
      else do
        let (result, _) ← readMetas segment sz.toInt.toNat stream
        .ok result

/-- A new segment, which reads what the page file holds. -/
def new (stored : Option Bytes) : Except Fault SMDMetaSegment := do
  let (_, segment) ← read ⟨.empty⟩ stored
  .ok segment

/-- A segment of a new table after the calls of `addMetaInfo` of the list. -/
def added (calls : List (Bytes × Bytes)) : SMDMetaSegment :=
  calls.foldl (fun segment call => segment.addMetaInfo call.1 call.2) ⟨.empty⟩

/-! ### Entries -/

theorem lookup_of_mem {entries : List (Bytes × Bytes)}
    (sorted : entries.Pairwise fun first second => first.1 < second.1) {entry : Bytes × Bytes}
    (member : entry ∈ entries) : List.lookup entry.1 entries = some entry.2 := by
  induction entries with
  | nil => cases member
  | cons first rest hypothesis =>
    obtain ⟨below, others⟩ := List.pairwise_cons.mp sorted
    rcases List.mem_cons.mp member with equal | later
    · rw [equal, List.lookup_cons, beq_self_eq_true]
    · have different : (entry.1 == first.1) = false := by
        refine beq_false_of_ne fun equal => ?_
        have less := below entry later
        rw [equal] at less
        exact List.lt_irrefl _ less
      rw [List.lookup_cons, different]
      exact hypothesis others later

theorem lookup_none_of_above {entries : List (Bytes × Bytes)} {key : Bytes}
    (above : ∀ entry ∈ entries, entry.1 < key) : List.lookup key entries = none := by
  refine List.lookup_eq_none_iff.mpr fun entry member => bne_iff_ne.mpr fun equal => ?_
  have less := above entry member
  rw [← equal] at less
  exact List.lt_irrefl _ less

/-- A key above all others goes to the end of the map. -/
theorem addMetaInfo_last {segment : SMDMetaSegment} {key value : Bytes}
    (above : ∀ entry ∈ segment.metas.entries, entry.1 < key) :
    (segment.addMetaInfo key value).metas.entries = segment.metas.entries ++ [(key, value)] := by
  rw [addMetaInfo, lookup_none_of_above above]
  exact insertEntry_last above

theorem readMetas_takes (segment : SMDMetaSegment) (entries : List (Bytes × Bytes))
    (sorted : (segment.metas.entries ++ entries).Pairwise fun first second => first.1 < second.1)
    (short : EntriesShort entries) :
    Takes (readMetas segment entries.length) (entriesImage entries)
      (true, ⟨segment.metas.entries ++ entries, sorted⟩) := by
  induction entries generalizing segment with
  | nil =>
    have same : segment = ⟨segment.metas.entries ++ [], sorted⟩ := by
      obtain ⟨held, _⟩ := segment
      simp only [List.append_nil]
    conv => arg 3; rw [← same]
    exact Takes.pure (true, segment)
  | cons entry rest hypothesis =>
    have last := @addMetaInfo_last segment entry.1 entry.2 fun held member =>
      (List.pairwise_append.mp sorted).2.2 held member entry List.mem_cons_self
    have sorted' : ((segment.addMetaInfo entry.1 entry.2).metas.entries ++ rest).Pairwise
        fun first second => first.1 < second.1 := by
      rw [last, List.append_assoc]
      exact sorted
    have same : (⟨⟨(segment.addMetaInfo entry.1 entry.2).metas.entries ++ rest, sorted'⟩⟩ :
        SMDMetaSegment) = ⟨⟨segment.metas.entries ++ entry :: rest, sorted⟩⟩ := by
      simp only [last, List.append_assoc, List.singleton_append]
    rw [entriesImage, List.flatMap_cons, List.append_assoc, ← same]
    have lengths := short entry List.mem_cons_self
    exact (readString_takes _ lengths.1).bind ((readString_takes _ lengths.2).bind
      (hypothesis _ sorted' fun later member => short later (List.mem_cons_of_mem _ member)))

theorem readMetas_throws (segment : SMDMetaSegment) (entries : List (Bytes × Bytes))
    (long : ¬ EntriesShort entries) :
    Throws (readMetas segment entries.length) (entriesImage entries) := by
  induction entries generalizing segment with
  | nil => exact absurd (fun _ member => absurd member List.not_mem_nil) long
  | cons entry rest hypothesis =>
    rw [entriesImage, List.flatMap_cons, List.append_assoc]
    by_cases key : entry.1.length < 2147483648
    · by_cases val : entry.2.length < 2147483648
      · exact (readString_takes _ key).throws ((readString_takes _ val).throws
          (hypothesis _ fun short => long (short.cons key val)))
      · exact (readString_takes _ key).throws ((readString_throws _ val).bind _)
    · exact (readString_throws _ key).bind _

/-! ### Surviving the file -/

/-- The bytes of a map in its file. -/
def entriesSize (entries : List (Bytes × Bytes)) : Nat :=
  4 + (entries.map fun entry => 8 + entry.1.length + entry.2.length).sum

/-- A new segment over the string that `save` puts answers every key as the one that saved. -/
def Survives (segment : SMDMetaSegment) : Prop :=
  ∃ stored loaded, segment.save none = .ok (true, stored) ∧ new stored = .ok loaded ∧
    ∀ key, loaded.getMetaInfo key = segment.getMetaInfo key

/-- The maps that `read` takes, and those it refuses without a loss. -/
def Restorable (entries : List (Bytes × Bytes)) : Prop :=
  entriesSize entries < 4294967296 ∧
    (entries.length ≤ MAX_META_INFO_COUNT ∧ EntriesShort entries ∨
      MAX_META_INFO_COUNT < entries.length ∧ ∀ entry ∈ entries, entry.2 = [])

theorem length_image (fields : ExternFields) : fields.image.length = entriesSize fields.entries := by
  rw [ExternFields.image, List.length_append, SMDValue.length_putInt, entriesSize, entriesImage,
    List.length_flatMap]
  refine congrArg (fun sizes => 4 + List.sum sizes) (List.map_congr_left fun entry _ => ?_)
  simp only [stringBytes, List.length_append, SMDValue.length_putInt]
  omega

theorem save_eq (segment : SMDMetaSegment) (filled : segment.metas.entries ≠ [])
    (stored : Option Bytes) :
    segment.save stored = if entriesSize segment.metas.entries < 4294967296 then
      .ok (true, some segment.metas.image) else .error .outOfBounds := by
  have written := writeExternFields_appends segment.metas [] (by decide)
  rw [appended, List.length_nil, Nat.zero_add, List.nil_append, length_image] at written
  have saved : segment.save stored =
      (writeExternFields segment.metas (SMDMemStream.new 0)).bind fun stream =>
        .ok (true, some stream.data) := by
    rw [save, if_neg filled, writeExternFields]
    cases (SMDMemStream.new 0).writeInt (BitVec.ofNat 32 segment.metas.entries.length) with
    | error fault => rfl
    | ok stream => rfl
  rw [saved, show SMDMemStream.new 0 = ⟨[], 0⟩ from rfl, written]
  split
  · rfl
  · rfl

/-- A map that fits its file is saved, and of the three ways to read it only one loads it. -/
theorem read_image (fields : ExternFields) (small : entriesSize fields.entries < 4294967296) :
    ∃ stream, read ⟨.empty⟩ (some fields.image) =
      (if MAX_META_INFO_COUNT < fields.entries.length then .ok (false, ⟨.empty⟩)
      else do
        let (result, _) ← readMetas ⟨.empty⟩ fields.entries.length stream
        .ok result) ∧ stream.Holds (entriesImage fields.entries ++ []) := by
  have length := length_image fields
  have count : 8 * fields.entries.length ≤ fields.image.length := Schema.length_image fields
  obtain ⟨stream, counted, holds, _⟩ := readInt_takes
    (BitVec.ofNat 32 fields.entries.length) ⟨fields.image, 0⟩ (entriesImage fields.entries ++ [])
    ⟨by dsimp only; omega, Nat.zero_le _, by rw [List.append_nil]; rfl⟩
  refine ⟨stream, ?_, holds⟩
  have toNat : (BitVec.ofNat 32 fields.entries.length).toInt.toNat = fields.entries.length :=
    toNat_count (by omega)
  have limit : (MAX_META_INFO_COUNT : Int) < (BitVec.ofNat 32 fields.entries.length).toInt ↔
      MAX_META_INFO_COUNT < fields.entries.length := by
    omega
  simp only [read, counted, ok_bind, limit, toNat]

/-- A map in which every value is empty answers like one without entries. -/
theorem getMetaInfo_nil_iff (segment : SMDMetaSegment) :
    (∀ key, [] = segment.getMetaInfo key) ↔ ∀ entry ∈ segment.metas.entries, entry.2 = [] := by
  constructor
  · intro same entry member
    rw [same entry.1, getMetaInfo, lookup_of_mem segment.metas.sorted member]
    rfl
  · intro nothing key
    rw [getMetaInfo]
    cases found : List.lookup key segment.metas.entries with
    | none => rfl
    | some value =>
      obtain ⟨front, back, equal, _⟩ := List.lookup_eq_some_iff.mp found
      have member : (key, value) ∈ segment.metas.entries := by
        rw [equal]
        exact List.mem_append_right _ List.mem_cons_self
      exact (nothing _ member).symm

theorem survives_of_nil (segment : SMDMetaSegment) (nothing : segment.metas.entries = []) :
    Survives segment := by
  refine ⟨none, ⟨.empty⟩, if_pos nothing, rfl, fun key => ?_⟩
  rw [getMetaInfo, getMetaInfo, nothing]
  rfl

/-- A map with entries survives its file exactly when it is restorable. -/
theorem survives_iff (segment : SMDMetaSegment) (filled : segment.metas.entries ≠ []) :
    Survives segment ↔ Restorable segment.metas.entries := by
  unfold Survives Restorable
  by_cases small : entriesSize segment.metas.entries < 4294967296
  · obtain ⟨stream, readEq, holds⟩ := read_image segment.metas small
    have saved := segment.save_eq filled none
    rw [if_pos small] at saved
    have loadedIs : (∃ stored loaded, segment.save none = .ok (true, stored) ∧
        new stored = .ok loaded ∧ ∀ key, loaded.getMetaInfo key = segment.getMetaInfo key) ↔
        ∃ loaded, new (some segment.metas.image) = .ok loaded ∧
          ∀ key, loaded.getMetaInfo key = segment.getMetaInfo key := by
      rw [saved]
      simp
    rw [loadedIs, and_iff_right small, new, readEq]
    by_cases many : MAX_META_INFO_COUNT < segment.metas.entries.length
    · rw [if_pos many, ok_bind, ← getMetaInfo_nil_iff]
      have nothing : ∀ key, getMetaInfo ⟨.empty⟩ key = [] := fun _ => rfl
      simp [many, Nat.not_le.mpr many, nothing]
    · rw [if_neg many]
      have few := Nat.not_lt.mp many
      by_cases short : EntriesShort segment.metas.entries
      · obtain ⟨last, loaded, _⟩ :=
          readMetas_takes ⟨.empty⟩ segment.metas.entries segment.metas.sorted short stream [] holds
        rw [loaded]
        exact iff_of_true ⟨segment, rfl, fun _ => rfl⟩ (Or.inl ⟨few, short⟩)
      · obtain ⟨fault, failed⟩ := readMetas_throws ⟨.empty⟩ segment.metas.entries short stream []
          holds
        rw [failed]
        refine iff_of_false ?_ ?_
        · rintro ⟨loaded, impossible, _⟩
          cases impossible
        · rintro (⟨_, all⟩ | ⟨above, _⟩)
          · exact short all
          · exact many above
  · have saved := segment.save_eq filled none
    rw [if_neg small] at saved
    rw [saved]
    refine iff_of_false ?_ fun fits => small fits.1
    rintro ⟨stored, loaded, impossible, _⟩
    cases impossible

/-- Metadata survives: after any calls of `addMetaInfo` on the segment of a new table, saving it and
loading a new one gives the same answer for every key, exactly when the map is empty, or takes
less than 4 GiB and either has at most `MAX_META_INFO_COUNT` entries of strings below 2 GiB, or
more of them, all with the empty value. -/
theorem metadata_survives_iff (calls : List (Bytes × Bytes)) :
    Survives (added calls) ↔
      (added calls).metas.entries = [] ∨ Restorable (added calls).metas.entries := by
  by_cases nothing : (added calls).metas.entries = []
  · exact iff_of_true (survives_of_nil _ nothing) (Or.inl nothing)
  · rw [or_iff_right nothing]
    exact survives_iff _ nothing

/-- A value is lost when the map has more entries than `read` takes. -/
theorem lost_of_many (segment : SMDMetaSegment) {key : Bytes} (value : segment.getMetaInfo key ≠ [])
    (many : MAX_META_INFO_COUNT < segment.metas.entries.length) : ¬ Survives segment := by
  have filled : segment.metas.entries ≠ [] := by
    rw [← List.length_pos_iff]
    omega
  intro survives
  rcases (survives_iff segment filled).mp survives with ⟨_, ⟨few, _⟩ | ⟨_, empty⟩⟩
  · exact absurd many (Nat.not_lt.mpr few)
  · exact value (segment.getMetaInfo_nil_iff.mpr empty key).symm

/-- Entries added in the order of their keys are the map. -/
theorem entries_added (calls : List (Bytes × Bytes))
    (sorted : calls.Pairwise fun first second => first.1 < second.1) :
    (added calls).metas.entries = calls := by
  induction calls using List.reverseRecOn with
  | nil => rfl
  | append_singleton calls call hypothesis =>
    obtain ⟨before, _, above⟩ := List.pairwise_append.mp sorted
    have entries := hypothesis before
    rw [added, List.foldl_append]
    refine (addMetaInfo_last fun entry member => ?_).trans ?_
    · exact above entry (by rwa [← entries]) call (List.mem_singleton_self call)
    · exact congrArg (· ++ [call]) entries

/-- 257 keys, each one byte longer than the one before, with a value of one byte. -/
def manyCalls : List (Bytes × Bytes) :=
  (List.range 257).map fun length => (List.replicate length 0, [1])

theorem replicate_lt {first second : Nat} (less : first < second) :
    List.replicate first (0 : UInt8) < List.replicate second 0 := by
  induction first generalizing second with
  | zero =>
    obtain ⟨later, rfl⟩ := Nat.exists_eq_succ_of_ne_zero (Nat.ne_of_gt less)
    exact List.nil_lt_cons _ _
  | succ first hypothesis =>
    obtain ⟨later, rfl⟩ := Nat.exists_eq_succ_of_ne_zero (Nat.ne_of_gt (Nat.zero_lt_of_lt less))
    exact List.cons_lt_cons_self.mpr (hypothesis (Nat.lt_of_succ_lt_succ less))

theorem metadata_lost :
    (added manyCalls).getMetaInfo [] = [1] ∧ ¬ Survives (added manyCalls) := by
  have entries : (added manyCalls).metas.entries = manyCalls :=
    entries_added manyCalls (List.pairwise_map.mpr (List.pairwise_lt_range.imp replicate_lt))
  have value : (added manyCalls).getMetaInfo [] = [1] := by
    rw [getMetaInfo, entries]
    rfl
  refine ⟨value, lost_of_many _ (by rw [value]; exact List.cons_ne_nil _ _) ?_⟩
  rw [entries, manyCalls, List.length_map, List.length_range]
  decide

end SMDMetaSegment

end LevelDBLib.KvDB
