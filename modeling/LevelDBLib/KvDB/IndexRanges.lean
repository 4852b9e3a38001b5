/-
This file is about indexes over ranges of keys, `PairKey_t<int>`. The order of
ranges compares both ends at once, so two ranges are level exactly when one
contains the other, and a point is level with the ranges that contain it. Ranges
that only overlap compare: such a range is accepted beside the one it overlaps.

As long as every inserted range that meets an accepted one contains an accepted
range or lies in one, the accepted ranges are disjoint, and a point is level with
at most one of them.
-/

import Mathlib.Data.List.Pairwise
import LevelDBLib.KvDB.IndexSearch

namespace LevelDBLib.KvDB

open Ranges BranchTrees Runs IndexTree LawfulStreamKey

structure PairKey_t (ANY_KEY : Type) where
  nKeyS : ANY_KEY
  nKeyE : ANY_KEY
deriving DecidableEq

namespace PairKey_t

variable {ANY_KEY : Type}

/-- `PairKey_t(key)`, which a searched key is converted with. -/
def ofKey (key : ANY_KEY) : PairKey_t ANY_KEY := ⟨key, key⟩

instance [LT ANY_KEY] : LT (PairKey_t ANY_KEY) :=
  ⟨fun one tTwo => one.nKeyS < tTwo.nKeyS ∧ one.nKeyE < tTwo.nKeyE⟩

instance [LT ANY_KEY] [DecidableLT ANY_KEY] : DecidableLT (PairKey_t ANY_KEY) :=
  fun one tTwo => inferInstanceAs (Decidable (one.nKeyS < tTwo.nKeyS ∧ one.nKeyE < tTwo.nKeyE))

theorem lt_iff [LT ANY_KEY] {one tTwo : PairKey_t ANY_KEY} :
    one < tTwo ↔ one.nKeyS < tTwo.nKeyS ∧ one.nKeyE < tTwo.nKeyE := Iff.rfl

/-- Both ends in order are a strict order, which leaves many pairs incomparable. -/
instance [LT ANY_KEY] [IsStrictOrder ANY_KEY (· < ·)] :
    IsStrictOrder (PairKey_t ANY_KEY) (· < ·) where
  irrefl one less := not_lt_self one.nKeyS less.1
  trans _ _ _ first second := ⟨lt_chain first.1 second.1, lt_chain first.2 second.2⟩

/-- A key that is not in the stream keeps the zeros of the constructor. -/
instance : StreamKey (PairKey_t Int32) where
  write stream pairKey := do
    let stream ← stream.writeInt pairKey.nKeyS.toBitVec
    stream.writeInt pairKey.nKeyE.toBitVec
  read stream := do
    let (nKeyS, stream) ← stream.readInt
    let (nKeyE, stream) ← stream.readInt
    .ok (⟨Int32.ofBitVec (nKeyS.getD 0), Int32.ofBitVec (nKeyE.getD 0)⟩, stream)

instance : LawfulStreamKey (PairKey_t Int32) where
  keyBytes pairKey :=
    SMDValue.putInt pairKey.nKeyS.toBitVec ++ SMDValue.putInt pairKey.nKeyE.toBitVec
  write_at_end stream data pairKey ends small := by
    rw [List.length_append, SMDValue.length_putInt, SMDValue.length_putInt] at small
    obtain ⟨middle, first, middleEnds⟩ := stream.writeInt_at_end data pairKey.nKeyS.toBitVec ends
      (by omega)
    obtain ⟨next, second, nextEnds⟩ := middle.writeInt_at_end _ pairKey.nKeyE.toBitVec middleEnds
      (by rw [List.length_append, SMDValue.length_putInt]; omega)
    refine ⟨next, ?_, by rwa [← List.append_assoc]⟩
    simp only [StreamKey.write, first, ok_bind, second]
  read_holds stream pairKey rest _ holds := by
    rw [List.append_assoc] at holds
    obtain ⟨middle, first, middleHolds⟩ := stream.readInt_holds _ _ holds
    obtain ⟨next, second, nextHolds⟩ := middle.readInt_holds _ rest middleHolds
    refine ⟨next, ?_, nextHolds⟩
    simp only [StreamKey.read, first, ok_bind, second]
    rfl

/-! ### Ranges of integers -/

/-- The range has its ends in order. -/
def Ordered (range : PairKey_t Int32) : Prop := range.nKeyS ≤ range.nKeyE

/-- The two ranges have a point in common. -/
def Meets (one tTwo : PairKey_t Int32) : Prop :=
  one.nKeyS ≤ tTwo.nKeyE ∧ tTwo.nKeyS ≤ one.nKeyE

/-- One of the two ranges contains the other. -/
def Nested (one tTwo : PairKey_t Int32) : Prop :=
  (one.nKeyS ≤ tTwo.nKeyS ∧ tTwo.nKeyE ≤ one.nKeyE) ∨
    (tTwo.nKeyS ≤ one.nKeyS ∧ one.nKeyE ≤ tTwo.nKeyE)

/-- The point lies in the range. -/
def Contains (range : PairKey_t Int32) (point : Int32) : Prop :=
  range.nKeyS ≤ point ∧ point ≤ range.nKeyE

instance (range : PairKey_t Int32) : Decidable range.Ordered :=
  inferInstanceAs (Decidable (_ ≤ _))

instance (one tTwo : PairKey_t Int32) : Decidable (Meets one tTwo) :=
  inferInstanceAs (Decidable (_ ∧ _))

instance (one tTwo : PairKey_t Int32) : Decidable (Nested one tTwo) :=
  inferInstanceAs (Decidable (_ ∨ _))

instance (range : PairKey_t Int32) (point : Int32) : Decidable (range.Contains point) :=
  inferInstanceAs (Decidable (_ ∧ _))

theorem level_iff_nested (one tTwo : PairKey_t Int32) : Level one tTwo ↔ Nested one tTwo := by
  simp only [Level, Nested, lt_iff, Int32.lt_iff_toInt_lt, Int32.le_iff_toInt_le]
  omega

theorem level_point {range : PairKey_t Int32} (ordered : range.Ordered) (point : Int32) :
    Level range (ofKey point) ↔ range.Contains point := by
  simp only [Ordered, Int32.le_iff_toInt_le] at ordered
  simp only [level_iff_nested, Nested, Contains, ofKey, Int32.le_iff_toInt_le]
  omega

theorem Meets.symm {one tTwo : PairKey_t Int32} (meets : Meets one tTwo) : Meets tTwo one :=
  ⟨meets.2, meets.1⟩

/-- Two ranges around a point meet. -/
theorem Contains.meets {one tTwo : PairKey_t Int32} {point : Int32} (inOne : one.Contains point)
    (inTwo : tTwo.Contains point) : Meets one tTwo := by
  simp only [Contains, Meets, Int32.le_iff_toInt_le] at *
  omega

end PairKey_t

open PairKey_t

/-! ### Insertions of ranges -/

/-- The calls of a history that returned true. -/
def acceptedIn {Key : Type} (history : History (Entry Key) Bool) : List (Entry Key) :=
  (history.filter Prod.snd).map Prod.fst

/-- A range with its ends in order, and a data offset. -/
def RangeCall (call : Entry (PairKey_t Int32)) : Prop := call.1.Ordered ∧ call.2 < 4294967296

/-- A range that meets an accepted one is nested with an accepted one. -/
def NestsWhereItMeets (accepted : List (Entry (PairKey_t Int32))) (range : PairKey_t Int32) : Prop :=
  (∃ entry ∈ accepted, Meets entry.1 range) → ∃ entry ∈ accepted, Nested entry.1 range

instance (call : Entry (PairKey_t Int32)) : Decidable (RangeCall call) :=
  inferInstanceAs (Decidable (_ ∧ _))

instance (accepted : List (Entry (PairKey_t Int32))) (range : PairKey_t Int32) :
    Decidable (NestsWhereItMeets accepted range) :=
  inferInstanceAs (Decidable (_ → _))

/-- The accepted ranges are disjoint, and the index holds them. -/
structure HoldsRanges {bPlus : Bool} (most : Nat) (history : History (Entry (PairKey_t Int32)) Bool)
    (index : IndexTree bPlus (PairKey_t Int32)) : Prop where
  tracks : Tracks index most (acceptedIn history)
  calls : ∀ entry ∈ acceptedIn history, RangeCall entry
  disjoint : (acceptedIn history).Pairwise fun one two => ¬ Meets one.1 two.1
  started : history ≠ [] → acceptedIn history ≠ []

section Insertions

variable {bPlus : Bool} {most : Nat} {history : History (Entry (PairKey_t Int32)) Bool}
  {index : IndexTree bPlus (PairKey_t Int32)}

/-- A range is refused exactly when it is nested with an accepted one. -/
theorem HoldsRanges.refused (holds : HoldsRanges most history index) (some' : 1 ≤ most)
    (call : Entry (PairKey_t Int32)) :
    ∃ result after, index.step call = .ok (result, after) ∧
      (result = false ↔ ∃ entry ∈ acceptedIn history, Nested entry.1 call.1) ∧
      Tracks after most (accept (acceptedIn history) call) := by
  obtain ⟨result, after, done, accepted, -, tracks⟩ := holds.tracks.step some' call
  refine ⟨result, after, done, ?_, tracks⟩
  rw [← Bool.not_eq_true, accepted]
  push Not
  simp only [level_iff_nested]

theorem HoldsRanges.step (holds : HoldsRanges most history index) (some' : 1 ≤ most)
    {call : Entry (PairKey_t Int32)} (isRange : RangeCall call)
    (nests : NestsWhereItMeets (acceptedIn history) call.1) {reply : Bool}
    {after : IndexTree bPlus (PairKey_t Int32)} (returned : index.step call = .ok (reply, after)) :
    HoldsRanges most ((call, reply) :: history) after := by
  obtain ⟨result, next, done, refused, tracks⟩ := holds.refused some' call
  rw [returned] at done
  cases done
  cases reply with
  | false =>
    obtain ⟨entry, member, nested⟩ := refused.mp rfl
    have same : accept (acceptedIn history) call = acceptedIn history := by
      refine if_neg fun all => all entry member ?_
      exact (level_iff_nested _ _).mpr nested
    rw [same] at tracks
    exact ⟨tracks, holds.calls, holds.disjoint, fun _ none' => absurd (none' ▸ member)
      List.not_mem_nil⟩
  | true =>
    have apart : ∀ entry ∈ acceptedIn history, ¬ Nested entry.1 call.1 := fun entry member nested =>
      Bool.noConfusion (refused.mpr ⟨entry, member, nested⟩)
    have longer : accept (acceptedIn history) call = acceptedIn history ++ [call] :=
      if_pos fun entry member level => apart entry member ((level_iff_nested _ _).mp level)
    rw [longer] at tracks
    refine ⟨tracks.perm (List.perm_append_singleton call _), ?_, ?_, fun _ => List.cons_ne_nil _ _⟩
    · intro entry member
      rcases List.mem_cons.mp member with rfl | inside
      · exact isRange
      · exact holds.calls entry inside
    · refine List.pairwise_cons.mpr ⟨fun entry member meets => ?_, holds.disjoint⟩
      obtain ⟨other, otherIn, nested⟩ := nests ⟨entry, member, meets.symm⟩
      exact apart other otherIn nested

/-- A point is level with at most one of the ranges that are held. -/
theorem HoldsRanges.single (holds : HoldsRanges most history index)
    {listing : List (Entry (PairKey_t Int32))} (perm : listing.Perm (acceptedIn history))
    (point : Int32) : Single Prod.fst listing (ofKey point) := by
  intro one oneIn two twoIn oneLevel twoLevel
  have oneAccepted := perm.mem_iff.mp oneIn
  have twoAccepted := perm.mem_iff.mp twoIn
  have inOne := (level_point (holds.calls one oneAccepted).1 point).mp oneLevel
  have inTwo := (level_point (holds.calls two twoAccepted).1 point).mp twoLevel
  by_contra different
  have symmetric : Std.Symm fun one two : Entry (PairKey_t Int32) => ¬ Meets one.1 two.1 :=
    ⟨fun _ _ apart meets => apart meets.symm⟩
  exact holds.disjoint.forall oneAccepted twoAccepted different (inOne.meets inTwo)

/-- What is looked up for a point: the offset of the range around it. -/
theorem HoldsRanges.lookup (holds : HoldsRanges most history index)
    {listing : List (Entry (PairKey_t Int32))} (perm : listing.Perm (acceptedIn history))
    (point : Int32) :
    (∀ entry ∈ acceptedIn history, entry.1.Contains point →
        offsetOf listing (ofKey point) = entry.2) ∧
      ((∀ entry ∈ acceptedIn history, ¬ entry.1.Contains point) →
        offsetOf listing (ofKey point) = SMD_INVALIDINDEX_RETURN) := by
  constructor
  · intro entry member contains
    have level := (level_point (holds.calls entry member).1 point).mpr contains
    exact offsetOf_found (perm.mem_iff.mpr member) level (holds.single perm point)
  · intro outside
    have none' : findLevel Prod.fst listing (ofKey point) = none := by
      refine findLevel_eq_none.mpr fun entry member level => ?_
      have accepted := perm.mem_iff.mp member
      exact outside entry accepted ((level_point (holds.calls entry accepted).1 point).mp level)
    rw [offsetOf, none']
    rfl

theorem HoldsRanges.holding (holds : HoldsRanges most history index) (started : history ≠ []) :
    ∃ root, Holding index root ∧ (root.tree.listing bPlus).Perm (acceptedIn history) := by
  rcases holds.tracks.held with ⟨none', -⟩ | found
  · exact absurd none' (holds.started started)
  · exact found

/-- The run whose calls all met the condition. -/
theorem holdsRanges (some' : 1 ≤ most)
    (run : Run IndexTree.step (fun history _ call => RangeCall call ∧
      NestsWhereItMeets (acceptedIn history) call.1)
      (empty most : IndexTree bPlus (PairKey_t Int32)) history index) :
    HoldsRanges most history index :=
  run.invariant (HoldsRanges most)
    ⟨tracks_empty most, fun _ member => absurd member List.not_mem_nil, List.Pairwise.nil,
      fun some' => absurd rfl some'⟩
    fun _ _ _ _ _ holds admitted returned => holds.step some' admitted.1 admitted.2 returned

end Insertions

/-- Ranges are inserted, each of them nested with an accepted one if it meets one. Then the accepted
ranges are disjoint; the next range is refused whenever it meets one of them, exactly if it meets the
condition too; and a point is found in the one range around it, in the file and in the B-tree also
in memory. -/
theorem ranges_are_disjoint (File : Type) [PageStore File] (most : Nat) (some' : 1 ≤ most) :
    (∀ (bPlus : Bool) (history : History (Entry (PairKey_t Int32)) Bool)
        (index : IndexTree bPlus (PairKey_t Int32)),
      Run IndexTree.step (fun history _ call => RangeCall call ∧
        NestsWhereItMeets (acceptedIn history) call.1) (empty most) history index →
      ((acceptedIn history).Pairwise fun one two => ¬ Meets one.1 two.1) ∧
      (∀ call, RangeCall call → ∃ result after, index.step call = .ok (result, after) ∧
        (((∃ entry ∈ acceptedIn history, Meets entry.1 call.1) → result = false) ↔
          NestsWhereItMeets (acceptedIn history) call.1)) ∧
      (history ≠ [] → ∀ file : File, PageStore.created file →
        index.imageSize ≤ PageStore.room file → ∃ nRootOffset saved after,
          index.saveIndex file = .ok (true, nRootOffset, saved, after) ∧
          ∀ point searchCalls, index.top < searchCalls →
            (∀ entry ∈ acceptedIn history, entry.1.Contains point →
              searchFromFile bPlus after (ofKey point) searchCalls nRootOffset = .ok entry.2) ∧
            ((∀ entry ∈ acceptedIn history, ¬ entry.1.Contains point) →
              searchFromFile bPlus after (ofKey point) searchCalls nRootOffset =
                .ok SMD_INVALIDINDEX_RETURN))) ∧
    ∀ (history : History (Entry (PairKey_t Int32)) Bool) (index : SMDIndex (PairKey_t Int32)),
      Run IndexTree.step (fun history _ call => RangeCall call ∧
        NestsWhereItMeets (acceptedIn history) call.1) (empty most) history index →
      history ≠ [] → ∀ point,
        (∀ entry ∈ acceptedIn history, entry.1.Contains point →
          index.searchFromMem (ofKey point) = .ok entry.2) ∧
        ((∀ entry ∈ acceptedIn history, ¬ entry.1.Contains point) →
          index.searchFromMem (ofKey point) = .ok SMD_INVALIDINDEX_RETURN) := by
  refine ⟨fun bPlus history index run => ?_, fun history index run started point => ?_⟩
  · have holds := holdsRanges some' run
    refine ⟨holds.disjoint, fun call isRange => ?_, fun started file isNew room => ?_⟩
    · obtain ⟨result, after, done, refused, -⟩ := holds.refused some' call
      exact ⟨result, after, done, imp_congr_right fun _ => refused⟩
    · obtain ⟨root, holding, perm⟩ := holds.holding started
      obtain ⟨nRootOffset, saved, after, done, found⟩ := saved_spec holding
        (fun entry member => (holds.calls entry (perm.mem_iff.mp member)).2) isNew room
      refine ⟨nRootOffset, saved, after, done, fun point searchCalls enough => ?_⟩
      rw [found (ofKey point) (holds.single perm point) searchCalls enough]
      obtain ⟨inside, outside⟩ := holds.lookup perm point
      exact ⟨fun entry member contains => congrArg _ (inside entry member contains),
        fun none' => congrArg _ (outside none')⟩
  · have holds := holdsRanges some' run
    obtain ⟨root, holding, perm⟩ := holds.holding started
    rw [searchFromMem_spec holding (ofKey point) (holds.single perm point)]
    obtain ⟨inside, outside⟩ := holds.lookup perm point
    exact ⟨fun entry member contains => congrArg _ (inside entry member contains),
      fun none' => congrArg _ (outside none')⟩

/-- Three ranges: one beside the first one, and one inside of it, which is refused. -/
theorem ranges_are_disjoint_once : ∃ (history : History (Entry (PairKey_t Int32)) Bool)
    (index : SMDIndex (PairKey_t Int32)),
      Run IndexTree.step (fun history _ call => RangeCall call ∧
        NestsWhereItMeets (acceptedIn history) call.1) (empty 2) history index ∧
      acceptedIn history = [(⟨7, 9⟩, 20), (⟨1, 5⟩, 10)] ∧
      index.searchFromMem (ofKey 4) = .ok 10 ∧
      index.searchFromMem (ofKey 6) = .ok SMD_INVALIDINDEX_RETURN ∧
      ∃ nRootOffset saved after,
        index.saveIndex (OnePage.new 4108 (by decide)) = .ok (true, nRootOffset, saved, after) ∧
        searchFromFile false after (ofKey (8 : Int32)) (index.top + 1) nRootOffset = .ok 20 := by
  have run : ∃ index : SMDIndex (PairKey_t Int32),
      Run IndexTree.step (fun history _ call => RangeCall call ∧
        NestsWhereItMeets (acceptedIn history) call.1) (empty 2)
        [((⟨2, 3⟩, 30), false), ((⟨7, 9⟩, 20), true), ((⟨1, 5⟩, 10), true)] index ∧
      index.imageSize = 44 := by
    refine ⟨_, ((Run.start.step ?_ rfl).step ?_ rfl).step ?_ rfl, ?_⟩
    · decide
    · decide
    · decide
    · decide
  obtain ⟨index, run, size⟩ := run
  obtain ⟨either, memory⟩ := ranges_are_disjoint OnePage 2 (by decide)
  obtain ⟨-, -, file⟩ := either false _ index run
  obtain ⟨nRootOffset, saved, after, done, found⟩ := file (by decide) (OnePage.new 4108 (by decide))
    rfl (by rw [size]; decide)
  exact ⟨_, index, run, rfl, (memory _ index run (by decide) 4).1 (⟨1, 5⟩, 10) (by decide) (by decide),
    (memory _ index run (by decide) 6).2 (by decide), nRootOffset, saved, after, done,
    (found 8 _ (Nat.lt_succ_self _)).1 (⟨7, 9⟩, 20) (by decide) (by decide)⟩

/-- Two ranges that overlap are both accepted by either tree, and then no range is found for a point
in both. -/
theorem overlapping_ranges_accepted :
    Meets ⟨1, 5⟩ ⟨3, 8⟩ ∧
      ((runAll step (empty 2 : SMDIndex (PairKey_t Int32))
        [(⟨1, 5⟩, 10), (⟨3, 8⟩, 20)]).toOption.map fun run =>
          (run.1, run.2.searchFromMem (ofKey 4))) =
        some ([true, true], .ok SMD_INVALIDINDEX_RETURN) ∧
      ((runAll step (empty 2 : SMDIndexBp (PairKey_t Int32))
        [(⟨1, 5⟩, 10), (⟨3, 8⟩, 20)]).toOption.map Prod.fst) = some [true, true] := by
  decide

end LevelDBLib.KvDB
