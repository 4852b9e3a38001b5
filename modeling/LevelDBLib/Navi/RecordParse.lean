/-
This file follows the constructor of a record over arbitrary bytes. It walks from header to
header; a header says how far its value is and how long, and everything it says is bytes of
the input. A header whose count of length bytes is zero does not move the index, one near the
end has its length read behind the input, and a length near the size of a `size_t` wraps the
check of the value. The constructor stores slices of its input, one behind the other, exactly
when it gets to no such header.
-/

import LevelDBLib.Navi.Record

namespace LevelDBLib.Navi

open KvDB Buffers

namespace Record

/-! ### Headers -/

/-- What `arr2int` makes of bytes that are there. -/
def number (bytes : Bytes) : Nat :=
  bytes.foldl (fun value byte => (value <<< 8 ||| byte.toNat) % 18446744073709551616) 0

/-- The index behind a header. -/
def behind (data : Bytes) (index : Nat) : Nat :=
  if data.getD index 0 &&& 0x80 ≠ 0 then index + (data.getD index 0 &&& 0x7f).toNat
  else index + 1

/-- The length that a header says. -/
def size (data : Bytes) (index : Nat) : Nat :=
  if data.getD index 0 &&& 0x80 ≠ 0 then
    number (slice data (index + 1) ((data.getD index 0 &&& 0x7f).toNat - 1))
  else (data.getD index 0).toNat

/-- The places of headers: the start, and behind every value that is inside. -/
inductive HeaderAt (data : Bytes) : Nat → Prop
  | start : HeaderAt data 0
  | next {index : Nat} (header : HeaderAt data index) (more : index < data.length)
      (inside : behind data index + size data index ≤ data.length) :
      HeaderAt data (behind data index + size data index)

/-- The header counts at least itself, it is inside the input, and a value that the check lets
pass is inside as well. -/
structure Good (data : Bytes) (index : Nat) : Prop where
  counts : data.getD index 0 ≠ 0x80
  header : behind data index ≤ data.length
  value : (behind data index + size data index) % 18446744073709551616 ≤ data.length →
    behind data index + size data index ≤ data.length

/-- The constructor returns; what it stores are slices of the input, in order and without a common
byte. -/
def Slices (data : Bytes) : Prop :=
  ∃ spans : List (Nat × Nat), new data = .ok ⟨spans.map fun span => slice data span.1 span.2⟩ ∧
    (spans.Pairwise fun first second => first.1 + first.2 ≤ second.1) ∧
    ∀ span ∈ spans, span.1 + span.2 ≤ data.length

/-! ### One header -/

theorem arr2intFrom_eq (data : Bytes) (count value : Nat) :
    arr2intFrom data count value =
      if count ≤ data.length then
        .ok ((data.take count).foldl
          (fun value byte => (value <<< 8 ||| byte.toNat) % 18446744073709551616) value)
      else .error .outOfBounds := by
  induction count generalizing data value with
  | zero => rw [arr2intFrom, if_pos (Nat.zero_le _), List.take_zero, List.foldl_nil]
  | succ count hypothesis =>
    cases data with
    | nil => rw [arr2intFrom, List.length_nil, if_neg (Nat.not_succ_le_zero count)]
    | cons byte data =>
      rw [arr2intFrom, hypothesis, List.take_succ_cons, List.foldl_cons, List.length_cons]
      by_cases enough : count ≤ data.length
      · rw [if_pos enough, if_pos (Nat.succ_le_succ enough)]
      · rw [if_neg enough, if_neg fun more => enough (Nat.le_of_succ_le_succ more)]

theorem lengthAt_eq (data : Bytes) (index : Nat) (more : index < data.length) :
    lengthAt data index =
      if behind data index ≤ data.length then .ok (size data index, behind data index)
      else .error .outOfBounds := by
  have first : data[index]? = some (data.getD index 0) := by
    rw [List.getD_eq_getElem?_getD, List.getElem?_eq_getElem more, Option.getD_some]
  rw [lengthAt, first]
  dsimp only
  unfold behind size
  by_cases marked : data.getD index 0 &&& 0x80 ≠ 0
  · rw [if_pos marked, if_pos marked, if_pos marked, arr2int, arr2intFrom_eq, List.length_drop]
    have count : (((data.getD index 0 &&& 0x7f).toNat : Int) - 1).toNat =
        (data.getD index 0 &&& 0x7f).toNat - 1 := by omega
    rw [count]
    by_cases inside : index + (data.getD index 0 &&& 0x7f).toNat ≤ data.length
    · rw [if_pos inside, if_pos (by omega), ok_bind]
      rfl
    · rw [if_neg inside, if_neg (by omega)]
      rfl
  · rw [if_neg marked, if_neg marked, if_neg marked, if_pos (Nat.succ_le_of_lt more)]

/-- A header that counts at least itself moves the index on. -/
theorem lt_behind (data : Bytes) (index : Nat) (counts : data.getD index 0 ≠ 0x80) :
    index < behind data index := by
  have bytes : ∀ byte < 256, UInt8.ofNat byte &&& 0x80 ≠ 0 → UInt8.ofNat byte ≠ 0x80 →
      0 < (UInt8.ofNat byte &&& 0x7f).toNat := by decide +kernel
  unfold behind
  split
  · rename_i marked
    have positive := bytes (data.getD index 0).toNat (UInt8.toNat_lt _)
    rw [UInt8.ofNat_toNat] at positive
    exact Nat.lt_add_of_pos_right (positive marked counts)
  · exact Nat.lt_succ_self index

theorem parse_header (fuel : Nat) {data : Bytes} {index : Nat} (records : List Bytes)
    (more : index < data.length) (good : Good data index) :
    parse (fuel + 1) data index records =
      if behind data index + size data index ≤ data.length then
        parse fuel data (behind data index + size data index)
          (records ++ [slice data (behind data index) (size data index)])
      else .ok records := by
  rw [parse, if_pos more, lengthAt_eq data index more, if_pos good.header, ok_bind]
  dsimp only
  by_cases inside : behind data index + size data index ≤ data.length
  · rw [if_pos inside, if_neg (Nat.not_lt.mpr (Nat.le_trans (Nat.mod_le _ _) inside)),
      fetch_of_le _ _ _ inside, ok_bind]
  · rw [if_neg inside, if_pos (Nat.lt_of_not_le (mt good.value inside))]

/-- A header that counts zero bytes is read again and again. -/
theorem parse_stuck (fuel : Nat) {data : Bytes} {index : Nat} (records result : List Bytes)
    (more : index < data.length) (stuck : data.getD index 0 = 0x80) :
    parse fuel data index records ≠ .ok result := by
  have stays : behind data index = index := by
    rw [behind, stuck]
    rfl
  have empty : size data index = 0 := by
    rw [size, stuck]
    rfl
  induction fuel generalizing records with
  | zero => exact fun parsed => by cases parsed
  | succ fuel hypothesis =>
    have inside : ¬ (index + 0) % 18446744073709551616 > data.length :=
      Nat.not_lt.mpr (Nat.le_trans (Nat.mod_le _ _) (Nat.le_of_lt more))
    rw [parse, if_pos more, lengthAt_eq data index more, stays, empty,
      if_pos (Nat.le_of_lt more), ok_bind]
    dsimp only
    rw [if_neg inside, fetch_of_le _ _ _ (Nat.le_of_lt more), ok_bind]
    exact hypothesis _

/-- The constructor gets past a header only when it is good. -/
theorem good_of_parse {fuel index : Nat} {data : Bytes} {records result : List Bytes}
    (parsed : parse fuel data index records = .ok result) (more : index < data.length) :
    Good data index := by
  cases fuel with
  | zero => cases parsed
  | succ fuel =>
    have counts : data.getD index 0 ≠ 0x80 := fun stuck => parse_stuck _ _ _ more stuck parsed
    rw [parse, if_pos more, lengthAt_eq data index more] at parsed
    by_cases header : behind data index ≤ data.length
    · refine ⟨counts, header, fun passed => ?_⟩
      rw [if_pos header, ok_bind] at parsed
      dsimp only at parsed
      rw [if_neg (Nat.not_lt.mpr passed)] at parsed
      obtain ⟨value, fetched, _⟩ := (bind_eq_ok _ _ _).mp parsed
      rw [fetch] at fetched
      split at fetched
      · assumption
      · cases fetched
    · rw [if_neg header] at parsed
      cases parsed

/-! ### The whole input -/

/-- The constructor gets to every header. -/
theorem parse_at {data : Bytes} {record : Record} (parsed : new data = .ok record) {index : Nat}
    (header : HeaderAt data index) :
    ∃ fuel records, parse fuel data index records = .ok record.records := by
  induction header with
  | start =>
    obtain ⟨records, returned, equal⟩ := (bind_eq_ok _ _ _).mp parsed
    cases equal
    exact ⟨data.length + 1, [], returned⟩
  | next header more inside hypothesis =>
    rename_i index
    obtain ⟨fuel, records, returned⟩ := hypothesis
    have good := good_of_parse returned more
    cases fuel with
    | zero => cases returned
    | succ fuel =>
      rw [parse_header fuel records more good, if_pos inside] at returned
      exact ⟨fuel, _, returned⟩

/-- From a header on, slices are stored that begin behind it. -/
theorem parse_slices {data : Bytes}
    (good : ∀ index, HeaderAt data index → index < data.length → Good data index) (fuel : Nat)
    (index : Nat) (records : List Bytes) (header : HeaderAt data index)
    (enough : data.length - index < fuel) :
    ∃ spans : List (Nat × Nat), parse fuel data index records =
        .ok (records ++ spans.map fun span => slice data span.1 span.2) ∧
      (spans.Pairwise fun first second => first.1 + first.2 ≤ second.1) ∧
      ∀ span ∈ spans, index ≤ span.1 ∧ span.1 + span.2 ≤ data.length := by
  induction fuel generalizing index records with
  | zero => exact absurd enough (Nat.not_lt_zero _)
  | succ fuel hypothesis =>
    by_cases more : index < data.length
    · have goodHere := good index header more
      have moved := lt_behind data index goodHere.counts
      rw [parse_header fuel records more goodHere]
      by_cases inside : behind data index + size data index ≤ data.length
      · rw [if_pos inside]
        obtain ⟨spans, parsed, disjoint, bounds⟩ := hypothesis
          (behind data index + size data index)
          (records ++ [slice data (behind data index) (size data index)])
          (header.next more inside) (by omega)
        refine ⟨(behind data index, size data index) :: spans, ?_, ?_, ?_⟩
        · rw [parsed, List.append_assoc]
          rfl
        · exact List.pairwise_cons.mpr ⟨fun span listed => (bounds span listed).1, disjoint⟩
        · refine List.forall_mem_cons.mpr ⟨⟨Nat.le_of_lt moved, inside⟩, fun span listed => ?_⟩
          obtain ⟨start, stop⟩ := bounds span listed
          exact ⟨by omega, stop⟩
      · rw [if_neg inside]
        exact ⟨[], by rw [List.map_nil, List.append_nil], List.Pairwise.nil,
          fun span listed => absurd listed List.not_mem_nil⟩
    · rw [parse, if_neg more]
      exact ⟨[], by rw [List.map_nil, List.append_nil], List.Pairwise.nil,
        fun span listed => absurd listed List.not_mem_nil⟩

/-- The constructor returns disjoint slices of its input, in order, exactly when every header it
gets to is good. -/
theorem slices_iff (data : Bytes) :
    Slices data ↔ ∀ index, HeaderAt data index → index < data.length → Good data index := by
  refine ⟨fun ⟨spans, parsed, _⟩ index header more => ?_, fun good => ?_⟩
  · obtain ⟨fuel, records, returned⟩ := parse_at parsed header
    exact good_of_parse returned more
  · obtain ⟨spans, parsed, disjoint, bounds⟩ := parse_slices good (data.length + 1) 0 [] .start
      (Nat.lt_succ_self _)
    refine ⟨spans, ?_, disjoint, fun span listed => (bounds span listed).2⟩
    rw [new, parsed, ok_bind, List.nil_append]

/-- A count of zero repeats for ever, and a length near the end is read behind the input. -/
theorem slices_missed :
    new [0x80] = .error .nonTermination ∧ new [0x85] = .error .outOfBounds ∧
      ¬ ∀ data, Slices data := by
  refine ⟨by decide, by decide, fun all => ?_⟩
  obtain ⟨spans, parsed, _⟩ := all [0x85]
  exact absurd parsed.symm (by rw [show new [0x85] = .error .outOfBounds by decide]; nofun)

end Record

end LevelDBLib.Navi
