/-
This file models `PathParser`: the spelling of a path that the database layer compares
(separators turned into slashes, runs of slashes squeezed into one), and its split into a
directory, which ends with a slash, and a name, which has none.
-/

import LevelDBLib.KvDB.Value

namespace LevelDBLib.Navi

open KvDB

namespace PathParser

/-- The byte `/`. -/
def slash : UInt8 := 47

/-- The byte `\`. -/
def backslash : UInt8 := 92

/-! ### Spelling -/

/-- The second loop of `formatFilePath`, on the part of the path from its index on: of two
slashes the first is cut out, and the index stays. -/
def squeeze : Bytes → Bytes
  | [] => []
  | [last] => [last]
  | first :: second :: rest =>
    if first = slash ∧ second = slash then squeeze (second :: rest)
    else first :: squeeze (second :: rest)

/-- The first loop of `formatFilePath`. -/
def unified (path : Bytes) : Bytes :=
  path.map fun byte => if byte = backslash then slash else byte

/-- The spelling of a path that is compared. -/
def normal (path : Bytes) : Bytes := squeeze (unified path)

/-- `formatFilePath`, which leaves `out` alone when it fails. -/
def formatFilePath (path out : Bytes) : Bool × Bytes :=
  if path.length ≤ 1 then (false, out) else (true, normal path)

def formatDir (path out : Bytes) : Bool × Bytes :=
  match formatFilePath path out with
  | (false, out) => (false, out)
  | (true, out) => (true, if out.getLast? = some slash then out else out ++ [slash])

/-- `std::string::find_last_of` for one byte. -/
def find_last_of (byte : UInt8) : Bytes → Option Nat
  | [] => none
  | first :: rest =>
    match find_last_of byte rest with
    | some index => some (index + 1)
    | none => if first = byte then some 0 else none

/-- `parseFilePath`, which overwrites the name even where it fails for want of a slash. -/
def parseFilePath (fname filePath fileName : Bytes) : Bool × Bytes × Bytes :=
  match formatFilePath fname fileName with
  | (false, fileName) => (false, filePath, fileName)
  | (true, fileName) =>
    match find_last_of slash fileName with
    | none => (false, filePath, fileName)
    | some lastSep =>
      (true, fileName.take (lastSep + 1),
        (fileName.drop (lastSep + 1)).take (fname.length - lastSep))

/-! ### The last separator -/

theorem find_last_of_eq_none_iff (byte : UInt8) (text : Bytes) :
    find_last_of byte text = none ↔ byte ∉ text := by
  induction text with
  | nil => exact iff_of_true rfl List.not_mem_nil
  | cons first rest hypothesis =>
    rw [find_last_of, List.mem_cons, not_or, ← hypothesis]
    cases find_last_of byte rest with
    | some index => exact iff_of_false (by simp) fun absent => by cases absent.2
    | none =>
      by_cases same : first = byte
      · exact iff_of_false (by simp [same]) fun absent => absent.1 same.symm
      · exact iff_of_true (if_neg same) ⟨fun equal => same equal.symm, rfl⟩

theorem find_last_of_append (byte : UInt8) (front back : Bytes) (last : byte ∉ back) :
    find_last_of byte (front ++ byte :: back) = some front.length := by
  induction front with
  | nil =>
    rw [List.nil_append, find_last_of, (find_last_of_eq_none_iff byte back).mpr last]
    exact if_pos rfl
  | cons first front hypothesis =>
    rw [List.cons_append, find_last_of, hypothesis]
    rfl

theorem find_last_of_eq_some {byte : UInt8} {text : Bytes} {index : Nat}
    (found : find_last_of byte text = some index) :
    ∃ front back, text = front ++ byte :: back ∧ byte ∉ back ∧ front.length = index := by
  have member : byte ∈ text := by
    by_contra absent
    cases ((find_last_of_eq_none_iff byte text).mpr absent).symm.trans found
  obtain ⟨front, back, rfl, last⟩ : ∃ front back, text = front ++ byte :: back ∧ byte ∉ back := by
    obtain ⟨back, front, equal, last⟩ :=
      List.eq_append_cons_of_mem (List.mem_reverse.mpr member)
    refine ⟨front.reverse, back.reverse, ?_, fun listed => last (List.mem_reverse.mp listed)⟩
    rw [← List.reverse_reverse text, equal, List.reverse_append, List.reverse_cons,
      List.append_assoc, List.singleton_append]
  rw [find_last_of_append byte front back last] at found
  exact ⟨front, back, rfl, last, Option.some.inj found⟩

/-! ### Directory and name -/

/-- The directory and the name that a path stands for. -/
def parsed (path : Bytes) : Option (Bytes × Bytes) :=
  match parseFilePath path [] [] with
  | (true, filePath, fileName) => some (filePath, fileName)
  | (false, _, _) => none

theorem length_squeeze (path : Bytes) : (squeeze path).length ≤ path.length := by
  induction path using squeeze.induct with
  | case1 => exact Nat.le_refl _
  | case2 => exact Nat.le_refl _
  | case3 first second rest both hypothesis =>
    rw [squeeze, if_pos both]
    exact Nat.le_succ_of_le hypothesis
  | case4 first second rest apart hypothesis =>
    rw [squeeze, if_neg apart]
    exact Nat.succ_le_succ hypothesis

theorem length_normal (path : Bytes) : (normal path).length ≤ path.length := by
  have length := length_squeeze (unified path)
  rw [show (unified path).length = path.length from List.length_map _] at length
  exact length

theorem formatFilePath_of_le (path out : Bytes) (short : path.length ≤ 1) :
    formatFilePath path out = (false, out) := if_pos short

theorem formatFilePath_of_lt (path out : Bytes) (long : ¬ path.length ≤ 1) :
    formatFilePath path out = (true, normal path) := if_neg long

/-- Where a path can be parsed, what stood in the strings before does not matter. -/
theorem parseFilePath_eq (path filePath fileName : Bytes) :
    parseFilePath path filePath fileName =
      if path.length ≤ 1 then (false, filePath, fileName)
      else (find_last_of slash (normal path)).elim
        (false, filePath, normal path) fun lastSep =>
          (true, (normal path).take (lastSep + 1), (normal path).drop (lastSep + 1)) := by
  unfold parseFilePath
  by_cases short : path.length ≤ 1
  · rw [formatFilePath_of_le _ _ short, if_pos short]
  · rw [formatFilePath_of_lt _ _ short, if_neg short]
    have length := length_normal path
    cases found : find_last_of slash (normal path) with
    | none => simp only [found, Option.elim_none]
    | some lastSep =>
      have whole : ((normal path).drop (lastSep + 1)).take (path.length - lastSep) =
          (normal path).drop (lastSep + 1) :=
        List.take_of_length_le (by rw [List.length_drop]; omega)
      simp only [found, Option.elim_some, whole]

theorem parsed_eq (path : Bytes) :
    parsed path = if path.length ≤ 1 then none
      else (find_last_of slash (normal path)).map fun lastSep =>
        ((normal path).take (lastSep + 1), (normal path).drop (lastSep + 1)) := by
  unfold parsed
  rw [parseFilePath_eq]
  by_cases short : path.length ≤ 1
  · rw [if_pos short, if_pos short]
  · rw [if_neg short, if_neg short]
    cases find_last_of slash (normal path) <;> rfl

/-- A parsed path is its directory followed by its name. -/
theorem parsed_append {path filePath fileName : Bytes}
    (split : parsed path = some (filePath, fileName)) : normal path = filePath ++ fileName := by
  rw [parsed_eq] at split
  by_cases short : path.length ≤ 1
  · rw [if_pos short] at split
    cases split
  · rw [if_neg short] at split
    obtain ⟨lastSep, _, equal⟩ := Option.map_eq_some_iff.mp split
    cases equal
    exact (List.take_append_drop _ _).symm

/-- Two paths that can be parsed have the same directory and the same name exactly when they have
the same spelling. -/
theorem parsed_eq_iff {first second : Bytes} {one other : Bytes × Bytes}
    (splitFirst : parsed first = some one) (splitSecond : parsed second = some other) :
    one = other ↔ normal first = normal second := by
  constructor
  · intro equal
    rw [parsed_append splitFirst, parsed_append splitSecond, equal]
  · intro equal
    rw [parsed_eq] at splitFirst splitSecond
    by_cases shortFirst : first.length ≤ 1
    · rw [if_pos shortFirst] at splitFirst
      cases splitFirst
    · by_cases shortSecond : second.length ≤ 1
      · rw [if_pos shortSecond] at splitSecond
        cases splitSecond
      · rw [if_neg shortFirst, equal] at splitFirst
        rw [if_neg shortSecond] at splitSecond
        exact Option.some.inj (splitFirst.symm.trans splitSecond)

end PathParser

end LevelDBLib.Navi
