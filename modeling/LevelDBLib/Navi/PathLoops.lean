/-
This file runs the two loops of `PathParser::formatFilePath` index by index, over the string that
they change under way: the index is an `int`, the bounds are `size_t`, and after a cut the index
steps back. Up to the lengths that an `int` can count the loops end, and leave the normal spelling
of the path; what is longer keeps whatever lies behind the last index.

Two paths have the same normal spelling exactly when they differ in the style of their separators
and in repeated ones only.
-/

import Mathlib.Data.List.Destutter
import Mathlib.Logic.Relation
import LevelDBLib.Navi.VirtualMemFile

namespace LevelDBLib.Navi

open KvDB

namespace PathParser

/-! ### The loops -/

/-- The first loop of `formatFilePath`, from an index on. -/
def unifyLoop : Nat → Int → Bytes → Except Fault Bytes
  | 0, _, _ => .error .nonTermination
  | fuel + 1, i, out =>
    if size_t i < out.length then
      unifyLoop fuel (int (i + 1))
        (if out.getD (size_t i) 0 = backslash then out.set (size_t i) slash else out)
    else .ok out

/-- The second loop of `formatFilePath`, from an index on. After a cut the index steps back before
it steps on. -/
def squeezeLoop : Nat → Int → Bytes → Except Fault Bytes
  | 0, _, _ => .error .nonTermination
  | fuel + 1, i, out =>
    if size_t i < size_t ((out.length : Int) - 1) then
      if out.getD (size_t i) 0 = slash ∧ out.getD (size_t (i + 1)) 0 = slash then
        squeezeLoop fuel (int (int (i - 1) + 1))
          (out.take (size_t i) ++ out.drop (size_t (i + 1)))
      else squeezeLoop fuel (int (i + 1)) out
    else .ok out

/-- `formatFilePath` with its loops, each of which may run as often as `fuel` says. -/
def formatFilePathLoops (fuel : Nat) (path out : Bytes) : Except Fault (Bool × Bytes) :=
  if path.length ≤ 1 then .ok (false, out)
  else do
    let out ← unifyLoop fuel 0 path
    let out ← squeezeLoop fuel 0 out
    .ok (true, out)

/-- `std::string::npos`. -/
def npos : Nat := 18446744073709551615

/-- `parseFilePath` with the loops and the `int` in which it keeps the last separator. -/
def parseFilePathLoops (fuel : Nat) (fname filePath fileName : Bytes) :
    Except Fault (Bool × Bytes × Bytes) := do
  let (formatted, fileName) ← formatFilePathLoops fuel fname fileName
  if formatted = false then .ok (false, filePath, fileName)
  else
    let lastSep := int ((find_last_of slash fileName).getD npos)
    if size_t lastSep = npos then .ok (false, filePath, fileName)
    else .ok (true, fileName.take (size_t (lastSep + 1)),
      (fileName.drop (size_t (lastSep + 1))).take (size_t ((fname.length : Int) - lastSep)))

/-! ### The loops from within -/

theorem size_t_index (count : Nat) (small : count < 2147483648) : size_t (count : Int) = count :=
  size_t_of_lt count (Nat.lt_trans small (by decide))

theorem int_index_succ (count : Nat) (small : count + 1 < 2147483648) :
    int ((count : Int) + 1) = ((count + 1 : Nat) : Int) := int_of_lt (count + 1) small

theorem getD_length (front rest : Bytes) (byte : UInt8) :
    (front ++ byte :: rest).getD front.length 0 = byte := by
  rw [List.getD_eq_getElem?_getD, List.getElem?_append_right (Nat.le_refl _), Nat.sub_self]
  rfl

/-- What the first loop still has to do, done at once. -/
theorem unifyLoop_eq (fuel : Nat) (front rest : Bytes) (enough : rest.length < fuel)
    (small : (front ++ rest).length < 2147483648) :
    unifyLoop fuel front.length (front ++ rest) = .ok (front ++ unified rest) := by
  induction rest generalizing front fuel with
  | nil =>
    obtain ⟨fuel, rfl⟩ := Nat.exists_eq_succ_of_ne_zero (Nat.ne_zero_of_lt enough)
    rw [List.append_nil] at small
    rw [unifyLoop, size_t_index _ small, List.append_nil, if_neg (Nat.lt_irrefl _)]
    exact congrArg _ (List.append_nil front).symm
  | cons byte rest hypothesis =>
    obtain ⟨fuel, rfl⟩ := Nat.exists_eq_succ_of_ne_zero (Nat.ne_zero_of_lt enough)
    have length : front.length + (rest.length + 1) < 2147483648 := by
      rwa [List.length_append] at small
    have index : size_t (front.length : Int) = front.length := size_t_index _ (by omega)
    have changed : (if byte = backslash then (front ++ byte :: rest).set front.length slash
        else front ++ byte :: rest) =
        (front ++ [if byte = backslash then slash else byte]) ++ rest := by
      by_cases same : byte = backslash
      · rw [if_pos same, if_pos same, List.set_append_right _ _ (Nat.le_refl _), Nat.sub_self,
          List.set_cons_zero, List.append_assoc, List.singleton_append]
      · rw [if_neg same, if_neg same, List.append_assoc, List.singleton_append]
    have next := hypothesis fuel (front ++ [if byte = backslash then slash else byte])
      (Nat.lt_of_succ_lt_succ enough)
      (by simp only [List.length_append, List.length_singleton]; omega)
    rw [List.length_append, List.length_singleton] at next
    rw [unifyLoop, index, getD_length, changed, int_index_succ _ (by omega), next, if_pos]
    · rw [List.append_assoc]
      rfl
    · rw [List.length_append, List.length_cons]
      omega

/-- One round of the second loop: a slash in front of another one is cut out, and the index stays
where it is. -/
theorem squeezeLoop_round (fuel : Nat) (front rest : Bytes) (first second : UInt8)
    (small : (front ++ first :: second :: rest).length < 2147483648) :
    squeezeLoop (fuel + 1) front.length (front ++ first :: second :: rest) =
      if first = slash ∧ second = slash then
        squeezeLoop fuel front.length (front ++ second :: rest)
      else squeezeLoop fuel (front ++ [first]).length ((front ++ [first]) ++ second :: rest) := by
  rw [List.length_append, List.length_cons, List.length_cons] at small
  have index : size_t (front.length : Int) = front.length := size_t_index _ (by omega)
  have next : size_t ((front.length : Int) + 1) = front.length + 1 :=
    size_t_index (front.length + 1) (by omega)
  have bound : size_t (((front ++ first :: second :: rest).length : Int) - 1) =
      front.length + rest.length + 1 := by
    rw [List.length_append, List.length_cons, List.length_cons]
    exact (congrArg size_t (by omega)).trans
      (size_t_index (front.length + rest.length + 1) (by omega))
  have back : int (int ((front.length : Int) - 1) + 1) = front.length := by
    unfold int
    omega
  have behind : (front ++ first :: second :: rest).getD (front.length + 1) 0 = second := by
    have whole := getD_length (front ++ [first]) rest second
    rwa [List.append_assoc, List.length_append] at whole
  have dropped : (front ++ first :: second :: rest).drop (front.length + 1) = second :: rest := by
    rw [List.drop_append, List.drop_of_length_le (Nat.le_succ _), Nat.add_sub_cancel_left]
    rfl
  rw [squeezeLoop, index, bound, if_pos (by omega), next, getD_length, behind, back,
    List.take_left, dropped, int_index_succ _ (by omega), List.length_append, List.append_assoc]
  rfl

/-- What the second loop still has to do, done at once. Every round takes a byte off the part that
is still to be looked at, whether it keeps the byte or not. -/
theorem squeezeLoop_eq (fuel : Nat) (front rest : Bytes) (some' : rest ≠ [])
    (enough : rest.length ≤ fuel) (small : (front ++ rest).length < 2147483648) :
    squeezeLoop fuel front.length (front ++ rest) = .ok (front ++ squeeze rest) := by
  induction rest using squeeze.induct generalizing front fuel with
  | case1 => exact absurd rfl some'
  | case2 last =>
    obtain ⟨fuel, rfl⟩ := Nat.exists_eq_succ_of_ne_zero (Nat.ne_zero_of_lt enough)
    rw [List.length_append, List.length_singleton] at small
    have index : size_t (front.length : Int) = front.length := size_t_index _ (by omega)
    have bound : size_t (((front ++ [last]).length : Int) - 1) = front.length := by
      rw [List.length_append, List.length_singleton]
      exact (congrArg size_t (by omega)).trans index
    rw [squeezeLoop, index, bound, if_neg (Nat.lt_irrefl _)]
    rfl
  | case3 first second rest both hypothesis =>
    obtain ⟨fuel, rfl⟩ := Nat.exists_eq_succ_of_ne_zero (Nat.ne_zero_of_lt enough)
    obtain ⟨rfl, rfl⟩ := both
    rw [squeezeLoop_round fuel front rest _ _ small, if_pos ⟨rfl, rfl⟩, squeeze, if_pos ⟨rfl, rfl⟩]
    refine hypothesis fuel front (List.cons_ne_nil _ _) (Nat.le_of_succ_le_succ enough) ?_
    simp only [List.length_append, List.length_cons] at small ⊢
    omega
  | case4 first second rest apart hypothesis =>
    obtain ⟨fuel, rfl⟩ := Nat.exists_eq_succ_of_ne_zero (Nat.ne_zero_of_lt enough)
    rw [squeezeLoop_round fuel front rest _ _ small, if_neg apart, squeeze, if_neg apart,
      hypothesis fuel (front ++ [first]) (List.cons_ne_nil _ _) (Nat.le_of_succ_le_succ enough)
        (by rwa [List.append_assoc]), List.append_assoc]
    rfl

/-- With the lengths that an `int` can count, the loops leave the normal spelling. -/
theorem formatFilePathLoops_eq (fuel : Nat) (path out : Bytes) (small : path.length < 2147483648)
    (enough : path.length < fuel) :
    formatFilePathLoops fuel path out = .ok (formatFilePath path out) := by
  unfold formatFilePathLoops formatFilePath
  by_cases short : path.length ≤ 1
  · rw [if_pos short, if_pos short]
  · have unify : unifyLoop fuel 0 path = .ok (unified path) :=
      unifyLoop_eq fuel [] path enough small
    have length : (unified path).length = path.length := List.length_map _
    have squeezed : squeezeLoop fuel 0 (unified path) = .ok (squeeze (unified path)) :=
      squeezeLoop_eq fuel [] (unified path) (List.ne_nil_of_length_pos (by omega)) (by omega)
        (by rwa [List.nil_append, length])
    rw [if_neg short, if_neg short, unify, ok_bind, squeezed]
    rfl

theorem parseFilePathLoops_eq (fuel : Nat) (fname filePath fileName : Bytes)
    (small : fname.length < 2147483648) (enough : fname.length < fuel) :
    parseFilePathLoops fuel fname filePath fileName =
      .ok (parseFilePath fname filePath fileName) := by
  rw [parseFilePathLoops, formatFilePathLoops_eq fuel fname fileName small enough, ok_bind]
  unfold parseFilePath
  by_cases short : fname.length ≤ 1
  · rw [formatFilePath_of_le _ _ short]
    rfl
  · rw [formatFilePath_of_lt _ _ short]
    dsimp only
    rw [if_neg (by decide)]
    cases found : find_last_of slash (normal fname) with
    | none => rfl
    | some lastSep =>
      obtain ⟨front, back, split, -, rfl⟩ := find_last_of_eq_some found
      have inside : front.length < fname.length := by
        have length := length_normal fname
        rw [split, List.length_append, List.length_cons] at length
        omega
      have index : int (front.length : Int) = front.length := int_of_lt _ (by omega)
      have next : size_t ((front.length : Int) + 1) = front.length + 1 :=
        size_t_index (front.length + 1) (by omega)
      have count : size_t ((fname.length : Int) - front.length) = fname.length - front.length := by
        rw [← Int.natCast_sub (Nat.le_of_lt inside)]
        exact size_t_index _ (by omega)
      have known : front.length ≠ npos := by
        unfold npos
        omega
      simp only [Option.getD_some, index, size_t_index front.length (by omega), next, count,
        if_neg known]

/-! ### The normal spelling -/

/-- Two bytes that may stand side by side. -/
def Apart (first second : UInt8) : Prop := ¬ (first = slash ∧ second = slash)

instance : DecidableRel Apart := fun _ _ => inferInstanceAs (Decidable (¬ _))

/-- Of a run of slashes it does not matter which one stays. -/
theorem squeeze_eq_destutter (path : Bytes) : squeeze path = path.destutter Apart := by
  induction path using squeeze.induct with
  | case1 => rfl
  | case2 => rfl
  | case3 first second rest both hypothesis =>
    rw [squeeze, if_pos both, hypothesis, List.destutter_cons_cons,
      if_neg fun apart : Apart first second => apart both, both.1, both.2, List.destutter_cons']
  | case4 first second rest apart hypothesis =>
    rw [squeeze, if_neg apart, hypothesis, List.destutter_cons_cons,
      if_pos (show Apart first second from apart), List.destutter_cons']

theorem isChain_squeeze (path : Bytes) : (squeeze path).IsChain Apart :=
  squeeze_eq_destutter path ▸ List.isChain_destutter Apart path

theorem squeeze_of_isChain {path : Bytes} (chain : path.IsChain Apart) : squeeze path = path :=
  (squeeze_eq_destutter path).trans (List.destutter_of_isChain Apart path chain)

theorem squeeze_sublist (path : Bytes) : (squeeze path).Sublist path :=
  squeeze_eq_destutter path ▸ List.destutter_sublist Apart path

theorem not_mem_unified (path : Bytes) : backslash ∉ unified path := by
  intro member
  obtain ⟨byte, -, equal⟩ := List.mem_map.mp member
  split at equal
  · cases equal
  · rename_i other
    exact other equal

theorem unified_of_not_mem {path : Bytes} (absent : backslash ∉ path) : unified path = path := by
  have same : ∀ byte ∈ path, (if byte = backslash then slash else byte) = byte := by
    rintro byte member
    exact if_neg fun equal : byte = backslash => absent (equal ▸ member)
  exact (List.map_congr_left same).trans (List.map_id path)

theorem not_mem_normal (path : Bytes) : backslash ∉ normal path := fun member =>
  not_mem_unified path ((squeeze_sublist _).subset member)

/-- The normal spelling of a path is its own. -/
theorem normal_normal (path : Bytes) : normal (normal path) = normal path := by
  rw [normal, unified_of_not_mem (not_mem_normal path)]
  exact squeeze_of_isChain (isChain_squeeze _)

/-- Nowhere in the normal spelling two slashes stand side by side. -/
theorem no_slashes (path : Bytes) : ¬ [slash, slash] <:+: normal path := by
  rintro ⟨front, back, equal⟩
  have chain := isChain_squeeze (unified path)
  rw [show squeeze (unified path) = front ++ [slash, slash] ++ back from equal.symm] at chain
  exact (List.isChain_pair.mp chain.left_of_append.right_of_append) ⟨rfl, rfl⟩

/-! ### Paths of one spelling -/

/-- A path with another style of one separator, or without one of two slashes side by side. -/
inductive Respelled : Bytes → Bytes → Prop
  | style (front back : Bytes) : Respelled (front ++ backslash :: back) (front ++ slash :: back)
  | repeated (front back : Bytes) :
    Respelled (front ++ slash :: slash :: back) (front ++ slash :: back)

/-- Two paths that differ in the style of their separators and in repeated ones only. -/
abbrev SameSpelling : Bytes → Bytes → Prop := Relation.EqvGen Respelled

theorem head?_squeeze (path : Bytes) : (squeeze path).head? = path.head? := by
  induction path using squeeze.induct with
  | case1 => rfl
  | case2 => rfl
  | case3 first second rest both hypothesis =>
    rw [squeeze, if_pos both, hypothesis, both.1, both.2]
    rfl
  | case4 first second rest apart hypothesis =>
    rw [squeeze, if_neg apart]
    rfl

/-- What stands in front of a path is squeezed alike in front of the squeezed path. -/
theorem squeeze_cons (byte : UInt8) (path : Bytes) :
    squeeze (byte :: squeeze path) = squeeze (byte :: path) := by
  cases path with
  | nil => rfl
  | cons second rest =>
    obtain ⟨tail, equal⟩ : ∃ tail, squeeze (second :: rest) = second :: tail :=
      List.head?_eq_some_iff.mp (head?_squeeze (second :: rest))
    have settled := squeeze_of_isChain (isChain_squeeze (second :: rest))
    rw [equal] at settled
    rw [equal, squeeze, squeeze, settled, equal]

theorem squeeze_append (front path : Bytes) :
    squeeze (front ++ squeeze path) = squeeze (front ++ path) := by
  induction front with
  | nil => exact squeeze_of_isChain (isChain_squeeze path)
  | cons byte front hypothesis =>
    rw [List.cons_append, List.cons_append, ← squeeze_cons, hypothesis, squeeze_cons]

theorem normal_of_respelled {path other : Bytes} (respelled : Respelled path other) :
    normal path = normal other := by
  cases respelled with
  | style front back =>
    unfold normal unified
    rw [List.map_append, List.map_append]
    rfl
  | repeated front back =>
    unfold normal unified
    rw [List.map_append, List.map_append, ← squeeze_append]
    conv_rhs => rw [← squeeze_append]
    rfl

theorem SameSpelling.cons (byte : UInt8) {path other : Bytes} (same : SameSpelling path other) :
    SameSpelling (byte :: path) (byte :: other) := by
  induction same with
  | rel path other respelled =>
    cases respelled with
    | style front back => exact .rel _ _ (.style (byte :: front) back)
    | repeated front back => exact .rel _ _ (.repeated (byte :: front) back)
  | refl path => exact .refl _
  | symm path other _ hypothesis => exact .symm _ _ hypothesis
  | trans path middle other _ _ first second => exact .trans _ _ _ first second

theorem sameSpelling_unified (path : Bytes) : SameSpelling path (unified path) := by
  induction path with
  | nil => exact .refl _
  | cons byte path hypothesis =>
    refine .trans _ _ _ (hypothesis.cons byte) ?_
    by_cases same : byte = backslash
    · subst same
      exact .rel _ _ (.style [] (unified path))
    · rw [unified, unified, List.map_cons, if_neg same]
      exact .refl _

theorem sameSpelling_squeeze (path : Bytes) : SameSpelling path (squeeze path) := by
  induction path using squeeze.induct with
  | case1 => exact .refl _
  | case2 => exact .refl _
  | case3 first second rest both hypothesis =>
    obtain ⟨rfl, rfl⟩ := both
    rw [squeeze, if_pos ⟨rfl, rfl⟩]
    exact .trans _ _ _ (.rel _ _ (.repeated [] rest)) hypothesis
  | case4 first second rest apart hypothesis =>
    rw [squeeze, if_neg apart]
    exact hypothesis.cons first

theorem sameSpelling_normal (path : Bytes) : SameSpelling path (normal path) :=
  .trans _ _ _ (sameSpelling_unified path) (sameSpelling_squeeze _)

/-- The normal spellings of two paths are the same exactly when the paths differ in the style of
their separators and in repeated ones only. -/
theorem normal_eq_iff (path other : Bytes) :
    normal path = normal other ↔ SameSpelling path other := by
  constructor
  · intro equal
    exact .trans _ _ _ (sameSpelling_normal path) (equal ▸ (sameSpelling_normal other).symm)
  · intro same
    induction same with
    | rel path other respelled => exact normal_of_respelled respelled
    | refl path => rfl
    | symm path other _ hypothesis => exact hypothesis.symm
    | trans path middle other _ _ first second => exact first.trans second

/-! ### Formatting twice -/

/-- A byte that separates directories. -/
def Separator (byte : UInt8) : Prop := byte = slash ∨ byte = backslash

theorem squeeze_slashes (path : Bytes) (some' : path ≠ [])
    (all : ∀ byte ∈ path, byte = slash) : squeeze path = [slash] := by
  induction path using squeeze.induct with
  | case1 => exact absurd rfl some'
  | case2 last => rw [squeeze, all last List.mem_cons_self]
  | case3 first second rest both hypothesis =>
    rw [squeeze, if_pos both]
    exact hypothesis (List.cons_ne_nil _ _) fun byte member =>
      all byte (List.mem_cons_of_mem _ member)
  | case4 first second rest apart hypothesis =>
    exact absurd ⟨all first List.mem_cons_self,
      all second (List.mem_cons_of_mem _ List.mem_cons_self)⟩ apart

/-- With another byte in it, a path keeps at least two. -/
theorem two_le_squeeze (path : Bytes) (long : 2 ≤ path.length) {byte : UInt8}
    (member : byte ∈ path) (other : byte ≠ slash) : 2 ≤ (squeeze path).length := by
  induction path using squeeze.induct with
  | case1 => cases member
  | case2 last => exact absurd long (by simp)
  | case3 first second rest both hypothesis =>
    rw [squeeze, if_pos both]
    have inRest : byte ∈ rest := by
      rcases List.mem_cons.mp member with rfl | member
      · exact absurd both.1 other
      · rcases List.mem_cons.mp member with rfl | member
        · exact absurd both.2 other
        · exact member
    refine hypothesis ?_ (List.mem_cons_of_mem _ inRest)
    rw [List.length_cons]
    exact Nat.succ_le_succ (List.length_pos_of_mem inRest)
  | case4 first second rest apart hypothesis =>
    obtain ⟨tail, equal⟩ : ∃ tail, squeeze (second :: rest) = second :: tail :=
      List.head?_eq_some_iff.mp (head?_squeeze (second :: rest))
    rw [squeeze, if_neg apart, equal, List.length_cons, List.length_cons]
    omega

theorem normal_separators (path : Bytes) (some' : path ≠ [])
    (all : ∀ byte ∈ path, Separator byte) : normal path = [slash] := by
  refine squeeze_slashes _ (fun empty => some' (List.map_eq_nil_iff.mp empty)) fun byte member => ?_
  obtain ⟨byte, inside, rfl⟩ := List.mem_map.mp member
  rcases all byte inside with equal | equal
  · rw [equal]
    rfl
  · exact if_pos equal

theorem two_le_normal (path : Bytes) (long : 2 ≤ path.length) {byte : UInt8}
    (member : byte ∈ path) (other : ¬ Separator byte) : 2 ≤ (normal path).length := by
  rw [Separator, not_or] at other
  refine two_le_squeeze _ (long.trans (Nat.le_of_eq (List.length_map _).symm))
    (List.mem_map.mpr ⟨byte, member, if_neg other.2⟩) other.1

/-! ### Lengths that an int cannot count -/

/-- The first loop never gets behind the highest index. -/
theorem unifyLoop_behind (fuel : Nat) (i : Int) (out result : Bytes)
    (range : -2147483648 ≤ i ∧ i < 2147483648) (short : out.length < 9223372036854775808)
    (ran : unifyLoop fuel i out = .ok result) (index : Nat) (behind : 2147483648 ≤ index) :
    result[index]? = out[index]? := by
  induction fuel generalizing i out with
  | zero => cases ran
  | succ fuel hypothesis =>
    rw [unifyLoop] at ran
    split at ran
    · rename_i inside
      have reached : size_t i < 2147483648 := by
        unfold size_t at inside ⊢
        omega
      have next : -2147483648 ≤ int (i + 1) ∧ int (i + 1) < 2147483648 := by
        unfold int
        omega
      by_cases same : out.getD (size_t i) 0 = backslash
      · rw [if_pos same] at ran
        rw [hypothesis _ _ next (by rwa [List.length_set]) ran, List.getElem?_set_ne (by omega)]
      · rw [if_neg same] at ran
        exact hypothesis _ _ next short ran
    · cases ran
      rfl

/-- The second loop cuts out slashes only. -/
theorem squeezeLoop_mem (fuel : Nat) (i : Int) (out result : Bytes) (byte : UInt8)
    (other : byte ≠ slash) (member : byte ∈ out) (ran : squeezeLoop fuel i out = .ok result) :
    byte ∈ result := by
  induction fuel generalizing i out with
  | zero => cases ran
  | succ fuel hypothesis =>
    rw [squeezeLoop] at ran
    split at ran
    · split at ran
      · rename_i both
        refine hypothesis _ _ ?_ ran
        rw [List.mem_append]
        have step : size_t (i + 1) ≤ size_t i + 1 := by
          unfold size_t
          omega
        obtain ⟨place, held⟩ := List.mem_iff_getElem?.mp member
        rcases Nat.lt_trichotomy place (size_t i) with before | rfl | after
        · refine .inl (List.mem_iff_getElem?.mpr ⟨place, ?_⟩)
          rw [List.getElem?_take, if_pos before, held]
        · refine absurd ?_ other
          rw [List.getD_eq_getElem?_getD, held] at both
          exact both.1
        · refine .inr (List.mem_iff_getElem?.mpr ⟨place - size_t (i + 1), ?_⟩)
          rw [List.getElem?_drop, Nat.add_sub_of_le (by omega), held]
      · exact hypothesis _ _ member ran
    · cases ran
      exact member

/-- A backslash behind the highest index stays. -/
theorem backslash_stays (fuel : Nat) (path out result : Bytes)
    (short : path.length < 9223372036854775808) (index : Nat) (behind : 2147483648 ≤ index)
    (held : path[index]? = some backslash)
    (ran : formatFilePathLoops fuel path out = .ok (true, result)) : backslash ∈ result := by
  rw [formatFilePathLoops] at ran
  split at ran
  · cases ran
  · obtain ⟨unified, first, ran⟩ := (bind_eq_ok _ _ _).mp ran
    obtain ⟨squeezed, second, ran⟩ := (bind_eq_ok _ _ _).mp ran
    cases ran
    refine squeezeLoop_mem fuel 0 unified _ backslash (by decide) ?_ second
    refine List.mem_iff_getElem?.mpr ⟨index, ?_⟩
    rw [unifyLoop_behind fuel 0 path unified (by decide) short first index behind, held]

/-! ### The normal form -/

/-- Where a path can be parsed, its normal spelling is the directory, up to the last slash, and the
name behind it. -/
theorem parseFilePath_split {path filePath fileName directory name : Bytes}
    (split : parseFilePath path filePath fileName = (true, directory, name)) :
    directory.getLast? = some slash ∧ slash ∉ name ∧ directory ++ name = normal path := by
  rw [parseFilePath_eq] at split
  split at split
  · cases split
  · cases found : find_last_of slash (normal path) with
    | none =>
      rw [found] at split
      cases split
    | some lastSep =>
      rw [found] at split
      obtain ⟨front, back, whole, last, rfl⟩ := find_last_of_eq_some found
      have taken : (normal path).take (front.length + 1) = front ++ [slash] := by
        rw [whole, List.take_length_add_append]
        rfl
      have dropped : (normal path).drop (front.length + 1) = back := by
        rw [whole, List.drop_length_add_append]
        rfl
      rw [Option.elim_some, taken, dropped] at split
      cases split
      refine ⟨List.getLast?_concat, last, ?_⟩
      rw [whole, List.append_assoc, List.singleton_append]

/-- The formatted path has neither a backslash nor two slashes side by side; formatting it again
changes nothing, and succeeds unless the path consists of separators only, whose single slash is too
short a path; the paths of one spelling are formatted alike, and no others; a parsed path is its
directory, which ends with a slash, and its name, which has none. -/
theorem normal_form (path out : Bytes) (long : 2 ≤ path.length) (small : path.length < 2147483648)
    (fuel : Nat) (enough : path.length < fuel) :
    ∃ result, formatFilePathLoops fuel path out = .ok (true, result) ∧
      backslash ∉ result ∧ ¬ [slash, slash] <:+: result ∧
      (∀ again, (∃ byte ∈ path, ¬ Separator byte) →
        formatFilePathLoops fuel result again = .ok (true, result)) ∧
      (∀ again, (∀ byte ∈ path, Separator byte) →
        result = [slash] ∧ formatFilePathLoops fuel result again = .ok (false, again)) ∧
      (∀ other before, 2 ≤ other.length → other.length < 2147483648 → other.length < fuel →
        (formatFilePathLoops fuel other before = .ok (true, result) ↔ SameSpelling path other)) ∧
      ∀ filePath fileName, ∃ parsed directory name,
        parseFilePathLoops fuel path filePath fileName = .ok (parsed, directory, name) ∧
        (parsed = true →
          directory.getLast? = some slash ∧ slash ∉ name ∧ directory ++ name = result) := by
  have notShort : ¬ path.length ≤ 1 := Nat.not_le_of_lt long
  have length := length_normal path
  have again : ∀ again, formatFilePathLoops fuel (normal path) again =
      .ok (formatFilePath (normal path) again) := fun again =>
    formatFilePathLoops_eq fuel _ _ (Nat.lt_of_le_of_lt length small)
      (Nat.lt_of_le_of_lt length enough)
  refine ⟨normal path, ?_, not_mem_normal path, no_slashes path, ?_, ?_, ?_, ?_⟩
  · rw [formatFilePathLoops_eq fuel path out small enough, formatFilePath_of_lt _ _ notShort]
  · rintro other ⟨byte, member, nothing⟩
    have enoughLeft := two_le_normal path long member nothing
    rw [again, formatFilePath_of_lt _ _ (Nat.not_le_of_lt enoughLeft), normal_normal]
  · intro other all
    have single := normal_separators path (List.ne_nil_of_length_pos (by omega)) all
    refine ⟨single, ?_⟩
    rw [again, single]
    rfl
  · intro other before long' small' enough'
    rw [formatFilePathLoops_eq fuel other before small' enough',
      formatFilePath_of_lt _ _ (Nat.not_le_of_lt long'), ← normal_eq_iff]
    exact ⟨fun equal => (Prod.mk.inj (Except.ok.inj equal)).2.symm, fun equal => by rw [equal]⟩
  · intro filePath fileName
    refine ⟨_, _, _, parseFilePathLoops_eq fuel path filePath fileName small enough, ?_⟩
    intro succeeded
    exact parseFilePath_split (Prod.ext succeeded rfl)

/-- The path `a\//b` in full. -/
theorem normal_form_once :
    ∃ result, formatFilePathLoops 6 [97, 92, 47, 47, 98] [] = .ok (true, result) ∧
      backslash ∉ result ∧ formatFilePathLoops 6 result [] = .ok (true, result) := by
  obtain ⟨result, formatted, clean, -, again, -⟩ := normal_form [97, 92, 47, 47, 98] []
    (by decide) (by decide) 6 (by decide)
  exact ⟨result, formatted, clean, again [] ⟨97, by decide, by unfold Separator; decide⟩⟩

/-- Two slashes are formatted to one, which is then refused. And what an `int` cannot count is left
as it is: a backslash behind 2 GiB of slashes. -/
theorem not_formatted_again :
    (formatFilePathLoops 3 [slash, slash] [] = .ok (true, [slash]) ∧
      formatFilePathLoops 3 [slash] [] = .ok (false, [])) ∧
    ∀ fuel out result,
      formatFilePathLoops fuel (List.replicate 2147483648 slash ++ [backslash]) out =
        .ok (true, result) → backslash ∈ result := by
  refine ⟨⟨rfl, rfl⟩, fun fuel out result ran => ?_⟩
  have length : (List.replicate 2147483648 slash ++ [backslash]).length = 2147483649 := by
    rw [List.length_append, List.length_replicate]
    rfl
  have held : (List.replicate 2147483648 slash ++ [backslash])[2147483648]? = some backslash := by
    rw [List.getElem?_append_right (Nat.le_of_eq (List.length_replicate ..)),
      List.length_replicate]
    rfl
  exact backslash_stays fuel _ out result (by rw [length]; decide) 2147483648 (Nat.le_refl _) held
    ran

end PathParser

end LevelDBLib.Navi
