/-
This file is about groups of writers that leave the queue together. The first writer joins the
batches of some writers behind it; all of them get its status. Groups that follow one another
number their updates without a gap.
-/

import LevelDBLib.Navi.WriteQueue

namespace LevelDBLib.Navi

open KvDB

namespace Db

namespace WriteQueue

/-! ### Groups -/

/-- What a writer gave, and whether it asked for `sync`. -/
def Writer.told (w : Writer) : List Update × Bool :=
  ((w.batch.map Given.updates).getD [], w.sync)

/-- Writers that leave the queue together, with what happened to their batch. -/
structure Group where
  members : List (List Update × Bool)
  status : Status
  batch : Option WriteBatch
  logged : Bool
  synced : Bool
  inserted : Bool

namespace Group

def updates (group : Group) : List Update := group.members.flatMap Prod.fst

/-- The answers that the members get. -/
def answers (group : Group) : List ((List Update × Bool) × Status) :=
  group.members.map fun member => (member, group.status)

/-- A group behind the updates up to a number. -/
structure Sound (group : Group) (last : Nat) : Prop where
  members : group.members ≠ []
  holds : ∀ b ∈ group.batch, b.Holds (BitVec.ofNat 64 (last + 1)) group.updates
  logged : group.logged = true → group.batch.isSome = true
  synced : group.synced = true → group.logged = true
  inserted : group.inserted = true → group.logged = true
  answer : group.status = .OK → group.updates = [] ∨
    group.logged = true ∧ group.inserted = true ∧
      ∀ member ∈ group.members, member.2 = true → group.synced = true

/-- The last number behind a group. -/
def behind (group : Group) (last : Nat) : Nat :=
  if group.batch.isSome then last + group.updates.length else last

end Group

/-- Groups with numbers that follow one another, up to the last. -/
def Serial : Nat → List Group → Nat → Prop
  | first, [], last => last = first
  | first, group :: rest, last => group.Sound first ∧ Serial (group.behind first) rest last

theorem Serial.concat {first last : Nat} {groups : List Group} (serial : Serial first groups last)
    {group : Group} (sound : group.Sound last) :
    Serial first (groups ++ [group]) (group.behind last) := by
  induction groups generalizing first with
  | nil =>
    obtain rfl : last = first := serial
    exact ⟨sound, rfl⟩
  | cons other rest hypothesis => exact ⟨serial.1, hypothesis serial.2⟩

theorem Group.behind_le (group : Group) (last : Nat) :
    group.behind last ≤ last + group.updates.length := by
  unfold Group.behind
  split <;> omega

theorem Serial.le {first last : Nat} {groups : List Group} (serial : Serial first groups last) :
    last ≤ first + (groups.flatMap Group.updates).length := by
  induction groups generalizing first with
  | nil =>
    obtain rfl : last = first := serial
    exact Nat.le_add_right _ _
  | cons group rest hypothesis =>
    have next := hypothesis serial.2
    have step := group.behind_le first
    rw [List.flatMap_cons, List.length_append]
    omega

theorem filter_last {Item : Type} (groups : List Group) (group : Group) (kept : Group → Bool)
    (items : Group → List Item) : ((groups ++ [group]).filter kept).flatMap items =
      if kept group = true then (groups.filter kept).flatMap items ++ items group
      else (groups.filter kept).flatMap items := by
  rw [List.filter_append, List.flatMap_append]
  by_cases keeps : kept group = true
  · rw [if_pos keeps, List.filter_cons_of_pos keeps, List.filter_nil, List.flatMap_singleton]
  · rw [if_neg keeps, List.filter_cons_of_neg keeps, List.filter_nil, List.flatMap_nil, List.append_nil]

/-- If every group's status is OK, its batches follow one another in the memtable. -/
theorem Serial.consecutive {first last : Nat} {groups : List Group} (serial : Serial first groups last)
    (fine : ∀ group ∈ groups, group.status = .OK) :
    ∃ batches, Consecutive (first + 1) batches ∧
      batches.map Prod.fst =
        ((groups.filter Group.inserted).flatMap fun group => group.batch.toList) ∧
      batches.flatMap Prod.snd = groups.flatMap Group.updates := by
  induction groups generalizing first with
  | nil => exact ⟨[], trivial, rfl, rfl⟩
  | cons group rest hypothesis =>
    obtain ⟨sound, serial⟩ := serial
    obtain ⟨batches, consecutive, same, updates⟩ :=
      hypothesis serial fun group mem => fine group (List.mem_cons_of_mem _ mem)
    cases inserted : group.inserted with
    | true =>
      obtain ⟨b, batch⟩ := Option.isSome_iff_exists.mp (sound.logged (sound.inserted inserted))
      have next : group.behind first = first + group.updates.length :=
        if_pos (by rw [batch]; rfl)
      refine ⟨(b, group.updates) :: batches, ⟨sound.holds b batch, ?_⟩, ?_, ?_⟩
      · rw [Nat.add_right_comm, ← next]
        exact consecutive
      · rw [List.filter_cons_of_pos inserted, List.flatMap_cons, batch, List.map_cons, same]
        rfl
      · rw [List.flatMap_cons, List.flatMap_cons, updates]
    | false =>
      have empty : group.updates = [] := by
        rcases sound.answer (fine group List.mem_cons_self) with empty | ⟨-, inserts, -⟩
        · exact empty
        · rw [inserted] at inserts
          cases inserts
      have next : group.behind first = first := by
        unfold Group.behind
        rw [empty]
        exact ite_self _
      have skipped : ¬ group.inserted = true := by
        rw [inserted]
        exact Bool.false_ne_true
      refine ⟨batches, next ▸ consecutive, ?_, ?_⟩
      · rw [List.filter_cons_of_neg skipped, same]
      · rw [List.flatMap_cons, empty, updates]
        rfl

/-! ### Leaving -/

theorem modify_append {Item : Type} (front back : List Item) (item : Item) (f : Item → Item) :
    (front ++ item :: back).modify front.length f = front ++ f item :: back := by
  induction front with
  | nil => rfl
  | cons first front hypothesis => exact congrArg (first :: ·) hypothesis

/-- Writers behind `w` are taken from the queue up to the last one. -/
theorem pop_others (status : Status) (w last_writer : Nat) (pre others rest : List Writer)
    (behind : w < pre.length) (last : last_writer + 1 = pre.length + others.length)
    (some' : others ≠ []) :
    pop status w last_writer (List.range' pre.length (others.length + rest.length))
        (pre ++ (others ++ rest)) =
      .ok (List.range' (pre.length + others.length) rest.length,
        pre ++ (others.map (Writer.answered status) ++ rest)) := by
  induction others generalizing pre with
  | nil => exact absurd rfl some'
  | cons other others hypothesis =>
    rw [List.length_cons] at last
    rw [List.length_cons, Nat.add_right_comm, List.range'_succ, pop, if_pos (Nat.ne_of_gt behind),
      List.cons_append, modify_append]
    by_cases here : pre.length = last_writer
    · obtain rfl : others = [] := List.length_eq_zero_iff.mp (by omega)
      rw [if_pos here, List.length_nil, Nat.zero_add, Nat.zero_add]
      rfl
    · have more : others ≠ [] := fun none' => by
        rw [none', List.length_nil] at last
        omega
      have length : (pre ++ [other.answered status]).length = pre.length + 1 := by
        rw [List.length_append, List.length_singleton]
      have next := hypothesis (pre ++ [other.answered status]) (by omega) (by omega) more
      rw [length, List.append_assoc, List.singleton_append, List.append_assoc,
        List.singleton_append] at next
      rw [if_neg here, next, List.map_cons, List.cons_append, Nat.add_assoc, Nat.add_comm 1]

/-- The new first writer is woken. -/
def awoken : List Writer → List Writer
  | [] => []
  | w :: rest => w.signalled :: rest

/-- The first writer leaves with the writers of its group. -/
theorem leave_eq (state : WriteQueue) (status : Status) {served others rest : List Writer}
    {front : Writer} (table : state.table = served ++ front :: (others ++ rest))
    (queue : state.writers_ = List.range' served.length (others.length + rest.length + 1)) :
    state.leave served.length (served.length + others.length) status =
      .ok { state with
        writers_ := List.range' (served.length + 1 + others.length) rest.length
        table := served ++ front.returning status ::
          (others.map (Writer.answered status) ++ awoken rest) } := by
  have popped : pop status served.length (served.length + others.length) state.writers_ state.table =
      .ok (List.range' (served.length + 1 + others.length) rest.length,
        served ++ front :: (others.map (Writer.answered status) ++ rest)) := by
    rw [queue, table, List.range'_succ, pop, if_neg (not_not_intro rfl)]
    cases others with
    | nil =>
      rw [List.length_nil, Nat.add_zero, if_pos rfl, Nat.zero_add]
      rfl
    | cons other others =>
      have length : (served ++ [front]).length = served.length + 1 := by
        rw [List.length_append, List.length_singleton]
      have next := pop_others status served.length (served.length + (other :: others).length)
        (served ++ [front]) (other :: others) rest (by omega) (by omega) (List.cons_ne_nil _ _)
      rw [length, List.append_assoc, List.singleton_append, List.append_assoc,
        List.singleton_append] at next
      rw [if_neg (by rw [List.length_cons]; omega), next]
  rw [leave, popped, ok_bind]
  cases rest with
  | nil =>
    simp only [List.length_nil, List.range'_zero, List.head?_nil, Option.map_none, Option.getD_none]
    rw [modify_append]
    rfl
  | cons next rest =>
    have place : served.length + 1 + others.length =
        (served ++ front :: others.map (Writer.answered status)).length := by
      rw [List.length_append, List.length_cons, List.length_map]
      omega
    have woken := modify_append (served ++ front :: others.map (Writer.answered status)) rest next
      Writer.signalled
    rw [← place, List.append_assoc, List.cons_append, List.append_assoc, List.cons_append] at woken
    simp only [List.length_cons, List.range'_succ, List.head?_cons, Option.map_some,
      Option.getD_some]
    rw [woken, modify_append]
    rfl

/-! ### Joining batches -/

/-- Writers with the numbers from a first one on. -/
def withIds : Nat → List Writer → List (Nat × Writer)
  | _, [] => []
  | id, w :: rest => (id, w) :: withIds (id + 1) rest

theorem found_eq (pre rest : List Writer) :
    ((List.range' pre.length rest.length).filterMap fun id => (pre ++ rest)[id]?.map (id, ·)) =
      withIds pre.length rest := by
  induction rest generalizing pre with
  | nil => rfl
  | cons w rest hypothesis =>
    have length : (pre ++ [w]).length = pre.length + 1 := by
      rw [List.length_append, List.length_singleton]
    have next := hypothesis (pre ++ [w])
    have here : (pre ++ w :: rest)[pre.length]? = some w := by
      rw [List.getElem?_append_right (Nat.le_refl _), Nat.sub_self]
      rfl
    rw [length, List.append_assoc, List.singleton_append] at next
    rw [List.length_cons, List.range'_succ, List.filterMap_cons, here, Option.map_some, next]
    rfl

theorem length_le_rep {b : WriteBatch} {seq : BitVec 64} {updates : List Update}
    (holds : b.Holds seq updates) : updates.length ≤ WriteBatchInternal.ByteSize b := by
  have bytes := WriteBatch.length_le_flatMap updates
  rw [← holds.records, List.length_drop] at bytes
  exact Nat.le_trans bytes (Nat.sub_le _ _)

/-- A group so far: what was taken is in the temporary batch, once it is in use. -/
structure Joined (first : Given) (max_size : Nat) (taken : List (List Update × Bool)) (size : Nat)
    (result : Option WriteBatch) : Prop where
  holds : ∃ seq, (result.getD first.batch).Holds seq (first.updates ++ taken.flatMap Prod.fst)
  alone : result = none → taken.flatMap Prod.fst = []
  counted : (first.updates ++ taken.flatMap Prod.fst).length ≤ size
  small : result.isSome = true → size ≤ max_size

/-- One more batch is joined. -/
theorem Joined.join {tmp_batch_ : WriteBatch} (idle : tmp_batch_.Holds 0 []) {first : Given}
    {max_size size : Nat} {taken : List (List Update × Bool)} {result : Option WriteBatch}
    (joined : Joined first max_size taken size result) {w : Writer} {given : Given}
    (gave : w.told.1 = given.updates)
    (room : size + WriteBatchInternal.ByteSize given.batch ≤ max_size) :
    ∃ tmp, temporary tmp_batch_ first.batch result = .ok tmp ∧
      Joined first max_size (taken ++ [w.told]) (size + WriteBatchInternal.ByteSize given.batch)
        (some (WriteBatchInternal.Append tmp given.batch)) := by
  have more : first.updates ++ (taken ++ [w.told]).flatMap Prod.fst =
      first.updates ++ taken.flatMap Prod.fst ++ given.updates := by
    rw [List.flatMap_append, List.flatMap_singleton, gave, List.append_assoc]
  have bytes := length_le_rep given.holds
  have counted : (first.updates ++ (taken ++ [w.told]).flatMap Prod.fst).length ≤
      size + WriteBatchInternal.ByteSize given.batch := by
    have before := joined.counted
    rw [more, List.length_append]
    omega
  have begun : ∃ tmp seq, temporary tmp_batch_ first.batch result = .ok tmp ∧
      tmp.Holds seq (first.updates ++ taken.flatMap Prod.fst) := by
    cases result with
    | some tmp =>
      obtain ⟨seq, holds⟩ := joined.holds
      exact ⟨tmp, seq, rfl, holds⟩
    | none =>
      have empty : WriteBatchInternal.Count tmp_batch_ = 0 := idle.count
      have appended := idle.Append first.holds
      rw [List.nil_append] at appended
      refine ⟨_, 0, ?_, by rw [joined.alone rfl, List.append_nil]; exact appended⟩
      exact if_neg (not_not_intro empty)
  obtain ⟨tmp, seq, tmpEq, holds⟩ := begun
  exact ⟨tmp, tmpEq, ⟨seq, more ▸ holds.Append given.holds⟩, (fun none' => nomatch none'), counted,
    fun _ => room⟩

/-- The loop takes some of the writers behind the first one, and joins what they gave. -/
theorem groupLoop_eq {tmp_batch_ : WriteBatch} (idle : tmp_batch_.Holds 0 []) (first : Given)
    (sync : Bool) (max_size id : Nat) (rest : List Writer) (taken : List (List Update × Bool))
    (size : Nat) (result : Option WriteBatch) (joined : Joined first max_size taken size result) :
    ∃ others left result' size',
      groupLoop tmp_batch_ first.batch sync max_size (withIds (id + 1) rest) size result id =
        .ok (result', id + others.length) ∧
      rest.map Writer.told = others ++ left ∧
      Joined first max_size (taken ++ others) size' result' ∧
      ∀ other ∈ others, other.2 = true → sync = true := by
  induction rest generalizing id taken size result with
  | nil =>
    exact ⟨[], [], result, size, rfl, rfl, (List.append_nil taken).symm ▸ joined,
      fun _ mem => nomatch mem⟩
  | cons w rest hypothesis =>
    have stops : ∃ others left result' size',
        (.ok (result, id) : Except Fault (Option WriteBatch × Nat)) =
          .ok (result', id + others.length) ∧
        (w :: rest).map Writer.told = others ++ left ∧
        Joined first max_size (taken ++ others) size' result' ∧
        ∀ other ∈ others, other.2 = true → sync = true :=
      ⟨[], _, result, size, rfl, rfl, (List.append_nil taken).symm ▸ joined, fun _ mem => nomatch mem⟩
    have goes : ∀ size result, Joined first max_size (taken ++ [w.told]) size result →
        ¬ (w.sync = true ∧ ¬ sync = true) → ∃ others left result' size',
          groupLoop tmp_batch_ first.batch sync max_size (withIds (id + 2) rest) size result (id + 1) =
            .ok (result', id + others.length) ∧
          (w :: rest).map Writer.told = others ++ left ∧
          Joined first max_size (taken ++ others) size' result' ∧
          ∀ other ∈ others, other.2 = true → sync = true := by
      intro size result now quiet
      obtain ⟨others, left, result', size', loopEq, split, after, synced⟩ :=
        hypothesis (id + 1) (taken ++ [w.told]) size result now
      refine ⟨w.told :: others, left, result', size', ?_, ?_, ?_, fun other mem asks => ?_⟩
      · rw [loopEq, List.length_cons, Nat.add_assoc, Nat.add_comm 1]
      · rw [List.map_cons, split, List.cons_append]
      · rw [List.append_cons]
        exact after
      · rcases List.mem_cons.mp mem with rfl | mem
        · exact Decidable.byContradiction fun not => quiet ⟨asks, not⟩
        · exact synced other mem asks
    rw [withIds, groupLoop]
    by_cases asks : w.sync = true ∧ ¬ sync = true
    · rw [if_pos asks]
      exact stops
    · rw [if_neg asks]
      have more : (taken ++ [w.told]).flatMap Prod.fst = taken.flatMap Prod.fst ++ w.told.1 := by
        rw [List.flatMap_append, List.flatMap_singleton]
      cases given : w.batch with
      | none =>
        have nothing : w.told.1 = [] := by
          rw [Writer.told, given]
          rfl
        rw [nothing, List.append_nil] at more
        exact goes size result ⟨more.symm ▸ joined.holds, more.symm ▸ joined.alone,
          more.symm ▸ joined.counted, joined.small⟩ asks
      | some given' =>
        have gave : w.told.1 = given'.updates := by
          rw [Writer.told, given]
          rfl
        dsimp only
        by_cases large : max_size < size + WriteBatchInternal.ByteSize given'.batch
        · rw [if_pos large]
          exact stops
        · obtain ⟨tmp, tmpEq, now⟩ := joined.join idle gave (Nat.le_of_not_lt large)
          rw [if_neg large, tmpEq, ok_bind]
          exact goes _ _ now asks

/-! ### The group of the first writer -/

theorem maxSize_le (size : Nat) : maxSize size ≤ 1048576 := by
  unfold maxSize
  split <;> omega

/-- The first writer joins what some of the writers behind it gave. -/
theorem BuildBatchGroup_eq (state : WriteQueue) {served rest : List Writer} {front : Writer}
    (table : state.table = served ++ front :: rest)
    (queue : state.writers_ = List.range' served.length (rest.length + 1))
    (idle : state.tmp_batch_.Holds 0 []) (given : Given) (gave : front.batch = some given) :
    ∃ others left result seq,
      state.BuildBatchGroup served.length given.batch front.sync =
        .ok (result, served.length + others.length) ∧
      rest.map Writer.told = others ++ left ∧
      (result.getD given.batch).Holds seq ((front.told :: others).flatMap Prod.fst) ∧
      ((front.told :: others).flatMap Prod.fst).length < 2 ^ 31 ∧
      ∀ other ∈ others, other.2 = true → front.sync = true := by
  have length : (served ++ [front]).length = served.length + 1 := by
    rw [List.length_append, List.length_singleton]
  have found := found_eq (served ++ [front]) rest
  rw [length, List.append_assoc, List.singleton_append] at found
  have start : Joined given (maxSize (WriteBatchInternal.ByteSize given.batch)) []
      (WriteBatchInternal.ByteSize given.batch) none :=
    ⟨⟨given.seq, (List.append_nil given.updates).symm ▸ given.holds⟩, fun _ => rfl,
      (List.append_nil given.updates).symm ▸ length_le_rep given.holds, fun none' => nomatch none'⟩
  obtain ⟨others, left, result, size, loopEq, split, joined, synced⟩ :=
    groupLoop_eq idle given front.sync _ served.length rest [] _ none start
  have told : (front.told :: others).flatMap Prod.fst =
      given.updates ++ ([] ++ others).flatMap Prod.fst := by
    rw [List.flatMap_cons, Writer.told, gave]
    rfl
  obtain ⟨seq, holds⟩ := joined.holds
  refine ⟨others, left, result, seq, ?_, split, told ▸ holds, ?_, synced⟩
  · rw [BuildBatchGroup, queue, List.range'_succ, List.tail_cons, table, found]
    exact loopEq
  · rw [told]
    cases resultEq : result with
    | none =>
      rw [joined.alone resultEq, List.append_nil]
      exact given.short
    | some tmp =>
      have small := joined.small (by rw [resultEq]; rfl)
      have most := maxSize_le (WriteBatchInternal.ByteSize given.batch)
      have counted := joined.counted
      omega

end WriteQueue

end Db

end LevelDBLib.Navi
