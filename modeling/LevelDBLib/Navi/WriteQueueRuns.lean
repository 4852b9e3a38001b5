/-
This file is about the queue of writers in use. The writers that have left the queue are the
members of groups, in the order of their arrival; each group was written as one batch of all
that its members gave, and all of them got its status.

No writer sleeps for ever: the first one in the queue, and each one that is done, is awake.
-/

import LevelDBLib.Navi.WriteGroups

namespace LevelDBLib.Navi

open KvDB

namespace Db

namespace WriteQueue

/-! ### Places -/

/-- A writer that has left the queue, and knows its status or is about to. -/
def Writer.Got (w : Writer) (answer : (List Update × Bool) × Status) : Prop :=
  w.told = answer.1 ∧ (w.phase = .returned answer.2 ∨
    w.phase = .testing ∧ w.done = true ∧ w.status = answer.2)

/-- A writer in the queue that is not the first one. -/
def Writer.Queued (w : Writer) : Prop := w.done = false ∧ (w.phase = .testing ∨ w.phase = .waiting)

/-- The first writer writes a group of some of the writers behind it. -/
structure Leads (last place : Nat) (w : Writer) (rest : List Writer) (last_writer : Nat)
    (updates : WriteBatch) (last_sequence : BitVec 64) : Prop where
  given : w.batch.isSome = true
  group : ∃ others left, rest.map Writer.told = others ++ left ∧
    last_writer = place + others.length ∧
    updates.Holds (BitVec.ofNat 64 (last + 1)) ((w.told :: others).flatMap Prod.fst) ∧
    (∀ other ∈ others, other.2 = true → w.sync = true) ∧
    last_sequence = BitVec.ofNat 64 (last + ((w.told :: others).flatMap Prod.fst).length)

/-- The first writer is awake, or writes a group. -/
def Front (last place : Nat) (tmp_batch_ : WriteBatch) (w : Writer) (rest : List Writer) : Prop :=
  w.done = false ∧ match w.phase with
    | .testing => tmp_batch_.Holds 0 []
    | .leading last_writer updates grouped last_sequence =>
      Leads last place w rest last_writer updates last_sequence ∧
        (grouped = false → tmp_batch_.Holds 0 [])
    | _ => False

/-- The queue behind some groups, with the writers that have left it and the others. -/
structure Serialised (first : Nat) (groups : List Group) (served queued : List Writer)
    (state : WriteQueue) : Prop where
  table : state.table = served ++ queued
  queue : state.writers_ = List.range' served.length queued.length
  got : List.Forall₂ Writer.Got served (groups.flatMap Group.answers)
  rest : ∀ w ∈ queued.tail, w.Queued
  numbered : ∃ last, Serial first groups last ∧ state.last_sequence = BitVec.ofNat 64 last ∧
    ∀ w rest, queued = w :: rest → Front last served.length state.tmp_batch_ w rest
  idle : queued = [] → state.tmp_batch_.Holds 0 []
  log : state.log = (groups.filter Group.logged).flatMap fun group =>
    (group.batch.map WriteBatchInternal.Contents).toList
  synced : state.synced = (groups.filter Group.synced).flatMap fun group =>
    (group.batch.map WriteBatchInternal.Contents).toList
  mem : state.mem = (groups.filter Group.inserted).flatMap fun group => group.batch.toList

/-! ### Leaving with a group -/

variable {first : Nat} {groups : List Group} {served queued : List Writer} {state : WriteQueue}

theorem signalled_phase {w : Writer} (queued : w.phase = .testing ∨ w.phase = .waiting) :
    w.signalled = { w with phase := .testing } := by
  unfold Writer.signalled
  rcases queued with phase | phase
  · rw [phase]
    obtain ⟨batch, sync, status, done, _⟩ := w
    cases phase
    rfl
  · rw [phase]

theorem answered_phase {w : Writer} (status : Status)
    (queued : w.phase = .testing ∨ w.phase = .waiting) :
    w.answered status = { w with status, done := true, phase := .testing } :=
  @signalled_phase { w with status, done := true } queued

/-- The writers of a group get its status. -/
theorem got_answers {status : Status} {others : List Writer} (rest : ∀ w ∈ others, w.Queued) :
    List.Forall₂ Writer.Got (others.map (Writer.answered status))
      ((others.map Writer.told).map fun member => (member, status)) := by
  induction others with
  | nil => exact .nil
  | cons w others hypothesis =>
    obtain ⟨-, phase⟩ := rest w List.mem_cons_self
    have others' := hypothesis fun w mem => rest w (List.mem_cons_of_mem _ mem)
    rw [List.map_cons, answered_phase status phase]
    exact .cons ⟨rfl, .inr ⟨rfl, rfl, rfl⟩⟩ others'

/-- The first writer leaves, with a sound group of writers behind it. -/
theorem Serialised.leave (table : state.table = served ++ queued)
    (queue : state.writers_ = List.range' served.length queued.length)
    (got : List.Forall₂ Writer.Got served (groups.flatMap Group.answers)) {front : Writer}
    {others rest : List Writer} (split : queued = front :: (others ++ rest))
    (behind : ∀ w ∈ others ++ rest, w.Queued) (group : Group) {last : Nat}
    (serial : Serial first groups last) (sound : group.Sound last)
    (numbered : state.last_sequence = BitVec.ofNat 64 (group.behind last))
    (members : group.members = front.told :: others.map Writer.told)
    (idle : state.tmp_batch_.Holds 0 [])
    (log : state.log = ((groups ++ [group]).filter Group.logged).flatMap fun group =>
      (group.batch.map WriteBatchInternal.Contents).toList)
    (synced : state.synced = ((groups ++ [group]).filter Group.synced).flatMap fun group =>
      (group.batch.map WriteBatchInternal.Contents).toList)
    (mem : state.mem = ((groups ++ [group]).filter Group.inserted).flatMap fun group =>
      group.batch.toList) :
    ∃ after served' queued',
      state.leave served.length (served.length + others.length) group.status = .ok after ∧
      Serialised first (groups ++ [group]) served' queued' after ∧
      after.table.map Writer.told = state.table.map Writer.told := by
  subst split
  rw [List.length_cons, List.length_append] at queue
  have length : (served ++ front.returning group.status ::
      others.map (Writer.answered group.status)).length = served.length + 1 + others.length := by
    rw [List.length_append, List.length_cons, List.length_map]
    omega
  have same : (awoken rest).map Writer.told = rest.map Writer.told ∧
      (awoken rest).length = rest.length := by
    cases rest with
    | nil => exact ⟨rfl, rfl⟩
    | cons next rest =>
      obtain ⟨-, phase⟩ := behind next (List.mem_append_right _ List.mem_cons_self)
      rw [awoken, signalled_phase phase]
      exact ⟨rfl, rfl⟩
  have told : (others.map (Writer.answered group.status)).map Writer.told =
      others.map Writer.told := by
    rw [List.map_map]
    refine List.map_congr_left fun w mem => ?_
    obtain ⟨-, phase⟩ := behind w (List.mem_append_left _ mem)
    rw [Function.comp_apply, answered_phase _ phase]
    rfl
  refine ⟨_, served ++ front.returning group.status ::
    others.map (Writer.answered group.status), awoken rest, leave_eq state group.status table queue,
    ⟨?_, ?_, ?_, fun w mem => ?_, ⟨_, serial.concat sound, numbered, fun w more split => ?_⟩,
      fun _ => idle, log, synced, mem⟩, ?_⟩
  · rw [List.append_assoc]
    rfl
  · rw [length, same.2]
  · rw [List.flatMap_append, List.flatMap_singleton, Group.answers, members, List.map_cons]
    exact List.rel_append got (.cons ⟨rfl, .inl rfl⟩
      (got_answers fun w mem => behind w (List.mem_append_left _ mem)))
  · cases rest with
    | nil => cases mem
    | cons next rest =>
      exact behind w (List.mem_append_right _ (List.mem_cons_of_mem _ mem))
  · cases rest with
    | nil => cases split
    | cons next rest =>
      obtain ⟨done, phase⟩ := behind next (List.mem_append_right _ List.mem_cons_self)
      obtain ⟨rfl, -⟩ := List.cons.inj split
      rw [signalled_phase phase]
      exact ⟨done, idle⟩
  · rw [table]
    simp only [List.map_append, List.map_cons, told, same.1]
    rfl

/-! ### Steps -/

theorem exists_place {Item : Type} {items : List Item} {index : Nat} {item : Item}
    (found : items[index]? = some item) :
    ∃ front back, items = front ++ item :: back ∧ index = front.length := by
  obtain ⟨inside, valueEq⟩ := List.getElem?_eq_some_iff.mp found
  refine ⟨items.take index, items.drop (index + 1), ?_, ?_⟩
  · rw [← valueEq, List.cons_getElem_drop_succ, List.take_append_drop]
  · rw [List.length_take]
    omega

theorem set_place {Item : Type} (front back : List Item) (item other : Item) :
    (front ++ item :: back).set front.length other = front ++ other :: back := by
  rw [List.set_append_right _ _ (Nat.le_refl _), Nat.sub_self]
  rfl

/-- One more of the same relation. -/
theorem forall_place {One Two : Type} {related : One → Two → Prop} {front back : List One}
    {one other : One} {items : List Two} (all : List.Forall₂ related (front ++ one :: back) items)
    (same : ∀ two, related one two → related other two) :
    (∃ two, related one two) ∧ List.Forall₂ related (front ++ other :: back) items := by
  induction front generalizing items with
  | nil =>
    cases all with
    | cons here rest => exact ⟨⟨_, here⟩, .cons (same _ here) rest⟩
  | cons first front hypothesis =>
    cases all with
    | cons here rest =>
      obtain ⟨found, now⟩ := hypothesis rest
      exact ⟨found, .cons here now⟩

/-- What is related to some item. -/
theorem answered_by {One Two : Type} {related : One → Two → Prop} {ones : List One} {twos : List Two}
    (all : List.Forall₂ related ones twos) {two : Two} (mem : two ∈ twos) :
    ∃ one ∈ ones, related one two := by
  induction all with
  | nil => cases mem
  | cons here _ hypothesis =>
    rcases List.mem_cons.mp mem with rfl | mem
    · exact ⟨_, List.mem_cons_self, here⟩
    · obtain ⟨one, has, same⟩ := hypothesis mem
      exact ⟨one, List.mem_cons_of_mem _ has, same⟩

/-- Where a writer is. -/
theorem Serialised.place (serialised : Serialised first groups served queued state) {w : Nat}
    {writer : Writer} (found : state.table[w]? = some writer) :
    (∃ pre post, served = pre ++ writer :: post ∧ w = pre.length) ∨
      ∃ pre post, queued = pre ++ writer :: post ∧ w = served.length + pre.length := by
  rw [serialised.table] at found
  by_cases inside : w < served.length
  · rw [List.getElem?_append_left inside] at found
    exact .inl (exists_place found)
  · rw [List.getElem?_append_right (Nat.le_of_not_lt inside)] at found
    obtain ⟨pre, post, split, placeEq⟩ := exists_place found
    exact .inr ⟨pre, post, split, by omega⟩

/-- A writer that has left the queue is done, or has returned. -/
theorem Serialised.served_done (serialised : Serialised first groups served queued state)
    {pre post : List Writer} {writer : Writer} (split : served = pre ++ writer :: post) :
    ∃ answer, writer.Got answer :=
  (forall_place (split ▸ serialised.got) fun _ got => got).1

/-- A writer that has not left the queue is the first one there or behind it. -/
theorem Serialised.in_queue (serialised : Serialised first groups served queued state) {w : Nat}
    {writer : Writer} (found : state.table[w]? = some writer) (stays : ∀ answer, ¬ writer.Got answer) :
    (state.writers_.head? = some w ∧ w = served.length ∧ ∃ rest, queued = writer :: rest) ∨
      (state.writers_.head? ≠ some w ∧ ∃ front others post,
        queued = front :: (others ++ writer :: post) ∧ w = served.length + (others.length + 1)) := by
  rcases serialised.place found with ⟨pre, post, split, rfl⟩ | ⟨pre, rest, rfl, rfl⟩
  · obtain ⟨answer, got⟩ := serialised.served_done split
    exact absurd got (stays answer)
  · cases pre with
    | nil => exact .inl ⟨congrArg List.head? serialised.queue, rfl, rest, rfl⟩
    | cons front others =>
      refine .inr ⟨fun ahead => ?_, front, others, rest, rfl, rfl⟩
      rw [serialised.queue, List.length_append, List.length_cons, Nat.add_right_comm,
        List.range'_succ, List.head?_cons] at ahead
      have same := Option.some.inj ahead
      omega

theorem Writer.Got.not_waiting {w : Writer} (waiting : w.phase = .waiting)
    (answer : (List Update × Bool) × Status) : ¬ w.Got answer := by
  rintro ⟨-, returned | ⟨testing, -⟩⟩
  · rw [returned] at waiting
    cases waiting
  · rw [testing] at waiting
    cases waiting

theorem Writer.Got.not_testing {w : Writer} (testing : w.phase.isTesting) (undone : ¬ w.done)
    (answer : (List Update × Bool) × Status) : ¬ w.Got answer := by
  rintro ⟨-, returned | ⟨-, done, -⟩⟩
  · rw [returned] at testing
    cases testing
  · exact undone done

/-- The first writer is not disturbed by others behind it. -/
theorem Front.behind {last place : Nat} {tmp_batch_ : WriteBatch} {w : Writer}
    {rest others : List Writer} (front : Front last place tmp_batch_ w rest)
    {more : List (List Update × Bool)}
    (same : others.map Writer.told = rest.map Writer.told ++ more) :
    Front last place tmp_batch_ w others := by
  obtain ⟨done, front⟩ := front
  refine ⟨done, ?_⟩
  cases phase : w.phase with
  | leading last_writer updates grouped last_sequence =>
    rw [phase] at front
    obtain ⟨⟨given, taken, left, split, group⟩, idle⟩ := front
    exact ⟨⟨given, taken, left ++ more, by rw [same, split, List.append_assoc], group⟩, idle⟩
  | testing =>
    rw [phase] at front
    exact front
  | waiting =>
    rw [phase] at front
    exact front
  | returned status =>
    rw [phase] at front
    exact front

/-- What an action gives. -/
def Action.told : Action → List (List Update × Bool)
  | .arrive batch sync => [((batch.map Given.updates).getD [], sync)]
  | _ => []

/-- What a step leaves, and the groups that were written. -/
def Steps (first : Nat) (groups : List Group) (state : WriteQueue) (action : Action) : Prop :=
  ∃ after more served queued, state.step action = .ok after ∧
    Serialised first (groups ++ more) served queued after ∧
    after.table.map Writer.told = state.table.map Writer.told ++ action.told

/-- Nothing happens. -/
theorem Serialised.stays (serialised : Serialised first groups served queued state)
    {action : Action} (nothing : action.told = []) (stepEq : state.step action = .ok state) :
    Steps first groups state action :=
  ⟨state, [], served, queued, stepEq, (List.append_nil groups).symm ▸ serialised,
    by rw [nothing, List.append_nil]⟩

theorem Serialised.arrive (serialised : Serialised first groups served queued state)
    (batch : Option Given) (sync : Bool) : Steps first groups state (.arrive batch sync) := by
  have length := congrArg List.length serialised.table
  rw [List.length_append] at length
  obtain ⟨last, serial, numbered, front⟩ := serialised.numbered
  refine ⟨_, [], served, queued ++ [⟨batch, sync, .OK, false, .testing⟩], rfl, ?_, ?_⟩
  · rw [List.append_nil]
    refine ⟨?_, ?_, serialised.got, ?_, ⟨last, serial, numbered, ?_⟩, fun none' => ?_,
      serialised.log, serialised.synced, serialised.mem⟩
    · exact (congrArg (· ++ _) serialised.table).trans (List.append_assoc ..)
    · rw [List.length_append, List.length_singleton, List.range'_1_concat, ← serialised.queue, ← length]
    · intro w mem
      cases queued with
      | nil => cases mem
      | cons front rest =>
        rcases List.mem_append.mp mem with mem | mem
        · exact serialised.rest w mem
        · obtain rfl := List.mem_singleton.mp mem
          exact ⟨rfl, .inl rfl⟩
    · intro w rest split
      cases queued with
      | nil =>
        obtain ⟨rfl, rfl⟩ := List.cons.inj split
        exact ⟨rfl, serialised.idle rfl⟩
      | cons front' others =>
        obtain ⟨rfl, rfl⟩ := List.cons.inj split
        exact (front front' others rfl).behind List.map_append
    · exact absurd none' (List.append_ne_nil_of_right_ne_nil _ (List.cons_ne_nil _ _))
  · exact List.map_append

/-- A writer behind the first one falls asleep or wakes. -/
theorem Serialised.turns {front writer other : Writer} {others post : List Writer}
    (serialised : Serialised first groups served (front :: (others ++ writer :: post)) state)
    (told : other.told = writer.told) (still : other.Queued) :
    ∃ queued, Serialised first groups served queued
        { state with table := state.table.set (served.length + (others.length + 1)) other } ∧
      (state.table.set (served.length + (others.length + 1)) other).map Writer.told =
        state.table.map Writer.told := by
  have same : (others ++ other :: post).map Writer.told =
      (others ++ writer :: post).map Writer.told := by
    rw [List.map_append, List.map_append, List.map_cons, List.map_cons, told]
  have table : state.table.set (served.length + (others.length + 1)) other =
      served ++ front :: (others ++ other :: post) := by
    have set' := set_place (served ++ front :: others) post writer other
    rw [List.length_append, List.append_assoc, List.append_assoc] at set'
    rw [serialised.table]
    exact set'
  have length : (front :: (others ++ other :: post)).length =
      (front :: (others ++ writer :: post)).length := by
    rw [List.length_cons, List.length_cons, List.length_append, List.length_append,
      List.length_cons, List.length_cons]
  obtain ⟨last, serial, numbered, first'⟩ := serialised.numbered
  refine ⟨front :: (others ++ other :: post), ⟨table, ?_, serialised.got, fun w mem => ?_,
    ⟨last, serial, numbered, ?_⟩, fun none' => absurd none' (List.cons_ne_nil _ _),
    serialised.log, serialised.synced, serialised.mem⟩, ?_⟩
  · exact serialised.queue.trans (congrArg (List.range' served.length) length.symm)
  · rcases List.mem_append.mp mem with mem | mem
    · exact serialised.rest w (List.mem_append_left _ mem)
    · rcases List.mem_cons.mp mem with rfl | mem
      · exact still
      · exact serialised.rest w (List.mem_append_right _ (List.mem_cons_of_mem _ mem))
  · intro one rest split
    obtain ⟨rfl, rfl⟩ := List.cons.inj split
    exact (first' _ _ rfl).behind (same.trans (List.append_nil _).symm)
  · rw [table, serialised.table, List.map_append, List.map_append, List.map_cons, List.map_cons, same]

theorem Serialised.wait (serialised : Serialised first groups served queued state) (w : Nat) :
    Steps first groups state (.wait w) := by
  cases found : state.table[w]? with
  | none => exact serialised.stays rfl (by rw [step, found])
  | some writer =>
    by_cases here : writer.phase.isTesting ∧ ¬ writer.done ∧ state.writers_.head? ≠ some w
    · have undone : writer.done = false := Bool.eq_false_iff.mpr here.2.1
      rcases serialised.in_queue found (Writer.Got.not_testing here.1 here.2.1) with
        ⟨ahead, -⟩ | ⟨-, front, others, post, rfl, rfl⟩
      · exact absurd ahead here.2.2
      · obtain ⟨queued, now, told⟩ :=
          @Serialised.turns first groups served state front writer { writer with phase := .waiting }
            others post serialised rfl ⟨undone, .inr rfl⟩
        refine ⟨_, [], served, queued, ?_, (List.append_nil groups).symm ▸ now,
          told.trans (List.append_nil _).symm⟩
        rw [step, found]
        exact if_pos here
    · refine serialised.stays rfl ?_
      rw [step, found]
      exact if_neg here

/-- The first writer does not sleep. -/
theorem Serialised.asleep (serialised : Serialised first groups served queued state) {w : Nat}
    {writer : Writer} (found : state.table[w]? = some writer) (waiting : writer.phase = .waiting) :
    state.writers_.head? ≠ some w ∧ ∃ front others post,
      queued = front :: (others ++ writer :: post) ∧ w = served.length + (others.length + 1) := by
  rcases serialised.in_queue found (Writer.Got.not_waiting waiting) with
    ⟨-, rfl, rest, rfl⟩ | behind
  · obtain ⟨last, -, -, front⟩ := serialised.numbered
    have awake := (front writer rest rfl).2
    rw [waiting] at awake
    exact awake.elim
  · exact behind

theorem Serialised.wake (serialised : Serialised first groups served queued state) (w : Nat) :
    Steps first groups state (.wake w) := by
  cases found : state.table[w]? with
  | none => exact serialised.stays rfl (by rw [step, found])
  | some writer =>
    cases phase : writer.phase with
    | waiting =>
      obtain ⟨-, front, others, post, rfl, rfl⟩ := serialised.asleep found phase
      have undone : writer.done = false :=
        (serialised.rest writer (List.mem_append_right _ List.mem_cons_self)).1
      obtain ⟨queued, now, told⟩ :=
        @Serialised.turns first groups served state front writer { writer with phase := .testing }
          others post serialised rfl ⟨undone, .inl rfl⟩
      refine ⟨_, [], served, queued, ?_, (List.append_nil groups).symm ▸ now,
        told.trans (List.append_nil _).symm⟩
      obtain ⟨batch, sync, status, done, _⟩ := writer
      cases phase
      rw [step, found]
    | _ =>
      refine serialised.stays rfl ?_
      obtain ⟨batch, sync, status, done, _⟩ := writer
      cases phase
      rw [step, found]

theorem Serialised.giveBack (serialised : Serialised first groups served queued state) (w : Nat) :
    Steps first groups state (.giveBack w) := by
  cases found : state.table[w]? with
  | none => exact serialised.stays rfl (by rw [step, found])
  | some writer =>
    by_cases here : writer.phase.isTesting ∧ writer.done
    · rcases serialised.place found with ⟨pre, post, rfl, rfl⟩ | ⟨pre, post, rfl, rfl⟩
      · have stepEq : state.step (.giveBack pre.length) = .ok { state with
            table := state.table.set pre.length (writer.returning writer.status) } := by
          rw [step, found]
          exact if_pos here
        have table : state.table.set pre.length (writer.returning writer.status) =
            (pre ++ writer.returning writer.status :: post) ++ queued := by
          rw [serialised.table, List.append_assoc, List.cons_append, set_place, List.append_assoc,
            List.cons_append]
        have length : (pre ++ writer.returning writer.status :: post).length =
            (pre ++ writer :: post).length := by
          rw [List.length_append, List.length_append, List.length_cons, List.length_cons]
        have got := (@forall_place _ _ _ _ _ _ (writer.returning writer.status) _ serialised.got
          fun answer got => ⟨got.1, .inl (by
            rcases got.2 with returned | ⟨-, -, status⟩
            · rw [returned] at here
              cases here.1
            · rw [Writer.returning, status])⟩).2
        obtain ⟨last, serial, numbered, front⟩ := serialised.numbered
        refine ⟨_, [], pre ++ writer.returning writer.status :: post, queued, stepEq, ?_, ?_⟩
        · rw [List.append_nil]
          refine ⟨table, by rw [length]; exact serialised.queue, got, serialised.rest,
            ⟨last, serial, numbered, ?_⟩, serialised.idle, serialised.log, serialised.synced,
            serialised.mem⟩
          rw [length]
          exact front
        · rw [table, serialised.table]
          simp only [List.map_append, List.map_cons, Action.told, List.append_nil]
          rfl
      · exfalso
        -- no writer in the queue is done
        cases pre with
        | nil =>
          obtain ⟨last, -, -, front⟩ := serialised.numbered
          have undone := (front writer post rfl).1
          rw [here.2] at undone
          cases undone
        | cons other others =>
          have undone := (serialised.rest writer
            (List.mem_append_right _ List.mem_cons_self)).1
          rw [here.2] at undone
          cases undone
    · refine serialised.stays rfl ?_
      rw [step, found]
      exact if_neg here

theorem Serialised.error (serialised : Serialised first groups served queued state) (s : Status) :
    Steps first groups state (.error s) :=
  ⟨_, [], served, queued, rfl, (List.append_nil groups).symm ▸
    ⟨serialised.table, serialised.queue, serialised.got, serialised.rest, serialised.numbered,
      serialised.idle, serialised.log, serialised.synced, serialised.mem⟩, (List.append_nil _).symm⟩

/-- The first writer leaves alone, and nothing was written. -/
theorem Serialised.alone {front : Writer} {rest : List Writer}
    (serialised : Serialised first groups served (front :: rest) state)
    (testing : front.phase = .testing) (status : Status)
    (answer : status = .OK → front.told.1 = []) :
    ∃ after served' queued', state.leave served.length served.length status = .ok after ∧
      Serialised first (groups ++ [⟨[front.told], status, none, false, false, false⟩])
        served' queued' after ∧
      after.table.map Writer.told = state.table.map Writer.told := by
  obtain ⟨last, serial, numbered, front'⟩ := serialised.numbered
  have idle := (front' front rest rfl).2
  rw [testing] at idle
  refine @Serialised.leave first groups served (front :: rest) state serialised.table
    serialised.queue serialised.got front [] rest rfl serialised.rest
    ⟨[front.told], status, none, false, false, false⟩ last serial
    ⟨List.cons_ne_nil _ _, (fun _ mem => nomatch mem), (fun no => nomatch no),
      (fun no => nomatch no), (fun no => nomatch no), fun ok => .inl ?_⟩
    numbered rfl idle ?_ ?_ ?_
  · exact (List.append_nil _).trans (answer ok)
  · rw [serialised.log, List.filter_append]
    exact congrArg (List.flatMap _) (List.append_nil _).symm
  · rw [serialised.synced, List.filter_append]
    exact congrArg (List.flatMap _) (List.append_nil _).symm
  · rw [serialised.mem, List.filter_append]
    exact congrArg (List.flatMap _) (List.append_nil _).symm

/-- A group is numbered behind the last number. -/
theorem numbered_group (last : Nat) {b : WriteBatch} {seq : BitVec 64} {updates : List Update}
    (holds : b.Holds seq updates) (short : updates.length < 2 ^ 31) :
    BitVec.ofNat 64 last + 1 = BitVec.ofNat 64 (last + 1) ∧
      (WriteBatchInternal.SetSequence b (BitVec.ofNat 64 (last + 1))).Holds
        (BitVec.ofNat 64 (last + 1)) updates ∧
      BitVec.ofNat 64 last + (WriteBatchInternal.Count (WriteBatchInternal.SetSequence b
        (BitVec.ofNat 64 (last + 1)))).signExtend 64 = BitVec.ofNat 64 (last + updates.length) := by
  have numbered := holds.SetSequence (BitVec.ofNat 64 (last + 1))
  refine ⟨?_, numbered, ?_⟩
  · rw [BitVec.ofNat_add]
    rfl
  · rw [numbered.count_extended short, BitVec.ofNat_add]

/-- The first writer joins a group and releases the mutex. -/
theorem Serialised.begins {front : Writer} {rest : List Writer}
    (serialised : Serialised first groups served (front :: rest) state)
    (testing : front.phase = .testing) {given : Given} (gave : front.batch = some given)
    {room : Status} (ok : (if state.bg_error_.ok then room else state.bg_error_).ok = true) :
    ∃ after leader, state.lead served.length front room = .ok after ∧
      Serialised first groups served (leader :: rest) after ∧
      after.table.map Writer.told = state.table.map Writer.told := by
  obtain ⟨last, serial, numbered, front'⟩ := serialised.numbered
  obtain ⟨undone, idle⟩ := front' front rest rfl
  rw [testing] at idle
  obtain ⟨others, left, result, seq, buildEq, split, holds, short, synced⟩ :=
    BuildBatchGroup_eq state serialised.table serialised.queue idle given gave
  obtain ⟨next, updates, last_sequence⟩ := numbered_group last holds short
  obtain ⟨leader, leaderEq⟩ : ∃ leader : Writer, leader = { front with
      batch := if result.isSome then some given
        else some (given.numbered (BitVec.ofNat 64 (last + 1)))
      phase := .leading (served.length + others.length)
        (WriteBatchInternal.SetSequence (result.getD given.batch) (BitVec.ofNat 64 (last + 1)))
        result.isSome
        (BitVec.ofNat 64 (last + ((front.told :: others).flatMap Prod.fst).length)) } :=
    ⟨_, rfl⟩
  have told : leader.told = front.told := by
    rw [leaderEq, Writer.told, Writer.told, gave]
    cases result with
    | none => rfl
    | some tmp => rfl
  have leadEq : state.lead served.length front room = .ok { state with
      table := state.table.set served.length leader
      tmp_batch_ := if result.isSome then WriteBatchInternal.SetSequence
        (result.getD given.batch) (BitVec.ofNat 64 (last + 1)) else state.tmp_batch_ } := by
    rw [WriteQueue.lead, gave]
    dsimp only
    rw [if_pos ok, buildEq, ok_bind]
    dsimp only
    rw [numbered, next, last_sequence, leaderEq]
  have table : state.table.set served.length leader = served ++ leader :: rest := by
    rw [serialised.table]
    exact set_place served rest front leader
  refine ⟨_, leader, leadEq, ⟨table, serialised.queue, serialised.got, serialised.rest,
    ⟨last, serial, numbered, fun w more same => ?_⟩,
    fun none' => absurd none' (List.cons_ne_nil _ _), serialised.log, serialised.synced,
    serialised.mem⟩, ?_⟩
  · obtain ⟨rfl, rfl⟩ := List.cons.inj same
    rw [← told] at updates
    subst leaderEq
    refine ⟨undone, ⟨?_, others, left, split, rfl, updates, synced, ?_⟩, fun alone => ?_⟩
    · cases result with
      | none => rfl
      | some tmp => rfl
    · rw [told]
    · cases result with
      | none => exact idle
      | some tmp => cases alone
  · rw [table, serialised.table, List.map_append, List.map_append, List.map_cons, List.map_cons, told]

/-- A writer that is awake, and first, is the first one behind those that have left. -/
theorem Serialised.ahead (serialised : Serialised first groups served queued state) {w : Nat}
    {writer : Writer} (found : state.table[w]? = some writer)
    (here : writer.phase.isTesting ∧ ¬ writer.done ∧ state.writers_.head? = some w) :
    w = served.length ∧ writer.phase = .testing ∧ ∃ rest, queued = writer :: rest := by
  obtain ⟨isTesting, undone, ahead⟩ := here
  have testing : writer.phase = .testing := by
    cases phase : writer.phase with
    | testing => rfl
    | _ =>
      rw [phase] at isTesting
      cases isTesting
  rcases serialised.in_queue found (Writer.Got.not_testing isTesting undone) with
    ⟨-, place, rest, split⟩ | ⟨behind, -⟩
  · exact ⟨place, testing, rest, split⟩
  · exact absurd ahead behind

/-- The first writer begins to write a group, or leaves with an error. -/
theorem Serialised.lead (serialised : Serialised first groups served queued state) (w : Nat)
    (room : Status) : Steps first groups state (.lead w room) := by
  cases found : state.table[w]? with
  | none => exact serialised.stays rfl (by rw [step, found])
  | some writer =>
    by_cases here : writer.phase.isTesting ∧ ¬ writer.done ∧ state.writers_.head? = some w
    · obtain ⟨rfl, testing, rest, rfl⟩ := serialised.ahead found here
      have stepEq : state.step (.lead served.length room) =
          state.lead served.length writer room := by
        rw [step, found]
        exact if_pos here
      have leaves : ∀ status : Status, (status = .OK → writer.told.1 = []) →
          state.lead served.length writer room = state.leave served.length served.length status →
          Steps first groups state (.lead served.length room) := by
        intro status answer leadEq
        obtain ⟨after, served', queued', leaveEq, now, told⟩ :=
          serialised.alone testing status answer
        exact ⟨after, _, served', queued', stepEq.trans (leadEq.trans leaveEq), now,
          told.trans (List.append_nil _).symm⟩
      cases gave : writer.batch with
      | none =>
        refine leaves (if state.bg_error_.ok then room else state.bg_error_) (fun _ => ?_) ?_
        · rw [Writer.told, gave]
          rfl
        · rw [WriteQueue.lead, gave]
      | some given =>
        by_cases ok : (if state.bg_error_.ok then room else state.bg_error_).ok = true
        · obtain ⟨after, leader, leadEq, now, told⟩ := serialised.begins testing gave ok
          exact ⟨after, [], served, leader :: rest, stepEq.trans leadEq,
            (List.append_nil groups).symm ▸ now, told.trans (List.append_nil _).symm⟩
        · refine leaves (if state.bg_error_.ok then room else state.bg_error_) (fun fine => ?_) ?_
          · exact absurd (decide_eq_true fine) ok
          · rw [WriteQueue.lead, gave]
            exact if_neg ok
    · refine serialised.stays rfl ?_
      rw [step, found]
      exact if_neg here

/-! ### Writing a group -/

/-- What the writers that have left the queue gave. -/
theorem Serialised.served_told (serialised : Serialised first groups served queued state) :
    (served.map Writer.told).flatMap Prod.fst = groups.flatMap Group.updates := by
  have got : ∀ {served : List Writer} {answers : List ((List Update × Bool) × Status)},
      List.Forall₂ Writer.Got served answers → served.map Writer.told = answers.map Prod.fst := by
    intro served answers got
    induction got with
    | nil => rfl
    | cons here _ rest => rw [List.map_cons, List.map_cons, here.1, rest]
  have members : (groups.flatMap Group.answers).map Prod.fst = groups.flatMap Group.members := by
    rw [List.map_flatMap]
    refine congrArg (groups.flatMap ·) (funext fun group => ?_)
    rw [Group.answers, List.map_map]
    exact List.map_id _
  rw [got serialised.got, members, List.flatMap_assoc]
  rfl

/-- The numbers of a group fit. -/
theorem Serialised.within {front : Writer} {taken stay : List Writer}
    (serialised : Serialised first groups served (front :: (taken ++ stay)) state) {last : Nat}
    (serial : Serial first groups last)
    (bound : first + ((state.table.map Writer.told).flatMap Prod.fst).length < 2 ^ 64) :
    last + ((front.told :: taken.map Writer.told).flatMap Prod.fst).length < 2 ^ 64 := by
  have before := serial.le
  have left := congrArg List.length serialised.served_told
  rw [serialised.table] at bound
  simp only [List.map_append, List.map_cons, List.flatMap_append, List.flatMap_cons,
    List.length_append] at bound left ⊢
  omega

/-- What the answers say if the group's status is OK. -/
theorem Answers.status_ok {answers : Answers} {sync : Bool} (ok : answers.status sync = .OK) :
    answers.added.ok = true ∧ ¬ (sync = true ∧ ¬ answers.synced.ok = true) := by
  unfold Answers.status at ok
  split at ok
  · next added =>
    refine ⟨added, fun failed => ?_⟩
    rw [if_pos failed] at ok
    exact failed.2 (decide_eq_true ok)
  · next added => exact absurd (decide_eq_true ok) added

/-- The group that the first writer writes. -/
def Answers.group (answers : Answers) (front : Writer) (taken : List Writer) (updates : WriteBatch) :
    Group where
  members := front.told :: taken.map Writer.told
  status := answers.status front.sync
  batch := some updates
  logged := answers.added.ok
  synced := decide (answers.added.ok ∧ front.sync ∧ answers.synced.ok)
  inserted := decide (answers.added.ok ∧ ¬ (front.sync ∧ ¬ answers.synced.ok))

theorem Answers.group_sound (answers : Answers) {front : Writer} {taken : List Writer}
    {updates : WriteBatch} {last : Nat}
    (holds : updates.Holds (BitVec.ofNat 64 (last + 1))
      ((front.told :: taken.map Writer.told).flatMap Prod.fst))
    (synced : ∀ other ∈ taken.map Writer.told, other.2 = true → front.sync = true) :
    (answers.group front taken updates).Sound last := by
  refine ⟨List.cons_ne_nil _ _, fun b mem => ?_, fun _ => rfl, fun synced => ?_, fun inserted => ?_,
    fun ok => .inr ?_⟩
  · obtain rfl := Option.mem_some_iff.mp mem
    exact holds
  · exact (of_decide_eq_true synced).1
  · exact (of_decide_eq_true inserted).1
  · obtain ⟨added, fine⟩ := status_ok ok
    refine ⟨added, decide_eq_true ⟨added, fine⟩, fun member mem asks => ?_⟩
    have asked : front.sync = true := by
      rcases List.mem_cons.mp mem with rfl | mem
      · exact asks
      · exact synced member mem asks
    have done : answers.synced.ok = true := Decidable.byContradiction fun not => fine ⟨asked, not⟩
    exact decide_eq_true ⟨added, asked, done⟩

/-- A group is written, and its writers leave. -/
theorem Serialised.writes {front : Writer} {rest : List Writer}
    (serialised : Serialised first groups served (front :: rest) state)
    (bound : first + ((state.table.map Writer.told).flatMap Prod.fst).length < 2 ^ 64)
    {last_writer : Nat} {updates : WriteBatch} {grouped : Bool} {last_sequence : BitVec 64}
    (leading : front.phase = .leading last_writer updates grouped last_sequence)
    (answers : Answers) : ∃ after group served' queued',
      state.write served.length front.sync last_writer updates grouped last_sequence answers =
        .ok after ∧
      Serialised first (groups ++ [group]) served' queued' after ∧
      after.table.map Writer.told = state.table.map Writer.told := by
  obtain ⟨last, serial, numbered, front'⟩ := serialised.numbered
  obtain ⟨undone, leads⟩ := front' front rest rfl
  rw [leading] at leads
  obtain ⟨⟨given, others, left, split, rfl, holds, synced, rfl⟩, idle⟩ := leads
  obtain ⟨taken, stay, rfl, rfl, rfl⟩ := List.map_eq_append_iff.mp split
  have within := serialised.within serial bound
  have forward : ¬ BitVec.ofNat 64
      (last + ((front.told :: taken.map Writer.told).flatMap Prod.fst).length) <
        state.last_sequence := by
    rw [numbered, BitVec.lt_def, BitVec.toNat_ofNat, BitVec.toNat_ofNat, Nat.mod_eq_of_lt within,
      Nat.mod_eq_of_lt (by omega)]
    omega
  rw [List.length_map, write, if_neg forward]
  obtain ⟨after, served', queued', leaveEq, now, told⟩ := @Serialised.leave first groups served
    (front :: (taken ++ stay)) { state with
      log := if answers.added.ok then state.log ++ [WriteBatchInternal.Contents updates] else state.log
      synced := if answers.added.ok ∧ front.sync ∧ answers.synced.ok then
        state.synced ++ [WriteBatchInternal.Contents updates] else state.synced
      mem := if answers.added.ok ∧ ¬ (front.sync ∧ ¬ answers.synced.ok) then state.mem ++ [updates]
        else state.mem
      bg_error_ := if (answers.added.ok ∧ front.sync ∧ ¬ answers.synced.ok) ∧ state.bg_error_.ok then
        answers.synced else state.bg_error_
      tmp_batch_ := if grouped then .Clear else state.tmp_batch_
      last_sequence := BitVec.ofNat 64
        (last + ((front.told :: taken.map Writer.told).flatMap Prod.fst).length) }
    serialised.table serialised.queue serialised.got front taken stay rfl serialised.rest
    (answers.group front taken updates) last serial (answers.group_sound holds synced) rfl rfl
    (by
      cases grouped with
      | true => exact WriteBatch.holds_Clear
      | false => exact idle rfl)
    (by
      rw [filter_last, ← serialised.log]
      rfl)
    (by
      rw [filter_last, ← serialised.synced]
      exact if_congr decide_eq_true_iff.symm rfl rfl)
    (by
      rw [filter_last, ← serialised.mem]
      exact if_congr decide_eq_true_iff.symm rfl rfl)
  exact ⟨after, _, served', queued', leaveEq, now, told⟩

theorem Serialised.write (serialised : Serialised first groups served queued state)
    (bound : first + ((state.table.map Writer.told).flatMap Prod.fst).length < 2 ^ 64) (w : Nat)
    (answers : Answers) : Steps first groups state (.write w answers) := by
  cases found : state.table[w]? with
  | none => exact serialised.stays rfl (by rw [step, found])
  | some writer =>
    cases phase : writer.phase with
    | leading last_writer updates grouped last_sequence =>
      have stepEq : state.step (.write w answers) =
          state.write w writer.sync last_writer updates grouped last_sequence answers := by
        obtain ⟨batch, sync, status, done, _⟩ := writer
        cases phase
        rw [step, found]
      have stays : ∀ answer, ¬ writer.Got answer := by
        rintro answer ⟨-, returned | ⟨testing, -⟩⟩
        · rw [returned] at phase
          cases phase
        · rw [testing] at phase
          cases phase
      rcases serialised.in_queue found stays with
        ⟨-, rfl, rest, rfl⟩ | ⟨-, front, others, post, rfl, -⟩
      · obtain ⟨after, group, served', queued', writeEq, now, told⟩ :=
          serialised.writes bound phase answers
        exact ⟨after, [group], served', queued', stepEq.trans writeEq, now,
          told.trans (List.append_nil _).symm⟩
      · obtain ⟨-, testing | waiting⟩ := serialised.rest writer
          (List.mem_append_right _ List.mem_cons_self)
        · rw [testing] at phase
          cases phase
        · rw [waiting] at phase
          cases phase
    | _ =>
      refine serialised.stays rfl ?_
      obtain ⟨batch, sync, status, done, _⟩ := writer
      cases phase
      rw [step, found]

/-! ### Runs -/

theorem Serialised.step (serialised : Serialised first groups served queued state) (action : Action)
    (bound : first + ((state.table.map Writer.told).flatMap Prod.fst).length < 2 ^ 64) :
    Steps first groups state action := by
  cases action with
  | arrive batch sync => exact serialised.arrive batch sync
  | wait w => exact serialised.wait w
  | wake w => exact serialised.wake w
  | lead w room => exact serialised.lead w room
  | write w answers => exact serialised.write bound w answers
  | giveBack w => exact serialised.giveBack w
  | error s => exact serialised.error s

theorem Serialised.run (serialised : Serialised first groups served queued state)
    (actions : List Action) (bound : first + ((state.table.map Writer.told ++
      actions.flatMap Action.told).flatMap Prod.fst).length < 2 ^ 64) :
    ∃ after groups' served' queued', state.run actions = .ok after ∧
      Serialised first groups' served' queued' after ∧
      after.table.map Writer.told = state.table.map Writer.told ++ actions.flatMap Action.told := by
  induction actions generalizing groups served queued state with
  | nil => exact ⟨state, groups, served, queued, rfl, serialised, (List.append_nil _).symm⟩
  | cons action actions hypothesis =>
    rw [List.flatMap_cons, ← List.append_assoc] at bound
    obtain ⟨next, more, served, queued, stepEq, now, told⟩ := serialised.step action (by
      simp only [List.flatMap_append, List.length_append] at bound
      omega)
    rw [← told] at bound
    obtain ⟨after, groups', served', queued', runEq, last, all⟩ := hypothesis now bound
    refine ⟨after, groups', served', queued', ?_, last, ?_⟩
    · rw [WriteQueue.run, List.foldlM_cons, stepEq]
      exact runEq
    · rw [all, told, List.flatMap_cons, List.append_assoc]

theorem serialised_opened (first : Nat) :
    Serialised first [] [] [] (opened (BitVec.ofNat 64 first)) :=
  ⟨rfl, rfl, .nil, (fun _ mem => nomatch mem), ⟨first, rfl, rfl, fun _ _ split => nomatch split⟩,
    fun _ => WriteBatch.holds_Clear, rfl, rfl, rfl⟩

/-- Nobody sleeps who is done, or first. -/
theorem Serialised.waiting (serialised : Serialised first groups served queued state) {w : Nat}
    {writer : Writer} (found : state.table[w]? = some writer) (waiting : writer.phase = .waiting) :
    writer.done = false ∧ state.writers_.head? ≠ some w := by
  obtain ⟨behind, front, others, post, rfl, -⟩ := serialised.asleep found waiting
  exact ⟨(serialised.rest writer (List.mem_append_right _ List.mem_cons_self)).1, behind⟩

/-! ### Results -/

theorem Writer.Got.result {w : Writer} {answer : (List Update × Bool) × Status} (got : w.Got answer) :
    w.result = some answer.2 := by
  unfold Writer.result
  rcases got.2 with returned | ⟨testing, done, status⟩
  · rw [returned]
  · rw [testing]
    exact (if_pos done).trans (congrArg some status)

theorem Writer.Queued.result {w : Writer} (queued : w.Queued) : w.result = none := by
  unfold Writer.result
  rcases queued.2 with phase | phase
  · rw [phase]
    exact if_neg (Bool.eq_false_iff.mp queued.1)
  · rw [phase]
    exact if_neg (Bool.eq_false_iff.mp queued.1)

theorem Front.result {last place : Nat} {tmp_batch_ : WriteBatch} {w : Writer} {rest : List Writer}
    (front : Front last place tmp_batch_ w rest) : w.result = none := by
  obtain ⟨undone, front⟩ := front
  unfold Writer.result
  cases phase : w.phase with
  | returned status =>
    rw [phase] at front
    exact front.elim
  | _ => exact if_neg (Bool.eq_false_iff.mp undone)

/-- The writers that have left the queue are those with a result. -/
theorem Serialised.answered (serialised : Serialised first groups served queued state) :
    state.answered = served := by
  have left : ∀ w ∈ served, w.result.isSome = true := fun w mem => by
    obtain ⟨pre, post, split⟩ := List.append_of_mem mem
    obtain ⟨answer, got⟩ := serialised.served_done split
    rw [got.result]
    rfl
  have waits : ∀ w ∈ queued, ¬ w.result.isSome = true := fun w mem has => by
    have none' : w.result = none := by
      cases queued with
      | nil => cases mem
      | cons front rest =>
        obtain ⟨last, -, -, front'⟩ := serialised.numbered
        rcases List.mem_cons.mp mem with rfl | mem
        · exact (front' w rest rfl).result
        · exact (serialised.rest w mem).result
    rw [none'] at has
    cases has
  rw [WriteQueue.answered, serialised.table, List.filter_append, List.filter_eq_self.mpr left,
    List.filter_eq_nil_iff.mpr waits, List.append_nil]

theorem Serial.sound {last : Nat} (serial : Serial first groups last) :
    ∀ group ∈ groups, ∃ before, group.Sound before := by
  induction groups generalizing first with
  | nil => exact fun _ mem => nomatch mem
  | cons group rest hypothesis =>
    intro other mem
    rcases List.mem_cons.mp mem with rfl | mem
    · exact ⟨first, serial.1⟩
    · exact hypothesis serial.2 other mem

/-- If no writer has another result than OK, no group has another status: each has a member. -/
theorem Serialised.fine (serialised : Serialised first groups served queued state)
    (fine : ∀ w ∈ state.table, ∀ status ∈ w.result, status = .OK) :
    ∀ group ∈ groups, group.status = .OK := by
  intro group mem
  obtain ⟨last, serial, -⟩ := serialised.numbered
  obtain ⟨before, sound⟩ := serial.sound group mem
  obtain ⟨member, has⟩ := List.exists_mem_of_ne_nil _ sound.members
  have answer : (member, group.status) ∈ groups.flatMap Group.answers :=
    List.mem_flatMap.mpr ⟨group, mem, List.mem_map_of_mem has⟩
  obtain ⟨w, here, got⟩ := answered_by serialised.got answer
  exact fine w (serialised.table ▸ List.mem_append_left _ here) _ got.result

/-- Whatever the threads do, what they gave is written in the order of their arrival, and nobody
sleeps who is done, or first. -/
theorem run_serialised (first : Nat) (actions : List Action)
    (bound : first + ((actions.flatMap Action.told).flatMap Prod.fst).length < 2 ^ 64) :
    ∃ after groups served queued, (opened (BitVec.ofNat 64 first)).run actions = .ok after ∧
      Serialised first groups served queued after ∧ after.answered = served ∧
      (served ++ queued).map Writer.told = actions.flatMap Action.told ∧
      ∀ w writer, after.table[w]? = some writer → writer.phase = .waiting →
        writer.done = false ∧ after.writers_.head? ≠ some w := by
  obtain ⟨after, groups, served, queued, runEq, serialised, told⟩ :=
    (serialised_opened first).run actions bound
  exact ⟨after, groups, served, queued, runEq, serialised, serialised.answered,
    serialised.table ▸ told, fun w writer found waiting => serialised.waiting found waiting⟩

/-- One update, under no number yet. -/
def single (key value : Bytes) : Given :=
  ⟨WriteBatch.Clear.Put key value, [.put key value], 0, WriteBatch.holds_Clear.Put key value,
    (by decide : 1 < 2 ^ 31)⟩

/-- A second thread sleeps while the first one writes what both gave, with `Sync`. A third one, which
came meanwhile, writes next, and a fourth one waits behind it. -/
def together : List Action :=
  [.arrive (some (single [1] [2])) true, .arrive (some (single [1] [3])) false, .wait 1,
    .lead 0 .OK, .arrive (some (single [1] [4])) false, .wait 2, .write 0 ⟨.OK, .OK, .OK⟩,
    .giveBack 1, .lead 2 .OK, .arrive (some (single [1] [5])) true, .write 2 ⟨.OK, .OK, .OK⟩]

theorem run_serialised_once :
    ∃ after groups served queued, (opened 7).run together = .ok after ∧
      Serialised 7 groups served queued after ∧ after.answered = served ∧
      (served ++ queued).map Writer.told = together.flatMap Action.told ∧
      ∀ w writer, after.table[w]? = some writer → writer.phase = .waiting →
        writer.done = false ∧ after.writers_.head? ≠ some w :=
  run_serialised 7 together (by decide)

/-- If every writer that has a result has OK, a memtable that took the batches answers each lookup as
if the updates of these writers had been made one after another, in the order of arrival. -/
theorem run_history (user : Comparator) (first : Nat) (actions : List Action)
    (fits : ∀ u ∈ (actions.flatMap Action.told).flatMap Prod.fst, u.Fits)
    (bound : first + 1 + ((actions.flatMap Action.told).flatMap Prod.fst).length ≤ 2 ^ 56) :
    ∃ after, (opened (BitVec.ofNat 64 first)).run actions = .ok after ∧
      after.table.map Writer.told = actions.flatMap Action.told ∧
      ((∀ w ∈ after.table, ∀ status ∈ w.result, status = .OK) →
        ∃ mem, insertAll user .new after.mem = .ok (.OK, mem) ∧
          ∀ (key : Bytes) (s : Nat), key.length + 8 < 2 ^ 32 → s < 2 ^ 56 →
            ∃ lookup, LookupKey.new key (BitVec.ofNat 64 s) = .ok lookup ∧
              mem.Get user lookup = .ok ((latest user
                (((after.answered.map Writer.told).flatMap Prod.fst).take (s - first)) key).map
                  Update.found)) := by
  obtain ⟨after, groups, served, queued, runEq, serialised, told⟩ :=
    (serialised_opened first).run actions (by
      rw [opened, List.map_nil, List.nil_append]
      omega)
  have all : (served ++ queued).map Writer.told = actions.flatMap Action.told := serialised.table ▸ told
  refine ⟨after, runEq, told, fun fine => ?_⟩
  obtain ⟨last, serial, -⟩ := serialised.numbered
  obtain ⟨batches, consecutive, same, updates⟩ := serial.consecutive (serialised.fine fine)
  have written : (actions.flatMap Action.told).flatMap Prod.fst =
      batches.flatMap Prod.snd ++ (queued.map Writer.told).flatMap Prod.fst := by
    rw [← all, List.map_append, List.flatMap_append, serialised.served_told, updates]
  rw [written, List.length_append] at bound
  obtain ⟨mem, insertEq, numbered⟩ := (numbered_new user (first + 1)).insertAll batches consecutive
    (fun u mem => fits u (written ▸ List.mem_append_left _ mem))
    (show first + 1 + (batches.flatMap Prod.snd).length ≤ 2 ^ 56 by omega)
  refine ⟨mem, by rw [serialised.mem, ← same]; exact insertEq, fun key s short small => ?_⟩
  have found := numbered.Get key s short small
  rw [List.nil_append, updates, ← serialised.served_told, Nat.add_sub_add_right] at found
  rw [serialised.answered]
  exact found

/-- The second writer's number does not yet see what the third one put. -/
theorem run_history_once :
    ∃ after mem lookup, (opened 7).run together = .ok after ∧
      after.table.map Writer.result = [some .OK, some .OK, some .OK, none] ∧
      insertAll BytewiseComparator .new after.mem = .ok (.OK, mem) ∧
      LookupKey.new [1] 9 = .ok lookup ∧
      mem.Get BytewiseComparator lookup = .ok (some (.value [3])) := by
  obtain ⟨after, (runEq : (opened 7).run together = .ok after), -, history⟩ :=
    run_history BytewiseComparator 7 together (by simp [together, single, Action.told, Update.Fits])
      (by decide)
  have results : ((opened 7).run together).map (fun after =>
      (after.table.map Writer.result, (after.answered.map Writer.told).flatMap Prod.fst)) =
      .ok ([some .OK, some .OK, some .OK, none], [.put [1] [2], .put [1] [3], .put [1] [4]]) := rfl
  rw [runEq] at results
  obtain ⟨table, updates⟩ := Prod.mk.inj (Except.ok.inj results)
  obtain ⟨mem, insertEq, get⟩ := history fun w here status has => by
    have mem : w.result ∈ after.table.map Writer.result := List.mem_map_of_mem here
    rw [table, Option.mem_def.mp has] at mem
    simpa using mem
  obtain ⟨lookup, lookupEq, found⟩ := get [1] 9 (by decide) (by decide)
  rw [updates] at found
  exact ⟨after, mem, lookup, runEq, table, insertEq, lookupEq, found⟩

end WriteQueue

end Db

end LevelDBLib.Navi
