/-
This file is about a skip list in use. `Insert` takes a key that is equal to none in the
list, and leaves a list that is linked at every height again, whatever height the generator
gives the new node.

An iterator stays where it is while keys are inserted. Whatever is called, a skip list
answers as a sorted list of keys does in which the iterator stands at a key.
-/

import LevelDBLib.Navi.SkipList
import LevelDBLib.Library.Simulations

namespace LevelDBLib.Navi

open KvDB

namespace SkipList

variable {Key : Type}

/-! ### Heights and links -/

theorem randomHeight_bounds (left height : Nat) (rnd_ : Random) (positive : 0 < height) :
    0 < (randomHeight left height rnd_).1 ∧ (randomHeight left height rnd_).1 ≤ height + left := by
  induction left generalizing height rnd_ with
  | zero => exact ⟨positive, Nat.le_refl _⟩
  | succ left hypothesis =>
    rw [randomHeight]
    dsimp only
    split
    · obtain ⟨lower, upper⟩ := hypothesis (height + 1) rnd_.Next.2 (Nat.succ_pos _)
      exact ⟨lower, by omega⟩
    · exact ⟨positive, Nat.le_add_right _ _⟩

/-- Two lists with the same nodes but for their links. -/
structure Alike (list after : SkipList Key) : Prop where
  nodes : after.nodes.map (fun node => (node.key, node.next_.length)) =
    list.nodes.map fun node => (node.key, node.next_.length)
  max : after.max_height_ = list.max_height_

theorem Alike.refl (list : SkipList Key) : list.Alike list := ⟨rfl, rfl⟩

theorem Alike.trans {list middle after : SkipList Key} (first : list.Alike middle)
    (second : middle.Alike after) : list.Alike after :=
  ⟨second.nodes.trans first.nodes, second.max.trans first.max⟩

theorem Alike.length {list after : SkipList Key} (alike : list.Alike after) :
    after.nodes.length = list.nodes.length := by
  have lengths := congrArg List.length alike.nodes
  rwa [List.length_map, List.length_map] at lengths

theorem Alike.keyOf {list after : SkipList Key} (alike : list.Alike after) (x : Nat) :
    after.keyOf x = list.keyOf x := by
  have node := congrArg (fun nodes => nodes[x]?) alike.nodes
  simp only [List.getElem?_map] at node
  unfold SkipList.keyOf
  cases one : after.nodes[x]? <;> cases two : list.nodes[x]? <;> rw [one, two] at node <;>
    simp_all

theorem Alike.height {list after : SkipList Key} (alike : list.Alike after) (x : Nat) :
    after.height x = list.height x := by
  have node := congrArg (fun nodes => nodes[x]?.map Prod.snd) alike.nodes
  simp only [List.getElem?_map, Option.map_map] at node
  exact congrArg (·.getD 0) node

/-- A link is set where there was one. -/
theorem SetNext_of_link {list : SkipList Key} {node n : Nat} {old : Option Nat}
    (found : list.link node n = some old) (x : Option Nat) :
    ∃ after, list.SetNext node n x = .ok after ∧ list.Alike after ∧
      ∀ y level, after.link y level = if y = node ∧ level = n then some x else list.link y level := by
  obtain ⟨held, heldEq, nextEq⟩ := Option.bind_eq_some_iff.mp found
  have fits : n < held.next_.length := (List.getElem?_eq_some_iff.mp nextEq).1
  have inside : node < list.nodes.length := (List.getElem?_eq_some_iff.mp heldEq).1
  refine ⟨{ list with nodes := list.nodes.set node { held with next_ := held.next_.set n x } },
    by rw [SetNext, heldEq]; exact if_pos fits, ⟨?_, rfl⟩, fun y level => ?_⟩
  · rw [List.map_set, List.length_set]
    refine List.ext_getElem? fun index => ?_
    rw [List.getElem?_set, List.length_map]
    by_cases here : node = index
    · rw [if_pos here, if_pos inside, ← here, List.getElem?_map, heldEq, Option.map_some]
    · rw [if_neg here]
  · rw [SkipList.link]
    by_cases here : y = node
    · rw [here, List.getElem?_set_self inside, Option.bind_some, SkipList.link, heldEq,
        Option.bind_some, List.getElem?_set]
      by_cases same : n = level
      · rw [if_pos same, if_pos fits, if_pos ⟨rfl, same.symm⟩]
      · rw [if_neg same, if_neg fun both => same both.2.symm]
    · rw [List.getElem?_set_ne (Ne.symm here), if_neg fun both => here both.1]
      rfl

/-- A node is linked behind the previous one at a height. -/
theorem linkAt_spec {list : SkipList Key} {x i before : Nat} {prev : List (Option Nat)}
    {old next : Option Nat} (known : prev[i]?.join = some before) (apart : before ≠ x)
    (found : list.link before i = some next) (fresh : list.link x i = some old) :
    ∃ after, linkAt x prev list i = .ok after ∧ list.Alike after ∧
      ∀ y level, after.link y level = if y = before ∧ level = i then some (some x)
        else if y = x ∧ level = i then some next else list.link y level := by
  obtain ⟨middle, firstEq, first, links⟩ := SetNext_of_link fresh next
  have still : middle.link before i = some next := by
    rw [links, if_neg fun both => apart both.1, found]
  obtain ⟨after, secondEq, second, links'⟩ := SetNext_of_link still (some x)
  refine ⟨after, ?_, first.trans second, fun y level => by rw [links', links]⟩
  rw [linkAt, known]
  show (list.Next before i >>= _) = _
  rw [Next_of_link found, ok_bind, firstEq, ok_bind, secondEq]

/-- The loop of `Insert`, at every height of the new node. -/
theorem linkAll_spec {list : SkipList Key} {x : Nat} {prev : List (Option Nat)}
    (previous : Nat → Nat) (next : Nat → Option Nat) (height : Nat)
    (known : ∀ i < height, prev[i]?.join = some (previous i))
    (apart : ∀ i < height, previous i ≠ x)
    (found : ∀ i < height, list.link (previous i) i = some (next i))
    (fresh : ∀ i < height, list.link x i = some none) :
    ∃ after, (List.range height).foldlM (fun list i => linkAt x prev list i) list = .ok after ∧
      list.Alike after ∧ ∀ y level, after.link y level =
        if y = previous level ∧ level < height then some (some x)
        else if y = x ∧ level < height then some (next level) else list.link y level := by
  induction height with
  | zero =>
    refine ⟨list, rfl, .refl list, fun y level => ?_⟩
    rw [if_neg fun both => Nat.not_lt_zero _ both.2, if_neg fun both => Nat.not_lt_zero _ both.2]
  | succ height hypothesis =>
    obtain ⟨middle, foldEq, alike, links⟩ := hypothesis (fun i bound => known i (by omega))
      (fun i bound => apart i (by omega)) (fun i bound => found i (by omega))
      fun i bound => fresh i (by omega)
    have here : middle.link (previous height) height = some (next height) := by
      rw [links, if_neg fun both => Nat.lt_irrefl _ both.2,
        if_neg fun both => Nat.lt_irrefl _ both.2, found height (Nat.lt_succ_self _)]
    have new : middle.link x height = some none := by
      rw [links, if_neg fun both => Nat.lt_irrefl _ both.2,
        if_neg fun both => Nat.lt_irrefl _ both.2, fresh height (Nat.lt_succ_self _)]
    obtain ⟨after, lastEq, alike', links'⟩ := linkAt_spec (known height (Nat.lt_succ_self _))
      (apart height (Nat.lt_succ_self _)) here new
    refine ⟨after, ?_, alike.trans alike', fun y level => ?_⟩
    · rw [List.range_succ, List.foldlM_append, foldEq, ok_bind]
      exact (congrArg (· >>= _) lastEq).trans rfl
    · rw [links', links]
      by_cases top : level = height
      · subst top
        simp only [Nat.lt_irrefl, and_false, if_false, Nat.lt_succ_self, and_true]
      · have same : level < height + 1 ↔ level < height := by omega
        simp only [top, and_false, if_false, same]

/-! ### Insertion -/

variable {compare_ : Comparison Key} {list : SkipList Key} {order : List (Nat × Key)}

theorem Linked.address (linked : list.Linked compare_ order) {x : Nat}
    (mem : x ∈ order.map Prod.fst) : 0 < x ∧ x < list.nodes.length := by
  obtain ⟨entry, listed, rfl⟩ := List.mem_map.mp mem
  have key := linked.key entry listed
  refine ⟨linked.positive entry listed, ?_⟩
  unfold keyOf at key
  cases found : list.nodes[entry.1]? with
  | none =>
    rw [found] at key
    cases key
  | some node => exact (List.getElem?_eq_some_iff.mp found).1

/-- No node is listed twice, nor is the head. -/
theorem Linked.nodup (linked : list.Linked compare_ order) :
    (head_ :: order.map Prod.fst).Nodup := by
  refine List.nodup_cons.mpr ⟨fun mem => absurd (linked.address mem).1 (Nat.lt_irrefl _), ?_⟩
  refine List.pairwise_map.mpr (linked.sorted.imp_of_mem fun one two less same => ?_)
  have key := (linked.key _ one).symm.trans ((congrArg list.keyOf same).trans (linked.key _ two))
  have zero := compare_.compare_self
  have less : compare_.compare _ _ < 0 := less
  rw [Except.ok.inj key, zero] at less
  exact absurd less (Int.lt_irrefl _)

theorem keyOf_allocated {key : Key} {height : Nat} {x : Nat}
    (old : x < list.nodes.length) : (list.allocated key height).keyOf x = list.keyOf x := by
  rw [keyOf, allocated, List.getElem?_append_left old]
  rfl

theorem height_allocated {key : Key} {height : Nat} {x : Nat}
    (old : x < list.nodes.length) : (list.allocated key height).height x = list.height x := by
  rw [SkipList.height, allocated, List.getElem?_append_left old]
  rfl

theorem link_allocated {key : Key} {height : Nat} {x : Nat}
    (old : x < list.nodes.length) (level : Nat) :
    (list.allocated key height).link x level = list.link x level := by
  rw [link, allocated, List.getElem?_append_left old]
  rfl

theorem node_allocated (list : SkipList Key) (key : Key) (height : Nat) :
    (list.allocated key height).nodes[list.nodes.length]? =
      some ⟨key, List.replicate height none⟩ := by
  rw [allocated, List.getElem?_append_right (Nat.le_refl _), Nat.sub_self]
  rfl

theorem reaches_eq (list : SkipList Key) (level x : Nat) :
    list.reaches level x = decide (level < list.height x) := rfl

/-- The last member of a list that passes a filter. -/
theorem exists_last_filter {Item : Type} {passes : Item → Bool} {items : List Item}
    (some' : items.filter passes ≠ []) :
    ∃ front last back, items = front ++ last :: back ∧ passes last = true ∧
      back.filter passes = [] ∧ (items.filter passes).getLast? = some last := by
  induction items with
  | nil => exact absurd rfl some'
  | cons item rest hypothesis =>
    by_cases more : rest.filter passes = []
    · by_cases here : passes item = true
      · refine ⟨[], item, rest, rfl, here, more, ?_⟩
        rw [List.filter_cons_of_pos here, more]
        rfl
      · rw [List.filter_cons_of_neg here] at some'
        exact absurd more some'
    · obtain ⟨front, last, back, rfl, here, none', found⟩ := hypothesis more
      refine ⟨item :: front, last, back, rfl, here, none', ?_⟩
      rw [List.filter_cons]
      split
      · rw [List.getLast?_cons, found]
        rfl
      · exact found

/-- The node before a place, at a height of the list. -/
theorem Linked.exists_before (linked : list.Linked compare_ order) (low : List Nat) {level : Nat}
    (bound : level < kMaxHeight) :
    ∃ front last back, head_ :: low = front ++ last :: back ∧ list.reaches level last = true ∧
      back.filter (list.reaches level) = [] ∧ list.before low level = some last := by
  have top : list.reaches level head_ = true := decide_eq_true (linked.head.symm ▸ bound)
  refine exists_last_filter ?_
  rw [List.filter_cons_of_pos top]
  exact List.cons_ne_nil _ _

/-- Above the height of the list, the head is before every place. -/
theorem Linked.before_above (linked : list.Linked compare_ order) {low high : List (Nat × Key)}
    (split : order = low ++ high) {level : Nat} (above : list.max_height_ ≤ level)
    (bound : level < kMaxHeight) : list.before (low.map Prod.fst) level = some head_ := by
  have none' : (low.map Prod.fst).filter (list.reaches level) = [] := by
    refine List.filter_eq_nil_iff.mpr fun x mem reaches => ?_
    obtain ⟨entry, listed, rfl⟩ := List.mem_map.mp mem
    have high' := linked.high entry (split ▸ List.mem_append_left _ listed)
    have tall : level < list.height entry.1 := of_decide_eq_true reaches
    omega
  have top : list.reaches level head_ = true := decide_eq_true (linked.head.symm ▸ bound)
  rw [before, List.filter_cons_of_pos top, none']
  rfl

/-- The head and the nodes of the list are in memory. -/
theorem Linked.stored (linked : list.Linked compare_ order) {n : Nat}
    (known : n ∈ head_ :: order.map Prod.fst) : n < list.nodes.length := by
  rcases List.mem_cons.mp known with rfl | mem
  · exact Nat.lt_of_lt_of_eq (Nat.succ_pos _) linked.all
  · exact (linked.address mem).2

/-- A node that is high enough is the last such node before a place unless there is another one
between. -/
theorem before_eq_iff {low front mid : List Nat} {y level : Nat}
    (split : head_ :: low = front ++ y :: mid) (distinct : (head_ :: low).Nodup)
    (reaches : list.reaches level y = true) :
    some y = list.before low level ↔ mid.filter (list.reaches level) = [] := by
  rw [before, split, List.filter_append, List.filter_cons_of_pos reaches, List.getLast?_append]
  cases nearer : mid.filter (list.reaches level) with
  | nil => exact iff_of_true rfl rfl
  | cons c others =>
    refine iff_of_false (fun equal => ?_) (List.cons_ne_nil _ _)
    rw [List.getLast?_cons_cons, List.getLast?_eq_some_getLast (List.cons_ne_nil c others),
      Option.some_or] at equal
    have mem : y ∈ c :: others :=
      Option.some.inj equal ▸ List.getLast_mem (List.cons_ne_nil c others)
    have twice := (List.nodup_append.mp (split ▸ distinct)).2.1
    exact (List.nodup_cons.mp twice).1 (List.mem_filter.mp (nearer ▸ mem)).1

/-- What an insertion behind the nodes `low` makes of a list: the links to the new node and its own
links are new, and the others stay. -/
structure Grows (list : SkipList Key) (low high : List Nat) (key : Key) (height : Nat)
    (after : SkipList Key) : Prop where
  alike : (list.allocated key height).Alike after
  links : ∀ y level, after.link y level =
    if some y = list.before low level ∧ level < height then some (some list.nodes.length)
    else if y = list.nodes.length ∧ level < height then
      some (high.filter (list.reaches level)).head?
    else (list.allocated key height).link y level

namespace Grows

variable {low high : List Nat} {key : Key} {height level y : Nat} {after : SkipList Key}

theorem height_new (grows : list.Grows low high key height after) :
    after.height list.nodes.length = height := by
  rw [grows.alike.height, SkipList.height, node_allocated]
  exact List.length_replicate

theorem height_old (grows : list.Grows low high key height after) (old : y < list.nodes.length) :
    after.height y = list.height y :=
  (grows.alike.height y).trans (height_allocated old)

theorem filter_old (grows : list.Grows low high key height after) (level : Nat) {items : List Nat}
    (old : ∀ n ∈ items, n < list.nodes.length) :
    items.filter (after.reaches level) = items.filter (list.reaches level) :=
  List.filter_congr fun n mem => by rw [reaches_eq, reaches_eq, grows.height_old (old n mem)]

/-- The new node is linked to the nodes behind it. -/
theorem link_new (grows : list.Grows low high key height after)
    (lowOld : ∀ n ∈ head_ :: low, n < list.nodes.length)
    (highOld : ∀ n ∈ high, n < list.nodes.length) (inside : level < height) :
    after.link list.nodes.length level = some (high.filter (after.reaches level)).head? := by
  have apart : some list.nodes.length ≠ list.before low level := fun equal =>
    Nat.lt_irrefl _ (lowOld _ (List.mem_filter.mp (List.mem_of_getLast? equal.symm)).1)
  rw [grows.links, if_neg fun both => apart both.1, if_pos ⟨rfl, inside⟩,
    grows.filter_old level highOld]

/-- A node that is not the last one before the new node keeps its link. -/
theorem link_kept (grows : list.Grows low high key height after) (old : y < list.nodes.length)
    (apart : some y ≠ list.before low level) : after.link y level = list.link y level := by
  rw [grows.links, if_neg fun both => apart both.1, if_neg fun both => Nat.ne_of_lt old both.1,
    link_allocated old]

/-- The last node before the new one is linked to it, where the new one is high enough. -/
theorem link_last (grows : list.Grows low high key height after) (old : y < list.nodes.length)
    (highOld : ∀ n ∈ high, n < list.nodes.length) (last : some y = list.before low level)
    (link : list.link y level = some (high.filter (list.reaches level)).head?) :
    after.link y level =
      some ((list.nodes.length :: high).filter (after.reaches level)).head? := by
  rw [grows.links]
  by_cases inside : level < height
  · have top : after.reaches level list.nodes.length = true :=
      decide_eq_true (grows.height_new.symm ▸ inside)
    rw [if_pos ⟨last, inside⟩, List.filter_cons_of_pos top, List.head?_cons]
  · have under : ¬ after.reaches level list.nodes.length = true := fun top =>
      inside (grows.height_new ▸ of_decide_eq_true top)
    rw [if_neg fun both => inside both.2, if_neg fun both => inside both.2, link_allocated old, link,
      List.filter_cons_of_neg under, grows.filter_old level highOld]

end Grows

/-- With the new node in its place, every node is linked to the next one that is as high. -/
theorem Linked.link_grown (linked : list.Linked compare_ order) {low high : List Nat}
    (split : order.map Prod.fst = low ++ high) {key : Key} {height : Nat} {after : SkipList Key}
    (grows : list.Grows low high key height after) {level y : Nat} {front back : List Nat}
    (whole : head_ :: low ++ list.nodes.length :: high = front ++ y :: back)
    (reaches : after.reaches level y = true) :
    after.link y level = some (back.filter (after.reaches level)).head? := by
  have nodup := linked.nodup
  rw [split, ← List.cons_append] at nodup
  obtain ⟨lowNodup, -, apart⟩ := List.nodup_append.mp nodup
  have lowOld : ∀ n ∈ head_ :: low, n < list.nodes.length := fun n mem => linked.stored (by
    rw [split, ← List.cons_append]
    exact List.mem_append_left _ mem)
  have highOld : ∀ n ∈ high, n < list.nodes.length := fun n mem => linked.stored (by
    rw [split, ← List.cons_append]
    exact List.mem_append_right _ mem)
  have fresh : list.nodes.length = y → high = back →
      after.link y level = some (back.filter (after.reaches level)).head? := by
    rintro rfl rfl
    exact grows.link_new lowOld highOld (grows.height_new ▸ of_decide_eq_true reaches)
  rcases List.append_eq_append_iff.mp whole with ⟨mid, frontEq, tailEq⟩ | ⟨mid, headEq, backEq⟩
  · -- the new node and those behind it
    cases mid with
    | nil =>
      obtain ⟨newEq, rest⟩ := List.cons.inj tailEq
      exact fresh newEq rest
    | cons _ mid =>
      have rest : high = mid ++ y :: back := (List.cons.inj tailEq).2
      have inHigh : y ∈ high := rest ▸ List.mem_append_right _ List.mem_cons_self
      have here := highOld y inHigh
      have before := linked.link level (head_ :: low ++ mid) y back (by
        rw [split, ← List.cons_append, rest, List.append_assoc])
        (by rwa [reaches_eq, ← grows.height_old here])
      rw [grows.link_kept here fun equal => apart y
        (List.mem_filter.mp (List.mem_of_getLast? equal.symm)).1 y inHigh rfl, before,
        grows.filter_old level fun n mem => highOld n
          (rest ▸ List.mem_append_right _ (List.mem_cons_of_mem _ mem))]
  · -- the nodes before it
    cases mid with
    | nil =>
      obtain ⟨newEq, rest⟩ := List.cons.inj backEq
      exact fresh newEq.symm rest.symm
    | cons _ mid =>
      obtain ⟨rfl, restEq⟩ := List.cons.inj backEq
      have rest : back = mid ++ list.nodes.length :: high := restEq
      have here := lowOld y (headEq ▸ List.mem_append_right _ List.mem_cons_self)
      have reaches' : list.reaches level y = true := by rwa [reaches_eq, ← grows.height_old here]
      have midOld : ∀ n ∈ mid, n < list.nodes.length := fun n mem =>
        lowOld n (headEq ▸ List.mem_append_right _ (List.mem_cons_of_mem _ mem))
      have before := linked.link level front y (mid ++ high) (by
        rw [split, ← List.cons_append, headEq, List.append_assoc]
        rfl) reaches'
      have last := before_eq_iff headEq lowNodup reaches'
      rw [List.filter_append] at before
      rw [rest, List.filter_append, grows.filter_old level midOld]
      by_cases nearer : mid.filter (list.reaches level) = []
      · rw [nearer, List.nil_append] at before ⊢
        exact grows.link_last here highOld (last.mpr nearer) before
      · rw [grows.link_kept here fun equal => nearer (last.mp equal), before,
          List.head?_append, List.head?_append, List.head?_eq_some_head nearer, Option.some_or,
          Option.some_or]

/-- A new node between the nodes below its key and the others. -/
theorem Linked.grown (linked : list.Linked compare_ order) {low high : List (Nat × Key)}
    (split : order = low ++ high) {key : Key} {height : Nat} {after : SkipList Key}
    (positive : 0 < height) (bound : height ≤ kMaxHeight)
    (sorted : (compare_.along Prod.snd).Sorted (low ++ (list.nodes.length, key) :: high))
    (grows : list.Grows (low.map Prod.fst) (high.map Prod.fst) key height after) :
    after.Linked compare_ (low ++ (list.nodes.length, key) :: high) := by
  have cases : ∀ entry ∈ low ++ (list.nodes.length, key) :: high,
      entry ∈ order ∨ entry = (list.nodes.length, key) := fun entry mem => by
    rw [List.mem_append, List.mem_cons] at mem
    rw [split, List.mem_append]
    exact mem.elim (fun mem => .inl (.inl mem)) (Or.elim · .inr fun mem => .inl (.inr mem))
  have stored : ∀ entry ∈ order, entry.1 < list.nodes.length :=
    fun entry mem => (linked.address (List.mem_map_of_mem mem)).2
  have max : after.max_height_ = Nat.max list.max_height_ height := grows.alike.max
  constructor
  case key =>
    intro entry mem
    rcases cases entry mem with old | rfl
    · exact (grows.alike.keyOf _).trans ((keyOf_allocated (stored entry old)).trans
        (linked.key entry old))
    · rw [grows.alike.keyOf, keyOf, node_allocated]
  case positive =>
    intro entry mem
    rcases cases entry mem with old | rfl
    · exact linked.positive entry old
    · exact Nat.lt_of_lt_of_eq (Nat.succ_pos _) linked.all
  case all =>
    rw [grows.alike.length, allocated, List.length_append, List.length_append, List.length_cons,
      ← linked.all, split, List.length_append, List.length_singleton]
    omega
  case head => rw [grows.height_old (linked.stored List.mem_cons_self), linked.head]
  case low =>
    intro entry mem
    rcases cases entry mem with old | rfl
    · exact (grows.height_old (stored entry old)).symm ▸ linked.low entry old
    · exact grows.height_new.symm ▸ positive
  case high =>
    intro entry mem
    rw [max]
    rcases cases entry mem with old | rfl
    · exact (grows.height_old (stored entry old)).symm ▸
        Nat.le_trans (linked.high entry old) (Nat.le_max_left ..)
    · exact grows.height_new.symm ▸ Nat.le_max_right ..
  case tall =>
    rw [max]
    exact ⟨Nat.lt_of_lt_of_le linked.tall.1 (Nat.le_max_left ..), Nat.max_le.mpr ⟨linked.tall.2, bound⟩⟩
  case sorted => exact sorted
  case link =>
    intro level front y back whole
    rw [List.map_append, List.map_cons, ← List.cons_append] at whole
    exact linked.link_grown (by rw [split, List.map_append]) grows whole

/-- The seed of the generator is no part of the structure. -/
theorem Linked.seeded (linked : list.Linked compare_ order) (rnd_ : Random) :
    { list with rnd_ := rnd_ : SkipList Key }.Linked compare_ order :=
  ⟨linked.key, linked.positive, linked.all, linked.head, linked.low, linked.high, linked.tall,
    linked.sorted, linked.link⟩

theorem Linked.holds (linked : list.Linked compare_ order) (key : Key) {entries : List (Nat × Key)}
    (listed : ∀ entry ∈ entries, entry ∈ order) :
    list.holds compare_ key (entries.map Prod.fst).head? =
      .ok (entries.head?.any fun entry => decide (compare_.compare key entry.2 = 0)) := by
  cases entries with
  | nil => rfl
  | cons entry rest =>
    rw [List.map_cons, List.head?_cons, SkipList.holds,
      linked.key entry (listed entry List.mem_cons_self)]
    rfl

/-- A new node is linked, however high it is. -/
theorem Linked.insertNode (linked : list.Linked compare_ order) {low high : List (Nat × Key)}
    (split : order = low ++ high) {key : Key} {height : Nat} (positive : 0 < height)
    (bound : height ≤ kMaxHeight)
    (sorted : (compare_.along Prod.snd).Sorted (low ++ (list.nodes.length, key) :: high))
    {prev : List (Option Nat)}
    (found : ∀ i < list.max_height_, prev[i]?.join = list.before (low.map Prod.fst) i) :
    ∃ after, list.insertNode key height prev = .ok after ∧
      after.Linked compare_ (low ++ (list.nodes.length, key) :: high) := by
  have previous : ∀ i < height, (list.raised height prev)[i]?.join =
      list.before (low.map Prod.fst) i := fun i inside => by
    rw [raised, List.getElem?_map, List.getElem?_range (Nat.lt_of_lt_of_le inside bound)]
    show (if list.max_height_ ≤ i ∧ i < height then some head_ else prev[i]?.join) = _
    by_cases above : list.max_height_ ≤ i
    · rw [if_pos ⟨above, inside⟩, linked.before_above split above (Nat.lt_of_lt_of_le inside bound)]
    · rw [if_neg fun both => above both.1, found i (Nat.lt_of_not_le above)]
  have lasts : ∀ i < height, ∃ last, list.before (low.map Prod.fst) i = some last ∧
      last < list.nodes.length ∧ list.link last i =
        some ((high.map Prod.fst).filter (list.reaches i)).head? := fun i inside => by
    obtain ⟨front, last, back, splitEq, reaches, none', lastEq⟩ :=
      linked.exists_before (low.map Prod.fst) (Nat.lt_of_lt_of_le inside bound)
    have mem : last ∈ head_ :: low.map Prod.fst :=
      splitEq ▸ List.mem_append_right _ List.mem_cons_self
    have link := linked.link i front last (back ++ high.map Prod.fst) (by
      rw [split, List.map_append, ← List.cons_append, splitEq, List.append_assoc]
      rfl) reaches
    rw [List.filter_append, none', List.nil_append] at link
    refine ⟨last, lastEq, ?_, link⟩
    rcases List.mem_cons.mp mem with rfl | mem
    · exact Nat.lt_of_lt_of_eq (Nat.succ_pos _) linked.all
    · exact (linked.address (split ▸ List.map_append ▸ List.mem_append_left _ mem)).2
  have fresh : ∀ i < height, (list.allocated key height).link list.nodes.length i = some none :=
    fun i inside => by
      rw [SkipList.link, node_allocated, Option.bind_some, List.getElem?_replicate, if_pos inside]
  obtain ⟨after, insertEq, alike, links⟩ := linkAll_spec
    (fun i => (list.before (low.map Prod.fst) i).getD 0)
    (fun i => ((high.map Prod.fst).filter (list.reaches i)).head?) height
    (fun i inside => by
      obtain ⟨last, lastEq, -⟩ := lasts i inside
      rw [previous i inside, lastEq]
      rfl)
    (fun i inside => by
      obtain ⟨last, lastEq, old, -⟩ := lasts i inside
      rw [lastEq]
      exact Nat.ne_of_lt old)
    (fun i inside => by
      obtain ⟨last, lastEq, old, linkEq⟩ := lasts i inside
      rw [lastEq]
      exact (link_allocated old i).trans linkEq)
    fresh
  refine ⟨after, insertEq, linked.grown split positive bound sorted ⟨alike, fun y level => ?_⟩⟩
  rw [links]
  by_cases inside : level < height
  · obtain ⟨last, lastEq, -⟩ := lasts level inside
    rw [lastEq, Option.getD_some]
    simp only [Option.some.injEq]
  · simp only [inside, and_false, if_false]

/-- A key that is equal to none in the list is inserted. -/
theorem Linked.Insert (linked : list.Linked compare_ order) {key : Key}
    (new : ∀ entry ∈ order, compare_.compare entry.2 key ≠ 0) :
    ∃ after, list.Insert compare_ key = .ok after ∧
      after.Linked compare_ (lower compare_ order key ++
        (list.nodes.length, key) :: upper compare_ order key) := by
  have split := lower_append_upper compare_ order key
  have sorted : (compare_.along Prod.snd).Sorted (lower compare_ order key ++
      (list.nodes.length, key) :: upper compare_ order key) := by
    have entered : (compare_.along Prod.snd).Sorted ((compare_.along Prod.snd).insert
        (list.nodes.length, key) order) := linked.sorted.insert new
    exact entered
  obtain ⟨prev, findEq, found⟩ := linked.FindGreaterOrEqual key
  have differs := linked.holds key fun entry mem =>
    split ▸ List.mem_append_right (lower compare_ order key) mem
  generalize lower compare_ order key = low, upper compare_ order key = high at *
  -- the node that the search found holds another key
  have none' : (high.head?.any fun entry => decide (compare_.compare key entry.2 = 0)) = false := by
    cases high with
    | nil => rfl
    | cons entry high =>
      have listed : entry ∈ order := split ▸ List.mem_append_right _ List.mem_cons_self
      exact decide_eq_false fun equal => new entry listed ((compare_.zero_iff _ _).mp equal)
  obtain ⟨positive, bound⟩ := randomHeight_bounds (kMaxHeight - 1) 1 list.rnd_ Nat.one_pos
  rw [SkipList.Insert, findEq, ok_bind]
  dsimp only
  rw [differs, none', ok_bind, if_neg Bool.false_ne_true]
  exact (linked.seeded (randomHeight (kMaxHeight - 1) 1 list.rnd_).2).insertNode split positive bound
    sorted found

theorem linked_new (compare_ : Comparison Key) (any : Key) : (new any).Linked compare_ [] where
  key _ mem := nomatch mem
  positive _ mem := nomatch mem
  all := rfl
  head := rfl
  low _ mem := nomatch mem
  high _ mem := nomatch mem
  tall := ⟨Nat.one_pos, show 1 ≤ kMaxHeight by decide⟩
  sorted := List.Pairwise.nil
  link level front x back split reaches := by
    cases front with
    | nil =>
      obtain ⟨rfl, rfl⟩ := List.cons.inj split
      have bound : level < kMaxHeight := of_decide_eq_true reaches
      have found : (List.replicate kMaxHeight (none : Option Nat))[level]? = some none := by
        rw [List.getElem?_replicate, if_pos bound]
      exact found
    | cons _ front =>
      obtain ⟨-, rest⟩ := List.cons.inj split
      exact absurd rest.symm (List.append_ne_nil_of_right_ne_nil _ (List.cons_ne_nil _ _))

/-! ### Iterators -/

/-- An iterator is the node it stands at. -/
structure Iterator where
  node_ : Option Nat

namespace Iterator

def new : Iterator := ⟨none⟩

def Valid (iter : Iterator) : Bool := iter.node_.isSome

/-- The node of a valid iterator. -/
def node (iter : Iterator) : Except Fault Nat :=
  match iter.node_ with
  | some node => .ok node
  | none => .error .assertion

def key (list : SkipList Key) (iter : Iterator) : Except Fault Key := do
  let node ← iter.node
  list.keyOf node

def Next (list : SkipList Key) (iter : Iterator) : Except Fault Iterator := do
  let node ← iter.node
  let next ← list.Next node 0
  .ok ⟨next⟩

/-- The iterator at a node, or at none for the head. -/
def behindHead (node : Nat) : Iterator := ⟨if node = head_ then none else some node⟩

def Prev (compare_ : Comparison Key) (list : SkipList Key) (iter : Iterator) :
    Except Fault Iterator := do
  let node ← iter.node
  let key ← list.keyOf node
  let found ← list.FindLessThan compare_ key
  .ok (behindHead found)

def Seek (compare_ : Comparison Key) (list : SkipList Key) (target : Key) :
    Except Fault Iterator := do
  let (found, _) ← list.FindGreaterOrEqual compare_ target
  .ok ⟨found⟩

def SeekToFirst (list : SkipList Key) : Except Fault Iterator := do
  let next ← list.Next head_ 0
  .ok ⟨next⟩

def SeekToLast (list : SkipList Key) : Except Fault Iterator := do
  let found ← list.FindLast
  .ok (behindHead found)

end Iterator

/-! ### Calls -/

/-- The calls of a skip list and an iterator. -/
inductive Call (Key : Type) where
  | insert (key : Key)
  | contains (key : Key)
  | seek (target : Key)
  | seekToFirst
  | seekToLast
  | next
  | prev
  | valid
  | key

inductive Reply (Key : Type) where
  | done
  | answer (yes : Bool)
  | key (key : Key)

def call (compare_ : Comparison Key) (state : SkipList Key × Iterator) :
    Call Key → Except Fault (Reply Key × SkipList Key × Iterator)
  | .insert key => do
    let list ← state.1.Insert compare_ key
    .ok (.done, list, state.2)
  | .contains key => do
    let found ← state.1.Contains compare_ key
    .ok (.answer found, state)
  | .seek target => do
    let iter ← Iterator.Seek compare_ state.1 target
    .ok (.done, state.1, iter)
  | .seekToFirst => do
    let iter ← Iterator.SeekToFirst state.1
    .ok (.done, state.1, iter)
  | .seekToLast => do
    let iter ← Iterator.SeekToLast state.1
    .ok (.done, state.1, iter)
  | .next => do
    let iter ← Iterator.Next state.1 state.2
    .ok (.done, state.1, iter)
  | .prev => do
    let iter ← Iterator.Prev compare_ state.1 state.2
    .ok (.done, state.1, iter)
  | .valid => .ok (.answer state.2.Valid, state)
  | .key => do
    let key ← Iterator.key state.1 state.2
    .ok (.key key, state)

/-- What a skip list is for: a sorted list of keys, one of which an iterator stands at. -/
structure Keys (Key : Type) where
  keys : List Key
  current : Option Key

namespace Keys

/-- What a sorted list of keys answers. -/
def call (compare_ : Comparison Key) (state : Keys Key) : Call Key → Reply Key × Keys Key
  | .insert key => (.done, { state with keys := compare_.insert key state.keys })
  | .contains key =>
    (.answer (state.keys.any fun other => compare_.compare key other = 0), state)
  | .seek target => (.done, { state with current := (compare_.above target state.keys).head? })
  | .seekToFirst => (.done, { state with current := state.keys.head? })
  | .seekToLast => (.done, { state with current := state.keys.getLast? })
  | .next => (.done, ⟨state.keys, state.current.bind fun current =>
      state.keys.find? fun key => compare_.compare current key < 0⟩)
  | .prev => (.done, ⟨state.keys, state.current.bind fun current =>
      (compare_.below current state.keys).getLast?⟩)
  | .valid => (.answer state.current.isSome, state)
  | .key =>
    match state.current with
    | some key => (.key key, state)
    | none => (.done, state)

/-- A key is inserted that is equal to none there, and an iterator is used that is valid. -/
def Allowed (compare_ : Comparison Key) (state : Keys Key) : Call Key → Prop
  | .insert key => ∀ other ∈ state.keys, compare_.compare other key ≠ 0
  | .next | .prev | .key => state.current.isSome = true
  | _ => True

end Keys

/-! ### Refinement -/

/-- A list and an iterator hold the keys, at the key. -/
def Holds (compare_ : Comparison Key) (state : SkipList Key × Iterator) (keys : Keys Key) : Prop :=
  ∃ (order : List (Nat × Key)) (entry : Option (Nat × Key)), state.1.Linked compare_ order ∧
    keys.keys = order.map Prod.snd ∧ state.2.node_ = entry.map Prod.fst ∧
    keys.current = entry.map Prod.snd ∧ ∀ here ∈ entry, here ∈ order

theorem lower_keys (compare_ : Comparison Key) (order : List (Nat × Key)) (key : Key) :
    (lower compare_ order key).map Prod.snd = compare_.below key (order.map Prod.snd) :=
  Comparison.map_below_along ..

theorem upper_keys (compare_ : Comparison Key) (order : List (Nat × Key)) (key : Key) :
    (upper compare_ order key).map Prod.snd = compare_.above key (order.map Prod.snd) :=
  Comparison.map_above_along ..

/-- The lowest links go from each node to the next. -/
theorem Linked.Next (linked : list.Linked compare_ order) {x : Nat} {front back : List Nat}
    (here : head_ :: order.map Prod.fst = front ++ x :: back) : list.Next x 0 = .ok back.head? := by
  have reaches : ∀ n, n = head_ ∨ n ∈ order.map Prod.fst → list.reaches 0 n = true := by
    rintro n (rfl | mem)
    · rw [reaches_eq, linked.head]
      rfl
    · obtain ⟨entry, listed, rfl⟩ := List.mem_map.mp mem
      exact decide_eq_true (linked.low entry listed)
  have listed : ∀ n ∈ x :: back, n = head_ ∨ n ∈ order.map Prod.fst := fun n mem =>
    List.mem_cons.mp (here ▸ List.mem_append_right _ mem)
  have all : back.filter (list.reaches 0) = back :=
    List.filter_eq_self.mpr fun n mem => reaches n (listed n (List.mem_cons_of_mem _ mem))
  have link := linked.link 0 front x back here (reaches x (listed x List.mem_cons_self))
  rw [all] at link
  exact Next_of_link link

/-- The node before a place is the last one below it, or the head. -/
theorem Linked.before_low (linked : list.Linked compare_ order) {low high : List (Nat × Key)}
    (split : order = low ++ high) {last : Nat}
    (found : list.before (low.map Prod.fst) 0 = some last) :
    (Iterator.behindHead last).node_ = low.getLast?.map Prod.fst := by
  have all : (head_ :: low.map Prod.fst).filter (list.reaches 0) = head_ :: low.map Prod.fst := by
    refine List.filter_eq_self.mpr fun n mem => ?_
    rcases List.mem_cons.mp mem with rfl | mem
    · rw [reaches_eq, linked.head]
      rfl
    · obtain ⟨entry, listed, rfl⟩ := List.mem_map.mp mem
      exact decide_eq_true (linked.low entry (split ▸ List.mem_append_left _ listed))
  rw [before, all, List.getLast?_cons, List.getLast?_map] at found
  cases lastLow : low.getLast? with
  | none =>
    rw [lastLow] at found
    obtain rfl : head_ = last := Option.some.inj found
    rfl
  | some entry =>
    rw [lastLow] at found
    obtain rfl : entry.1 = last := Option.some.inj found
    have listed : entry ∈ order := split ▸ List.mem_append_left _ (List.mem_of_getLast? lastLow)
    have positive := linked.positive entry listed
    rw [Iterator.behindHead, if_neg (Nat.ne_of_gt positive)]
    rfl

theorem Linked.keys_sorted (linked : list.Linked compare_ order) :
    compare_.Sorted (order.map Prod.snd) :=
  Comparison.Sorted.map_along.mp linked.sorted

theorem Linked.Contains (linked : list.Linked compare_ order) (key : Key) :
    list.Contains compare_ key =
      .ok ((order.map Prod.snd).any fun other => compare_.compare key other = 0) := by
  have split := lower_append_upper compare_ order key
  obtain ⟨prev, findEq, -⟩ := linked.FindGreaterOrEqual key
  have found := linked.holds key fun entry mem =>
    split ▸ List.mem_append_right (lower compare_ order key) mem
  rw [SkipList.Contains, findEq, ok_bind, linked.keys_sorted.any_zero, ← upper_keys]
  dsimp only
  rw [found]
  cases upper compare_ order key <;> rfl

/-- Every allowed call is answered as the sorted list of keys answers it. -/
theorem Holds.call {state : SkipList Key × Iterator} {keys : Keys Key}
    (holds : Holds compare_ state keys) (made : Call Key) (allowed : keys.Allowed compare_ made) :
    ∃ after, SkipList.call compare_ state made = .ok ((keys.call compare_ made).1, after) ∧
      Holds compare_ after (keys.call compare_ made).2 := by
  obtain ⟨order, entry, linked, keysEq, nodeEq, currentEq, here⟩ := holds
  obtain ⟨list, iter⟩ := state
  obtain ⟨all, current⟩ := keys
  dsimp only at linked keysEq nodeEq currentEq
  subst keysEq currentEq
  cases made with
  | insert key =>
    obtain ⟨after, insertEq, now⟩ := linked.Insert fun entry mem =>
      allowed entry.2 (List.mem_map_of_mem mem)
    refine ⟨(after, iter), by rw [SkipList.call, insertEq]; rfl, _, entry, now, ?_, nodeEq, rfl,
      fun entry mem => ?_⟩
    · rw [List.map_append, List.map_cons, lower_keys, upper_keys]
      rfl
    · have listed := here entry mem
      rw [lower_append_upper compare_ order key, List.mem_append] at listed
      rw [List.mem_append, List.mem_cons]
      exact listed.imp_right .inr
  | contains key =>
    refine ⟨(list, iter), ?_, order, entry, linked, rfl, nodeEq, rfl, here⟩
    rw [SkipList.call, linked.Contains]
    rfl
  | seek target =>
    obtain ⟨prev, findEq, -⟩ := linked.FindGreaterOrEqual target
    refine ⟨(list, ⟨((upper compare_ order target).map Prod.fst).head?⟩), ?_, order,
      (upper compare_ order target).head?, linked, rfl, ?_, ?_, fun entry mem => ?_⟩
    · rw [SkipList.call, Iterator.Seek, findEq]
      rfl
    · exact List.head?_map
    · exact (congrArg List.head? (upper_keys ..)).symm.trans List.head?_map
    · rw [lower_append_upper compare_ order target]
      exact List.mem_append_right _ (List.mem_of_mem_head? mem)
  | seekToFirst =>
    refine ⟨(list, ⟨(order.map Prod.fst).head?⟩), ?_, order, order.head?, linked, rfl, ?_, ?_,
      fun entry mem => List.mem_of_mem_head? mem⟩
    · rw [SkipList.call, Iterator.SeekToFirst, linked.Next (List.nil_append _).symm]
      rfl
    · exact List.head?_map
    · exact List.head?_map
  | seekToLast =>
    obtain ⟨last, findEq, lastEq⟩ := linked.FindLast
    refine ⟨(list, .behindHead last), ?_, order, order.getLast?, linked, rfl, ?_, ?_,
      fun entry mem => List.mem_of_getLast? mem⟩
    · rw [SkipList.call, Iterator.SeekToLast, findEq]
      rfl
    · exact linked.before_low (List.append_nil order).symm lastEq
    · exact List.getLast?_map
  | next =>
    cases entry with
    | none => cases allowed
    | some entry =>
      obtain ⟨front, back, rfl⟩ := List.append_of_mem (here entry rfl)
      have at' : head_ :: (front ++ entry :: back).map Prod.fst =
          (head_ :: front.map Prod.fst) ++ entry.1 :: back.map Prod.fst := by
        rw [List.map_append, List.map_cons, List.cons_append]
      have sorted := linked.keys_sorted
      rw [List.map_append, List.map_cons] at sorted
      refine ⟨(list, ⟨(back.map Prod.fst).head?⟩), ?_, front ++ entry :: back, back.head?, linked,
        rfl, List.head?_map, ?_, fun next mem =>
        List.mem_append_right _ (List.mem_cons_of_mem _ (List.mem_of_mem_head? mem))⟩
      · rw [SkipList.call, Iterator.Next, Iterator.node, nodeEq]
        dsimp only [Option.map_some]
        rw [ok_bind, linked.Next at']
        rfl
      · rw [← List.head?_map, ← sorted.find_next, List.map_append, List.map_cons]
        rfl
  | prev =>
    cases entry with
    | none => cases allowed
    | some entry =>
      obtain ⟨last, findEq, lastEq⟩ := linked.FindLessThan entry.2
      have split := lower_append_upper compare_ order entry.2
      refine ⟨(list, .behindHead last), ?_, order, (lower compare_ order entry.2).getLast?, linked,
        rfl, linked.before_low split lastEq, ?_, fun prev mem => ?_⟩
      · rw [SkipList.call, Iterator.Prev, Iterator.node, nodeEq]
        dsimp only [Option.map_some]
        rw [ok_bind, linked.key entry (here entry rfl), ok_bind, findEq]
        rfl
      · rw [← List.getLast?_map, lower_keys]
        rfl
      · rw [split]
        exact List.mem_append_left _ (List.mem_of_getLast? mem)
  | valid =>
    refine ⟨(list, iter), ?_, order, entry, linked, rfl, nodeEq, rfl, here⟩
    rw [SkipList.call, Iterator.Valid, nodeEq]
    cases entry <;> rfl
  | key =>
    cases entry with
    | none => cases allowed
    | some entry =>
      refine ⟨(list, iter), ?_, order, some entry, linked, rfl, nodeEq, rfl, here⟩
      rw [SkipList.call, Iterator.key, Iterator.node, nodeEq]
      dsimp only [Option.map_some]
      rw [ok_bind, linked.key entry (here entry rfl)]
      rfl

/-- A skip list, with an iterator, answers any allowed calls as a sorted list of keys does. -/
theorem refines_keys (compare_ : Comparison Key) (any : Key) (calls : List (Call Key))
    (allowed : Simulations.Allowed (Keys.call compare_) (Keys.Allowed compare_) ⟨[], none⟩ calls) :
    ∃ last, Runs.runAll (SkipList.call compare_) (new any, .new) calls =
        .ok ((Simulations.answers (Keys.call compare_) ⟨[], none⟩ calls).1, last) ∧
      Holds compare_ last (Simulations.answers (Keys.call compare_) ⟨[], none⟩ calls).2 :=
  Simulations.runAll_answers (fun _ _ _ holds allowed => holds.call _ allowed) calls _ _
    ⟨[], none, linked_new compare_ any, rfl, rfl, rfl, fun _ mem => nomatch mem⟩ allowed

theorem refines_keys_once : ∃ last,
    Runs.runAll (SkipList.call Comparison.descending) (new 0, .new)
        [.insert 5, .insert 8, .seek 6, .key, .insert 7, .prev, .key] =
      .ok ([.done, .done, .done, .key 5, .done, .done, .key 7], last) ∧
    Holds Comparison.descending last ⟨[8, 7, 5], some 7⟩ :=
  refines_keys Comparison.descending 0
    [.insert 5, .insert 8, .seek 6, .key, .insert 7, .prev, .key]
    ⟨(fun _ mem => nomatch mem),
      show ∀ other ∈ [5], Comparison.descending.compare other 8 ≠ 0 by decide, trivial, rfl,
      show ∀ other ∈ [8, 5], Comparison.descending.compare other 7 ≠ 0 by decide, rfl, rfl, trivial⟩

end SkipList

end LevelDBLib.Navi
