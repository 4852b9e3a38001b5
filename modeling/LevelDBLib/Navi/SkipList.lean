/-
This file models the skip list of a memtable, `db/skiplist.h`, with the generator of its
heights, `util/random.h`. The nodes lie in an arena that frees none of them, so a node is
the number of its allocation, and the head of the list is the first one.

A search goes along the links of one height, and down one height where the next link goes
too far. In a list whose links at every height are the nodes that high, in the order of
their keys, it ends between the nodes that the target divides, within as many turns as the
list has nodes and heights.
-/

import Mathlib.Algebra.GroupWithZero.Nat
import LevelDBLib.KvDB.Value
import LevelDBLib.Library.Comparisons

namespace LevelDBLib.Navi

open KvDB

/-! ### Random numbers -/

structure Random where
  seed_ : Nat
deriving DecidableEq, Repr

namespace Random

/-- The modulus of the generator, which a 31-bit seed must not be. -/
def M : Nat := 2147483647

def A : Nat := 16807

def new (s : BitVec 32) : Random :=
  let seed_ := (s &&& 0x7fffffff#32).toNat
  ⟨if seed_ = 0 ∨ seed_ = 2147483647 then 1 else seed_⟩

/-- The next number, which is the new seed. -/
def Next (random : Random) : Nat × Random :=
  let product := random.seed_ * A % 2 ^ 64
  let seed_ := ((product >>> 31) + (product &&& M)) % 2 ^ 32
  let seed_ := if M < seed_ then seed_ - M else seed_
  (seed_, ⟨seed_⟩)

/-- A seed that the generator can go on from. -/
def Good (random : Random) : Prop := 0 < random.seed_ ∧ random.seed_ < M

theorem new_good (s : BitVec 32) : (new s).Good := by
  have below : (s &&& 0x7fffffff#32).toNat < 2 ^ 31 := by
    rw [BitVec.toNat_and]
    exact Nat.lt_of_le_of_lt Nat.and_le_right (by decide)
  unfold Good new M
  dsimp only
  split <;> omega

/-- The next number is the seed times `A` modulo `M`, without a division. -/
theorem Next_eq (random : Random) (good : random.Good) :
    random.Next.1 = random.seed_ * A % M ∧ random.Next.2.Good := by
  obtain ⟨positive, small⟩ := good
  have mask (number : Nat) : number &&& M = number % 2 ^ 31 := Nat.and_two_pow_sub_one_eq_mod number 31
  have prime : random.seed_ * A % M ≠ 0 := by
    unfold A M at *
    omega
  have small' : random.seed_ * A < 2147483647 * 16807 := by
    unfold A M at *
    omega
  unfold Next Good
  simp only [mask, Nat.shiftRight_eq_div_pow]
  generalize random.seed_ * A = product at prime small' ⊢
  -- `2 ^ 31` is one more than the modulus, so the high bits count as they stand
  have folded : product % M = (product / 2 ^ 31 + product % 2 ^ 31) % M := by
    conv => lhs; rw [← Nat.div_add_mod product (2 ^ 31)]
    rw [show 2 ^ 31 * (product / 2 ^ 31) = M * (product / 2 ^ 31) + product / 2 ^ 31 by
      unfold M; omega, Nat.add_assoc, Nat.mul_add_mod]
  have high : product / 2 ^ 31 < 16807 := by omega
  have low : product % 2 ^ 31 < 2 ^ 31 := Nat.mod_lt _ (by decide)
  rw [folded] at prime
  rw [Nat.mod_eq_of_lt (show product < 2 ^ 64 by omega), folded]
  generalize product / 2 ^ 31 = front, product % 2 ^ 31 = back at *
  rw [Nat.mod_eq_of_lt (show front + back < 2 ^ 32 by omega)]
  unfold M at *
  split <;> omega

end Random

/-! ### The list -/

abbrev kMaxHeight : Nat := 12

structure Node (Key : Type) where
  key : Key
  /-- The next node at every height of this one. -/
  next_ : List (Option Nat)

structure SkipList (Key : Type) where
  /-- The nodes in the arena. -/
  nodes : List (Node Key)
  max_height_ : Nat
  rnd_ : Random

namespace SkipList

variable {Key : Type}

abbrev head_ : Nat := 0

/-- An empty list, with any key in its head. -/
def new (any : Key) : SkipList Key :=
  ⟨[⟨any, List.replicate kMaxHeight none⟩], 1, .new 0xdeadbeef#32⟩

/-- The key of a node. -/
def keyOf (list : SkipList Key) (x : Nat) : Except Fault Key :=
  match list.nodes[x]? with
  | some node => .ok node.key
  | none => .error .outOfBounds

/-- The link of a node at a height, if the node is that high. -/
def link (list : SkipList Key) (x level : Nat) : Option (Option Nat) :=
  list.nodes[x]?.bind fun node => node.next_[level]?

def Next (list : SkipList Key) (x n : Nat) : Except Fault (Option Nat) :=
  match list.link x n with
  | some next => .ok next
  | none => .error .outOfBounds

def SetNext (list : SkipList Key) (node n : Nat) (x : Option Nat) : Except Fault (SkipList Key) :=
  match list.nodes[node]? with
  | some found =>
    if n < found.next_.length then
      .ok { list with nodes := list.nodes.set node { found with next_ := found.next_.set n x } }
    else .error .outOfBounds
  | none => .error .outOfBounds

/-- The next node, if a search goes on to it. -/
def further (list : SkipList Key) (goes : Key → Bool) (next : Option Nat) :
    Except Fault (Option Nat) :=
  match next with
  | none => .ok none
  | some n => do
    let key ← list.keyOf n
    .ok (if goes key then some n else none)

/-- The loop of the three searches, which goes on to the next node at a height if its key `goes`,
and stops at the last one at the lowest height. In a node that the loop has gone to, `sound` is
asserted of the key. The nodes that it goes down from are kept by their height. -/
def search (list : SkipList Key) (goes sound : Key → Bool) :
    Nat → Nat → Nat → List (Option Nat) → Except Fault (Nat × Option Nat × List (Option Nat))
  | 0, _, _, _ => .error .nonTermination
  | turns + 1, x, level, prev => do
    let key ← list.keyOf x
    if x ≠ head_ ∧ ¬ sound key then .error .assertion
    else
      let next ← list.Next x level
      match ← list.further goes next with
      | some n => list.search goes sound turns n level prev
      | none =>
        let prev := prev.set level (some x)
        if level = 0 then .ok (x, next, prev)
        else list.search goes sound turns x (level - 1) prev

/-- A search from the head, which passes each node at most once and goes down from each height. -/
def searchAll (list : SkipList Key) (goes sound : Key → Bool) :
    Except Fault (Nat × Option Nat × List (Option Nat)) :=
  list.search goes sound (list.nodes.length + kMaxHeight) head_ (list.max_height_ - 1)
    (List.replicate kMaxHeight none)

section Comparing

variable (compare_ : Comparison Key)

/-- The node at or behind the key, if there is one, and the nodes before it at all heights. -/
def FindGreaterOrEqual (list : SkipList Key) (key : Key) :
    Except Fault (Option Nat × List (Option Nat)) := do
  let (_, next, prev) ← list.searchAll (fun other => compare_.compare other key < 0) fun _ => true
  .ok (next, prev)

def FindLessThan (list : SkipList Key) (key : Key) : Except Fault Nat := do
  let (x, _, _) ← list.searchAll (fun other => ¬ compare_.compare other key ≥ 0)
    fun other => compare_.compare other key < 0
  .ok x

end Comparing

def FindLast (list : SkipList Key) : Except Fault Nat := do
  let (x, _, _) ← list.searchAll (fun _ => true) fun _ => true
  .ok x

/-- The loop of `RandomHeight`, with the heights left above. -/
def randomHeight : Nat → Nat → Random → Nat × Random
  | 0, height, rnd_ => (height, rnd_)
  | left + 1, height, rnd_ =>
    let (number, rnd_) := rnd_.Next
    if number % 4 = 0 then randomHeight left (height + 1) rnd_ else (height, rnd_)

def RandomHeight (list : SkipList Key) : Nat × SkipList Key :=
  let (height, rnd_) := randomHeight (kMaxHeight - 1) 1 list.rnd_
  (height, { list with rnd_ := rnd_ })

/-- The new node `x` is linked behind a previous node at one height. -/
def linkAt (x : Nat) (prev : List (Option Nat)) (list : SkipList Key) (i : Nat) :
    Except Fault (SkipList Key) :=
  match prev[i]?.join with
  | none => .error .uninitialised
  | some before => do
    let next ← list.Next before i
    let list ← list.SetNext x i next
    list.SetNext before i (some x)

/-- `x != NULL && Equal(key, x->key)`. -/
def holds (compare_ : Comparison Key) (list : SkipList Key) (key : Key) (x : Option Nat) :
    Except Fault Bool :=
  match x with
  | none => .ok false
  | some x => do
    let other ← list.keyOf x
    .ok (decide (compare_.compare key other = 0))

/-- The nodes before a new one, which at heights that the list did not have is the head. -/
def raised (list : SkipList Key) (height : Nat) (prev : List (Option Nat)) : List (Option Nat) :=
  (List.range kMaxHeight).map fun i =>
    if list.max_height_ ≤ i ∧ i < height then some head_ else prev[i]?.join

/-- The list with a new node, not yet linked. -/
def allocated (list : SkipList Key) (key : Key) (height : Nat) : SkipList Key :=
  { list with
    nodes := list.nodes ++ [⟨key, List.replicate height none⟩]
    max_height_ := max list.max_height_ height }

/-- `Insert` behind the choice of the height. -/
def insertNode (list : SkipList Key) (key : Key) (height : Nat) (prev : List (Option Nat)) :
    Except Fault (SkipList Key) :=
  let prev := list.raised height prev
  let x := list.nodes.length
  (List.range height).foldlM (fun list i => linkAt x prev list i) (list.allocated key height)

/-- `Insert`. -/
def Insert (compare_ : Comparison Key) (list : SkipList Key) (key : Key) :
    Except Fault (SkipList Key) := do
  let (x, prev) ← list.FindGreaterOrEqual compare_ key
  if ← list.holds compare_ key x then .error .assertion
  else
    let (height, list) := list.RandomHeight
    list.insertNode key height prev

def Contains (compare_ : Comparison Key) (list : SkipList Key) (key : Key) : Except Fault Bool := do
  let (x, _) ← list.FindGreaterOrEqual compare_ key
  list.holds compare_ key x

/-! ### Searches -/

def height (list : SkipList Key) (x : Nat) : Nat :=
  (list.nodes[x]?.map fun node => node.next_.length).getD 0

def reaches (list : SkipList Key) (level x : Nat) : Bool := level < list.height x

/-- A list whose nodes are in the order of their keys, each linked at every height to the next node
that high. -/
structure Linked (compare_ : Comparison Key) (list : SkipList Key) (order : List (Nat × Key)) :
    Prop where
  key : ∀ entry ∈ order, list.keyOf entry.1 = .ok entry.2
  positive : ∀ entry ∈ order, 0 < entry.1
  all : order.length + 1 = list.nodes.length
  head : list.height head_ = kMaxHeight
  low : ∀ entry ∈ order, 0 < list.height entry.1
  high : ∀ entry ∈ order, list.height entry.1 ≤ list.max_height_
  tall : 0 < list.max_height_ ∧ list.max_height_ ≤ kMaxHeight
  sorted : (compare_.along Prod.snd).Sorted order
  link : ∀ level front x back, head_ :: order.map Prod.fst = front ++ x :: back →
    list.reaches level x = true → list.link x level = some (back.filter (list.reaches level)).head?

/-- The last of the nodes before a place that is high enough. -/
def before (list : SkipList Key) (low : List Nat) (level : Nat) : Option Nat :=
  ((head_ :: low).filter (list.reaches level)).getLast?

theorem Next_of_link {list : SkipList Key} {x n : Nat} {next : Option Nat}
    (link : list.link x n = some next) : list.Next x n = .ok next := by
  rw [Next, link]

variable {compare_ : Comparison Key} {list : SkipList Key} {order : List (Nat × Key)}

/-- The nodes before a place are the head and nodes of the list. -/
theorem Linked.passed_key (linked : list.Linked compare_ order) {sound : Key → Bool}
    {low high : List (Nat × Key)} (split : order = low ++ high)
    (passed : ∀ entry ∈ low, sound entry.2 = true) {x : Nat}
    (here : x ∈ head_ :: low.map Prod.fst) :
    ∃ key, list.keyOf x = .ok key ∧ ¬ (x ≠ head_ ∧ ¬ sound key = true) := by
  rcases List.mem_cons.mp here with rfl | mem
  · obtain ⟨node, found⟩ : ∃ node, list.nodes[head_]? = some node :=
      ⟨_, List.getElem?_eq_getElem (Nat.lt_of_lt_of_eq (Nat.succ_pos _) linked.all)⟩
    exact ⟨node.key, by rw [keyOf, found], fun wrong => wrong.1 rfl⟩
  · obtain ⟨entry, inLow, rfl⟩ := List.mem_map.mp mem
    have listed : entry ∈ order := split ▸ List.mem_append_left _ inLow
    exact ⟨entry.2, linked.key entry listed, fun wrong => wrong.2 (passed entry inLow)⟩

/-- A search goes on to a node before its place. -/
theorem Linked.further_low (linked : list.Linked compare_ order) {goes : Key → Bool}
    {low high : List (Nat × Key)} (split : order = low ++ high)
    (passed : ∀ entry ∈ low, goes entry.2 = true) {n : Nat} (mem : n ∈ low.map Prod.fst) :
    list.further goes (some n) = .ok (some n) := by
  obtain ⟨entry, inLow, rfl⟩ := List.mem_map.mp mem
  rw [further, linked.key entry (split ▸ List.mem_append_left _ inLow), ok_bind,
    if_pos (passed entry inLow)]

/-- A search does not go on to a node behind its place. -/
theorem Linked.further_high (linked : list.Linked compare_ order) {goes : Key → Bool}
    {low high : List (Nat × Key)} (split : order = low ++ high)
    (stopped : ∀ entry ∈ high, goes entry.2 = false) {next : Option Nat}
    (mem : ∀ n ∈ next, n ∈ high.map Prod.fst) : list.further goes next = .ok none := by
  cases next with
  | none => rfl
  | some n =>
    obtain ⟨entry, inHigh, rfl⟩ := List.mem_map.mp (mem n rfl)
    rw [further, linked.key entry (split ▸ List.mem_append_right _ inHigh), ok_bind,
      if_neg (by rw [stopped entry inHigh]; exact Bool.false_ne_true)]

theorem mem_of_behind {first x n : Nat} {rest front back : List Nat}
    (here : first :: rest = front ++ x :: back) (mem : n ∈ back) : n ∈ rest := by
  cases front with
  | nil =>
    obtain ⟨-, rfl⟩ := List.cons.inj here
    exact mem
  | cons _ front =>
    obtain ⟨-, rfl⟩ := List.cons.inj here
    exact List.mem_append_right _ (List.mem_cons_of_mem _ mem)

/-- A search ends between the nodes whose keys it goes to and the others. -/
theorem Linked.search (linked : list.Linked compare_ order) {goes sound : Key → Bool}
    {low high : List (Nat × Key)} (split : order = low ++ high)
    (passed : ∀ entry ∈ low, goes entry.2 = true ∧ sound entry.2 = true)
    (stopped : ∀ entry ∈ high, goes entry.2 = false) (turns level x : Nat) (front back : List Nat)
    (prev : List (Option Nat)) (here : head_ :: low.map Prod.fst = front ++ x :: back)
    (tall : list.reaches level x = true) (enough : back.length + level < turns)
    (fits : level < prev.length) :
    ∃ last prev', list.search goes sound turns x level prev =
        .ok (last, (high.map Prod.fst).head?, prev') ∧
      list.before (low.map Prod.fst) 0 = some last ∧ prev'.length = prev.length ∧
      (∀ i ≤ level, prev'[i]?.join = list.before (low.map Prod.fst) i) ∧
      ∀ i, level < i → prev'[i]? = prev[i]? := by
  induction turns generalizing level x front back prev with
  | zero => exact absurd enough (Nat.not_lt_zero _)
  | succ turns hypothesis =>
    have mem : x ∈ head_ :: low.map Prod.fst := here ▸ List.mem_append_right _ List.mem_cons_self
    obtain ⟨key, keyEq, quiet⟩ := linked.passed_key split (fun entry mem => (passed entry mem).2) mem
    have whole : head_ :: order.map Prod.fst = front ++ x :: (back ++ high.map Prod.fst) := by
      rw [split, List.map_append, ← List.cons_append, here, List.append_assoc, List.cons_append]
    have link := linked.link level front x _ whole tall
    rw [List.filter_append] at link
    rw [SkipList.search, keyEq, ok_bind, if_neg quiet]
    cases nearer : back.filter (list.reaches level) with
    | cons n others =>
      -- the next node is still before the place
      obtain ⟨skipped, rest, backEq, -, high', -⟩ := List.filter_eq_cons_iff.mp nearer
      have again : head_ :: low.map Prod.fst = (front ++ x :: skipped) ++ n :: rest := by
        rw [here, backEq, List.append_assoc, List.cons_append]
      have listed : n ∈ low.map Prod.fst :=
        mem_of_behind here (backEq ▸ List.mem_append_right _ List.mem_cons_self)
      rw [nearer, List.cons_append, List.head?_cons] at link
      rw [Next_of_link link, ok_bind,
        linked.further_low split (fun entry mem => (passed entry mem).1) listed, ok_bind]
      refine hypothesis level n _ rest prev again high' ?_ fits
      rw [backEq, List.length_append, List.length_cons] at enough
      omega
    | nil =>
      rw [nearer, List.nil_append] at link
      have behind : ∀ n ∈ ((high.map Prod.fst).filter (list.reaches level)).head?,
          n ∈ high.map Prod.fst :=
        fun n first => (List.mem_filter.mp (List.mem_of_mem_head? first)).1
      have last : list.before (low.map Prod.fst) level = some x := by
        rw [before, here, List.filter_append, List.filter_cons_of_pos tall, nearer,
          List.getLast?_append, List.getLast?_singleton, Option.some_or]
      have kept : (prev.set level (some x))[level]?.join = some x := by
        rw [List.getElem?_set_self fits]
        rfl
      rw [Next_of_link link, ok_bind, linked.further_high split stopped behind, ok_bind]
      by_cases bottom : level = 0
      · subst bottom
        have all : (high.map Prod.fst).filter (list.reaches 0) = high.map Prod.fst :=
          List.filter_eq_self.mpr fun n mem => by
            obtain ⟨entry, inHigh, rfl⟩ := List.mem_map.mp mem
            exact decide_eq_true (linked.low entry (split ▸ List.mem_append_right _ inHigh))
        rw [all]
        refine ⟨x, prev.set 0 (some x), rfl, last, List.length_set, fun i bound => ?_,
          fun i above => List.getElem?_set_ne (Nat.ne_of_lt above)⟩
        obtain rfl := Nat.le_zero.mp bound
        exact kept.trans last.symm
      · have lower : list.reaches (level - 1) x = true :=
          decide_eq_true (Nat.lt_of_le_of_lt (Nat.sub_le _ _) (of_decide_eq_true tall))
        obtain ⟨final, prev', searchEq, lastEq, length, found, rest⟩ := hypothesis (level - 1) x front
          back (prev.set level (some x)) here lower (by omega) (by rw [List.length_set]; omega)
        refine ⟨final, prev', (if_neg bottom).trans searchEq, lastEq,
          length.trans List.length_set, fun i bound => ?_, fun i above => ?_⟩
        · by_cases same : i = level
          · rw [same, rest level (by omega), kept, last]
          · exact found i (by omega)
        · rw [rest i (by omega), List.getElem?_set_ne (Nat.ne_of_lt above)]

/-- A search from the head. -/
theorem Linked.searchAll (linked : list.Linked compare_ order) (goes sound : Key → Bool)
    {low high : List (Nat × Key)} (split : order = low ++ high)
    (passed : ∀ entry ∈ low, goes entry.2 = true ∧ sound entry.2 = true)
    (stopped : ∀ entry ∈ high, goes entry.2 = false) :
    ∃ last prev, list.searchAll goes sound = .ok (last, (high.map Prod.fst).head?, prev) ∧
      list.before (low.map Prod.fst) 0 = some last ∧
      ∀ i < list.max_height_, prev[i]?.join = list.before (low.map Prod.fst) i := by
  have tall := linked.tall
  have all := linked.all
  have length := congrArg List.length split
  have top : list.reaches (list.max_height_ - 1) head_ = true := by
    refine decide_eq_true ?_
    rw [linked.head]
    omega
  rw [List.length_append] at length
  obtain ⟨last, prev, searchEq, lastEq, -, found, -⟩ := linked.search split passed stopped
    (list.nodes.length + kMaxHeight) (list.max_height_ - 1) head_ [] (low.map Prod.fst)
    (List.replicate kMaxHeight none) rfl top (by rw [List.length_map]; omega)
    (by rw [List.length_replicate]; omega)
  exact ⟨last, prev, searchEq, lastEq, fun i bound => found i (by omega)⟩

/-! ### The places of keys -/

/-- The entries below a key. -/
def lower (compare_ : Comparison Key) (order : List (Nat × Key)) (key : Key) : List (Nat × Key) :=
  (compare_.along Prod.snd).below (head_, key) order

/-- The entries from a key on. -/
def upper (compare_ : Comparison Key) (order : List (Nat × Key)) (key : Key) : List (Nat × Key) :=
  (compare_.along Prod.snd).above (head_, key) order

theorem lower_append_upper (compare_ : Comparison Key) (order : List (Nat × Key)) (key : Key) :
    order = lower compare_ order key ++ upper compare_ order key :=
  ((compare_.along Prod.snd).below_append_above ..).symm

theorem lt_of_mem_lower {key : Key} {entry : Nat × Key} (mem : entry ∈ lower compare_ order key) :
    compare_.compare entry.2 key < 0 :=
  (compare_.along Prod.snd).lt_of_mem_below mem

theorem Linked.le_of_mem_upper (linked : list.Linked compare_ order) {key : Key}
    {entry : Nat × Key} (mem : entry ∈ upper compare_ order key) :
    0 ≤ compare_.compare entry.2 key :=
  linked.sorted.le_of_mem_above mem

theorem Linked.FindGreaterOrEqual (linked : list.Linked compare_ order) (key : Key) :
    ∃ prev, list.FindGreaterOrEqual compare_ key =
        .ok (((upper compare_ order key).map Prod.fst).head?, prev) ∧
      ∀ i < list.max_height_,
        prev[i]?.join = list.before ((lower compare_ order key).map Prod.fst) i := by
  obtain ⟨last, prev, searchEq, -, found⟩ := linked.searchAll
    (fun other => compare_.compare other key < 0) (fun _ => true)
    (lower_append_upper compare_ order key) (fun entry mem => ⟨decide_eq_true (lt_of_mem_lower mem), rfl⟩)
    fun entry mem => decide_eq_false (Int.not_lt.mpr (linked.le_of_mem_upper mem))
  refine ⟨prev, ?_, found⟩
  rw [SkipList.FindGreaterOrEqual, searchEq]
  rfl

theorem Linked.FindLessThan (linked : list.Linked compare_ order) (key : Key) :
    ∃ last, list.FindLessThan compare_ key = .ok last ∧
      list.before ((lower compare_ order key).map Prod.fst) 0 = some last := by
  obtain ⟨last, prev, searchEq, lastEq, -⟩ := linked.searchAll
    (fun other => ¬ compare_.compare other key ≥ 0) (fun other => compare_.compare other key < 0)
    (lower_append_upper compare_ order key)
    (fun entry mem => ⟨decide_eq_true (Int.not_le.mpr (lt_of_mem_lower mem)),
      decide_eq_true (lt_of_mem_lower mem)⟩)
    fun entry mem => decide_eq_false (not_not_intro (linked.le_of_mem_upper mem))
  refine ⟨last, ?_, lastEq⟩
  rw [SkipList.FindLessThan, searchEq]
  rfl

theorem Linked.FindLast (linked : list.Linked compare_ order) :
    ∃ last, list.FindLast = .ok last ∧ list.before (order.map Prod.fst) 0 = some last := by
  obtain ⟨last, prev, searchEq, lastEq, -⟩ := linked.searchAll (fun _ => true)
    (fun _ => true) (List.append_nil order).symm (fun _ _ => ⟨rfl, rfl⟩)
    fun entry mem => nomatch mem
  refine ⟨last, ?_, lastEq⟩
  rw [SkipList.FindLast, searchEq]
  rfl

end SkipList

end LevelDBLib.Navi
