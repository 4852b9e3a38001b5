/-
This file reads the shape of the tree off the heap, node by node and without the
tree of names in between: all leaves are equally deep, the keys of a node are in
order and between the keys around its subtree, the counts are in bounds, every
pointer leads to a node whose parent pointer leads back.

In the B+ tree the key in front of a subtree is the first key of its first leaf.
-/

import LevelDBLib.KvDB.IndexRuns

namespace LevelDBLib.KvDB

open Ranges BranchTrees Runs IndexTree

variable {Key : Type} {bPlus : Bool} [LT Key]

/-! ### Balanced heaps -/

def BT_Node_t.keys (node : BT_Node_t Key) : List Key := node.vecKey.map BT_Key_t.key

/-- What is asked of a single node. -/
structure NodeOk (bPlus : Bool) (node : BT_Node_t Key) (bLeaf : Bool) (least most : Nat)
    (parent : Option Nat) (low high : Option Key) : Prop where
  leaf : node.bLeaf = bLeaf
  parent : node.pParent = parent
  enough : least ≤ node.vecKey.length
  bounded : node.vecKey.length ≤ most
  sorted : node.keys.Pairwise (· < ·)
  low : ∀ bound ∈ low, if bPlus && bLeaf then node.keys.head? = some bound
    else ∀ key ∈ node.keys, bound < key
  high : ∀ bound ∈ high, ∀ key ∈ node.keys, key < bound

/-- The subtree at an address: its leaves are `depth` levels down, its topmost node holds at least
`least` keys and the others at least `half`, and a node with `n` keys has a subtree at each of the
places `0` to `n`, between the key in front of the place and the key behind it. -/
def Balanced (bPlus : Bool) (heap : Heap Key) (half most : Nat) :
    Nat → Nat → Option Nat → Option Key → Option Key → Nat → Prop
  | 0, least, parent, low, high, address =>
    ∃ node, heap address = some node ∧ NodeOk bPlus node true least most parent low high ∧
      ∀ place, node.subTreeAt place = none
  | depth + 1, least, parent, low, high, address =>
    ∃ node, heap address = some node ∧ NodeOk bPlus node false least most parent low high ∧
      ∀ place ≤ node.vecKey.length, ∃ child, node.subTreeAt place = some child ∧
        Balanced bPlus heap half most depth half (some address)
          ((node.keys.take place).getLast?.or low) ((node.keys.drop place).head?.or high) child

omit [LT Key] in
theorem keys_nodeOf (offset : Nat) (parent : Option Nat) {height : Nat}
    (tree : Tree (Entry Key) height) :
    (nodeOf offset parent tree).keys = tree.keys.map Prod.fst := by
  rw [← entries_nodeOf offset parent tree, List.map_map]
  rfl

section Trees

variable {height : Nat} {heap : Heap Key} {half most : Nat}

/-- The topmost node of a tree between two keys. -/
theorem nodeOk_of_tree (tree : Tree (Entry Key) height) (least : Nat) (parent : Option Nat)
    (low : Option (Entry Key)) (high : Option Key)
    (sorted : Sorted Prod.fst (tree.listing bPlus))
    (separated : bPlus = true → tree.Separated low)
    (counts : least ≤ tree.keys.length ∧ tree.keys.length ≤ most)
    (above : bPlus = false → ∀ bound ∈ low, ∀ entry ∈ tree.listing bPlus, bound.1 < entry.1)
    (below : ∀ bound ∈ high, ∀ entry ∈ tree.listing bPlus, entry.1 < bound) :
    NodeOk bPlus (nodeOf (unsaved tree.id) parent tree) (decide (height = 0)) least most parent
      (low.map Prod.fst) high := by
  have listed := tree.keys_sublist bPlus fun kept => ⟨low, separated kept⟩
  have keys := keys_nodeOf (unsaved tree.id) parent tree
  refine ⟨?_, pParent_nodeOf .., ?_, ?_, ?_, ?_, ?_⟩
  · cases height with
    | zero => rfl
    | succ height => rfl
  · rw [length_nodeOf]
    exact counts.1
  · rw [length_nodeOf]
    exact counts.2
  · rw [keys, List.pairwise_map]
    exact sorted.sublist listed
  · intro bound member
    obtain ⟨entry, rfl, rfl⟩ := Option.map_eq_some_iff.mp member
    rw [keys]
    cases bPlus with
    | false =>
      rw [Bool.false_and, if_neg Bool.false_ne_true]
      intro key inside
      obtain ⟨other, listedOther, rfl⟩ := List.mem_map.mp inside
      exact above rfl entry rfl other (listed.subset listedOther)
    | true =>
      cases height with
      | zero =>
        rw [Bool.true_and, if_pos (by simp), List.head?_map]
        exact congrArg (Option.map Prod.fst) (separated rfl entry rfl)
      | succ height =>
        rw [Bool.true_and, if_neg (by simp)]
        intro key inside
        obtain ⟨other, listedOther, rfl⟩ := List.mem_map.mp inside
        obtain ⟨chained, last⟩ := separated rfl
        have inOrder := sorted.sublist (keys_sublist_of_chained _ _ _ chained last)
        exact (List.pairwise_cons.mp inOrder).1 other listedOther
  · intro bound member key inside
    rw [keys] at inside
    obtain ⟨entry, listedEntry, rfl⟩ := List.mem_map.mp inside
    exact below bound member entry (listed.subset listedEntry)

theorem balanced_of_tree [IsStrictOrder Key (· < ·)] (tree : Tree (Entry Key) height) (least : Nat) (parent : Option Nat)
    (low : Option (Entry Key)) (high : Option Key) (held : Holds unsaved heap parent tree)
    (sorted : Sorted Prod.fst (tree.listing bPlus))
    (separated : bPlus = true → tree.Separated low)
    (counts : least ≤ tree.keys.length ∧ tree.keys.length ≤ most)
    (filled : tree.ChildrenFilled half most)
    (above : bPlus = false → ∀ bound ∈ low, ∀ entry ∈ tree.listing bPlus, bound.1 < entry.1)
    (below : ∀ bound ∈ high, ∀ entry ∈ tree.listing bPlus, entry.1 < bound) :
    Balanced bPlus heap half most height least parent (low.map Prod.fst) high tree.id := by
  induction height generalizing least parent low high with
  | zero =>
    exact ⟨_, held, nodeOk_of_tree tree least parent low high sorted separated counts above below,
      subTreeAt_leaf _ _ tree⟩
  | succ height inductionHypothesis =>
    refine ⟨nodeOf (unsaved tree.id) parent tree, held.1,
      nodeOk_of_tree tree least parent low high sorted separated counts above below,
      fun place inside => ?_⟩
    rw [length_nodeOf] at inside
    obtain ⟨frame, hole, rfl, beforeEq, afterEq⟩ := exists_frame tree (tree.keys.take place)
      (tree.keys.drop place) (List.take_append_drop place _).symm
    have length : frame.before.length = place := by
      rw [← List.length_map (f := Prod.snd), beforeEq, List.length_take_of_le inside]
    have member : hole ∈ Branch.children (frame.tree hole) := by
      show hole ∈ (frame.fill hole).children
      rw [frame.children_fill]
      exact List.mem_append_right _ List.mem_cons_self
    have listing := listing_fill bPlus frame hole
    have listed : ∀ entry ∈ hole.listing bPlus, entry ∈ (frame.tree hole).listing bPlus :=
      fun entry inside => by
        rw [listing]
        exact List.mem_append_left _ (List.mem_append_right _ inside)
    have parts := sorted
    rw [listing, Sorted, List.pairwise_append] at parts
    obtain ⟨frontPart, -, backPart⟩ := parts
    obtain ⟨-, holeSorted, frontHole⟩ := List.pairwise_append.mp frontPart
    obtain ⟨holeCounts, holeFilled⟩ := (hole.filled_iff half most).mp (filled hole member)
    have keys := keys_nodeOf (unsaved (frame.tree hole).id) parent (frame.tree hole)
    have lowEq : (((frame.tree hole).keys.take place).getLast?.or low).map Prod.fst =
        ((nodeOf (unsaved (frame.tree hole).id) parent (frame.tree hole)).keys.take place).getLast?.or
          (low.map Prod.fst) := by
      rw [keys, ← List.map_take, List.getLast?_map, Option.map_or]
    refine ⟨hole.id, ?_, ?_⟩
    · rw [← length]
      exact subTreeAt_fill ..
    · rw [← lowEq]
      refine inductionHypothesis hole half _ _ _ (held.2 hole member) holeSorted ?_ holeCounts
        holeFilled ?_ ?_
      · intro kept
        have inside := ((separated_fill frame hole low).mp (separated kept)).2
        rw [lastOf_eq, beforeEq] at inside
        exact inside
      · intro kept bound boundIn entry inside
        rcases Option.or_eq_some_iff.mp boundIn with lastIn | ⟨-, lowIn⟩
        · have isBefore : bound ∈ frame.before.map Prod.snd := beforeEq ▸ List.mem_of_mem_getLast? lastIn
          refine frontHole bound ?_ entry inside
          subst kept
          exact before_front isBefore
        · exact above kept bound lowIn entry (listed entry inside)
      · intro bound boundIn entry inside
        rw [keys, ← List.map_drop, List.head?_map, ← afterEq] at boundIn
        rcases Option.or_eq_some_iff.mp boundIn with nextIn | ⟨-, highIn⟩
        · obtain ⟨next, behind, rfl⟩ := Option.map_eq_some_iff.mp nextIn
          obtain ⟨rest, first⟩ := back_first (fun kept => ⟨low, separated kept⟩) behind
          refine backPart entry (List.mem_append_right _ inside) next ?_
          rw [first]
          exact List.mem_cons_self
        · exact below bound highIn entry (listed entry inside)

end Trees

/-! ### Leaves -/

/-- A leaf below an address. -/
inductive LeafOf (heap : Heap Key) : Nat → Nat → Prop
  | here {address : Nat} {node : BT_Node_t Key} (found : heap address = some node)
      (leaf : node.bLeaf = true) : LeafOf heap address address
  | deeper {address place child leaf : Nat} {node : BT_Node_t Key}
      (found : heap address = some node) (branch : node.bLeaf = false)
      (inside : place ≤ node.vecKey.length) (pointer : node.subTreeAt place = some child)
      (under : LeafOf heap child leaf) : LeafOf heap address leaf

namespace SMDIndexBp

variable [DecidableLT Key]

/-- The way of `SMDIndexBp::searchFromFile` down to a leaf, on the nodes in memory: a key that is
level with a separator goes to the right of it. -/
def descend (index : SMDIndexBp Key) (key : Key) : Nat → Option Nat → Except Fault (Option Nat)
  | 0, _ => .error .nonTermination
  | calls + 1, pNode => do
    let (address, node) ← index.deref pNode
    let first := lowerBound BT_Key_t.key node.vecKey key
    let second := upperBound BT_Key_t.key node.vecKey key
    if node.bLeaf then .ok (some address)
    else if second - first = 1 then descend index key calls (node.subTreeAt second)
    else if first = second then descend index key calls (node.subTreeAt first)
    else .ok none

variable {height : Nat} {index : SMDIndexBp Key} {key : Key}

theorem descend_leaf (tree : Tree (Entry Key) 0) {parent : Option Nat}
    (held : Holds unsaved index.heap parent tree) (calls : Nat) :
    descend index key (calls + 1) (some tree.id) = .ok (some tree.id) := by
  rw [descend, deref_some ((holds_iff tree).mp held).1, ok_bind]
  exact if_pos rfl

variable [IsStrictOrder Key (· < ·)]

/-- The descent goes to the subtree that has an entry level with the key. -/
theorem descend_branch {frame : Frame (Entry Key) (Tree (Entry Key) height)}
    {hole : Tree (Entry Key) height} {parent : Option Nat} {low : Option (Entry Key)}
    (held : Holds unsaved index.heap parent (frame.tree hole))
    (sorted : Sorted Prod.fst ((frame.tree hole).listing true))
    (separated : (frame.tree hole).Separated low)
    (single : Single Prod.fst ((frame.tree hole).listing true) key) {entry : Entry Key}
    (member : entry ∈ hole.listing true) (same : entry.1 = key) (calls : Nat) :
    descend index key (calls + 1) (some (frame.tree hole).id) =
      descend index key calls (some hole.id) := by
  have listed := (frame.tree hole).keys_sublist true fun _ => ⟨low, separated⟩
  obtain ⟨behindKeys, aboveKeys⟩ := keys_around sorted separated member
  rw [same] at behindKeys aboveKeys
  obtain ⟨before, level, after, split⟩ := exists_split Prod.fst (frame.tree hole).keys key
    (sorted.sublist listed)
  obtain ⟨-, atMost⟩ := split.findLevel_eq (sorted.sublist listed) fun one oneIn two twoIn =>
    single one (listed.subset oneIn) two (listed.subset twoIn)
  have place : upperBound Prod.fst (frame.tree hole).keys key = frame.before.length := by
    have taken := keys_take frame hole
    have bound := upperBound_of_around (taken ▸ behindKeys) aboveKeys
    rw [List.take_append_drop, taken, List.length_map] at bound
    exact bound
  have first := split.lowerBound_eq
  have second := split.upperBound_eq
  rw [place] at second
  rw [descend, deref_some ((holds_iff _).mp held).1, ok_bind]
  simp only [lowerBound_nodeOf, upperBound_nodeOf, first, place]
  have branch : (nodeOf (unsaved (frame.tree hole).id) parent (frame.tree hole)).bLeaf = false := rfl
  rw [if_neg (by rw [branch]; exact Bool.false_ne_true), subTreeAt_fill]
  by_cases one : frame.before.length - before.length = 1
  · exact if_pos one
  · have same : before.length = frame.before.length := by omega
    rw [if_neg one, if_pos same, same, subTreeAt_fill]

omit [DecidableLT Key] [IsStrictOrder Key (· < ·)] in
/-- What a branch holds, its subtrees hold. -/
theorem hole_of_branch {frame : Frame (Entry Key) (Tree (Entry Key) height)}
    {hole : Tree (Entry Key) height} {parent : Option Nat} {low : Option (Entry Key)}
    (held : Holds unsaved index.heap parent (frame.tree hole))
    (sorted : Sorted Prod.fst ((frame.tree hole).listing true))
    (separated : (frame.tree hole).Separated low) :
    Holds unsaved index.heap (some (frame.tree hole).id) hole ∧
      Sorted Prod.fst (hole.listing true) ∧ (∃ low, hole.Separated low) ∧
      ∀ entry ∈ hole.listing true, entry ∈ (frame.tree hole).listing true := by
  have listed := frame.hole_listed true hole
  exact ⟨holds_hole held, sorted.sublist listed,
    ⟨_, ((separated_fill frame hole low).mp separated).2⟩, fun entry => (listed.subset ·)⟩

/-- The descent for the key of an entry ends in the leaf that holds the entry. -/
theorem descend_reaches (tree : Tree (Entry Key) height) (parent : Option Nat)
    (low : Option (Entry Key)) (held : Holds unsaved index.heap parent tree)
    (sorted : Sorted Prod.fst (tree.listing true)) (separated : tree.Separated low)
    {entry : Entry Key} (single : Single Prod.fst (tree.listing true) entry.1)
    (member : entry ∈ tree.listing true) (calls : Nat) (enough : height < calls) :
    ∃ leaf node, descend index entry.1 calls (some tree.id) = .ok (some leaf) ∧
      LeafOf index.heap tree.id leaf ∧ index.heap leaf = some node ∧
      leafKey entry ∈ node.vecKey := by
  induction height generalizing parent low calls with
  | zero =>
    obtain ⟨calls, rfl⟩ := Nat.exists_eq_add_of_le' enough
    exact ⟨tree.id, _, descend_leaf tree held calls, .here held rfl, held, List.mem_map_of_mem member⟩
  | succ height inductionHypothesis =>
    obtain ⟨calls, rfl⟩ := Nat.exists_eq_add_of_le' (Nat.succ_le_of_lt (Nat.zero_lt_of_lt enough))
    obtain ⟨hole, child, inside⟩ := mem_listing_copied member
    obtain ⟨frame, rfl⟩ := frame_of_child child
    obtain ⟨holeHeld, holeSorted, ⟨holeLow, holeSeparated⟩, listed⟩ :=
      hole_of_branch held sorted separated
    obtain ⟨leaf, node, reached, leafOf, found, keyIn⟩ := inductionHypothesis hole _ holeLow holeHeld
      holeSorted holeSeparated
      (fun one oneIn two twoIn => single one (listed one oneIn) two (listed two twoIn)) inside calls
      (Nat.lt_of_succ_lt_succ enough)
    refine ⟨leaf, node, ?_, .deeper held.1 rfl ?_ (subTreeAt_fill ..) leafOf, found, keyIn⟩
    · rw [descend_branch held sorted separated single inside rfl, reached]
    · rw [length_nodeOf, keys_fill, Frame.count]
      exact Nat.le_add_right _ _

/-- Every leaf that holds a key is the one where the descent for the key ends. -/
theorem descend_unique (tree : Tree (Entry Key) height) (parent : Option Nat)
    (low : Option (Entry Key)) (held : Holds unsaved index.heap parent tree)
    (sorted : Sorted Prod.fst (tree.listing true)) (separated : tree.Separated low)
    (single : Single Prod.fst (tree.listing true) key) {leaf : Nat} {node : BT_Node_t Key}
    (leafOf : LeafOf index.heap tree.id leaf) (found : index.heap leaf = some node)
    (keyIn : key ∈ node.keys) (calls : Nat) (enough : height < calls) :
    (∃ entry ∈ tree.listing true, entry.1 = key) ∧
      descend index key calls (some tree.id) = .ok (some leaf) := by
  have here := ((holds_iff tree).mp held).1
  induction height generalizing parent low calls with
  | zero =>
    obtain ⟨calls, rfl⟩ := Nat.exists_eq_add_of_le' enough
    cases leafOf with
    | here _ _ =>
      rw [here] at found
      rw [← Option.some.inj found, keys_nodeOf] at keyIn
      obtain ⟨entry, inside, same⟩ := List.mem_map.mp keyIn
      exact ⟨⟨entry, inside, same⟩, descend_leaf tree held calls⟩
    | deeper topFound branch _ _ _ =>
      rw [here] at topFound
      rw [← Option.some.inj topFound] at branch
      cases branch
  | succ height inductionHypothesis =>
    obtain ⟨calls, rfl⟩ := Nat.exists_eq_add_of_le' (Nat.succ_le_of_lt (Nat.zero_lt_of_lt enough))
    cases leafOf with
    | here topFound isLeaf =>
      rw [here] at topFound
      rw [← Option.some.inj topFound] at isLeaf
      cases isLeaf
    | @deeper _ place child _ top topFound branch inside pointer under =>
      rw [here] at topFound
      rw [← Option.some.inj topFound] at inside pointer
      rw [length_nodeOf] at inside
      obtain ⟨frame, hole, rfl, beforeEq, -⟩ := exists_frame tree (tree.keys.take place)
        (tree.keys.drop place) (List.take_append_drop place _).symm
      have length : frame.before.length = place := by
        rw [← List.length_map (f := Prod.snd), beforeEq, List.length_take_of_le inside]
      rw [← length, subTreeAt_fill] at pointer
      obtain rfl := Option.some.inj pointer
      obtain ⟨holeHeld, holeSorted, ⟨holeLow, holeSeparated⟩, listed⟩ :=
        hole_of_branch held sorted separated
      obtain ⟨⟨entry, entryIn, same⟩, reached⟩ := inductionHypothesis hole _ holeLow holeHeld holeSorted
        holeSeparated
        (fun one oneIn two twoIn => single one (listed one oneIn) two (listed two twoIn)) under calls
        (Nat.lt_of_succ_lt_succ enough) ((holds_iff hole).mp holeHeld).1
      refine ⟨⟨entry, listed entry entryIn, same⟩, ?_⟩
      rw [descend_branch held sorted separated single entryIn same, reached]

end SMDIndexBp

/-! ### The shape after any insertions -/

section Runs

variable [DecidableLT Key] [IsStrictOrder Key (· < ·)]

omit [DecidableLT Key] in
/-- The tree that an index holds is balanced. -/
theorem balanced_of_holding {index : IndexTree bPlus Key} {root : Rooted (Entry Key)}
    (holding : Holding index root) :
    Balanced bPlus index.heap (index.m_nMaxKey / 2) index.m_nMaxKey root.height 1 none none none
      root.tree.id :=
  balanced_of_tree root.tree 1 none none none holding.represents.held holding.sorted
    holding.separated holding.filled.1 holding.filled.2 (fun _ _ member => by cases member)
    (fun _ member => by cases member)

/-- The shape of the B-tree: after any insertions it is balanced, every node but the root is at
least half full, and no search for a parent's pointer has failed. -/
theorem SMDIndex.balanced (start : SMDIndex Key) (constructed : Constructed start)
    (atLeast : 2 ≤ start.m_nMaxKey) (calls : List (Key × Nat)) :
    ∃ results index, runAll step start calls = .ok (results, index) ∧
      (∀ result ∈ index.connected, result = true) ∧
      (calls ≠ [] → ∃ root depth, index.m_pBtreeRoot = some root ∧
        Balanced false index.heap (start.m_nMaxKey / 2) start.m_nMaxKey depth 1 none none none
          root) := by
  obtain ⟨results, index, ran, tracks⟩ :=
    Tracks.runAll (Nat.le_of_succ_le atLeast) calls constructed.tracks
  refine ⟨results, index, ran, tracks.connected, fun inserted => ?_⟩
  rcases tracks.held with ⟨none', -⟩ | ⟨root, holding, -⟩
  · exact absurd (acceptedOf_eq_nil none') inserted
  · exact ⟨root.tree.id, root.height, holding.represents.pointer,
      tracks.most ▸ balanced_of_holding holding⟩

end Runs

theorem SMDIndex.balanced_int : ∃ results index,
    runAll step (.ofPageSize 44 : SMDIndex Int) [(5, 50), (3, 30), (5, 70), (4, 40), (9, 90)] =
      .ok (results, index) ∧ (∀ result ∈ index.connected, result = true) ∧
      ∃ root depth, index.m_pBtreeRoot = some root ∧
        Balanced false index.heap 1 2 depth 1 none none none root := by
  obtain ⟨results, index, ran, connected, shape⟩ := SMDIndex.balanced (.ofPageSize 44)
    (.ofPageSize 44) (by decide) [((5 : Int), 50), (3, 30), (5, 70), (4, 40), (9, 90)]
  exact ⟨results, index, ran, connected, shape (by decide)⟩

section Total

variable [DecidableLT Key] [IsStrictTotalOrder Key (· < ·)]

/-- The B+ tree: after any insertions it is balanced, a key is refused exactly when it is there
already, and every key that was inserted stands in one leaf with the offset that came first, where
the descent for it ends. -/
theorem SMDIndexBp.leaves (start : SMDIndexBp Key) (constructed : Constructed start)
    (atLeast : 2 ≤ start.m_nMaxKey) (calls : List (Key × Nat)) :
    ∃ results index, runAll step start calls = .ok (results, index) ∧
      (∀ key offset, ∃ result after, index.insertKeyOffset key offset = .ok (result, after) ∧
        (result = true ↔ ∀ call ∈ calls, call.1 ≠ key) ∧ (result = false → after = index)) ∧
      (calls ≠ [] → ∃ root depth, index.m_pBtreeRoot = some root ∧
        Balanced true index.heap (start.m_nMaxKey / 2) start.m_nMaxKey depth 1 none none none root ∧
        ∀ before key offset after, calls = before ++ (key, offset) :: after →
          (∀ call ∈ before, call.1 ≠ key) → ∃ leaf node,
            LeafOf index.heap root leaf ∧ index.heap leaf = some node ∧
            ⟨key, offset, none⟩ ∈ node.vecKey ∧
            SMDIndexBp.descend index key (index.top + 1) (some root) = .ok (some leaf) ∧
            ∀ other otherNode, LeafOf index.heap root other → index.heap other = some otherNode →
              key ∈ otherNode.keys → other = leaf) := by
  obtain ⟨results, index, ran, tracks⟩ :=
    Tracks.runAll (Nat.le_of_succ_le atLeast) calls constructed.tracks
  refine ⟨results, index, ran, fun key offset => ?_, fun inserted => ?_⟩
  · obtain ⟨result, after, done, accepted, unchanged, -⟩ := tracks.step (Nat.le_of_succ_le atLeast)
      (key, offset)
    exact ⟨result, after, done, accepted.trans (all_acceptedOf calls key), unchanged⟩
  · rcases tracks.held with ⟨none', -⟩ | ⟨root, holding, perm⟩
    · exact absurd (acceptedOf_eq_nil none') inserted
    · have represents := holding.represents
      have names := length_le_of_apart represents.apart represents.below
      have enough : root.height < index.top + 1 := (root.tree.length_ids.trans_le names).trans_le
        (Nat.le_succ _)
      refine ⟨root.tree.id, root.height, represents.pointer,
        tracks.most ▸ balanced_of_holding holding, ?_⟩
      intro before key offset after split first
      have member := perm.mem_iff.mpr (mem_acceptedOf split first)
      obtain ⟨leaf, node, reached, leafOf, found, keyIn⟩ := SMDIndexBp.descend_reaches root.tree none
        none represents.held holding.sorted (holding.separated rfl) (holding.sorted.single key) member
        (index.top + 1) enough
      refine ⟨leaf, node, leafOf, found, keyIn, reached, fun other otherNode otherOf otherFound otherIn => ?_⟩
      have unique := (SMDIndexBp.descend_unique root.tree none none represents.held holding.sorted
        (holding.separated rfl) (holding.sorted.single key) otherOf otherFound otherIn (index.top + 1)
        enough).2
      rw [reached] at unique
      exact (Option.some.inj (Except.ok.inj unique)).symm

end Total

theorem SMDIndexBp.leaves_int : ∃ results index,
    runAll step (.ofPageSize 37 : SMDIndexBp Int) [(5, 50), (3, 30), (5, 70), (4, 40), (9, 90)] =
      .ok (results, index) ∧ ∃ root leaf node, LeafOf index.heap root leaf ∧
        index.heap leaf = some node ∧ ⟨5, 50, none⟩ ∈ node.vecKey := by
  obtain ⟨results, index, ran, -, shape⟩ := SMDIndexBp.leaves (.ofPageSize 37)
    (.ofPageSize 37) (by decide) [((5 : Int), 50), (3, 30), (5, 70), (4, 40), (9, 90)]
  obtain ⟨root, depth, -, -, found⟩ := shape (by decide)
  obtain ⟨leaf, node, leafOf, held, inside, -⟩ := found [] 5 50 _ rfl (by decide)
  exact ⟨results, index, ran, root, leaf, node, leafOf, held, inside⟩

end LevelDBLib.KvDB
