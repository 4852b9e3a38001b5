/-
This file is about the two descents in memory. In a node the key is compared with
the keys there: either one of them is level with it, or it falls between two of
them, and then everything level with it is in the subtree between the two.

`FindInsertNode` refuses a key that is level with one of the tree and otherwise
finds the leaf where it belongs. `SearchKey` returns the data offset of the one
entry that is level with the key.
-/

import LevelDBLib.KvDB.IndexInsert

namespace LevelDBLib.KvDB

open Ranges BranchTrees

variable {Key : Type} {bPlus : Bool}

/-! ### In a node -/

section Node

variable [LT Key] [DecidableLT Key] {height : Nat}

theorem lowerBound_nodeOf (offset : Nat) (parent : Option Nat) (tree : Tree (Entry Key) height)
    (key : Key) :
    lowerBound BT_Key_t.key (nodeOf offset parent tree).vecKey key =
      lowerBound Prod.fst tree.keys key := by
  rw [← entries_nodeOf offset parent tree, lowerBound, lowerBound, List.findIdx_map]
  rfl

theorem upperBound_nodeOf (offset : Nat) (parent : Option Nat) (tree : Tree (Entry Key) height)
    (key : Key) :
    upperBound BT_Key_t.key (nodeOf offset parent tree).vecKey key =
      upperBound Prod.fst tree.keys key := by
  rw [← entries_nodeOf offset parent tree, upperBound, upperBound, List.findIdx_map]
  rfl

omit [LT Key] [DecidableLT Key] in
/-- The pointer at the place of the hole points to what fills it. -/
theorem subTreeAt_fill (offset : Nat) (parent : Option Nat)
    (frame : Frame (Entry Key) (Tree (Entry Key) height)) (hole : Tree (Entry Key) height) :
    (nodeOf offset parent (frame.tree hole)).subTreeAt frame.before.length = some hole.id := by
  have node : nodeOf offset parent (frame.tree hole) =
      branchNode offset parent ((frame.map Tree.id).fill hole.id) := by
    rw [← frame.map_fill]
    rfl
  obtain ⟨name, before, after⟩ := frame
  rw [node]
  cases after with
  | none =>
    have outside : ((before.map fun item => (item.1.id, item.2)).map branchKey)[before.length]? =
        none := List.getElem?_eq_none (by simp)
    simp only [BT_Node_t.subTreeAt, branchNode, Frame.map, Frame.fill, Option.map_none, outside]
  | some behind =>
    obtain ⟨entry, items, right⟩ := behind
    have inside : ((before.map fun item => (item.1.id, item.2)) ++ (hole.id, entry) ::
        items.map fun item => (item.1.id, item.2))[before.length]? = some (hole.id, entry) :=
      IndexTree.getElem?_middle _ _ _ _ (List.length_map ..)
    simp only [BT_Node_t.subTreeAt, branchNode, Frame.map, Frame.fill, Option.map_some,
      List.getElem?_map, inside, branchKey]

end Node

namespace IndexTree

/-! ### The leaf of a key -/

section Finding

variable [LT Key] [DecidableLT Key] [IsStrictOrder Key (· < ·)] {height : Nat}
  {offsets : Nat → Nat}

/-- The leaf where a key belongs. -/
structure Belongs (key : Key) (root : Rooted (Entry Key)) (place : Path (Entry Key) 0)
    (leaf : Tree (Entry Key) 0) (bPlus : Bool) : Prop where
  whole : place.plug leaf = root
  below : ∀ entry ∈ place.front bPlus, entry.1 < key
  above : ∀ entry ∈ place.back bPlus, key < entry.1
  low : ∀ entry, place.low = some entry → entry.1 < key
  apart : ∀ entry ∈ leaf.keys, ¬ Level entry.1 key

/-- One call: the node holds a key that is level with the new one, or the descent goes on. -/
theorem findInsertNode_step (index : IndexTree bPlus Key) (key : Key)
    (tree : Tree (Entry Key) height) (parent : Option Nat) (calls : Nat)
    (held : Holds offsets index.heap parent tree) (sorted : Sorted Prod.fst tree.keys) :
    (index.findInsertNode key (calls + 1) (some tree.id) = .ok none ∧
        ∃ entry ∈ tree.keys, Level entry.1 key) ∨
      ∃ before after, Split Prod.fst tree.keys key before [] after ∧
        index.findInsertNode key (calls + 1) (some tree.id) =
          if (nodeOf (offsets tree.id) parent tree).bLeaf then .ok (some tree.id)
          else index.findInsertNode key calls
            ((nodeOf (offsets tree.id) parent tree).subTreeAt before.length) := by
  obtain ⟨before, level, after, split⟩ := exists_split Prod.fst tree.keys key sorted
  rw [findInsertNode, deref_some ((holds_iff tree).mp held).1, ok_bind]
  simp only [lowerBound_nodeOf, upperBound_nodeOf, split.lowerBound_eq, split.upperBound_eq]
  cases level with
  | cons entry rest =>
    refine Or.inl ⟨if_neg (by simp), entry, ?_, split.level entry List.mem_cons_self⟩
    rw [split.joined]
    exact List.mem_append_left _ (List.mem_append_right _ List.mem_cons_self)
  | nil => exact Or.inr ⟨before, after, split, if_pos rfl⟩

theorem findInsertNode_spec (index : IndexTree bPlus Key) (key : Key)
    (tree : Tree (Entry Key) height) (path : Path (Entry Key) height) (parent : Option Nat)
    (calls : Nat) (held : Holds offsets index.heap parent tree)
    (sorted : Sorted Prod.fst ((path.plug tree).tree.listing bPlus))
    (separated : bPlus = true → (path.plug tree).tree.Separated none) (enough : height < calls)
    (below : ∀ entry ∈ path.front bPlus, entry.1 < key)
    (above : ∀ entry ∈ path.back bPlus, key < entry.1)
    (low : ∀ entry, path.low = some entry → entry.1 < key) :
    (index.findInsertNode key calls (some tree.id) = .ok none ∧
        ∃ entry ∈ (path.plug tree).tree.listing bPlus, Level entry.1 key) ∨
      ∃ place leaf, Belongs key (path.plug tree) place leaf bPlus ∧
        index.findInsertNode key calls (some tree.id) = .ok (some leaf.id) := by
  induction height generalizing parent calls with
  | zero =>
    obtain ⟨calls, rfl⟩ := Nat.exists_eq_add_of_le' enough
    have listed : tree.keys.Sublist ((path.plug tree).tree.listing bPlus) := by
      rw [path.listing_plug]
      exact (List.sublist_append_right _ _).trans (List.sublist_append_left _ _)
    rcases findInsertNode_step index key tree parent calls held (sorted.sublist listed) with
      ⟨done, entry, member, level⟩ | ⟨before, after, split, next⟩
    · exact Or.inl ⟨done, entry, listed.subset member, level⟩
    · refine Or.inr ⟨path, tree, ⟨rfl, below, above, low, fun entry member => ?_⟩, next.trans (if_pos rfl)⟩
      rw [split.joined, List.append_nil] at member
      rintro ⟨notLess, notGreater⟩
      rcases List.mem_append.mp member with member | member
      · exact notLess (split.below entry member)
      · exact notGreater (split.above entry member)
  | succ height inductionHypothesis =>
    obtain ⟨calls, rfl⟩ := Nat.exists_eq_add_of_le' (Nat.succ_le_of_lt (Nat.zero_lt_of_lt enough))
    have treeSeparated : bPlus = true → ∃ low, tree.Separated low := fun kept =>
      ⟨_, ((path.separated_plug tree).mp (separated kept)).2⟩
    have listed : (tree.listing bPlus).Sublist ((path.plug tree).tree.listing bPlus) := by
      rw [path.listing_plug]
      exact (List.sublist_append_right _ _).trans (List.sublist_append_left _ _)
    have keysListed := tree.keys_sublist bPlus treeSeparated
    have treeSorted : Sorted Prod.fst (tree.listing bPlus) := sorted.sublist listed
    rcases findInsertNode_step index key tree parent calls held (treeSorted.sublist keysListed) with
      ⟨done, entry, member, level⟩ | ⟨before, after, split, next⟩
    · exact Or.inl ⟨done, entry, listed.subset (keysListed.subset member), level⟩
    · obtain ⟨frame, hole, rfl, place, keysBelow, frontBelow, backAbove⟩ :=
        exists_place tree treeSorted treeSeparated split
      have holeHeld := holds_hole held
      have descent : index.findInsertNode key (calls + 1) (some (frame.tree hole).id) =
          index.findInsertNode key calls (some hole.id) := by
        rw [next, ← place, subTreeAt_fill]
        exact if_neg Bool.false_ne_true
      rw [descent]
      refine inductionHypothesis hole (Path.under frame path) _ calls holeHeld sorted separated
        (Nat.lt_of_succ_lt_succ enough) ?_ ?_ ?_
      · exact fun entry member => (List.mem_append.mp member).elim (below entry) (frontBelow entry)
      · exact fun entry member => (List.mem_append.mp member).elim (backAbove entry) (above entry)
      · exact fun entry last => (lastOf_mem last).elim (low entry) (keysBelow entry)

/-! ### The offset of a key -/

omit [IsStrictOrder Key (· < ·)] in
/-- The data offset of the entry that is level with a key. -/
def offsetOf (entries : List (Entry Key)) (key : Key) : Nat :=
  ((findLevel Prod.fst entries key).map Prod.snd).getD SMD_INVALIDINDEX_RETURN

omit [IsStrictOrder Key (· < ·)] in
/-- Where nothing around a subtree is level with the key, the subtree decides what is found. -/
theorem offsetOf_hole {copied : Bool} {frame : Frame (Entry Key) (Tree (Entry Key) height)}
    {hole : Tree (Entry Key) height} {key : Key}
    (single : Single Prod.fst ((frame.tree hole).listing copied) key)
    (frontBelow : ∀ entry ∈ frame.front copied, entry.1 < key)
    (backAbove : ∀ entry ∈ frame.back copied, key < entry.1) :
    offsetOf ((frame.tree hole).listing copied) key = offsetOf (hole.listing copied) key := by
  have holeListed := frame.hole_listed copied hole
  rw [offsetOf, offsetOf, findLevel_part single fun entry => (holeListed.subset ·)]
  intro entry member level
  rw [listing_fill] at member
  rcases List.mem_append.mp member with member | member
  · rcases List.mem_append.mp member with member | member
    · exact absurd (frontBelow entry member) level.1
    · exact member
  · exact absurd (backAbove entry member) level.2

omit [IsStrictOrder Key (· < ·)] in
theorem offsetOf_found {entries : List (Entry Key)} {key : Key} {entry : Entry Key}
    (member : entry ∈ entries) (level : Level entry.1 key) (single : Single Prod.fst entries key) :
    offsetOf entries key = entry.2 := by
  rw [offsetOf, findLevel_eq_some member level single]
  rfl

omit [DecidableLT Key] [IsStrictOrder Key (· < ·)] in
theorem Single.hole {copied : Bool} {frame : Frame (Entry Key) (Tree (Entry Key) height)}
    {hole : Tree (Entry Key) height} {key : Key}
    (single : Single Prod.fst ((frame.tree hole).listing copied) key) :
    Single Prod.fst (hole.listing copied) key := fun one oneIn two twoIn =>
  single one ((frame.hole_listed copied hole).subset oneIn) two
    ((frame.hole_listed copied hole).subset twoIn)

/-- A leaf holds the entry or there is none. -/
theorem offsetOf_leaf {tree : Tree (Entry Key) 0} {key : Key}
    (sorted : Sorted Prod.fst tree.keys) (single : Single Prod.fst tree.keys key) :
    ∃ before level after, Split Prod.fst tree.keys key before level after ∧
      ((level = [] ∧ offsetOf tree.keys key = SMD_INVALIDINDEX_RETURN) ∨
        ∃ entry, level = [entry] ∧ offsetOf tree.keys key = entry.2) := by
  obtain ⟨before, level, after, split⟩ := exists_split Prod.fst tree.keys key sorted
  obtain ⟨found, atMost⟩ := split.findLevel_eq sorted single
  refine ⟨before, level, after, split, ?_⟩
  rw [offsetOf, found]
  cases level with
  | nil => exact Or.inl ⟨rfl, rfl⟩
  | cons entry rest =>
    obtain rfl := List.eq_nil_of_length_eq_zero (Nat.le_zero.mp (Nat.le_of_succ_le_succ atMost))
    exact Or.inr ⟨entry, rfl, rfl⟩

/-- A search from node to node that returns the entry as soon as a node has it; `place` says where
the node of a name is. -/
structure Searches (search : Nat → Nat → Except Fault Nat) (place : Nat → Nat) (key : Key)
    (holds : (height : Nat) → Tree (Entry Key) height → Prop) : Prop where
  below : ∀ {height : Nat} (frame : Frame (Entry Key) (Tree (Entry Key) height))
    (hole : Tree (Entry Key) height), holds (height + 1) (frame.tree hole) → holds height hole
  found : ∀ {height : Nat} (tree : Tree (Entry Key) height) (before after : List (Entry Key))
    (entry : Entry Key) (calls : Nat), holds height tree →
    Split Prod.fst tree.keys key before [entry] after →
    search (calls + 1) (place tree.id) = .ok entry.2
  next : ∀ {height : Nat} (frame : Frame (Entry Key) (Tree (Entry Key) height))
    (hole : Tree (Entry Key) height) (before after : List (Entry Key)) (calls : Nat),
    holds (height + 1) (frame.tree hole) → frame.before.length = before.length →
    Split Prod.fst (frame.tree hole).keys key before [] after →
    search (calls + 1) (place (frame.tree hole).id) = search calls (place hole.id)
  missed : ∀ (tree : Tree (Entry Key) 0) (before after : List (Entry Key)) (calls : Nat),
    holds 0 tree → Split Prod.fst tree.keys key before [] after →
    search (calls + 1) (place tree.id) = .ok SMD_INVALIDINDEX_RETURN

/-- Such a search finds the offset of the key. -/
theorem Searches.offset {search : Nat → Nat → Except Fault Nat} {place : Nat → Nat} {key : Key}
    {holds : (height : Nat) → Tree (Entry Key) height → Prop}
    (searches : Searches search place key holds) (tree : Tree (Entry Key) height) (calls : Nat)
    (held : holds height tree) (sorted : Sorted Prod.fst (tree.listing false))
    (single : Single Prod.fst (tree.listing false) key) (enough : height < calls) :
    search calls (place tree.id) = .ok (offsetOf (tree.listing false) key) := by
  induction height generalizing calls with
  | zero =>
    obtain ⟨calls, rfl⟩ := Nat.exists_eq_add_of_le' enough
    obtain ⟨before, level, after, split, ⟨rfl, none'⟩ | ⟨entry, rfl, found⟩⟩ :=
      offsetOf_leaf sorted single
    · exact (searches.missed tree before after calls held split).trans (congrArg _ none'.symm)
    · exact (searches.found tree before after entry calls held split).trans
        (congrArg _ found.symm)
  | succ height inductionHypothesis =>
    obtain ⟨calls, rfl⟩ := Nat.exists_eq_add_of_le' (Nat.succ_le_of_lt (Nat.zero_lt_of_lt enough))
    have noCopies : false = true → ∃ low, tree.Separated low := fun impossible =>
      absurd impossible Bool.false_ne_true
    have keysListed := tree.keys_sublist false noCopies
    obtain ⟨before, level, after, split⟩ := exists_split Prod.fst tree.keys key
      (sorted.sublist keysListed)
    obtain ⟨-, atMost⟩ := split.findLevel_eq (sorted.sublist keysListed) fun one oneIn two twoIn =>
      single one (keysListed.subset oneIn) two (keysListed.subset twoIn)
    cases level with
    | cons entry rest =>
      obtain rfl := List.eq_nil_of_length_eq_zero (Nat.le_zero.mp (Nat.le_of_succ_le_succ atMost))
      have listed : entry ∈ tree.listing false := by
        refine keysListed.subset ?_
        rw [split.joined]
        exact List.mem_append_left _ (List.mem_append_right _ List.mem_cons_self)
      rw [searches.found tree before after entry calls held split,
        offsetOf_found listed (split.level entry List.mem_cons_self) single]
    | nil =>
      obtain ⟨frame, hole, rfl, placeEq, -, frontBelow, backAbove⟩ :=
        exists_place tree sorted noCopies split
      rw [searches.next frame hole before after calls held placeEq split,
        offsetOf_hole single frontBelow backAbove]
      exact inductionHypothesis hole calls (searches.below frame hole held)
        (sorted.sublist (frame.hole_listed false hole)) (Single.hole single)
        (Nat.lt_of_succ_lt_succ enough)

/-- A branch of the B+ tree leads to the subtree behind the last key that is not above the
searched one. -/
theorem exists_right_place (tree : Tree (Entry Key) (height + 1)) {key : Key}
    {low : Option (Entry Key)} (sorted : Sorted Prod.fst (tree.listing true))
    (separated : tree.Separated low) (single : Single Prod.fst (tree.listing true) key) :
    ∃ frame hole before level after, tree = Frame.tree frame hole ∧
      Split Prod.fst tree.keys key before level after ∧ level.length ≤ 1 ∧
      frame.before.length = before.length + level.length ∧
      offsetOf (tree.listing true) key = offsetOf (hole.listing true) key := by
  have keysListed := tree.keys_sublist true fun _ => ⟨low, separated⟩
  obtain ⟨before, level, after, split⟩ := exists_split Prod.fst tree.keys key
    (sorted.sublist keysListed)
  obtain ⟨-, atMost⟩ := split.findLevel_eq (sorted.sublist keysListed) fun one oneIn two twoIn =>
    single one (keysListed.subset oneIn) two (keysListed.subset twoIn)
  cases level with
  | nil =>
    obtain ⟨frame, hole, rfl, placeEq, -, frontBelow, backAbove⟩ :=
      exists_place tree sorted (fun _ => ⟨low, separated⟩) split
    exact ⟨frame, hole, before, [], after, rfl, split, atMost, placeEq,
      offsetOf_hole single frontBelow backAbove⟩
  | cons entry rest =>
    obtain rfl := List.eq_nil_of_length_eq_zero (Nat.le_zero.mp (Nat.le_of_succ_le_succ atMost))
    -- the key is a copy of the first entry behind it
    obtain ⟨frame, hole, rfl, beforeEq, -⟩ := exists_frame tree (before ++ [entry]) after split.joined
    obtain ⟨others, first⟩ := hole_first separated beforeEq
    have level := split.level entry List.mem_cons_self
    have inHole : entry ∈ hole.listing true := by
      rw [first]
      exact List.mem_cons_self
    refine ⟨frame, hole, before, [entry], after, rfl, split, atMost, ?_, ?_⟩
    · rw [← List.length_map (f := Prod.snd), beforeEq, List.length_append]
    · rw [offsetOf_found ((frame.hole_listed true hole).subset inHole) level single,
        offsetOf_found inHole level (Single.hole single)]

/-- A search from node to node that returns the entry from a leaf. -/
structure SearchesLeaves (search : Nat → Nat → Except Fault Nat) (place : Nat → Nat) (key : Key)
    (holds : (height : Nat) → Tree (Entry Key) height → Prop) : Prop where
  below : ∀ {height : Nat} (frame : Frame (Entry Key) (Tree (Entry Key) height))
    (hole : Tree (Entry Key) height), holds (height + 1) (frame.tree hole) → holds height hole
  branch : ∀ {height : Nat} (frame : Frame (Entry Key) (Tree (Entry Key) height))
    (hole : Tree (Entry Key) height) (before level after : List (Entry Key)) (calls : Nat),
    holds (height + 1) (frame.tree hole) →
    frame.before.length = before.length + level.length → level.length ≤ 1 →
    Split Prod.fst (frame.tree hole).keys key before level after →
    search (calls + 1) (place (frame.tree hole).id) = search calls (place hole.id)
  found : ∀ (tree : Tree (Entry Key) 0) (before after : List (Entry Key)) (entry : Entry Key)
    (calls : Nat), holds 0 tree → Split Prod.fst tree.keys key before [entry] after →
    search (calls + 1) (place tree.id) = .ok entry.2
  missed : ∀ (tree : Tree (Entry Key) 0) (before after : List (Entry Key)) (calls : Nat),
    holds 0 tree → Split Prod.fst tree.keys key before [] after →
    search (calls + 1) (place tree.id) = .ok SMD_INVALIDINDEX_RETURN

theorem SearchesLeaves.offset {search : Nat → Nat → Except Fault Nat} {place : Nat → Nat}
    {key : Key} {holds : (height : Nat) → Tree (Entry Key) height → Prop}
    (searches : SearchesLeaves search place key holds) (tree : Tree (Entry Key) height)
    {low : Option (Entry Key)} (calls : Nat) (held : holds height tree)
    (sorted : Sorted Prod.fst (tree.listing true)) (separated : tree.Separated low)
    (single : Single Prod.fst (tree.listing true) key) (enough : height < calls) :
    search calls (place tree.id) = .ok (offsetOf (tree.listing true) key) := by
  induction height generalizing calls low with
  | zero =>
    obtain ⟨calls, rfl⟩ := Nat.exists_eq_add_of_le' enough
    obtain ⟨before, level, after, split, ⟨rfl, none'⟩ | ⟨entry, rfl, found⟩⟩ :=
      offsetOf_leaf sorted single
    · exact (searches.missed tree before after calls held split).trans (congrArg _ none'.symm)
    · exact (searches.found tree before after entry calls held split).trans
        (congrArg _ found.symm)
  | succ height inductionHypothesis =>
    obtain ⟨calls, rfl⟩ := Nat.exists_eq_add_of_le' (Nat.succ_le_of_lt (Nat.zero_lt_of_lt enough))
    obtain ⟨frame, hole, before, level, after, rfl, split, atMost, placeEq, same⟩ :=
      exists_right_place tree sorted separated single
    rw [searches.branch frame hole before level after calls held placeEq atMost split, same]
    exact inductionHypothesis hole calls (searches.below frame hole held)
      (sorted.sublist (frame.hole_listed true hole))
      ((separated_fill frame hole low).mp separated).2 (Single.hole single)
      (Nat.lt_of_succ_lt_succ enough)

/-! ### In memory -/

section Memory

variable {index : IndexTree false Key} {key : Key} {tree : Tree (Entry Key) height}
  {parent : Option Nat} {before after : List (Entry Key)}

/-- The node holds the entry. -/
theorem searchKey_found (held : Holds offsets index.heap parent tree) {entry : Entry Key}
    (split : Split Prod.fst tree.keys key before [entry] after) (calls : Nat) :
    index.searchKey key (calls + 1) (some tree.id) = .ok entry.2 := by
  have here : ((nodeOf (offsets tree.id) parent tree).vecKey[before.length]?).map BT_Key_t.entry =
      some entry := by
    rw [← List.getElem?_map, entries_nodeOf, split.joined, List.append_assoc]
    exact getElem?_middle _ _ _ _ rfl
  obtain ⟨tKey, found, rfl⟩ := Option.map_eq_some_iff.mp here
  rw [searchKey, deref_some ((holds_iff tree).mp held).1, ok_bind]
  simp only [lowerBound_nodeOf, upperBound_nodeOf, split.lowerBound_eq, split.upperBound_eq,
    Nat.add_sub_cancel_left, List.length_singleton, if_true, found]
  rfl

/-- The entry is not in the node, which has a subtree where it belongs. -/
theorem searchKey_next (held : Holds offsets index.heap parent tree)
    (split : Split Prod.fst tree.keys key before [] after) {subTree : Nat}
    (next : (nodeOf (offsets tree.id) parent tree).subTreeAt before.length = some subTree)
    (calls : Nat) :
    index.searchKey key (calls + 1) (some tree.id) = index.searchKey key calls (some subTree) := by
  rw [searchKey, deref_some ((holds_iff tree).mp held).1, ok_bind]
  simp only [lowerBound_nodeOf, upperBound_nodeOf, split.lowerBound_eq, split.upperBound_eq,
    List.length_nil, Nat.add_zero, Nat.sub_self, Nat.zero_ne_one, if_false, if_true, next]

/-- The entry is not in the node, which has no subtrees. -/
theorem searchKey_none (held : Holds offsets index.heap parent tree)
    (split : Split Prod.fst tree.keys key before [] after)
    (none' : (nodeOf (offsets tree.id) parent tree).subTreeAt before.length = none) (calls : Nat) :
    index.searchKey key (calls + 1) (some tree.id) = .ok SMD_INVALIDINDEX_RETURN := by
  rw [searchKey, deref_some ((holds_iff tree).mp held).1, ok_bind]
  simp only [lowerBound_nodeOf, upperBound_nodeOf, split.lowerBound_eq, split.upperBound_eq,
    List.length_nil, Nat.add_zero, Nat.sub_self, Nat.zero_ne_one, if_false, if_true, none']

end Memory

omit [IsStrictOrder Key (· < ·)] [LT Key] [DecidableLT Key] in
/-- A leaf has no subtrees. -/
theorem subTreeAt_leaf (offset : Nat) (parent : Option Nat) (tree : Tree (Entry Key) 0)
    (place : Nat) : (nodeOf offset parent tree).subTreeAt place = none := by
  cases found : (Leaf.entries tree)[place]? with
  | none => simp only [nodeOf, BT_Node_t.subTreeAt, List.getElem?_map, found, Option.map_none]
  | some entry =>
    simp only [nodeOf, BT_Node_t.subTreeAt, List.getElem?_map, found, Option.map_some, leafKey]

/-- `SearchKey` in a tree where at most one entry is level with the key. -/
theorem searchKey_spec (index : IndexTree false Key) (key : Key) (tree : Tree (Entry Key) height)
    (parent : Option Nat) (calls : Nat) (held : Holds offsets index.heap parent tree)
    (sorted : Sorted Prod.fst (tree.listing false))
    (single : Single Prod.fst (tree.listing false) key) (enough : height < calls) :
    index.searchKey key calls (some tree.id) = .ok (offsetOf (tree.listing false) key) := by
  have searches : Searches (fun calls id => index.searchKey key calls (some id)) id key
      fun _ tree => ∃ parent, Holds offsets index.heap parent tree := {
    below := fun frame hole => fun ⟨_, held⟩ => ⟨_, holds_hole held⟩
    found := fun tree before after entry calls => fun ⟨_, held⟩ split =>
      searchKey_found held split calls
    next := fun frame hole before after calls => fun ⟨_, held⟩ place split =>
      searchKey_next held split (by rw [← place, subTreeAt_fill]; rfl) calls
    missed := fun tree before after calls => fun ⟨_, held⟩ split =>
      searchKey_none held split (subTreeAt_leaf ..) calls }
  exact searches.offset tree calls ⟨parent, held⟩ sorted single enough

end Finding

end IndexTree

end LevelDBLib.KvDB
