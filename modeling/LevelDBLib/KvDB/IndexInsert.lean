/-
This file follows an insertion up the tree. A node that has received one more key
is already the node of a tree, at most one key too large; `InsertAt` divides it,
puts the right half in its place in the parent, and goes on with the parent,
which has received the middle key. Each of these steps keeps the listing of the
whole tree, and the last one leaves no node too large.
-/

import LevelDBLib.KvDB.IndexSplit

namespace LevelDBLib.KvDB

open Ranges BranchTrees

variable {Key : Type} {bPlus : Bool}

/-- The heap of an index is a tree, and nothing of the tree is above `top`. -/
structure Represents (offsets : Nat → Nat) (index : IndexTree bPlus Key)
    (root : Rooted (Entry Key)) : Prop where
  pointer : index.m_pBtreeRoot = some root.tree.id
  held : Holds offsets index.heap none root.tree
  apart : root.tree.ids.Nodup
  below : ∀ id ∈ root.tree.ids, id < index.top

namespace IndexTree

variable {height : Nat}

/-- What the heap holds at the place is the node of the tree there. -/
theorem length_grown {index : IndexTree bPlus Key} {node : BT_Node_t Key}
    {path : Path (Entry Key) height} {grown : Tree (Entry Key) height}
    (represents : Represents unsaved (index.setNode grown.id node) (path.plug grown)) :
    node.vecKey.length = grown.keys.length := by
  have here := ((holds_iff grown).mp ((holds_plug path grown).mp represents.held).2).1
  rw [heap_setNode] at here
  rw [Option.some.inj here, length_nodeOf]

/-! ### The heap around a node that is split -/

/-- The heap around a node that is split: the node and its parent, what stands beside the node, and
what stands above the parent. A parent that was just made has no right subtree yet. -/
structure Parted (index : IndexTree bPlus Key) (frame : Frame (Entry Key) (Tree (Entry Key) height))
    (up : Path (Entry Key) (height + 1)) (grown : Tree (Entry Key) height) : Prop where
  node : Holds unsaved index.heap (some frame.id) grown
  parent : ∃ pointer, index.heap frame.id = some
      { branchNode SMD_INVALIDINDEX_RETURN up.parent ((frame.map Tree.id).fill grown.id) with
        pRightSubTree := pointer } ∧
    (pointer = some ((frame.map Tree.id).fill grown.id).right ∨
      (pointer = none ∧ frame.after = none))
  beside : ∀ child ∈ frame.fore ++ frame.aft, Holds unsaved index.heap (some frame.id) child
  above : HoldsPath unsaved index.heap up frame.id
  pointer : index.m_pBtreeRoot = some (up.plug (frame.tree grown)).tree.id
  apart : ((Path.under frame up).ids ++ grown.ids).Nodup
  below : ∀ id ∈ (Path.under frame up).ids ++ grown.ids, id < index.top

section Splits

variable {index : IndexTree bPlus Key} {frame : Frame (Entry Key) (Tree (Entry Key) height)}
  {up : Path (Entry Key) (height + 1)} {grown left right : Tree (Entry Key) height}
  {middle : Entry Key} {heap : Heap Key}

/-- After the split the parent has the right half where the node was. -/
theorem Parted.connected (parted : Parted index frame up grown)
    (split : SplitInto index grown (some frame.id) left middle right heap) :
    ∃ node, heap grown.id = some node ∧ node.pParent = some frame.id ∧
      ({ index with heap := heap, top := index.top + 2 } : IndexTree bPlus Key).connectRightNode
          grown.id (index.top + 1) =
        .ok (true, ({ index with heap := heap, top := index.top + 2 } : IndexTree bPlus Key).setNode
          frame.id (branchNode SMD_INVALIDINDEX_RETURN up.parent
            ((frame.map Tree.id).fill (index.top + 1)))) := by
  obtain ⟨node, nodeFound, nodeParent⟩ := split.remains
  obtain ⟨pointer, parentFound, pointed⟩ := parted.parent
  obtain ⟨pathApart, grownApart, between⟩ := List.nodup_append.mp parted.apart
  have grownIn : grown.id ∈ grown.ids := grown.id_mem_ids
  have frameIn : frame.id ∈ (Path.under frame up).ids :=
    List.mem_append_left _ List.mem_cons_self
  have beside : ∀ child ∈ frame.fore ++ frame.aft, child.id ≠ grown.id := by
    intro child member equal
    refine between child.id ?_ grown.id grownIn equal
    refine List.mem_append_left _ (List.mem_cons_of_mem _ ?_)
    rw [← List.flatMap_append]
    exact List.mem_flatMap.mpr ⟨child, member, child.id_mem_ids⟩
  refine ⟨node, nodeFound, nodeParent, connectRightNode_spec _ (frame.map Tree.id) grown.id
    (index.top + 1) SMD_INVALIDINDEX_RETURN up.parent node pointer nodeFound nodeParent ?_ ?_ ?_ ?_⟩
  · refine (split.same frame.id ?_ fun inside => between _ frameIn _ inside rfl).trans parentFound
    exact parted.below _ (List.mem_append_left _ frameIn)
  · rcases pointed with equal | ⟨none', after⟩
    · exact Or.inl equal
    · refine Or.inr ⟨none', ?_⟩
      show frame.after.map _ = none
      rw [after]
      rfl
  · rw [Frame.fore_map]
    intro member
    obtain ⟨child, inside, equal⟩ := List.mem_map.mp member
    exact beside child (List.mem_append_left _ inside) equal
  · rw [Frame.aft_map]
    intro member
    obtain ⟨child, inside, equal⟩ := List.mem_map.mp member
    exact beside child (List.mem_append_right _ inside) equal

/-- With the middle key in the parent, the heap is the tree with the two halves. -/
theorem Parted.represents (parted : Parted index frame up grown)
    (split : SplitInto index grown (some frame.id) left middle right heap)
    {after : IndexTree bPlus Key}
    (heapEq : after.heap = Function.update heap frame.id (some (branchNode SMD_INVALIDINDEX_RETURN
      up.parent (((frame.map Tree.id).add index.top middle).fill (index.top + 1)))))
    (pointerEq : after.m_pBtreeRoot = index.m_pBtreeRoot) (topEq : after.top = index.top + 2) :
    Represents unsaved after (up.plug ((frame.add left middle).tree right)) := by
  have name : ((frame.add left middle).tree right).id = frame.id := Frame.id_fill ..
  obtain ⟨pathApart, grownApart, between⟩ := List.nodup_append.mp parted.apart
  have frameIn : frame.id ∈ (Path.under frame up).ids :=
    List.mem_append_left _ List.mem_cons_self
  -- the nodes that are neither in the node nor the parent are as they were
  have same : ∀ id ∈ (Path.under frame up).ids, id ≠ frame.id → after.heap id = index.heap id := by
    intro id member different
    rw [heapEq, Function.update_of_ne different]
    refine split.same id (parted.below id (List.mem_append_left _ member)) fun inside => ?_
    exact between id member id inside rfl
  have halves : ∀ half : Tree (Entry Key) height, (half.id = index.top ∨ half.id = index.top + 1) →
      (∀ id ∈ half.innerIds, id ∈ grown.innerIds) → ∀ id ∈ half.ids, id ≠ frame.id := by
    intro half fresh inner id member equal
    rw [half.ids_eq] at member
    rcases List.mem_cons.mp member with top | member
    · have := parted.below frame.id (List.mem_append_left _ frameIn)
      omega
    · refine between frame.id frameIn id ?_ equal.symm
      rw [grown.ids_eq]
      exact List.mem_cons_of_mem _ (inner id member)
  have leftNames := halves left (Or.inl split.leftId) fun id member => by
    rw [split.divides.innerIds]
    exact List.mem_append_left _ member
  have rightNames := halves right (Or.inr split.rightId) fun id member => by
    rw [split.divides.innerIds]
    exact List.mem_append_right _ member
  have pathParts := pathApart
  rw [Path.ids, List.cons_append, List.nodup_cons] at pathParts
  have beside : ∀ child ∈ frame.fore ++ frame.aft, Holds unsaved after.heap (some frame.id) child := by
    intro child member
    refine (parted.beside child member).frame fun id inside => ?_
    have listed : id ∈ frame.fore.flatMap Tree.ids ++ frame.aft.flatMap Tree.ids := by
      rw [← List.flatMap_append]
      exact List.mem_flatMap.mpr ⟨child, member, inside⟩
    refine same id (List.mem_append_left _ (List.mem_cons_of_mem _ listed)) fun equal => ?_
    exact pathParts.1 (List.mem_append_left _ (equal ▸ listed))
  have ids := split.divides.ids_up frame up
  rw [grown.ids_eq, List.nodup_cons] at grownApart
  have remaining : ((Path.under frame up).ids ++ grown.innerIds).Nodup := by
    refine List.nodup_append.mpr ⟨pathApart, grownApart.2, fun id member other inside => ?_⟩
    refine between id member other ?_
    rw [grown.ids_eq]
    exact List.mem_cons_of_mem _ inside
  have under : ∀ id ∈ (Path.under frame up).ids ++ grown.innerIds, id < index.top := by
    intro id member
    refine parted.below id ?_
    rw [grown.ids_eq]
    rcases List.mem_append.mp member with member | member
    · exact List.mem_append_left _ member
    · exact List.mem_append_right _ (List.mem_cons_of_mem _ member)
  refine ⟨?_, ?_, ?_, ?_⟩
  · rw [pointerEq, parted.pointer]
    exact congrArg some (up.id_plug (name.trans (frame.id_fill grown).symm)).symm
  · refine (holds_plug up _).mpr ⟨?_, (holds_iff _).mpr ⟨?_, ?_⟩⟩
    · rw [name]
      refine parted.above.frame fun id member => ?_
      refine same id (List.mem_append_right _ member) fun equal => ?_
      exact pathParts.1 (List.mem_append_right _ (equal ▸ member))
    · rw [name, heapEq, Function.update_self, ← split.rightId, ← split.leftId, ← Frame.map_add,
        ← Frame.map_fill]
      rfl
    · show ∀ child ∈ ((frame.add left middle).fill right).children,
        Holds unsaved after.heap (some ((frame.add left middle).tree right).id) child
      obtain ⟨fore, aft⟩ := List.forall_mem_append.mp beside
      rw [name, Frame.children_fill, Frame.fore_add, Frame.aft_add, List.forall_mem_append,
        List.forall_mem_append, List.forall_mem_cons, List.forall_mem_cons]
      refine ⟨⟨fore, split.leftHeld.frame fun id inside => ?_, List.forall_mem_nil _⟩,
        split.rightHeld.frame fun id inside => ?_, aft⟩
      · rw [heapEq, Function.update_of_ne (leftNames id inside)]
      · rw [heapEq, Function.update_of_ne (rightNames id inside)]
  · refine ids.nodup_iff.mpr (List.nodup_cons.mpr ⟨?_, List.nodup_cons.mpr ⟨?_, remaining⟩⟩)
    · intro member
      rcases List.mem_cons.mp member with equal | member
      · rw [split.leftId, split.rightId] at equal
        omega
      · have := under _ member
        rw [split.leftId] at this
        omega
    · intro member
      have := under _ member
      rw [split.rightId] at this
      omega
  · intro id member
    rw [topEq]
    rcases List.mem_cons.mp (ids.mem_iff.mp member) with equal | member
    · rw [equal, split.leftId]
      omega
    · rcases List.mem_cons.mp member with equal | member
      · rw [equal, split.rightId]
        omega
      · have := under id member
        omega

/-- A tree keeps standing in a heap without a node that is not in it. -/
theorem represents_delete {index : IndexTree bPlus Key} {root : Rooted (Entry Key)}
    (represents : Represents unsaved index root) {address : Nat} (gone : address ∉ root.tree.ids)
    {after : IndexTree bPlus Key} (heapEq : after.heap = Function.update index.heap address none)
    (pointerEq : after.m_pBtreeRoot = index.m_pBtreeRoot) (topEq : after.top = index.top) :
    Represents unsaved after root := by
  refine ⟨pointerEq.trans represents.pointer, represents.held.frame fun id inside => ?_,
    represents.apart, fun id member => topEq ▸ represents.below id member⟩
  have different : id ≠ address := fun equal => gone (equal ▸ inside)
  rw [heapEq, Function.update_of_ne different]

/-- The heap of a tree, seen from a node under a branch. -/
theorem parted_of_represents (represents : Represents unsaved index ((Path.under frame up).plug grown)) :
    Parted index frame up grown := by
  have ids := (Path.under frame up).ids_plug grown
  obtain ⟨⟨here, beside, above⟩, node⟩ := (holds_plug _ _).mp represents.held
  refine ⟨node, ⟨_, here, Or.inl rfl⟩, beside, above, represents.pointer,
    ids.nodup_iff.mp represents.apart, fun id member => ?_⟩
  exact represents.below id (ids.mem_iff.mpr member)

/-- A root that has no parent gets one that holds nothing yet. -/
theorem makeRoot_spec (represents : Represents unsaved index (Path.top.plug grown)) :
    ∃ after, index.makeRoot grown.id = .ok after ∧
      Parted after ⟨index.top, [], none⟩ Path.top grown ∧ after.m_nMaxKey = index.m_nMaxKey ∧
      after.top = index.top + 1 ∧ after.connected = index.connected := by
  obtain ⟨found, below⟩ := (holds_iff grown).mp represents.held
  have apart : grown.ids.Nodup := represents.apart
  have under : ∀ id ∈ grown.ids, id < index.top := represents.below
  have inside : grown.id < index.top := under _ grown.id_mem_ids
  have parts := apart
  rw [grown.ids_eq, List.nodup_cons] at parts
  have inner : ∀ id ∈ grown.innerIds, id ≠ grown.id ∧ id ≠ index.top := by
    intro id member
    refine ⟨fun equal => parts.1 (equal ▸ member), Nat.ne_of_lt (under id ?_)⟩
    rw [grown.ids_eq]
    exact List.mem_cons_of_mem _ member
  have top : (nodeOf (unsaved grown.id) none grown).pParent = none := pParent_nodeOf ..
  refine ⟨((({ index.alloc ⟨[], SMD_INVALIDINDEX_RETURN, false, none, none⟩ with
      m_pBtreeRoot := some index.top } : IndexTree bPlus Key).setNode grown.id
        { nodeOf (unsaved grown.id) none grown with pParent := some index.top }).pushNode index.top),
    ?_, ⟨(holds_iff grown).mpr ⟨?_, below.frame fun id member => ?_⟩, ⟨none, ?_, Or.inr ⟨rfl, rfl⟩⟩,
      fun child member => absurd member List.not_mem_nil, trivial, rfl, ?_, ?_⟩, rfl, rfl, rfl⟩
  · rw [makeRoot, deref_some found, ok_bind]
    dsimp only
    rw [top]
  · rw [← nodeOf_parent (unsaved grown.id) none (some index.top) grown]
    exact Function.update_self ..
  · exact (Function.update_of_ne (inner id member).1 ..).trans
      (Function.update_of_ne (inner id member).2 ..)
  · exact (Function.update_of_ne (Nat.ne_of_gt inside) ..).trans (Function.update_self ..)
  · refine List.nodup_cons.mpr ⟨fun member => ?_, apart⟩
    exact Nat.lt_irrefl _ (under _ member)
  · intro id member
    show id < index.top + 1
    rcases List.mem_cons.mp member with equal | member
    · rw [equal]
      exact Nat.lt_succ_self _
    · exact Nat.lt_succ_of_lt (under id member)

end Splits

section Climbing

/-- The tree of an index after an insertion, compared with the tree that holds the new key in a
node which may be too large. -/
structure Inserted (index : IndexTree bPlus Key) (whole : Rooted (Entry Key))
    (after : IndexTree bPlus Key) (root : Rooted (Entry Key)) : Prop where
  represents : Represents unsaved after root
  listing : root.tree.listing bPlus = whole.tree.listing bPlus
  separated : bPlus = true → root.tree.Separated none
  filled : root.Filled (index.m_nMaxKey / 2) index.m_nMaxKey
  names : ∀ id ∈ root.tree.ids, id ∈ whole.tree.ids ∨ index.top ≤ id
  top : index.top ≤ after.top
  most : after.m_nMaxKey = index.m_nMaxKey
  connected : (∀ result ∈ index.connected, result = true) →
    ∀ result ∈ after.connected, result = true

/-- An insertion that is compared with a later index and another form of the same tree. -/
theorem Inserted.of_later {index later after : IndexTree bPlus Key}
    {whole other root : Rooted (Entry Key)} (inserted : Inserted later other after root)
    (listing : other.tree.listing bPlus = whole.tree.listing bPlus)
    (names : ∀ id ∈ other.tree.ids, id ∈ whole.tree.ids ∨ index.top ≤ id)
    (top : index.top ≤ later.top) (most : later.m_nMaxKey = index.m_nMaxKey)
    (connected : later.connected = index.connected) : Inserted index whole after root := by
  refine ⟨inserted.represents, inserted.listing.trans listing, inserted.separated,
    most ▸ inserted.filled, fun id member => ?_, top.trans inserted.top,
    inserted.most.trans most, connected ▸ inserted.connected⟩
  rcases inserted.names id member with listed | fresh
  · exact names id listed
  · exact Or.inr (top.trans fresh)

variable [LT Key]

/-- A tree in which every node but the one in the place is filled, and that one may hold one key
too many. -/
structure Growing (bPlus : Bool) (most : Nat) (path : Path (Entry Key) height)
    (grown : Tree (Entry Key) height) : Prop where
  sorted : Sorted Prod.fst ((path.plug grown).tree.listing bPlus)
  separated : bPlus = true → (path.plug grown).tree.Separated none
  above : path.Filled (most / 2) most
  enough : path.least (most / 2) ≤ grown.keys.length
  bounded : grown.keys.length ≤ most + 1
  below : grown.ChildrenFilled (most / 2) most

/-- The keys of the node in the place are in order. -/
theorem Growing.sorted_keys {most : Nat} {path : Path (Entry Key) height}
    {grown : Tree (Entry Key) height} (growing : Growing bPlus most path grown) :
    Sorted Prod.fst grown.keys := by
  have sublist := grown.keys_sublist bPlus fun kept =>
    ⟨path.low, ((path.separated_plug grown).mp (growing.separated kept)).2⟩
  refine growing.sorted.sublist (sublist.trans ?_)
  rw [path.listing_plug]
  exact (List.sublist_append_right _ _).trans (List.sublist_append_left _ _)

/-! ### Splitting a node under its parent -/

/-- A tree in which a node holds one key too many, and the branch above it has room for its middle
key or will be split itself. The branch may be a new root, which holds no key yet. -/
structure Splitting (bPlus : Bool) (most : Nat) (frame : Frame (Entry Key) (Tree (Entry Key) height))
    (up : Path (Entry Key) (height + 1)) (grown : Tree (Entry Key) height) : Prop where
  sorted : Sorted Prod.fst ((up.plug (frame.tree grown)).tree.listing bPlus)
  separated : bPlus = true → (up.plug (frame.tree grown)).tree.Separated none
  above : up.Filled (most / 2) most
  enough : up.least (most / 2) ≤ frame.count + 1
  bounded : frame.count ≤ most
  beside : ∀ child ∈ frame.fore ++ frame.aft, child.Filled (most / 2) most
  full : grown.keys.length = most + 1
  below : grown.ChildrenFilled (most / 2) most

theorem Growing.splitting {most : Nat} {frame : Frame (Entry Key) (Tree (Entry Key) height)}
    {up : Path (Entry Key) (height + 1)} {grown : Tree (Entry Key) height}
    (growing : Growing bPlus most (.under frame up) grown) (full : ¬ grown.keys.length ≤ most) :
    Splitting bPlus most frame up grown := by
  obtain ⟨⟨enoughAbove, bounded⟩, beside, above⟩ := growing.above
  exact ⟨growing.sorted, growing.separated, above, enoughAbove.trans (Nat.le_succ _), bounded, beside,
    Nat.le_antisymm growing.bounded (Nat.lt_of_not_le full), growing.below⟩

/-- A root is split under a branch that holds no key yet. -/
theorem Growing.splitting_root {most : Nat} {grown : Tree (Entry Key) height}
    (growing : Growing bPlus most .top grown) (full : ¬ grown.keys.length ≤ most) (name : Nat) :
    Splitting bPlus most ⟨name, [], none⟩ .top grown :=
  ⟨growing.sorted, fun kept => ⟨trivial, growing.separated kept⟩, trivial, Nat.le_refl 1,
    Nat.zero_le _, fun _ member => absurd member List.not_mem_nil,
    Nat.le_antisymm growing.bounded (Nat.lt_of_not_le full), growing.below⟩

/-- The branch above with the middle key. -/
theorem Splitting.growing {most : Nat} {frame : Frame (Entry Key) (Tree (Entry Key) height)}
    {up : Path (Entry Key) (height + 1)} {grown left right : Tree (Entry Key) height}
    {middle : Entry Key} (splitting : Splitting bPlus most frame up grown) (some' : 1 ≤ most)
    (divides : grown.Divides bPlus left middle right)
    (count : left.keys.length = grown.keys.length / 2) :
    Growing bPlus most up ((frame.add left middle).tree right) := by
  have full := splitting.full
  obtain ⟨lower, upper⟩ := divides.count
  obtain ⟨leftBelow, rightBelow⟩ := divides.childrenFilled splitting.below
  have leftSome : left.keys ≠ [] := by
    intro empty
    rw [empty, List.length_nil] at count
    omega
  refine ⟨?_, ?_, splitting.above, ?_, ?_, ?_⟩
  · rw [divides.listing_up frame up]
    exact splitting.sorted
  · intro kept
    exact divides.separated_up kept leftSome frame up (splitting.separated kept)
  · rw [keys_fill, Frame.count_add]
    exact splitting.enough
  · rw [keys_fill, Frame.count_add]
    exact Nat.succ_le_succ splitting.bounded
  · show ∀ child ∈ ((frame.add left middle).fill right).children, child.Filled (most / 2) most
    obtain ⟨fore, aft⟩ := List.forall_mem_append.mp splitting.beside
    rw [Frame.children_fill, Frame.fore_add, Frame.aft_add, List.forall_mem_append,
      List.forall_mem_append, List.forall_mem_cons, List.forall_mem_cons]
    refine ⟨⟨fore, (left.filled_iff ..).mpr ⟨?_, leftBelow⟩, List.forall_mem_nil _⟩,
      (right.filled_iff ..).mpr ⟨?_, rightBelow⟩, aft⟩
    · omega
    · omega

/-! ### Inserting into a node -/

variable [DecidableLT Key]

/-- What `insertAt` does at a node that grows into the tree `grown`. -/
def InsertsAt (calls : Nat) (bPlus : Bool) (path : Path (Entry Key) height)
    (grown : Tree (Entry Key) height) : Prop :=
  ∀ (index : IndexTree bPlus Key) (node : BT_Node_t Key) (tKey : BT_Key_t Key),
    index.heap grown.id = some node →
    Represents unsaved
      (index.setNode grown.id { node with vecKey := sort BT_Key_t.key (node.vecKey ++ [tKey]) })
      (path.plug grown) →
    Growing bPlus index.m_nMaxKey path grown → 1 ≤ index.m_nMaxKey →
    ∃ after root, insertAt calls index (some grown.id) tKey = .ok (true, after) ∧
      Inserted index (path.plug grown) after root

/-- A node that has room for the key. -/
theorem insertAt_room (calls : Nat) (path : Path (Entry Key) height)
    (grown : Tree (Entry Key) height) (index : IndexTree bPlus Key) (node : BT_Node_t Key)
    (tKey : BT_Key_t Key) (found : index.heap grown.id = some node)
    (represents : Represents unsaved
      (index.setNode grown.id { node with vecKey := sort BT_Key_t.key (node.vecKey ++ [tKey]) })
      (path.plug grown))
    (growing : Growing bPlus index.m_nMaxKey path grown)
    (room : grown.keys.length ≤ index.m_nMaxKey) :
    ∃ after root, insertAt (calls + 1) index (some grown.id) tKey = .ok (true, after) ∧
      Inserted index (path.plug grown) after root := by
  have length := length_grown represents
  refine ⟨_, path.plug grown, ?_, represents, rfl, growing.separated, ?_, fun id => Or.inl,
    Nat.le_refl _, rfl, id⟩
  · rw [insertAt, deref_some found, ok_bind]
    exact if_pos (length.trans_le room)
  · exact (path.filled_plug _ _ grown).mpr ⟨growing.above, ⟨growing.enough, room⟩, growing.below⟩

/-- Pushing the middle key onto the parent and sorting puts it in front of the right half. -/
theorem sort_added [IsStrictOrder Key (· < ·)] (offset : Nat) (above : Option Nat)
    (shape : Frame (Entry Key) Nat) (left hole : Nat) (middle : Entry Key)
    (sorted : Sorted Prod.fst (((shape.add left middle).fill hole).items.map Prod.snd)) :
    { branchNode offset above (shape.fill hole) with
      vecKey := sort BT_Key_t.key ((branchNode offset above (shape.fill hole)).vecKey ++
        [branchKey (left, middle)]) } =
      branchNode offset above ((shape.add left middle).fill hole) := by
  obtain ⟨tail, items, added⟩ := shape.items_add left hole middle
  have keys : sort BT_Key_t.key ((shape.fill hole).items.map branchKey ++ [branchKey (left, middle)]) =
      ((shape.add left middle).fill hole).items.map branchKey := by
    rw [items, added, List.map_append, List.map_append, List.map_cons]
    refine sort_concat _ _ _ _ ?_
    rw [← List.map_cons, ← List.map_append, ← added]
    rw [Sorted, List.pairwise_map] at sorted ⊢
    exact sorted
  rw [branchNode, keys, branchNode, shape.right_add]

/-- The node of the parent when the right half has the place of the node that was split. -/
def linkedParent (top : Nat) (frame : Frame (Entry Key) (Tree (Entry Key) height))
    (up : Path (Entry Key) (height + 1)) : BT_Node_t Key :=
  branchNode SMD_INVALIDINDEX_RETURN up.parent ((frame.map Tree.id).fill (top + 1))

/-- The index in which the middle key goes on to the parent. -/
def handedUp (index : IndexTree bPlus Key) (heap : Heap Key)
    (frame : Frame (Entry Key) (Tree (Entry Key) height)) (up : Path (Entry Key) (height + 1)) :
    IndexTree bPlus Key :=
  (({ index with heap := heap, top := index.top + 2 } : IndexTree bPlus Key).setNode frame.id
    (linkedParent index.top frame up)).record true

/-- A split up to the insertion of the middle key into the parent, and what is left to be done
behind it. -/
structure HandsUp (index : IndexTree bPlus Key)
    (frame : Frame (Entry Key) (Tree (Entry Key) height)) (up : Path (Entry Key) (height + 1))
    (grown left : Tree (Entry Key) height) (middle : Entry Key)
    (right : Tree (Entry Key) height) (heap : Heap Key) : Prop where
  split : SplitInto index grown (some frame.id) left middle right heap
  ran : index.splitNode grown.id = .ok (index.top, index.top + 1,
    ⟨middle.1, middle.2, some index.top⟩, { index with heap := heap, top := index.top + 2 })
  found : (index.handedUp heap frame up).heap frame.id = some (linkedParent index.top frame up)
  represents : Represents unsaved ((index.handedUp heap frame up).setNode frame.id
    { linkedParent index.top frame up with
      vecKey := sort BT_Key_t.key ((linkedParent index.top frame up).vecKey ++
        [⟨middle.1, middle.2, some index.top⟩]) }) (up.plug ((frame.add left middle).tree right))
  finish : ∀ insertAbove, splitUp insertAbove index grown.id =
    insertAbove (index.handedUp heap frame up) (some frame.id)
        ⟨middle.1, middle.2, some index.top⟩ >>= fun result =>
      .ok (true, (((result.2.eraseCleaningNode grown.id).delete grown.id).pushNode
        index.top).pushNode (index.top + 1))

/-- A node with at least one key is split, if the parent is in order with the middle key. -/
theorem splitUp_handsUp [IsStrictOrder Key (· < ·)] {index : IndexTree bPlus Key}
    {frame : Frame (Entry Key) (Tree (Entry Key) height)} {up : Path (Entry Key) (height + 1)}
    {grown : Tree (Entry Key) height} (parted : Parted index frame up grown)
    (some' : 0 < grown.keys.length)
    (sorted : ∀ left middle right, grown.Divides bPlus left middle right →
      left.keys.length = grown.keys.length / 2 →
      Sorted Prod.fst ((frame.add left middle).tree right).keys) :
    ∃ left middle right heap, HandsUp index frame up grown left middle right heap := by
  obtain ⟨pathApart, grownApart, between⟩ := List.nodup_append.mp parted.apart
  obtain ⟨left, middle, right, heap, split, ran⟩ := splitNode_spec index grown (some frame.id)
    parted.node grownApart (fun id member => parted.below id (List.mem_append_right _ member)) some'
  obtain ⟨node, nodeFound, nodeParent, connect⟩ := parted.connected split
  have keys : (((frame.map Tree.id).add index.top middle).fill (index.top + 1)).items.map Prod.snd =
      ((frame.add left middle).tree right).keys := by
    rw [← split.rightId, ← split.leftId, ← Frame.map_add, ← Frame.map_fill]
    show List.map Prod.snd (List.map _ _) = _
    rw [List.map_map]
    rfl
  have added := sort_added SMD_INVALIDINDEX_RETURN up.parent (frame.map Tree.id) index.top
    (index.top + 1) middle (by rw [keys]; exact sorted left middle right split.divides split.count)
  have different : grown.id ≠ frame.id := fun equal =>
    between _ (List.mem_append_left _ List.mem_cons_self) _ grown.id_mem_ids equal.symm
  have still : (index.handedUp heap frame up).heap grown.id = some node :=
    (Function.update_of_ne different ..).trans nodeFound
  refine ⟨left, middle, right, heap, split, ran, heap_setNode .., ?_, fun insertAbove => ?_⟩
  · exact parted.represents split ((Function.update_idem ..).trans
      (congrArg (fun node => Function.update heap _ (some node)) added)) rfl rfl
  · rw [splitUp, ran, ok_bind]
    dsimp only
    rw [connect, ok_bind]
    dsimp only
    rw [if_pos rfl]
    show ((index.handedUp heap frame up).deref (some grown.id) >>= _) = _
    rw [deref_some still, ok_bind]
    dsimp only
    rw [nodeParent]
    rfl

theorem splitUp_spec [IsStrictOrder Key (· < ·)] (calls : Nat) (index : IndexTree bPlus Key)
    (frame : Frame (Entry Key) (Tree (Entry Key) height)) (up : Path (Entry Key) (height + 1))
    (grown : Tree (Entry Key) height) (parted : Parted index frame up grown)
    (splitting : Splitting bPlus index.m_nMaxKey frame up grown) (some' : 1 ≤ index.m_nMaxKey)
    (insertsAbove : ∀ left middle right,
      InsertsAt calls bPlus up ((frame.add left middle).tree right)) :
    ∃ after root, splitUp (insertAt calls) index grown.id = .ok (true, after) ∧
      Inserted index (up.plug (frame.tree grown)) after root := by
  obtain ⟨pathApart, grownApart, between⟩ := List.nodup_append.mp parted.apart
  obtain ⟨left, middle, right, heap, hands⟩ := splitUp_handsUp parted
    (by rw [splitting.full]; exact Nat.succ_pos _)
    fun left middle right divides count => (splitting.growing some' divides count).sorted_keys
  have split := hands.split
  have name : ((frame.add left middle).tree right).id = frame.id := Frame.id_fill ..
  obtain ⟨after, root, inserted, result⟩ := insertsAbove left middle right
    (index.handedUp heap frame up) (linkedParent index.top frame up)
    ⟨middle.1, middle.2, some index.top⟩ (by rw [name]; exact hands.found)
    (by rw [name]; exact hands.represents) (splitting.growing some' split.divides split.count) some'
  rw [name] at inserted
  have grownIn : grown.id ∈ grown.ids := grown.id_mem_ids
  -- the names that are left: the two halves, and what was there but the node that was split
  have names : ∀ id ∈ root.tree.ids, (id ∈ (up.plug (frame.tree grown)).tree.ids ∧ id ≠ grown.id) ∨
      index.top ≤ id := by
    intro id member
    rcases result.names id member with listed | fresh
    · rcases List.mem_cons.mp ((split.divides.ids_up frame up).mem_iff.mp listed) with equal | listed
      · exact Or.inr (equal.trans split.leftId).ge
      rcases List.mem_cons.mp listed with equal | listed
      · exact Or.inr ((Nat.le_add_right _ 1).trans (equal.trans split.rightId).ge)
      refine Or.inl ⟨((Path.under frame up).ids_plug grown).mem_iff.mpr ?_, ?_⟩
      · rw [grown.ids_eq]
        rcases List.mem_append.mp listed with path | inner
        · exact List.mem_append_left _ path
        · exact List.mem_append_right _ (List.mem_cons_of_mem _ inner)
      · rw [grown.ids_eq, List.nodup_cons] at grownApart
        rintro rfl
        rcases List.mem_append.mp listed with path | inner
        · exact between _ path _ grownIn rfl
        · exact grownApart.1 inner
    · exact Or.inr ((Nat.le_add_right _ 2).trans fresh)
  have gone : grown.id ∉ root.tree.ids := by
    intro member
    rcases names _ member with ⟨_, other⟩ | fresh
    · exact other rfl
    · exact absurd (parted.below _ (List.mem_append_right _ grownIn)) (Nat.not_lt_of_le fresh)
  refine ⟨(((after.eraseCleaningNode grown.id).delete grown.id).pushNode index.top).pushNode
    (index.top + 1), root, ?_, ?_⟩
  rotate_left
  · refine ⟨represents_delete result.represents gone rfl rfl rfl, ?_, ?_, ?_, ?_, ?_, ?_, ?_⟩
    · exact result.listing.trans (split.divides.listing_up frame up)
    · exact result.separated
    · exact result.filled
    · exact fun name member => (names name member).imp_left And.left
    · exact (Nat.le_add_right _ _).trans result.top
    · exact result.most
    · intro all
      refine result.connected fun entry member => ?_
      rcases List.mem_cons.mp member with equal | member
      · exact equal
      · exact all entry member
  · rw [hands.finish, inserted, ok_bind]

/-- A node that is full after all. -/
theorem insertAt_full (calls : Nat) (index : IndexTree bPlus Key) (pInsertAt : Nat)
    (node : BT_Node_t Key) (tKey : BT_Key_t Key) (found : index.heap pInsertAt = some node)
    (full : ¬ (sort BT_Key_t.key (node.vecKey ++ [tKey])).length ≤ index.m_nMaxKey) :
    insertAt (calls + 1) index (some pInsertAt) tKey =
      (index.setNode pInsertAt { node with
        vecKey := sort BT_Key_t.key (node.vecKey ++ [tKey]) }).makeRoot pInsertAt >>= fun index =>
          splitUp (insertAt calls) index pInsertAt := by
  rw [insertAt, deref_some found, ok_bind]
  exact if_neg full

/-- A full root is split under a new one. -/
theorem insertAt_full_root (calls : Nat) (index : IndexTree bPlus Key) (node : BT_Node_t Key)
    (tKey : BT_Key_t Key) (grown : Tree (Entry Key) height) (found : index.heap grown.id = some node)
    (represents : Represents unsaved
      (index.setNode grown.id { node with vecKey := sort BT_Key_t.key (node.vecKey ++ [tKey]) })
      (Path.top.plug grown))
    (full : ¬ grown.keys.length ≤ index.m_nMaxKey) :
    ∃ later, (index.setNode grown.id { node with
        vecKey := sort BT_Key_t.key (node.vecKey ++ [tKey]) }).makeRoot grown.id = .ok later ∧
      insertAt (calls + 1) index (some grown.id) tKey = splitUp (insertAt calls) later grown.id ∧
      Parted later ⟨index.top, [], none⟩ Path.top grown ∧ later.m_nMaxKey = index.m_nMaxKey ∧
      later.top = index.top + 1 ∧ later.connected = index.connected := by
  have length := length_grown represents
  obtain ⟨later, made, parted, most, top, connected⟩ := makeRoot_spec represents
  refine ⟨later, made, ?_, parted, most, top, connected⟩
  rw [insertAt_full _ _ _ _ _ found (by rw [length]; exact full), made, ok_bind]

/-- A full node is split under its parent. -/
theorem insertAt_full_under (calls : Nat) (index : IndexTree bPlus Key) (node : BT_Node_t Key)
    (tKey : BT_Key_t Key) (frame : Frame (Entry Key) (Tree (Entry Key) height))
    (up : Path (Entry Key) (height + 1)) (grown : Tree (Entry Key) height)
    (found : index.heap grown.id = some node)
    (represents : Represents unsaved
      (index.setNode grown.id { node with vecKey := sort BT_Key_t.key (node.vecKey ++ [tKey]) })
      ((Path.under frame up).plug grown))
    (full : ¬ grown.keys.length ≤ index.m_nMaxKey) :
    insertAt (calls + 1) index (some grown.id) tKey =
      splitUp (insertAt calls) (index.setNode grown.id { node with
        vecKey := sort BT_Key_t.key (node.vecKey ++ [tKey]) }) grown.id := by
  have length := length_grown represents
  have node' := (holds_iff grown).mp (parted_of_represents represents).node
  rw [insertAt_full _ _ _ _ _ found (by rw [length]; exact full), makeRoot, deref_some node'.1,
    ok_bind]
  dsimp only
  rw [pParent_nodeOf, ok_bind]

variable [IsStrictOrder Key (· < ·)]

theorem insertAt_spec (path : Path (Entry Key) height) (grown : Tree (Entry Key) height)
    (calls : Nat) (enough : path.length + 2 ≤ calls) : InsertsAt calls bPlus path grown := by
  induction path generalizing calls with
  | @top height =>
    obtain ⟨calls, rfl⟩ := Nat.exists_eq_add_of_le' ((Nat.le_add_left 2 _).trans enough)
    intro index node tKey found represents growing some'
    by_cases room : grown.keys.length ≤ index.m_nMaxKey
    · exact insertAt_room _ _ _ _ _ _ found represents growing room
    · obtain ⟨later, -, splits, parted, most, topEq, connected⟩ :=
        insertAt_full_root (calls + 1) index node tKey grown found represents room
      have splitting := growing.splitting_root room index.top
      obtain ⟨after, root, done, inserted⟩ := splitUp_spec (calls + 1) later ⟨index.top, [], none⟩
        Path.top grown parted (most ▸ splitting) (most ▸ some')
        (fun left middle right later node tKey found represents growing some' =>
          insertAt_room _ _ _ _ _ _ found represents growing some')
      refine ⟨after, root, splits.trans done, inserted.of_later rfl ?_ ?_ most connected⟩
      · intro id member
        rcases List.mem_cons.mp member with equal | member
        · exact Or.inr (Nat.le_of_eq equal.symm)
        · exact Or.inl ((List.append_nil grown.ids) ▸ member)
      · exact (Nat.le_succ _).trans (Nat.le_of_eq topEq.symm)
  | under frame up inductionHypothesis =>
    obtain ⟨calls, rfl⟩ := Nat.exists_eq_add_of_le' ((Nat.le_add_left 1 _).trans enough)
    intro index node tKey found represents growing some'
    by_cases room : grown.keys.length ≤ index.m_nMaxKey
    · exact insertAt_room _ _ _ _ _ _ found represents growing room
    · obtain ⟨after, root, done, inserted⟩ := splitUp_spec calls _ frame up grown
        (parted_of_represents represents) (growing.splitting room) some'
        (fun left middle right => inductionHypothesis _ calls (Nat.le_of_succ_le_succ enough))
      refine ⟨after, root, ?_, inserted.of_later rfl (fun id => Or.inl) (Nat.le_refl _) rfl rfl⟩
      exact (insertAt_full_under _ _ _ _ frame up _ found represents room).trans done

end Climbing

end IndexTree

end LevelDBLib.KvDB
