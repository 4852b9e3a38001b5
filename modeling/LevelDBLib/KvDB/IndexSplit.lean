/-
This file is about the two steps of an insertion that relink nodes: `splitNode`
divides a node into two halves and gives the subtrees their new parents, and
`connectRightNode` puts the right half where the node was. Each is followed
through the heap, and with it what it leaves alone.
-/

import LevelDBLib.KvDB.IndexNodes

namespace LevelDBLib.KvDB

open Ranges BranchTrees

variable {Key : Type} {bPlus : Bool}

/-- No node has been written to the file yet. -/
def unsaved (_ : Nat) : Nat := SMD_INVALIDINDEX_RETURN

namespace IndexTree

/-! ### Parents -/

theorem deref_some {index : IndexTree bPlus Key} {address : Nat} {node : BT_Node_t Key}
    (found : index.heap address = some node) : index.deref (some address) = .ok (address, node) := by
  rw [deref, found]

theorem heap_setNode (index : IndexTree bPlus Key) (address : Nat) (node : BT_Node_t Key) :
    (index.setNode address node).heap address = some node := Function.update_self ..

theorem heap_setNode_other (index : IndexTree bPlus Key) (address other : Nat)
    (node : BT_Node_t Key) (different : other ≠ address) :
    (index.setNode address node).heap other = index.heap other :=
  Function.update_of_ne different ..

variable {height : Nat} {offsets : Nat → Nat}

/-- A tree whose topmost node got another parent. -/
theorem holds_reparent {index : IndexTree bPlus Key} {old : Option Nat} (parent : Nat)
    {tree : Tree (Entry Key) height} (held : Holds offsets index.heap old tree)
    (apart : tree.ids.Nodup) :
    ∃ node, index.heap tree.id = some node ∧
      Holds offsets (index.setNode tree.id { node with pParent := some parent }).heap (some parent)
        tree := by
  obtain ⟨found, below⟩ := (holds_iff tree).mp held
  rw [tree.ids_eq, List.nodup_cons] at apart
  refine ⟨_, found, (holds_iff tree).mpr ⟨?_, below.frame fun id inside => ?_⟩⟩
  · rw [heap_setNode, nodeOf_parent]
  · exact heap_setNode_other _ _ _ _ fun equal => apart.1 (equal ▸ inside)

variable (offsets) in
/-- Trees that are adopted keep their nodes below the topmost ones. -/
theorem adopt_spec (parent : Nat) (trees : List (Tree (Entry Key) height)) :
    ∀ index : IndexTree bPlus Key,
      (∀ tree ∈ trees, ∃ old, Holds offsets index.heap old tree) →
      (trees.flatMap Tree.ids).Nodup →
      ∃ heap, index.adopt parent (trees.map fun tree => some tree.id) =
          .ok { index with heap := heap } ∧
        (∀ tree ∈ trees, Holds offsets heap (some parent) tree) ∧
        ∀ id ∉ trees.flatMap Tree.ids, heap id = index.heap id := by
  induction trees with
  | nil =>
    intro index _ _
    exact ⟨index.heap, rfl, fun _ member => absurd member List.not_mem_nil, fun _ _ => rfl⟩
  | cons tree rest inductionHypothesis =>
    intro index held apart
    rw [List.flatMap_cons, List.nodup_append] at apart
    obtain ⟨treeApart, restApart, separate⟩ := apart
    obtain ⟨old, treeHeld⟩ := held tree List.mem_cons_self
    obtain ⟨node, found, adopted⟩ := holds_reparent parent treeHeld treeApart
    have outside : ∀ id ∈ rest.flatMap Tree.ids, id ≠ tree.id := fun id member equal =>
      separate tree.id tree.id_mem_ids id member equal.symm
    obtain ⟨heap, done, restHeld, same⟩ := inductionHypothesis
      (index.setNode tree.id { node with pParent := some parent })
      (fun other member => by
        obtain ⟨old, otherHeld⟩ := held other (List.mem_cons_of_mem _ member)
        refine ⟨old, otherHeld.frame fun id inside => heap_setNode_other _ _ _ _ ?_⟩
        exact outside id (List.mem_flatMap.mpr ⟨other, member, inside⟩)) restApart
    refine ⟨heap, ?_, ?_, ?_⟩
    · rw [List.map_cons, adopt, deref_some found, ok_bind]
      exact done
    · intro other member
      rcases List.mem_cons.mp member with equal | member
      · rw [equal]
        refine adopted.frame fun id inside => same id fun member => ?_
        exact separate id inside id member rfl
      · exact restHeld other member
    · intro id notInside
      rw [List.flatMap_cons, List.mem_append, not_or] at notInside
      rw [same id notInside.2]
      exact heap_setNode_other _ _ _ _ fun equal => notInside.1 (equal ▸ tree.id_mem_ids)

/-- A new node over the subtrees in front of its keys. -/
theorem newHalf_branch (index : IndexTree bPlus Key) (node : BT_Node_t Key)
    (items : List (Tree (Entry Key) height × Entry Key)) (branch : node.bLeaf = false)
    (held : ∀ item ∈ items, ∃ old, Holds offsets index.heap old item.1)
    (apart : (Tree.itemIds items).Nodup)
    (below : ∀ id ∈ Tree.itemIds items, id < index.top) :
    ∃ heap, index.newHalf node ((items.map fun item => (item.1.id, item.2)).map branchKey) =
        .ok (index.top, { index with heap := heap, top := index.top + 1 }) ∧
      heap index.top = some ⟨(items.map fun item => (item.1.id, item.2)).map branchKey,
        SMD_INVALIDINDEX_RETURN, false, node.pParent, none⟩ ∧
      (∀ item ∈ items, Holds offsets heap (some index.top) item.1) ∧
      ∀ id, id ≠ index.top → id ∉ Tree.itemIds items →
        heap id = index.heap id := by
  have flat : (items.map Prod.fst).flatMap Tree.ids = Tree.itemIds items :=
    List.flatMap_map ..
  obtain ⟨heap, done, children, same⟩ := adopt_spec offsets index.top
    (items.map Prod.fst)
    (index.alloc ⟨(items.map fun item => (item.1.id, item.2)).map branchKey,
      SMD_INVALIDINDEX_RETURN, false, node.pParent, none⟩)
    (fun tree member => by
      obtain ⟨item, inside, equal⟩ := List.mem_map.mp member
      obtain ⟨old, treeHeld⟩ := held item inside
      rw [← equal]
      refine ⟨old, treeHeld.frame fun id idInside => heap_setNode_other _ _ _ _ ?_⟩
      have := below id (Tree.ids_mem_itemIds inside idInside)
      omega)
    (by rw [flat]; exact apart)
  rw [flat] at same
  have pointers : ((items.map fun item => (item.1.id, item.2)).map branchKey).map
      BT_Key_t.pLeftSubTree = (items.map Prod.fst).map fun tree => some tree.id := by
    rw [List.map_map, List.map_map, List.map_map]
    rfl
  refine ⟨heap, ?_, ?_, ?_, ?_⟩
  · rw [newHalf, branch, if_neg Bool.false_ne_true, pointers, done, ok_bind]
    rfl
  · rw [same _ fun inside => absurd (below _ inside) (Nat.lt_irrefl _)]
    exact heap_setNode ..
  · intro item member
    exact children item.1 (List.mem_map_of_mem member)
  · intro id different outside
    rw [same id outside]
    exact heap_setNode_other _ _ _ _ different

/-- A subtree that is hung on the right of a new node. -/
theorem hangRight_spec (index : IndexTree bPlus Key) (half : Nat) (node : BT_Node_t Key)
    (subTree : Tree (Entry Key) height) {old : Option Nat} (found : index.heap half = some node)
    (held : Holds offsets index.heap old subTree) (apart : subTree.ids.Nodup)
    (outside : half ∉ subTree.ids) :
    ∃ heap, index.hangRight half (some subTree.id) = .ok { index with heap := heap } ∧
      heap half = some { node with pRightSubTree := some subTree.id } ∧
      Holds offsets heap (some half) subTree ∧
      ∀ id, id ≠ half → id ∉ subTree.ids → heap id = index.heap id := by
  obtain ⟨heap, done, children, same⟩ := adopt_spec offsets half [subTree]
    (index.setNode half { node with pRightSubTree := some subTree.id })
    (fun tree member => by
      rw [List.mem_singleton.mp member]
      refine ⟨old, held.frame fun id inside => heap_setNode_other _ _ _ _ ?_⟩
      exact fun equal => outside (equal ▸ inside))
    (by rw [List.flatMap_singleton]; exact apart)
  rw [List.flatMap_singleton] at same
  refine ⟨heap, ?_, ?_, children subTree List.mem_cons_self, ?_⟩
  · rw [hangRight, deref_some found, ok_bind]
    exact done
  · rw [same half outside]
    exact heap_setNode ..
  · intro id different notInside
    rw [same id notInside]
    exact heap_setNode_other _ _ _ _ different

/-! ### Splitting -/

/-- What a split leaves: two halves beside the node, under its parent. -/
structure SplitInto (index : IndexTree bPlus Key) (grown : Tree (Entry Key) height)
    (parent : Option Nat) (left : Tree (Entry Key) height) (middle : Entry Key)
    (right : Tree (Entry Key) height) (heap : Heap Key) : Prop where
  divides : grown.Divides bPlus left middle right
  leftId : left.id = index.top
  rightId : right.id = index.top + 1
  count : left.keys.length = grown.keys.length / 2
  leftHeld : Holds unsaved heap parent left
  rightHeld : Holds unsaved heap parent right
  remains : ∃ node, heap grown.id = some node ∧ node.pParent = parent
  same : ∀ id < index.top, id ∉ grown.ids → heap id = index.heap id

/-- The middle of a list that is not empty. -/
theorem exists_middle {Item : Type} (items : List Item) (some' : 0 < items.length) :
    ∃ front middle behind, items = front ++ middle :: behind ∧
      front.length = items.length / 2 := by
  have half : items.length / 2 < items.length := by omega
  refine ⟨items.take (items.length / 2), items[items.length / 2],
    items.drop (items.length / 2 + 1), ?_, List.length_take_of_le (by omega)⟩
  rw [← List.drop_eq_getElem_cons half, List.take_append_drop]

theorem getElem?_middle {Item : Type} (front behind : List Item) (middle : Item) (place : Nat)
    (length : front.length = place) : (front ++ middle :: behind)[place]? = some middle := by
  rw [List.getElem?_append_right (by omega), length, Nat.sub_self]
  rfl

theorem drop_middle {Item : Type} (front behind : List Item) (middle : Item) (place : Nat)
    (length : front.length = place) : (front ++ middle :: behind).drop (place + 1) = behind := by
  rw [← List.drop_drop, List.drop_left' length]
  rfl

/-- What a split looks at in the list of the keys: the middle, the keys in front of it, and those
from it or behind it on. -/
theorem map_middle {Item Other : Type} (image : Item → Other) {items front behind : List Item}
    {middle : Item} (whole : items = front ++ middle :: behind)
    (length : front.length = items.length / 2) :
    (items.map image)[items.length / 2]? = some (image middle) ∧
      (items.map image).take (items.length / 2) = front.map image ∧
      (items.map image).drop (items.length / 2) = (middle :: behind).map image ∧
      (items.map image).drop (items.length / 2 + 1) = behind.map image := by
  rw [← List.map_take, ← List.map_drop, ← List.map_drop, List.getElem?_map, ← length, whole,
    getElem?_middle _ _ _ _ rfl, List.take_left' rfl, List.drop_left' rfl, drop_middle _ _ _ _ rfl]
  exact ⟨rfl, rfl, rfl, rfl⟩

theorem splitNode_leaf (index : IndexTree bPlus Key) (grown : Tree (Entry Key) 0)
    (parent : Option Nat) (held : Holds unsaved index.heap parent grown)
    (below : grown.id < index.top) (some' : 0 < grown.keys.length) :
    ∃ left middle right heap, SplitInto index grown parent left middle right heap ∧
      index.splitNode grown.id = .ok (index.top, index.top + 1,
        ⟨middle.1, middle.2, some index.top⟩, { index with heap := heap, top := index.top + 2 }) := by
  obtain ⟨name, entries⟩ := grown
  obtain ⟨front, middle, behind, whole, length⟩ := exists_middle entries some'
  have found : index.heap name =
    some ⟨entries.map leafKey, SMD_INVALIDINDEX_RETURN, true, parent, none⟩ := held
  obtain ⟨at', taken, fromMiddle, fromBehind⟩ := map_middle leafKey whole length
  have dropped : (entries.map leafKey).drop
      (if bPlus && true then entries.length / 2 else entries.length / 2 + 1) =
        (if bPlus then middle :: behind else behind).map leafKey := by
    cases bPlus with
    | true => exact fromMiddle
    | false => exact fromBehind
  obtain ⟨node, same, ran⟩ : ∃ node : BT_Node_t Key, node.pParent = parent ∧
      index.splitNode name = .ok (index.top, index.top + 1,
        ⟨middle.1, middle.2, some index.top⟩,
        { index with
          heap := Function.update (Function.update (Function.update index.heap index.top
            (some ⟨front.map leafKey, SMD_INVALIDINDEX_RETURN, true, parent, none⟩))
            (index.top + 1) (some ⟨(if bPlus then middle :: behind else behind).map leafKey,
              SMD_INVALIDINDEX_RETURN, true, parent, none⟩)) name (some node)
          top := index.top + 2 }) := by
    refine ⟨⟨(entries.map leafKey).set (entries.length / 2) ⟨middle.1, middle.2, some index.top⟩,
      SMD_INVALIDINDEX_RETURN, true, parent, none⟩, rfl, ?_⟩
    rw [splitNode, deref_some found, ok_bind]
    simp only [List.length_map, at', taken, dropped, newHalf, ok_bind, if_true]
    rfl
  have first : index.top ≠ name := Nat.ne_of_gt below
  have second : index.top + 1 ≠ name := Nat.ne_of_gt (Nat.lt_succ_of_lt below)
  refine ⟨⟨index.top, front⟩, middle, ⟨index.top + 1, if bPlus then middle :: behind else behind⟩,
    _, ⟨⟨behind, whole, rfl⟩, rfl, rfl, length, ?_, ?_, ⟨node, Function.update_self .., same⟩, ?_⟩,
    ran⟩
  · exact (Function.update_of_ne first ..).trans
      ((Function.update_of_ne (Nat.ne_of_lt (Nat.lt_add_one _)) ..).trans
        (Function.update_self ..))
  · exact (Function.update_of_ne second ..).trans (Function.update_self ..)
  · intro id under outside
    have different : id ≠ name := fun equal => outside (equal ▸ List.mem_singleton.mpr rfl)
    exact (Function.update_of_ne different ..).trans ((Function.update_of_ne (by omega) ..).trans
      (Function.update_of_ne (by omega) ..))

/-- A branch whose halves are made and completed is split. -/
theorem splitNode_of_halves {index : IndexTree bPlus Key} {name : Nat} {parent : Option Nat}
    {items front behind : List (Tree (Entry Key) height × Entry Key)}
    {child last : Tree (Entry Key) height} {middle : Entry Key}
    (whole : items = front ++ (child, middle) :: behind) (length : front.length = items.length / 2)
    (found : index.heap name = some ⟨(items.map fun item => (item.1.id, item.2)).map branchKey,
      SMD_INVALIDINDEX_RETURN, false, parent, some last.id⟩)
    {heapLeft heapRight heapChild heapLast : Heap Key}
    (leftDone : index.newHalf ⟨(items.map fun item => (item.1.id, item.2)).map branchKey,
        SMD_INVALIDINDEX_RETURN, false, parent, some last.id⟩
        ((front.map fun item => (item.1.id, item.2)).map branchKey) =
      .ok (index.top, { index with heap := heapLeft, top := index.top + 1 }))
    (rightDone : ({ index with heap := heapLeft, top := index.top + 1 } : IndexTree bPlus Key).newHalf
        ⟨(items.map fun item => (item.1.id, item.2)).map branchKey,
        SMD_INVALIDINDEX_RETURN, false, parent, some last.id⟩
        ((behind.map fun item => (item.1.id, item.2)).map branchKey) =
      .ok (index.top + 1, { index with heap := heapRight, top := index.top + 1 + 1 }))
    (childDone : ({ index with heap := heapRight, top := index.top + 1 + 1 } :
        IndexTree bPlus Key).hangRight index.top (some child.id) =
      .ok { index with heap := heapChild, top := index.top + 1 + 1 })
    (lastDone : ({ index with heap := heapChild, top := index.top + 1 + 1 } :
        IndexTree bPlus Key).hangRight (index.top + 1) (some last.id) =
      .ok { index with heap := heapLast, top := index.top + 1 + 1 }) :
    ∃ node : BT_Node_t Key, node.pParent = parent ∧
      index.splitNode name = .ok (index.top, index.top + 1, ⟨middle.1, middle.2, some index.top⟩,
        { index with heap := Function.update heapLast name (some node), top := index.top + 2 }) := by
  obtain ⟨at', taken, -, dropped⟩ :=
    map_middle (branchKey ∘ fun item : Tree (Entry Key) height × Entry Key => (item.1.id, item.2))
      whole length
  simp only [← List.map_map, Function.comp_apply] at at' taken dropped
  refine ⟨⟨((items.map fun item => (item.1.id, item.2)).map branchKey).set (items.length / 2)
    ⟨middle.1, middle.2, some index.top⟩, SMD_INVALIDINDEX_RETURN, false, parent, some last.id⟩,
    rfl, ?_⟩
  rw [splitNode, deref_some found, ok_bind]
  simp only [List.length_map, at', taken, dropped, Bool.and_false, if_neg Bool.false_ne_true]
  rw [leftDone, ok_bind]
  dsimp only
  rw [rightDone, ok_bind]
  dsimp only [branchKey]
  rw [childDone, ok_bind, lastDone]
  rfl

theorem splitNode_branch (index : IndexTree bPlus Key) (grown : Tree (Entry Key) (height + 1))
    (parent : Option Nat) (held : Holds unsaved index.heap parent grown) (apart : grown.ids.Nodup)
    (below : ∀ id ∈ grown.ids, id < index.top) (some' : 0 < grown.keys.length) :
    ∃ left middle right heap, SplitInto index grown parent left middle right heap ∧
      index.splitNode grown.id = .ok (index.top, index.top + 1,
        ⟨middle.1, middle.2, some index.top⟩, { index with heap := heap, top := index.top + 2 }) := by
  obtain ⟨name, items, last⟩ := grown
  have someItem : 0 < items.length := by
    rw [← List.length_map (f := Prod.snd)]
    exact some'
  obtain ⟨front, ⟨child, middle⟩, behind, whole, length⟩ := exists_middle items someItem
  have found : index.heap name = some ⟨(items.map fun item => (item.1.id, item.2)).map branchKey,
    SMD_INVALIDINDEX_RETURN, false, parent, some last.id⟩ := held.1
  have children : ∀ child ∈ items.map Prod.fst ++ [last],
    Holds unsaved index.heap (some name) child := held.2
  -- the nodes of the four parts of the branch are apart
  have ids : @Tree.ids (Entry Key) (height + 1) ⟨name, items, last⟩ = name ::
      (Tree.itemIds front ++ (child.ids ++ (Tree.itemIds behind ++ last.ids))) := by
    show name :: (items.map Prod.fst ++ [last]).flatMap Tree.ids = _
    rw [whole, List.map_append, List.map_cons, List.append_assoc, List.cons_append,
      List.flatMap_append, List.flatMap_cons, List.flatMap_append, List.flatMap_singleton,
      List.flatMap_map, List.flatMap_map]
    rfl
  have under := below
  rw [ids] at apart under
  simp only [List.mem_cons, List.mem_append, or_imp, forall_and, forall_eq] at under
  obtain ⟨nameUnder, frontUnder, childUnder, behindUnder, lastUnder⟩ := under
  simp only [List.nodup_cons, List.nodup_append, List.mem_append, not_or, or_imp, forall_and] at apart
  obtain ⟨⟨nameFront, nameChild, nameBehind, nameLast⟩, frontApart,
    ⟨childApart, ⟨behindApart, lastApart, behindLast⟩, childBehind, childLast⟩,
    frontChild, frontBehind, frontLast⟩ := apart
  have itemsHeld : ∀ item ∈ items, Holds unsaved index.heap (some name) item.1 := fun item member =>
    children item.1 (List.mem_append_left _ (List.mem_map_of_mem member))
  have lastHeld : Holds unsaved index.heap (some name) last :=
    children last (List.mem_append_right _ List.mem_cons_self)
  have childHeld := itemsHeld (child, middle) (by rw [whole]; simp)
  have someFront : ∀ item ∈ front, item ∈ items := fun item member =>
    whole ▸ List.mem_append_left _ member
  have someBehind : ∀ item ∈ behind, item ∈ items := fun item member =>
    whole ▸ List.mem_append_right _ (List.mem_cons_of_mem _ member)
  -- the left half, the right half, and the two subtrees that are hung on them
  obtain ⟨heapLeft, leftDone, leftNode, leftHeld, leftSame⟩ := newHalf_branch index
    ⟨(items.map fun item => (item.1.id, item.2)).map branchKey, SMD_INVALIDINDEX_RETURN, false,
      parent, some last.id⟩ front rfl
    (fun item member => ⟨some name, itemsHeld item (someFront item member)⟩) frontApart frontUnder
  obtain ⟨heapRight, rightDone, rightNode, rightHeld, rightSame⟩ := newHalf_branch
    ({ index with heap := heapLeft, top := index.top + 1 } : IndexTree bPlus Key)
    ⟨(items.map fun item => (item.1.id, item.2)).map branchKey, SMD_INVALIDINDEX_RETURN, false,
      parent, some last.id⟩ behind rfl
    (fun item member => ⟨some name, (itemsHeld item (someBehind item member)).frame fun id inside => by
      have listed := Tree.ids_mem_itemIds member inside
      exact leftSame id (by grind) (by grind)⟩) behindApart (by grind)
  obtain ⟨heapChild, childDone, childNode, childHung, childSame⟩ := hangRight_spec
    ({ index with heap := heapRight, top := index.top + 1 + 1 } : IndexTree bPlus Key) index.top _ child
    ((rightSame _ (by grind) (by grind)).trans leftNode)
    (childHeld.frame fun id inside =>
      (rightSame id (by grind) (by grind)).trans (leftSame id (by grind) (by grind)))
    childApart (by grind)
  obtain ⟨heapLast, lastDone, lastNode, lastHung, lastSame⟩ := hangRight_spec
    ({ index with heap := heapChild, top := index.top + 1 + 1 } : IndexTree bPlus Key) (index.top + 1)
    _ last
    ((childSame _ (by grind) (by grind)).trans rightNode)
    (lastHeld.frame fun id inside => (childSame id (by grind) (by grind)).trans
      ((rightSame id (by grind) (by grind)).trans (leftSame id (by grind) (by grind))))
    lastApart (by grind)
  obtain ⟨node, same, ran⟩ := splitNode_of_halves whole length found leftDone rightDone childDone
    lastDone
  have nameLast' : ∀ id, id ≠ name → Function.update heapLast name (some node) id = heapLast id :=
    fun id different => Function.update_of_ne different ..
  refine ⟨⟨index.top, front, child⟩, middle, ⟨index.top + 1, behind, last⟩, _,
    ⟨⟨whole, rfl⟩, rfl, rfl, ?_, ⟨?_, ?_⟩, ⟨?_, ?_⟩, ⟨node, Function.update_self .., same⟩, ?_⟩, ran⟩
  · show (front.map Prod.snd).length = (items.map Prod.snd).length / 2
    rw [List.length_map, List.length_map, length]
  · exact (nameLast' _ (by grind)).trans ((lastSame _ (by grind) (by grind)).trans childNode)
  · intro tree member
    rcases List.mem_append.mp member with member | member
    · obtain ⟨item, listed, equal⟩ := List.mem_map.mp member
      rw [← equal]
      refine (leftHeld item listed).frame fun id inside => ?_
      have listedId := Tree.ids_mem_itemIds listed inside
      exact (nameLast' id (by grind)).trans ((lastSame id (by grind) (by grind)).trans
        ((childSame id (by grind) (by grind)).trans (rightSame id (by grind) (by grind))))
    · rw [List.mem_singleton.mp member]
      exact childHung.frame fun id inside =>
        (nameLast' id (by grind)).trans (lastSame id (by grind) (by grind))
  · exact (nameLast' _ (by grind)).trans lastNode
  · intro tree member
    rcases List.mem_append.mp member with member | member
    · obtain ⟨item, listed, equal⟩ := List.mem_map.mp member
      rw [← equal]
      refine (rightHeld item listed).frame fun id inside => ?_
      have listedId := Tree.ids_mem_itemIds listed inside
      exact (nameLast' id (by grind)).trans ((lastSame id (by grind) (by grind)).trans
        (childSame id (by grind) (by grind)))
    · rw [List.mem_singleton.mp member]
      exact lastHung.frame fun id inside => nameLast' id (by grind)
  · intro id under outside
    have outside' : id ∉ name :: (Tree.itemIds front ++ (child.ids ++
        (Tree.itemIds behind ++ last.ids))) := ids ▸ outside
    simp only [List.mem_cons, List.mem_append, not_or] at outside'
    obtain ⟨notName, notFront, notChild, notBehind, notLast⟩ := outside'
    exact (nameLast' id notName).trans ((lastSame id (by omega) notLast).trans
      ((childSame id (by omega) notChild).trans ((rightSame id (by grind) notBehind).trans
        (leftSame id (by omega) notFront))))

/-- Splitting a node of a tree gives the two halves of the tree. -/
theorem splitNode_spec (index : IndexTree bPlus Key) (grown : Tree (Entry Key) height)
    (parent : Option Nat) (held : Holds unsaved index.heap parent grown) (apart : grown.ids.Nodup)
    (below : ∀ id ∈ grown.ids, id < index.top) (some' : 0 < grown.keys.length) :
    ∃ left middle right heap, SplitInto index grown parent left middle right heap ∧
      index.splitNode grown.id = .ok (index.top, index.top + 1,
        ⟨middle.1, middle.2, some index.top⟩, { index with heap := heap, top := index.top + 2 }) := by
  cases height with
  | zero => exact splitNode_leaf index grown parent held (below _ grown.id_mem_ids) some'
  | succ height => exact splitNode_branch index grown parent held apart below some'

/-! ### Linking the right half -/

/-- The place of a subtree among the keys of a node. -/
theorem relink_items (hole right : Nat) (before : List (Nat × Entry Key)) (entry : Entry Key)
    (items : List (Nat × Entry Key)) (apart : hole ∉ before.map Prod.fst) :
    relink hole right ((before ++ (hole, entry) :: items).map branchKey) =
      some ((before ++ (right, entry) :: items).map branchKey) := by
  induction before with
  | nil =>
    rw [List.nil_append, List.nil_append, List.map_cons, List.map_cons, relink]
    exact if_pos rfl
  | cons item rest inductionHypothesis =>
    rw [List.map_cons, List.mem_cons, not_or] at apart
    have different : (branchKey item).pLeftSubTree ≠ some hole := fun equal =>
      apart.1 (Option.some.inj equal).symm
    rw [List.cons_append, List.cons_append, List.map_cons, List.map_cons, relink,
      if_neg different, inductionHypothesis apart.2]
    rfl

/-- The right half takes the place of the node in its parent, also in a parent that was just made
and has no subtree yet. -/
theorem connectRightNode_spec (index : IndexTree bPlus Key) (shape : Frame (Entry Key) Nat)
    (hole right offset : Nat) (above : Option Nat) (node : BT_Node_t Key) (pointer : Option Nat)
    (found : index.heap hole = some node) (parent : node.pParent = some shape.id)
    (parentFound : index.heap shape.id =
      some { branchNode offset above (shape.fill hole) with pRightSubTree := pointer })
    (pointed : pointer = some (shape.fill hole).right ∨ (pointer = none ∧ shape.after = none))
    (foreApart : hole ∉ shape.fore) (aftApart : hole ∉ shape.aft) :
    index.connectRightNode hole right =
      .ok (true, index.setNode shape.id (branchNode offset above (shape.fill right))) := by
  rw [connectRightNode, deref_some found, ok_bind]
  dsimp only
  rw [parent, deref_some parentFound, ok_bind]
  obtain ⟨name, before, after⟩ := shape
  cases after with
  | none =>
    refine if_pos ?_
    rcases pointed with equal | equal
    · exact Or.inl equal
    · exact Or.inr equal.1
  | some behind =>
    obtain ⟨entry, items, last⟩ := behind
    have pointed' : pointer = some last := by
      rcases pointed with equal | equal
      · exact equal
      · cases equal.2
    have different : last ≠ hole := fun equal =>
      aftApart (List.mem_append_right _ (List.mem_singleton.mpr equal.symm))
    rw [if_neg]
    · simp only [Frame.fill, branchNode, relink_items hole right before entry items foreApart,
        pointed']
    · rintro (equal | equal)
      · rw [pointed'] at equal
        exact different (Option.some.inj equal)
      · rw [pointed'] at equal
        cases equal

end IndexTree

end LevelDBLib.KvDB
