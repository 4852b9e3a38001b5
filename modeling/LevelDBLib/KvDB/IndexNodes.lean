/-
This file says when a heap of nodes is a search tree. A tree of the theory of
branch trees has a name for every node; in the heap the name is the address, and
`Holds` asks for the node that belongs there: the keys of the node, its pointers
to its subtrees, and the pointer back to its parent.

A climbing insertion only knows the node it is at and what is above it, so the
heap around a node is described by the path above it (`HoldsPath`).
-/

import LevelDBLib.KvDB.Index
import LevelDBLib.Library.BranchTrees

namespace LevelDBLib.KvDB

open Ranges BranchTrees

/-- A key with its data offset. -/
abbrev Entry (Key : Type) := Key × Nat

abbrev Heap (Key : Type) := Nat → Option (BT_Node_t Key)

variable {Key : Type}

/-! ### The nodes of a tree -/

def leafKey (entry : Entry Key) : BT_Key_t Key := ⟨entry.1, entry.2, none⟩

def branchKey (item : Nat × Entry Key) : BT_Key_t Key := ⟨item.2.1, item.2.2, some item.1⟩

def branchNode (offset : Nat) (parent : Option Nat) (branch : Branch (Entry Key) Nat) :
    BT_Node_t Key :=
  ⟨branch.items.map branchKey, offset, false, parent, some branch.right⟩

/-- The topmost node of a tree. -/
def nodeOf (offset : Nat) (parent : Option Nat) :
    {height : Nat} → Tree (Entry Key) height → BT_Node_t Key
  | 0, tree => ⟨(Leaf.entries tree).map leafKey, offset, true, parent, none⟩
  | _ + 1, tree => branchNode offset parent (Branch.map Tree.id tree)

/-- The entry that a key of a node stands for. -/
def BT_Key_t.entry (tKey : BT_Key_t Key) : Entry Key := (tKey.key, tKey.nOffset)

/-- The children of a node, in order. -/
def BT_Node_t.subTrees (node : BT_Node_t Key) : List (Option Nat) :=
  (node.vecKey.map BT_Key_t.pLeftSubTree ++ [node.pRightSubTree]).filter Option.isSome

section Nodes

variable {height : Nat}

theorem entries_nodeOf (offset : Nat) (parent : Option Nat) (tree : Tree (Entry Key) height) :
    (nodeOf offset parent tree).vecKey.map BT_Key_t.entry = tree.keys := by
  cases height with
  | zero =>
    show ((Leaf.entries tree).map leafKey).map BT_Key_t.entry = Leaf.entries tree
    rw [List.map_map]
    exact List.map_id _
  | succ height =>
    show (((Branch.items tree).map _).map branchKey).map BT_Key_t.entry =
      (Branch.items tree).map Prod.snd
    rw [List.map_map, List.map_map]
    rfl

theorem length_nodeOf (offset : Nat) (parent : Option Nat) (tree : Tree (Entry Key) height) :
    (nodeOf offset parent tree).vecKey.length = tree.keys.length := by
  rw [← entries_nodeOf offset parent tree, List.length_map]

theorem pParent_nodeOf (offset : Nat) (parent : Option Nat) (tree : Tree (Entry Key) height) :
    (nodeOf offset parent tree).pParent = parent := by
  cases height with
  | zero => rfl
  | succ height => rfl

/-- Nodes that differ in their parents only. -/
theorem nodeOf_parent (offset : Nat) (parent other : Option Nat)
    (tree : Tree (Entry Key) height) :
    { nodeOf offset parent tree with pParent := other } = nodeOf offset other tree := by
  cases height with
  | zero => rfl
  | succ height => rfl

/-- The names of the subtrees of a tree. -/
def childIds : {height : Nat} → Tree (Entry Key) height → List Nat
  | 0, _ => []
  | _ + 1, tree => (Branch.children tree).map Tree.id

theorem subTrees_nodeOf (offset : Nat) (parent : Option Nat) (tree : Tree (Entry Key) height) :
    (nodeOf offset parent tree).subTrees = (childIds tree).map some := by
  cases height with
  | zero =>
    show (((Leaf.entries tree).map leafKey).map BT_Key_t.pLeftSubTree ++ [none]).filter _ = []
    rw [List.filter_eq_nil_iff]
    intro pointer member
    rcases List.mem_append.mp member with inside | last
    · obtain ⟨tKey, keyIn, rfl⟩ := List.mem_map.mp inside
      obtain ⟨entry, -, rfl⟩ := List.mem_map.mp keyIn
      exact Bool.false_ne_true
    · rw [List.mem_singleton.mp last]
      exact Bool.false_ne_true
  | succ height =>
    have pointers : (nodeOf offset parent tree).vecKey.map BT_Key_t.pLeftSubTree ++
        [(nodeOf offset parent tree).pRightSubTree] = (childIds tree).map some := by
      show (((Branch.items tree).map _).map branchKey).map BT_Key_t.pLeftSubTree ++ [some _] =
        (((Branch.items tree).map Prod.fst ++ [Branch.right tree]).map Tree.id).map some
      rw [List.map_map, List.map_map, List.map_append, List.map_append, List.map_map, List.map_map]
      rfl
    rw [BT_Node_t.subTrees, pointers, List.filter_eq_self]
    intro pointer member
    obtain ⟨id, -, rfl⟩ := List.mem_map.mp member
    rfl

end Nodes

/-! ### Trees in a heap -/

/-- The nodes of a tree stand in the heap at their names, and the nodes of its subtrees. -/
def Holds (offsets : Nat → Nat) (heap : Heap Key) :
    {height : Nat} → Option Nat → Tree (Entry Key) height → Prop
  | 0, parent, tree => heap (Leaf.id tree) = some (nodeOf (offsets (Leaf.id tree)) parent tree)
  | _ + 1, parent, tree =>
    heap (Branch.id tree) = some (nodeOf (offsets (Branch.id tree)) parent tree) ∧
      ∀ child ∈ Branch.children tree, Holds offsets heap (some (Branch.id tree)) child

/-- The nodes of the subtrees of a tree stand in the heap. -/
def HoldsBelow (offsets : Nat → Nat) (heap : Heap Key) :
    {height : Nat} → Tree (Entry Key) height → Prop
  | 0, _ => True
  | _ + 1, tree => ∀ child ∈ Branch.children tree, Holds offsets heap (some (Branch.id tree)) child

/-- The nodes above a node stand in the heap, and the subtrees beside it. -/
def HoldsPath (offsets : Nat → Nat) (heap : Heap Key) :
    {height : Nat} → Path (Entry Key) height → Nat → Prop
  | _, .top, _ => True
  | _, .under frame up, hole =>
    heap frame.id =
        some (branchNode (offsets frame.id) up.parent ((frame.map Tree.id).fill hole)) ∧
      (∀ child ∈ frame.fore ++ frame.aft, Holds offsets heap (some frame.id) child) ∧
      HoldsPath offsets heap up frame.id

section Held

variable {height : Nat} {offsets : Nat → Nat} {heap other : Heap Key} {parent : Option Nat}

theorem holds_iff (tree : Tree (Entry Key) height) :
    Holds offsets heap parent tree ↔
      heap tree.id = some (nodeOf (offsets tree.id) parent tree) ∧
        HoldsBelow offsets heap tree := by
  cases height with
  | zero => exact ⟨fun held => ⟨held, trivial⟩, And.left⟩
  | succ height => exact Iff.rfl

/-- Only the nodes of the tree matter. -/
theorem Holds.frame {tree : Tree (Entry Key) height} (held : Holds offsets heap parent tree)
    (same : ∀ id ∈ tree.ids, other id = heap id) : Holds offsets other parent tree := by
  induction height generalizing parent with
  | zero => exact (same _ tree.id_mem_ids).trans held
  | succ height inductionHypothesis =>
    refine ⟨(same _ tree.id_mem_ids).trans held.1, fun child member => ?_⟩
    refine inductionHypothesis (held.2 child member) fun id inside => same id ?_
    exact List.mem_cons_of_mem _ (List.mem_flatMap.mpr ⟨child, member, inside⟩)

/-- Every name of the tree is the address of a node. -/
theorem Holds.found {tree : Tree (Entry Key) height} (held : Holds offsets heap parent tree)
    {id : Nat} (member : id ∈ tree.ids) : ∃ node, heap id = some node ∧ node.nOffset = offsets id := by
  induction height generalizing parent with
  | zero =>
    obtain rfl := List.mem_singleton.mp member
    exact ⟨_, held, rfl⟩
  | succ height inductionHypothesis =>
    rcases List.mem_cons.mp member with rfl | inside
    · exact ⟨_, held.1, rfl⟩
    · obtain ⟨child, childIn, idIn⟩ := List.mem_flatMap.mp inside
      exact inductionHypothesis (held.2 child childIn) idIn

theorem HoldsBelow.frame {tree : Tree (Entry Key) height} (held : HoldsBelow offsets heap tree)
    (same : ∀ id ∈ tree.innerIds, other id = heap id) : HoldsBelow offsets other tree := by
  cases height with
  | zero => trivial
  | succ height =>
    intro child member
    refine (held child member).frame fun id inside => same id ?_
    exact List.mem_flatMap.mpr ⟨child, member, inside⟩

theorem HoldsPath.frame {path : Path (Entry Key) height} {hole : Nat}
    (held : HoldsPath offsets heap path hole) (same : ∀ id ∈ path.ids, other id = heap id) :
    HoldsPath offsets other path hole := by
  induction path generalizing hole with
  | top => trivial
  | under frame up inductionHypothesis =>
    obtain ⟨here, beside, above⟩ := held
    refine ⟨(same _ (List.mem_append_left _ List.mem_cons_self)).trans here, ?_, ?_⟩
    · intro child member
      refine (beside child member).frame fun id inside => same id ?_
      refine List.mem_append_left _ (List.mem_cons_of_mem _ ?_)
      rw [← List.flatMap_append]
      exact List.mem_flatMap.mpr ⟨child, member, inside⟩
    · exact inductionHypothesis above fun id member => same id (List.mem_append_right _ member)

/-- The subtree in the hole of a branch stands in the heap too. -/
theorem holds_hole {frame : Frame (Entry Key) (Tree (Entry Key) height)}
    {hole : Tree (Entry Key) height} (held : Holds offsets heap parent (frame.tree hole)) :
    Holds offsets heap (some (frame.tree hole).id) hole := by
  refine held.2 hole ?_
  show hole ∈ (frame.fill hole).children
  rw [frame.children_fill]
  exact List.mem_append_right _ List.mem_cons_self

/-- The nodes of a whole tree are those above a place and those of the tree in it. -/
theorem holds_plug (path : Path (Entry Key) height) (tree : Tree (Entry Key) height) :
    Holds offsets heap none (path.plug tree).tree ↔
      HoldsPath offsets heap path tree.id ∧ Holds offsets heap path.parent tree := by
  induction path with
  | top => exact ⟨fun held => ⟨trivial, held⟩, And.right⟩
  | under frame up inductionHypothesis =>
    have here : (frame.tree tree).id = frame.id := frame.id_fill tree
    have children : Branch.children (frame.tree tree) = frame.fore ++ tree :: frame.aft :=
      frame.children_fill tree
    have node : nodeOf (offsets frame.id) up.parent (frame.tree tree) =
        branchNode (offsets frame.id) up.parent ((frame.map Tree.id).fill tree.id) := by
      rw [← frame.map_fill]
      rfl
    rw [Path.plug, inductionHypothesis, holds_iff, here, node, HoldsPath]
    have below : HoldsBelow offsets heap (frame.tree tree) ↔
        ∀ child ∈ Branch.children (frame.tree tree), Holds offsets heap (some frame.id) child := by
      rw [← here]
      rfl
    rw [below, children, List.forall_mem_append, List.forall_mem_cons, List.forall_mem_append]
    constructor
    · rintro ⟨above, top, fore, hole, aft⟩
      exact ⟨⟨top, ⟨fore, aft⟩, above⟩, hole⟩
    · rintro ⟨⟨top, ⟨fore, aft⟩, above⟩, hole⟩
      exact ⟨above, top, fore, hole, aft⟩

end Held

end LevelDBLib.KvDB
