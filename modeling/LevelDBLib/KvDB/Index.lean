/-
This file models the two search trees of `SMDIndexSegment.h` in memory: the
B-tree `SMDIndex` and the B+ tree `SMDIndexBp`. The classes differ in one place
of an insertion: the B+ tree leaves the middle key of a leaf it splits in the
right half. `bPlus` says which of the two classes is meant.

Nodes are allocated one by one and linked by pointers, so a tree is a heap: a
node pointer is an address, `NULL` is `none`, and a node that was never allocated
or that was deleted is absent. The keys carry the data offset of their record:
the member `nOffset` of the B-tree, the member `nLSubTreeOffset` of a leaf of the
B+ tree. What only a search in the file uses is in `IndexFile`.

`FindInsertNode` and `SearchKey` descend, `InsertAt` climbs from parent to parent,
and nothing in the code bounds them; each takes the number of calls it may make,
and running out of it is the fault of a call that never ends.
-/

import Mathlib.Logic.Function.Basic
import LevelDBLib.KvDB.Value
import LevelDBLib.Library.Ranges

namespace LevelDBLib.KvDB

open Ranges

def SMD_INVALIDINDEX_RETURN : Nat := 0xFFFFFFFF

structure BT_Key_t (Key : Type) where
  key : Key
  nOffset : Nat
  pLeftSubTree : Option Nat
deriving DecidableEq

structure BT_Node_t (Key : Type) where
  vecKey : List (BT_Key_t Key)
  nOffset : Nat
  bLeaf : Bool
  pParent : Option Nat
  pRightSubTree : Option Nat
deriving DecidableEq

/-- The pointer to the subtree in front of a key, or behind all keys of the node. -/
def BT_Node_t.subTreeAt {Key : Type} (node : BT_Node_t Key) (place : Nat) : Option Nat :=
  match node.vecKey[place]? with
  | some tKey => tKey.pLeftSubTree
  | none => node.pRightSubTree

/-- An index object: the B+ tree if `bPlus` holds, and the B-tree otherwise. -/
structure IndexTree (bPlus : Bool) (Key : Type) where
  m_nMaxKey : Nat
  m_pBtreeRoot : Option Nat
  m_vecAllNodeP : List Nat
  /-- The nodes at their addresses. -/
  heap : Nat → Option (BT_Node_t Key)
  /-- The address of the next node that is allocated. -/
  top : Nat
  /-- What `ConnectRightNode` has returned so far, which the code does not keep. -/
  connected : List Bool

namespace IndexTree

variable {bPlus : Bool} {Key : Type}

/-! ### Construction -/

/-- An index without nodes. -/
def empty (m_nMaxKey : Nat) : IndexTree bPlus Key := ⟨m_nMaxKey, none, [], fun _ => none, 0, []⟩

/-- The constructor that is given the maximum number of keys. -/
def new (nMaxKey : Int) : IndexTree bPlus Key := empty (ushort nMaxKey)

/-- The constructor that computes the maximum number of keys from the page size. -/
def ofPageSize (nPageSize : Nat) : IndexTree bPlus Key :=
  let nRealPageSize := uint ((nPageSize : Int) - 16)
  empty (ushort (if bPlus then uint ((nRealPageSize : Int) - 5) / 8
    else uint ((nRealPageSize : Int) - 4) / 12))

/-- An index object in front of its first insertion, from one of the constructors or with any maximum
number of keys. -/
inductive Constructed : IndexTree bPlus Key → Prop where
  | empty (m_nMaxKey : Nat) : Constructed (empty m_nMaxKey)
  | new (nMaxKey : Int) : Constructed (new nMaxKey)
  | ofPageSize (nPageSize : Nat) : Constructed (ofPageSize nPageSize)

theorem Constructed.eq_empty {index : IndexTree bPlus Key} (constructed : Constructed index) :
    index = IndexTree.empty index.m_nMaxKey := by
  cases constructed <;> rfl

/-! ### Nodes -/

/-- The node behind a pointer, with its address. -/
def deref (index : IndexTree bPlus Key) : Option Nat → Except Fault (Nat × BT_Node_t Key)
  | none => .error .nullPointer
  | some address =>
    match index.heap address with
    | none => .error .outOfBounds
    | some node => .ok (address, node)

def setNode (index : IndexTree bPlus Key) (address : Nat) (node : BT_Node_t Key) :
    IndexTree bPlus Key :=
  { index with heap := Function.update index.heap address (some node) }

/-- `new BT_Node_t`; the node gets the address `index.top`. -/
def alloc (index : IndexTree bPlus Key) (node : BT_Node_t Key) : IndexTree bPlus Key :=
  { index.setNode index.top node with top := index.top + 1 }

def delete (index : IndexTree bPlus Key) (address : Nat) : IndexTree bPlus Key :=
  { index with heap := Function.update index.heap address none }

/-- For easy cleaning. -/
def pushNode (index : IndexTree bPlus Key) (address : Nat) : IndexTree bPlus Key :=
  { index with m_vecAllNodeP := index.m_vecAllNodeP ++ [address] }

def record (index : IndexTree bPlus Key) (result : Bool) : IndexTree bPlus Key :=
  { index with connected := result :: index.connected }

def eraseCleaningNode (index : IndexTree bPlus Key) (address : Nat) : IndexTree bPlus Key :=
  { index with m_vecAllNodeP := index.m_vecAllNodeP.erase address }

/-- Every node behind one of the pointers gets the parent. -/
def adopt (parent : Nat) :
    IndexTree bPlus Key → List (Option Nat) → Except Fault (IndexTree bPlus Key)
  | index, [] => .ok index
  | index, pointer :: rest => do
    let (address, node) ← index.deref pointer
    adopt parent (index.setNode address { node with pParent := some parent }) rest

/-! ### Searching -/

variable [LT Key] [DecidableLT Key]

/-- The leaf where a key belongs, or none if one of the nodes on the way holds the key. -/
def findInsertNode (index : IndexTree bPlus Key) (tKey : Key) :
    Nat → Option Nat → Except Fault (Option Nat)
  | 0, _ => .error .nonTermination
  | calls + 1, pNode => do
    let (address, node) ← index.deref pNode
    let first := lowerBound BT_Key_t.key node.vecKey tKey
    let second := upperBound BT_Key_t.key node.vecKey tKey
    if first = second then
      if node.bLeaf then .ok (some address)
      else index.findInsertNode tKey calls (node.subTreeAt first)
    else .ok none

/-- `SMDIndex::SearchKey`. -/
def searchKey (index : IndexTree false Key) (tKey : Key) : Nat → Option Nat → Except Fault Nat
  | 0, _ => .error .nonTermination
  | calls + 1, pNode => do
    let (_, node) ← index.deref pNode
    let first := lowerBound BT_Key_t.key node.vecKey tKey
    let second := upperBound BT_Key_t.key node.vecKey tKey
    if second - first = 1 then
      match node.vecKey[first]? with
      | some found => .ok found.nOffset
      | none => .error .outOfBounds
    else if first = second then
      match node.subTreeAt first with
      | some subTree => index.searchKey tKey calls (some subTree)
      | none => .ok SMD_INVALIDINDEX_RETURN
    else .ok SMD_INVALIDINDEX_RETURN

def searchFromMem (index : IndexTree false Key) (key : Key) : Except Fault Nat :=
  index.searchKey key (index.top + 1) index.m_pBtreeRoot

/-! ### Inserting -/

/-- The first key whose left subtree is `pInsertAt` gets `pRightNode` in its place. -/
def relink (pInsertAt pRightNode : Nat) : List (BT_Key_t Key) → Option (List (BT_Key_t Key))
  | [] => none
  | iterK :: rest =>
    if iterK.pLeftSubTree = some pInsertAt then
      some ({ iterK with pLeftSubTree := some pRightNode } :: rest)
    else (relink pInsertAt pRightNode rest).map (iterK :: ·)

/-- In the parent of `pInsertAt`, `pRightNode` takes the place of `pInsertAt`. -/
def connectRightNode (index : IndexTree bPlus Key) (pInsertAt pRightNode : Nat) :
    Except Fault (Bool × IndexTree bPlus Key) := do
  let (_, node) ← index.deref (some pInsertAt)
  let (pParent, parent) ← index.deref node.pParent
  if parent.pRightSubTree = some pInsertAt ∨ parent.pRightSubTree = none then
    .ok (true, index.setNode pParent { parent with pRightSubTree := some pRightNode })
  else
    match relink pInsertAt pRightNode parent.vecKey with
    | some vecKey => .ok (true, index.setNode pParent { parent with vecKey := vecKey })
    | none => .ok (false, index)

/-- A root that overflows gets a new root as its parent. -/
def makeRoot (index : IndexTree bPlus Key) (pInsertAt : Nat) : Except Fault (IndexTree bPlus Key) := do
  let (_, node) ← index.deref (some pInsertAt)
  match node.pParent with
  | some _ => .ok index
  | none =>
    let pBtRootNode := index.top
    let index := index.alloc ⟨[], SMD_INVALIDINDEX_RETURN, false, none, none⟩
    let index := { index with m_pBtreeRoot := some pBtRootNode }
    let index := index.setNode pInsertAt { node with pParent := some pBtRootNode }
    .ok (index.pushNode pBtRootNode)

/-- A new node beside `node` with some of its keys; the subtrees in front of them follow. -/
def newHalf (index : IndexTree bPlus Key) (node : BT_Node_t Key) (keys : List (BT_Key_t Key)) :
    Except Fault (Nat × IndexTree bPlus Key) := do
  let half := index.top
  let index := index.alloc ⟨keys, SMD_INVALIDINDEX_RETURN, node.bLeaf, node.pParent, none⟩
  let index ← if node.bLeaf then .ok index else index.adopt half (keys.map BT_Key_t.pLeftSubTree)
  .ok (half, index)

/-- A subtree becomes the most right one of a new node. -/
def hangRight (index : IndexTree bPlus Key) (half : Nat) (subTree : Option Nat) :
    Except Fault (IndexTree bPlus Key) := do
  let (_, node) ← index.deref (some half)
  (index.setNode half { node with pRightSubTree := subTree }).adopt half [subTree]

/-- The part of `InsertAt` that splits a node: the two halves, the middle key, and the index. -/
def splitNode (index : IndexTree bPlus Key) (pInsertAt : Nat) :
    Except Fault (Nat × Nat × BT_Key_t Key × IndexTree bPlus Key) := do
  let (_, node) ← index.deref (some pInsertAt)
  let nMid := node.vecKey.length / 2
  match node.vecKey[nMid]? with
  | none => .error .outOfBounds
  | some middle =>
    let (pLeftNode, index) ← index.newHalf node (node.vecKey.take nMid)
    let nCopyFrom := if bPlus && node.bLeaf then nMid else nMid + 1
    let (pRightNode, index) ← index.newHalf node (node.vecKey.drop nCopyFrom)
    let index ← if node.bLeaf then .ok index else do
      let index ← index.hangRight pLeftNode middle.pLeftSubTree
      index.hangRight pRightNode node.pRightSubTree
    let middle := { middle with pLeftSubTree := some pLeftNode }
    .ok (pLeftNode, pRightNode, middle,
      index.setNode pInsertAt { node with vecKey := node.vecKey.set nMid middle })

/-- The part of `InsertAt` that splits a node with a parent; `insertAbove` is the insertion of the
middle key into the parent. -/
def splitUp (insertAbove : IndexTree bPlus Key → Option Nat → BT_Key_t Key →
      Except Fault (Bool × IndexTree bPlus Key))
    (index : IndexTree bPlus Key) (pInsertAt : Nat) : Except Fault (Bool × IndexTree bPlus Key) := do
  let (pLeftNode, pRightNode, middle, index) ← index.splitNode pInsertAt
  let (connected, index) ← index.connectRightNode pInsertAt pRightNode
  let index := index.record connected
  if connected then
    let (_, node) ← index.deref (some pInsertAt)
    -- whether the parent could take the key is not looked at
    let (_, index) ← insertAbove index node.pParent middle
    let index := (index.eraseCleaningNode pInsertAt).delete pInsertAt
    .ok (true, (index.pushNode pLeftNode).pushNode pRightNode)
  else .ok (false, (index.delete pLeftNode).delete pRightNode)

def insertAt : Nat → IndexTree bPlus Key → Option Nat → BT_Key_t Key →
    Except Fault (Bool × IndexTree bPlus Key)
  | 0, _, _, _ => .error .nonTermination
  | calls + 1, index, pointer, tKey => do
    let (pInsertAt, node) ← index.deref pointer
    let vecKey := sort BT_Key_t.key (node.vecKey ++ [tKey])
    let index := index.setNode pInsertAt { node with vecKey := vecKey }
    if vecKey.length ≤ index.m_nMaxKey then .ok (true, index)
    else
      let index ← index.makeRoot pInsertAt
      splitUp (insertAt calls) index pInsertAt

def insertNode (index : IndexTree bPlus Key) (tKey : BT_Key_t Key) :
    Except Fault (Bool × IndexTree bPlus Key) :=
  match index.m_pBtreeRoot with
  | none =>
    let pBtNode := index.top
    let index := index.alloc ⟨[tKey], SMD_INVALIDINDEX_RETURN, true, none, none⟩
    .ok (true, { index with m_pBtreeRoot := some pBtNode }.pushNode pBtNode)
  | some root => do
    let pInsertNode ← index.findInsertNode tKey.key (index.top + 1) (some root)
    match pInsertNode with
    | none => .ok (false, index)
    | some leaf => insertAt (index.top + 1) index (some leaf) tKey

def insertKeyOffset (index : IndexTree bPlus Key) (key : Key) (offset : Nat) :
    Except Fault (Bool × IndexTree bPlus Key) :=
  index.insertNode ⟨key, offset, none⟩

end IndexTree

/-- The B-tree. -/
abbrev SMDIndex (Key : Type) := IndexTree false Key

/-- The B+ tree. -/
abbrev SMDIndexBp (Key : Type) := IndexTree true Key

end LevelDBLib.KvDB
