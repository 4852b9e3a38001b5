/-
This file models an index in its page file: `saveIndex`, which writes the nodes
level by level in two passes, and `searchFromFile`, which descends from node to
node and reads each of them from the file.

In the first pass a node does not know where its children will be, so it is
written with the offsets they have then; the second pass overwrites every node
with the offsets the first one found. The node that is read back has the offsets
of its subtrees in place of the pointers.

Nothing bounds the descent in the file; it takes the number of calls it may make.
-/

import LevelDBLib.KvDB.Stream
import LevelDBLib.KvDB.Index
import LevelDBLib.KvDB.PageStore

namespace LevelDBLib.KvDB

open Ranges

/-! ### Keys in a stream -/

/-- What `<<` and `>>` of a stream do with keys. -/
class StreamKey (Key : Type) where
  write : SMDMemStream → Key → Except Fault SMDMemStream
  /-- The key that a default constructed one is after the call. -/
  read : SMDMemStream → Except Fault (Key × SMDMemStream)

/-- An `int` that is not in the stream stays undefined. -/
instance : StreamKey Int32 where
  write stream key := stream.writeInt key.toBitVec
  read stream := do
    let (ival, stream) ← stream.readInt
    match ival with
    | some ival => .ok (Int32.ofBitVec ival, stream)
    | none => .error .uninitialised

/-- A string whose bytes are not in the stream has been resized already. -/
instance : StreamKey Bytes where
  write stream key := stream.writeString key
  read stream := do
    let (strVal, next) ← stream.readString
    match strVal with
    | some strVal => .ok (strVal, next)
    | none => do
      let (sz, _) ← stream.readInt
      .ok (List.replicate (sz.elim 0 BitVec.toNat) 0, next)

/-! ### Saving -/

namespace IndexTree

variable {bPlus : Bool} {Key File : Type} [StreamKey Key] [PageStore File]

/-- The offset of a subtree goes to the stream and the subtree to the next level; `atNull` stands
for no subtree. -/
def writeLink (index : IndexTree bPlus Key) (stream : SMDMemStream)
    (vecNexLev : List (Option Nat)) (atNull : Nat) :
    Option Nat → Except Fault (SMDMemStream × List (Option Nat))
  | some subTree => do
    let (_, child) ← index.deref (some subTree)
    let stream ← stream.writeInt (BitVec.ofNat 32 child.nOffset)
    .ok (stream, vecNexLev ++ [some subTree])
  | none => do
    let stream ← stream.writeInt (BitVec.ofNat 32 atNull)
    .ok (stream, vecNexLev)

/-- A key of a node. A leaf of the B+ tree has the data offset in the place of the child. -/
def writeKey (index : IndexTree bPlus Key) (stream : SMDMemStream) (vecNexLev : List (Option Nat))
    (iterK : BT_Key_t Key) : Except Fault (SMDMemStream × List (Option Nat)) := do
  let stream ← StreamKey.write stream iterK.key
  let stream ← (if bPlus then .ok stream else stream.writeInt (BitVec.ofNat 32 iterK.nOffset))
  index.writeLink stream vecNexLev (if bPlus then iterK.nOffset else SMD_INVALIDINDEX_RETURN)
    iterK.pLeftSubTree

def writeKeys (index : IndexTree bPlus Key) :
    SMDMemStream → List (Option Nat) → List (BT_Key_t Key) →
      Except Fault (SMDMemStream × List (Option Nat))
  | stream, vecNexLev, [] => .ok (stream, vecNexLev)
  | stream, vecNexLev, iterK :: rest => do
    let (stream, vecNexLev) ← index.writeKey stream vecNexLev iterK
    index.writeKeys stream vecNexLev rest

/-- The string of a node, and the next level with its children. -/
def writeNode (index : IndexTree bPlus Key) (node : BT_Node_t Key)
    (vecNexLev : List (Option Nat)) : Except Fault (SMDMemStream × List (Option Nat)) := do
  let stream ← (SMDMemStream.new 0).writeInt (BitVec.ofNat 32 node.vecKey.length)
  let (stream, vecNexLev) ← index.writeKeys stream vecNexLev node.vecKey
  let (stream, vecNexLev) ← index.writeLink stream vecNexLev SMD_INVALIDINDEX_RETURN
    node.pRightSubTree
  if bPlus then do
    let stream ← stream.writeBytes [if node.bLeaf then 1 else 0]
    .ok (stream, vecNexLev)
  else .ok (stream, vecNexLev)

/-- The offset of the node in the file, the next level, and the file. -/
def saveOneNode (index : IndexTree bPlus Key) (file : File) (vecNexLev : List (Option Nat))
    (node : BT_Node_t Key) : Except Fault (Nat × List (Option Nat) × File) := do
  let (memStream, vecNexLev) ← index.writeNode node vecNexLev
  let (offset, file) :=
    if node.nOffset = SMD_INVALIDINDEX_RETURN then PageStore.put file memStream.data
    else PageStore.putAt file memStream.data node.nOffset
  .ok (offset, vecNexLev, file)

/-- The nodes of a level, with the children that were found so far; false if one of the nodes was
not saved. -/
def saveNodes : IndexTree bPlus Key → File → List (Option Nat) → List (Option Nat) →
    Except Fault (Bool × List (Option Nat) × IndexTree bPlus Key × File)
  | index, file, vecNexLev, [] => .ok (true, vecNexLev, index, file)
  | index, file, vecNexLev, pNode :: rest => do
    let (address, node) ← index.deref pNode
    let (nOffset, vecNexLev, file) ← index.saveOneNode file vecNexLev node
    let index := index.setNode address { node with nOffset := nOffset }
    if nOffset = SMD_INVALIDINDEX_RETURN then .ok (false, vecNexLev, index, file)
    else saveNodes index file vecNexLev rest

def saveLevNode : Nat → IndexTree bPlus Key → File → List (Option Nat) →
    Except Fault (Bool × IndexTree bPlus Key × File)
  | 0, _, _, _ => .error .nonTermination
  | calls + 1, index, file, vecLevNode =>
    match vecLevNode with
    | [] => .ok (true, index, file)
    | _ :: _ => do
      let (saved, vecNexLev, index, file) ← saveNodes index file [] vecLevNode
      if saved then saveLevNode calls index file vecNexLev else .ok (false, index, file)

/-- `saveIndex` into the page file that was created for the index: whether it succeeded, the root
offset, the index and the file. -/
def saveIndex (index : IndexTree bPlus Key) (file : File) :
    Except Fault (Bool × Nat × IndexTree bPlus Key × File) := do
  let nRootOffset := PageStore.getPageFileBeginOffset file
  let (found, index, file) ← saveLevNode (index.top + 2) index file [index.m_pBtreeRoot]
  if found then do
    -- the second time every node has its offset, and its children have theirs
    let (written, index, file) ← saveLevNode (index.top + 2) index file [index.m_pBtreeRoot]
    .ok (written, nRootOffset, index, file)
  else .ok (false, nRootOffset, index, file)

end IndexTree

/-! ### Reading -/

/-- A key of a node that was read from the file. -/
structure FileKey_t (Key : Type) where
  key : Key
  nOffset : Nat
  nLSubTreeOffset : Nat
deriving DecidableEq

/-- A node that was read from the file. -/
structure FileNode_t (Key : Type) where
  vecKey : List (FileKey_t Key)
  nRSubTreeOffset : Nat
  bLeaf : Bool
deriving DecidableEq

/-- The offset of the subtree in front of a key, or behind all keys of the node. -/
def FileNode_t.subTreeOffset {Key : Type} (node : FileNode_t Key) (place : Nat) : Nat :=
  match node.vecKey[place]? with
  | some tKey => tKey.nLSubTreeOffset
  | none => node.nRSubTreeOffset

/-- An offset that is read; it keeps its first value if it is not there. -/
def orInvalid (offset : Option (BitVec 32)) : Nat :=
  (offset.map BitVec.toNat).getD SMD_INVALIDINDEX_RETURN

section Reading

variable {Key File : Type} [StreamKey Key] [PageStore File]

def readKey (bPlus : Bool) (stream : SMDMemStream) :
    Except Fault (FileKey_t Key × SMDMemStream) := do
  let (key, stream) ← StreamKey.read stream
  let (nOffset, stream) ← (if bPlus then .ok (none, stream) else stream.readInt)
  let (nLSubTreeOffset, stream) ← stream.readInt
  .ok (⟨key, orInvalid nOffset, orInvalid nLSubTreeOffset⟩, stream)

def readKeys (bPlus : Bool) :
    Nat → SMDMemStream → Except Fault (List (FileKey_t Key) × SMDMemStream)
  | 0, stream => .ok ([], stream)
  | count + 1, stream => do
    let (tKey, stream) ← readKey bPlus stream
    let (rest, stream) ← readKeys bPlus count stream
    .ok (tKey :: rest, stream)

/-- The node in a string. -/
def readNode (bPlus : Bool) (stream : SMDMemStream) : Except Fault (FileNode_t Key) := do
  let (nKeySize, stream) ← stream.readInt
  match nKeySize with
  | none => .error .uninitialised
  | some nKeySize => do
    let (vecKey, stream) ← readKeys bPlus nKeySize.toNat stream
    let (nRSubTreeOffset, stream) ← stream.readInt
    if bPlus then do
      let (flag, _) ← stream.readBytes 1
      .ok ⟨vecKey, orInvalid nRSubTreeOffset, (flag.getD [0]).getD 0 0 &&& 1 == 1⟩
    else .ok ⟨vecKey, orInvalid nRSubTreeOffset, true⟩

/-- `readNodeFromFile`; none if there is no string at the offset. -/
def readNodeFromFile (bPlus : Bool) (file : File) (nOffset : Nat) :
    Except Fault (Option (FileNode_t Key)) :=
  if nOffset = SMD_INVALIDINDEX_RETURN then if bPlus then .ok none else .error .assertion
  else
    match PageStore.get file nOffset with
    | none => .ok none
    | some data => do
      let node ← readNode bPlus ⟨data, 0⟩
      .ok (some node)

variable [LT Key] [DecidableLT Key]

/-- `SMDIndex::searchFromFile`, for a key that was converted to a key of the file. -/
def SMDIndex.searchFromFile (file : File) (key : Key) : Nat → Nat → Except Fault Nat
  | 0, _ => .error .nonTermination
  | calls + 1, nRootOffset => do
    let tNode ← readNodeFromFile false file nRootOffset
    match tNode with
    | none => .ok SMD_INVALIDINDEX_RETURN
    | some tNode =>
      let first := lowerBound FileKey_t.key tNode.vecKey key
      let second := upperBound FileKey_t.key tNode.vecKey key
      if second - first = 1 then
        match tNode.vecKey[first]? with
        | some found => .ok found.nOffset
        | none => .error .outOfBounds
      else if first = second then
        if tNode.subTreeOffset first ≠ SMD_INVALIDINDEX_RETURN then
          searchFromFile file key calls (tNode.subTreeOffset first)
        else .ok SMD_INVALIDINDEX_RETURN
      else .ok SMD_INVALIDINDEX_RETURN

/-- `SMDIndexBp::searchFromFile`. -/
def SMDIndexBp.searchFromFile (file : File) (key : Key) : Nat → Nat → Except Fault Nat
  | 0, _ => .error .nonTermination
  | calls + 1, nRootOffset => do
    let tNode ← readNodeFromFile true file nRootOffset
    match tNode with
    | none => .ok SMD_INVALIDINDEX_RETURN
    | some tNode =>
      let first := lowerBound FileKey_t.key tNode.vecKey key
      let second := upperBound FileKey_t.key tNode.vecKey key
      if second - first = 1 then
        if tNode.bLeaf then
          match tNode.vecKey[first]? with
          | some found => .ok found.nLSubTreeOffset
          | none => .error .outOfBounds
        else searchFromFile file key calls (tNode.subTreeOffset second)
      else if first = second then
        if tNode.bLeaf then .ok SMD_INVALIDINDEX_RETURN
        else searchFromFile file key calls (tNode.subTreeOffset first)
      else .ok SMD_INVALIDINDEX_RETURN

/-- The search of either class. -/
def searchFromFile (bPlus : Bool) (file : File) (key : Key) (calls nRootOffset : Nat) :
    Except Fault Nat :=
  if bPlus then SMDIndexBp.searchFromFile file key calls nRootOffset
  else SMDIndex.searchFromFile file key calls nRootOffset

end Reading

end LevelDBLib.KvDB
