/-
This file follows `saveIndex`. The string of a node depends on where its children
are (`nodeImage`), its length does not; saving changes nothing in memory but the
offsets of the nodes (`placed`).

A pass saves the nodes level by level. Both passes are one induction over the
levels: an invariant of the file, of the offsets and of the nodes that were saved
so far holds at the end if saving one more node preserves it. The first pass keeps
that the strings have their lengths and that no two nodes share an offset, the
second that the nodes it has come to are written with the offsets of their
children.
-/

import Mathlib.Algebra.GroupWithZero.Nat
import Mathlib.Algebra.Order.BigOperators.Group.List
import Mathlib.Data.List.Lex
import LevelDBLib.KvDB.IndexFile
import LevelDBLib.KvDB.IndexInsert

namespace LevelDBLib.KvDB

open Ranges BranchTrees

/-- The bytes of a key, written at the end of a stream and read where the stream still holds
them. -/
class LawfulStreamKey (Key : Type) [StreamKey Key] where
  keyBytes : Key → Bytes
  write_at_end : ∀ (stream : SMDMemStream) (data : Bytes) (key : Key), stream.Ends data →
    data.length + (keyBytes key).length < 2147483648 →
    ∃ next, StreamKey.write stream key = .ok next ∧ next.Ends (data ++ keyBytes key)
  read_holds : ∀ (stream : SMDMemStream) (key : Key) (rest : Bytes),
    (keyBytes key).length < 2147483648 → stream.Holds (keyBytes key ++ rest) →
    ∃ next, StreamKey.read stream = .ok (key, next) ∧ next.Holds rest

open LawfulStreamKey

instance int32_order : IsStrictTotalOrder Int32 (· < ·) where
  trichotomous first second notLess notGreater := by
    rw [Int32.lt_iff_toInt_lt] at notLess notGreater
    exact Int32.toInt_inj.mp (by omega)
  irrefl _ := Int32.lt_irrefl
  trans _ _ _ := Int32.lt_trans

/-- `std::string::operator<`: byte by byte, a proper front part first. -/
instance bytes_order : IsStrictTotalOrder Bytes (· < ·) where
  trichotomous := (List.Lex.trichotomous _).trichotomous
  irrefl data := List.lt_irrefl data
  trans _ _ _ := List.lt_trans

instance int32_lawful : LawfulStreamKey Int32 where
  keyBytes key := SMDValue.putInt key.toBitVec
  write_at_end stream data key ends small := by
    rw [SMDValue.length_putInt] at small
    exact stream.writeInt_at_end data key.toBitVec ends (by omega)
  read_holds stream key rest _ holds := by
    obtain ⟨next, read, after⟩ := stream.readInt_holds key.toBitVec rest holds
    refine ⟨next, ?_, after⟩
    simp only [StreamKey.read, read, ok_bind]
    rfl

theorem write_string_at_end (stream : SMDMemStream) (data key : Bytes) (ends : stream.Ends data)
    (small : data.length + (SMDMemStream.stringBytes key).length < 2147483648) :
    ∃ next, StreamKey.write stream key = .ok next ∧
      next.Ends (data ++ SMDMemStream.stringBytes key) := by
  rw [SMDMemStream.stringBytes, List.length_append, SMDValue.length_putInt] at small
  exact stream.writeString_at_end data key ends (by omega)

theorem read_string_holds (stream : SMDMemStream) (key rest : Bytes)
    (small : (SMDMemStream.stringBytes key).length < 2147483648)
    (holds : stream.Holds (SMDMemStream.stringBytes key ++ rest)) :
    ∃ next, StreamKey.read stream = .ok (key, next) ∧ next.Holds rest := by
  rw [SMDMemStream.stringBytes, List.length_append, SMDValue.length_putInt] at small
  obtain ⟨next, read, after⟩ := stream.readString_holds key rest (by omega) holds
  refine ⟨next, ?_, after⟩
  simp only [StreamKey.read, read, ok_bind]

instance bytes_lawful : LawfulStreamKey Bytes where
  keyBytes := SMDMemStream.stringBytes
  write_at_end := write_string_at_end
  read_holds := read_string_holds

variable {bPlus : Bool} {Key File : Type} [StreamKey Key] [LawfulStreamKey Key]

/-! ### The string of a node -/

/-- The offset behind a pointer. -/
def linkOf (offsets : Nat → Nat) (atNull : Nat) (pointer : Option Nat) : Nat :=
  pointer.elim atNull offsets

/-- What stands in the place of the left subtree of a key. -/
def leftLink (bPlus : Bool) (offsets : Nat → Nat) (tKey : BT_Key_t Key) : Nat :=
  linkOf offsets (if bPlus then tKey.nOffset else SMD_INVALIDINDEX_RETURN) tKey.pLeftSubTree

def keyImage (bPlus : Bool) (offsets : Nat → Nat) (tKey : BT_Key_t Key) : Bytes :=
  keyBytes tKey.key ++ ((if bPlus then [] else SMDValue.putInt (BitVec.ofNat 32 tKey.nOffset)) ++
    SMDValue.putInt (BitVec.ofNat 32 (leftLink bPlus offsets tKey)))

def flagImage (bPlus bLeaf : Bool) : Bytes := if bPlus then [if bLeaf then 1 else 0] else []

def nodeImage (bPlus : Bool) (offsets : Nat → Nat) (node : BT_Node_t Key) : Bytes :=
  SMDValue.putInt (BitVec.ofNat 32 node.vecKey.length) ++
    (node.vecKey.flatMap (keyImage bPlus offsets) ++
      (SMDValue.putInt (BitVec.ofNat 32
        (linkOf offsets SMD_INVALIDINDEX_RETURN node.pRightSubTree)) ++ flagImage bPlus node.bLeaf))

/-- The length of the string of a node. -/
def nodeSize (bPlus : Bool) (node : BT_Node_t Key) : Nat :=
  4 + ((node.vecKey.map fun tKey => (keyBytes tKey.key).length + if bPlus then 4 else 8).sum +
    if bPlus then 5 else 4)

/-- The number of bytes that the node at an address takes up in a file, with its length. -/
def IndexTree.sizeAt (index : IndexTree bPlus Key) (address : Nat) : Nat :=
  (index.heap address).elim 0 fun node => nodeSize bPlus node + 4

/-- The number of bytes that an index takes up in its file. -/
def IndexTree.imageSize (index : IndexTree bPlus Key) : Nat :=
  ((List.range index.top).map index.sizeAt).sum

theorem length_keyImage (offsets : Nat → Nat) (tKey : BT_Key_t Key) :
    (keyImage bPlus offsets tKey).length =
      (keyBytes tKey.key).length + if bPlus then 4 else 8 := by
  unfold keyImage
  cases bPlus with
  | false => simp
  | true => simp

variable (bPlus) in
theorem length_nodeImage (offsets : Nat → Nat) (node : BT_Node_t Key) :
    (nodeImage bPlus offsets node).length = nodeSize bPlus node := by
  have keys : (node.vecKey.flatMap (keyImage bPlus offsets)).length =
      (node.vecKey.map fun tKey => (keyBytes tKey.key).length + if bPlus then 4 else 8).sum := by
    rw [List.length_flatMap]
    exact congrArg List.sum (List.map_congr_left fun tKey _ => length_keyImage offsets tKey)
  have flag : (flagImage bPlus node.bLeaf).length + 4 = if bPlus then 5 else 4 := by
    unfold flagImage
    cases bPlus with
    | false => rfl
    | true => rfl
  simp only [nodeImage, nodeSize, List.length_append, SMDValue.length_putInt, keys]
  omega

namespace IndexTree

/-! ### Writing a node -/

section Writing

variable {index : IndexTree bPlus Key} {offsets : Nat → Nat}

/-- The nodes behind some pointers have the offsets. -/
def OffsetsAt (index : IndexTree bPlus Key) (offsets : Nat → Nat) (pointers : List (Option Nat)) :
    Prop :=
  ∀ id, some id ∈ pointers → ∃ node, index.heap id = some node ∧ node.nOffset = offsets id

omit [StreamKey Key] [LawfulStreamKey Key] in
theorem writeLink_spec {pointer : Option Nat} (known : OffsetsAt index offsets [pointer])
    (atNull : Nat) (stream : SMDMemStream) (data : Bytes) (vecNexLev : List (Option Nat))
    (ends : stream.Ends data) (small : data.length + 4 < 2147483648) :
    ∃ next, index.writeLink stream vecNexLev atNull pointer =
        .ok (next, vecNexLev ++ [pointer].filter Option.isSome) ∧
      next.Ends (data ++ SMDValue.putInt (BitVec.ofNat 32 (linkOf offsets atNull pointer))) := by
  cases pointer with
  | none =>
    obtain ⟨next, written, nextEnds⟩ := stream.writeInt_at_end data (BitVec.ofNat 32 atNull) ends
      (by omega)
    refine ⟨next, ?_, nextEnds⟩
    rw [writeLink, written, ok_bind]
    exact congrArg (fun level => Except.ok (next, level)) (List.append_nil vecNexLev).symm
  | some subTree =>
    obtain ⟨child, found, offset⟩ := known subTree List.mem_cons_self
    obtain ⟨next, written, nextEnds⟩ := stream.writeInt_at_end data
      (BitVec.ofNat 32 (offsets subTree)) ends (by omega)
    refine ⟨next, ?_, nextEnds⟩
    simp only [writeLink, deref, found, ok_bind, offset, written]
    rfl

theorem writeKey_spec {tKey : BT_Key_t Key} (known : OffsetsAt index offsets [tKey.pLeftSubTree])
    (stream : SMDMemStream) (data : Bytes) (vecNexLev : List (Option Nat))
    (ends : stream.Ends data)
    (small : data.length + (keyImage bPlus offsets tKey).length < 2147483648) :
    ∃ next, index.writeKey stream vecNexLev tKey =
        .ok (next, vecNexLev ++ [tKey.pLeftSubTree].filter Option.isSome) ∧
      next.Ends (data ++ keyImage bPlus offsets tKey) := by
  rw [length_keyImage] at small
  obtain ⟨keyed, keyWritten, keyEnds⟩ := write_at_end stream data tKey.key ends (by omega)
  have number : ∃ next, (if bPlus then .ok keyed
      else keyed.writeInt (BitVec.ofNat 32 tKey.nOffset)) = Except.ok (ε := Fault) next ∧
      next.Ends (data ++ keyBytes tKey.key ++
        if bPlus then [] else SMDValue.putInt (BitVec.ofNat 32 tKey.nOffset)) := by
    cases bPlus with
    | true =>
      rw [if_pos rfl, if_pos rfl, List.append_nil]
      exact ⟨keyed, rfl, keyEnds⟩
    | false =>
      rw [if_neg Bool.false_ne_true, if_neg Bool.false_ne_true]
      refine keyed.writeInt_at_end _ _ keyEnds ?_
      rw [List.length_append]
      simp only [if_neg Bool.false_ne_true] at small
      omega
  obtain ⟨numbered, numberWritten, numberedEnds⟩ := number
  obtain ⟨next, linkWritten, nextEnds⟩ := writeLink_spec known
    (if bPlus then tKey.nOffset else SMD_INVALIDINDEX_RETURN) numbered _ vecNexLev numberedEnds
    (by
      rw [List.length_append, List.length_append]
      cases bPlus with
      | true =>
        simp only [if_true, List.length_nil] at small ⊢
        omega
      | false =>
        simp only [if_neg Bool.false_ne_true, SMDValue.length_putInt] at small ⊢
        omega)
  refine ⟨next, ?_, ?_⟩
  · rw [writeKey, keyWritten, ok_bind, numberWritten, ok_bind, linkWritten]
  · rw [keyImage, ← List.append_assoc, ← List.append_assoc]
    exact nextEnds

theorem writeKeys_spec (vecKey : List (BT_Key_t Key)) :
    ∀ (stream : SMDMemStream) (data : Bytes) (vecNexLev : List (Option Nat)),
      OffsetsAt index offsets (vecKey.map BT_Key_t.pLeftSubTree) → stream.Ends data →
      data.length + (vecKey.flatMap (keyImage bPlus offsets)).length < 2147483648 →
      ∃ next, index.writeKeys stream vecNexLev vecKey = .ok (next,
          vecNexLev ++ (vecKey.map BT_Key_t.pLeftSubTree).filter Option.isSome) ∧
        next.Ends (data ++ vecKey.flatMap (keyImage bPlus offsets)) := by
  induction vecKey with
  | nil =>
    intro stream data vecNexLev _ ends _
    refine ⟨stream, ?_, by rwa [List.flatMap_nil, List.append_nil]⟩
    exact congrArg (fun level => Except.ok (stream, level)) (List.append_nil vecNexLev).symm
  | cons tKey rest inductionHypothesis =>
    intro stream data vecNexLev known ends small
    rw [List.flatMap_cons, List.length_append] at small
    obtain ⟨middle, written, middleEnds⟩ := writeKey_spec
      (fun id member => known id (List.mem_cons.mpr (Or.inl (List.mem_singleton.mp member))))
      stream data vecNexLev ends (by omega)
    obtain ⟨next, restWritten, nextEnds⟩ := inductionHypothesis middle _
      (vecNexLev ++ [tKey.pLeftSubTree].filter Option.isSome)
      (fun id member => known id (List.mem_cons_of_mem _ member)) middleEnds
      (by rw [List.length_append]; omega)
    refine ⟨next, ?_, ?_⟩
    · simp only [writeKeys, written, ok_bind, restWritten]
      rw [List.map_cons, List.append_assoc, ← List.filter_append, List.singleton_append]
    · rw [List.flatMap_cons, ← List.append_assoc]
      exact nextEnds

/-- The stream of a node holds its string, and its children go to the next level. -/
theorem writeNode_spec (node : BT_Node_t Key) (known : OffsetsAt index offsets node.subTrees)
    (vecNexLev : List (Option Nat)) (small : nodeSize bPlus node < 2147483648) :
    ∃ stream, index.writeNode node vecNexLev = .ok (stream, vecNexLev ++ node.subTrees) ∧
      stream.data = nodeImage bPlus offsets node := by
  have pointers : ∀ id, some id ∈ node.vecKey.map BT_Key_t.pLeftSubTree ++ [node.pRightSubTree] →
      ∃ child, index.heap id = some child ∧ child.nOffset = offsets id := fun id member =>
    known id (List.mem_filter.mpr ⟨member, rfl⟩)
  rw [← length_nodeImage bPlus offsets] at small
  simp only [nodeImage, List.length_append, SMDValue.length_putInt] at small
  have empty : (SMDMemStream.new 0).Ends [] := ⟨rfl, rfl⟩
  obtain ⟨counted, countWritten, countEnds⟩ := (SMDMemStream.new 0).writeInt_at_end []
    (BitVec.ofNat 32 node.vecKey.length) empty (by simp)
  rw [List.nil_append] at countEnds
  obtain ⟨keyed, keysWritten, keysEnds⟩ := writeKeys_spec node.vecKey counted _ vecNexLev
    (fun id member => pointers id (List.mem_append_left _ member)) countEnds
    (by rw [SMDValue.length_putInt]; omega)
  obtain ⟨linked, linkWritten, linkEnds⟩ := writeLink_spec
    (fun id member => pointers id (List.mem_append_right _ member)) SMD_INVALIDINDEX_RETURN keyed _
    (vecNexLev ++ (node.vecKey.map BT_Key_t.pLeftSubTree).filter Option.isSome) keysEnds
    (by rw [List.length_append, SMDValue.length_putInt]; omega)
  have level : vecNexLev ++ (node.vecKey.map BT_Key_t.pLeftSubTree).filter Option.isSome ++
      [node.pRightSubTree].filter Option.isSome = vecNexLev ++ node.subTrees := by
    rw [List.append_assoc, ← List.filter_append, BT_Node_t.subTrees]
  rw [level] at linkWritten
  simp only [writeNode, countWritten, ok_bind, keysWritten, linkWritten]
  cases bPlus with
  | false =>
    refine ⟨linked, rfl, ?_⟩
    rw [linkEnds.1, nodeImage, List.append_assoc]
    exact congrArg _ (congrArg _ (List.append_nil _).symm)
  | true =>
    obtain ⟨flagged, flagWritten, flagEnds⟩ := linked.writeBytes_at_end _
      [if node.bLeaf then 1 else 0] linkEnds (by
        simp only [List.length_append, SMDValue.length_putInt, List.length_singleton]
        omega)
    refine ⟨flagged, ?_, ?_⟩
    · rw [if_pos rfl, flagWritten, ok_bind]
    · rw [flagEnds.1, nodeImage, List.append_assoc, List.append_assoc]
      rfl

end Writing

/-! ### A pass -/

section Passes

variable {index : IndexTree bPlus Key} {offsets : Nat → Nat} {height : Nat}

omit [StreamKey Key] [LawfulStreamKey Key] in
/-- The index with its nodes at other offsets in the file. -/
def placed (index : IndexTree bPlus Key) (offsets : Nat → Nat) : IndexTree bPlus Key :=
  { index with
    heap := fun id => (index.heap id).map fun node => { node with nOffset := offsets id } }

omit [StreamKey Key] [LawfulStreamKey Key] in
theorem placed_found {id : Nat} {node : BT_Node_t Key} (found : index.heap id = some node) :
    (index.placed offsets).heap id = some { node with nOffset := offsets id } := by
  show (index.heap id).map _ = _
  rw [found]
  rfl

omit [StreamKey Key] [LawfulStreamKey Key] in
theorem setNode_placed {id : Nat} {node : BT_Node_t Key} (found : index.heap id = some node)
    (offset : Nat) :
    (index.placed offsets).setNode id { node with nOffset := offset } =
      index.placed (Function.update offsets id offset) := by
  unfold placed setNode
  congr 1
  funext other
  by_cases same : other = id
  · rw [same, Function.update_self, Function.update_self, found]
    rfl
  · rw [Function.update_of_ne same, Function.update_of_ne same]

omit [StreamKey Key] [LawfulStreamKey Key] in
/-- An index is placed where its nodes say. -/
theorem placed_self (index : IndexTree bPlus Key) :
    index.placed (fun id => (index.heap id).elim 0 BT_Node_t.nOffset) = index := by
  unfold placed
  congr 1
  funext id
  cases found : index.heap id with
  | none => rfl
  | some node =>
    simp only [found]
    rfl

/-- Where a node is saved, and the file afterwards. -/
def saveTo [PageStore File] (bPlus : Bool) (file : File) (offsets : Nat → Nat) (id : Nat)
    (node : BT_Node_t Key) : Nat × File :=
  if offsets id = SMD_INVALIDINDEX_RETURN then
    PageStore.put file (nodeImage bPlus offsets node)
  else PageStore.putAt file (nodeImage bPlus offsets node) (offsets id)

theorem saveOneNode_spec [PageStore File] {id : Nat} {node : BT_Node_t Key}
    (children : ∀ child, some child ∈ node.subTrees → ∃ found, index.heap child = some found)
    (small : nodeSize bPlus node < 2147483648) (file : File) (vecNexLev : List (Option Nat)) :
    (index.placed offsets).saveOneNode file vecNexLev { node with nOffset := offsets id } =
      .ok ((saveTo bPlus file offsets id node).1, vecNexLev ++ node.subTrees,
        (saveTo bPlus file offsets id node).2) := by
  have known : (index.placed offsets).OffsetsAt offsets node.subTrees := by
    intro child member
    obtain ⟨found, childFound⟩ := children child member
    exact ⟨_, placed_found childFound, rfl⟩
  obtain ⟨stream, written, data⟩ := writeNode_spec
    { node with nOffset := offsets id } known vecNexLev small
  simp only [saveOneNode, written, ok_bind, data]
  rfl

omit [StreamKey Key] [LawfulStreamKey Key] in
theorem heldChildren {heap : Heap Key} {parent : Option Nat} {tree : Tree (Entry Key) height}
    (held : Holds unsaved heap parent tree) {child : Nat}
    (member : some child ∈ (nodeOf (unsaved tree.id) parent tree).subTrees) :
    ∃ found, heap child = some found := by
  rw [subTrees_nodeOf] at member
  obtain ⟨id, inside, equal⟩ := List.mem_map.mp member
  obtain rfl := Option.some.inj equal
  cases height with
  | zero => exact absurd inside List.not_mem_nil
  | succ height =>
    obtain ⟨subTree, childIn, rfl⟩ := List.mem_map.mp inside
    exact ⟨_, ((holds_iff subTree).mp (held.2 subTree childIn)).1⟩

/-- A pass preserves an invariant of the saved nodes, the offsets and the file. -/
def Preserves [PageStore File] (index : IndexTree bPlus Key) (names : List Nat)
    (invariant : List Nat → (Nat → Nat) → File → Prop) : Prop :=
  ∀ saved offsets file id node, index.heap id = some node → id ∈ names → id ∉ saved →
    invariant saved offsets file →
      (saveTo bPlus file offsets id node).1 ≠ SMD_INVALIDINDEX_RETURN ∧
      invariant (saved ++ [id]) (Function.update offsets id (saveTo bPlus file offsets id node).1)
        (saveTo bPlus file offsets id node).2

variable [PageStore File] {names : List Nat} {invariant : List Nat → (Nat → Nat) → File → Prop}

/-- The nodes of a level. -/
theorem saveNodes_spec (preserves : index.Preserves names invariant)
    (small : ∀ id ∈ names, ∀ node, index.heap id = some node → nodeSize bPlus node < 2147483648)
    (level : List (Tree (Entry Key) height)) :
    ∀ (saved : List Nat) (offsets : Nat → Nat) (file : File) (vecNexLev : List (Option Nat)),
      (∀ tree ∈ level, tree.id ∈ names ∧ ∃ parent, Holds unsaved index.heap parent tree) →
      (saved ++ level.map Tree.id).Nodup → invariant saved offsets file →
      ∃ last after, (index.placed offsets).saveNodes file vecNexLev
          (level.map fun tree => some tree.id) =
          .ok (true, vecNexLev ++ (level.flatMap childIds).map some, index.placed last, after) ∧
        invariant (saved ++ level.map Tree.id) last after := by
  induction level with
  | nil =>
    intro saved offsets file vecNexLev _ _ holds
    refine ⟨offsets, file, ?_, by rwa [List.map_nil, List.append_nil]⟩
    exact congrArg (fun level => Except.ok (true, level, index.placed offsets, file))
      (List.append_nil vecNexLev).symm
  | cons tree rest inductionHypothesis =>
    intro saved offsets file vecNexLev trees apart holds
    obtain ⟨named, parent, held⟩ := trees tree List.mem_cons_self
    have found := ((holds_iff tree).mp held).1
    have step : saved ++ (tree :: rest).map Tree.id = saved ++ [tree.id] ++ rest.map Tree.id := by
      rw [List.map_cons, List.append_assoc, List.singleton_append]
    rw [step] at apart
    have notSaved : tree.id ∉ saved := fun inside =>
      (List.nodup_append.mp (List.nodup_append.mp apart).1).2.2 tree.id inside tree.id
        List.mem_cons_self rfl
    obtain ⟨valid, next⟩ := preserves saved offsets file tree.id _ found named notSaved holds
    obtain ⟨last, after, done, restHolds⟩ := inductionHypothesis (saved ++ [tree.id]) _ _
      (vecNexLev ++ (childIds tree).map some)
      (fun other member => trees other (List.mem_cons_of_mem _ member)) apart next
    refine ⟨last, after, ?_, step ▸ restHolds⟩
    rw [List.map_cons, saveNodes, deref_some (placed_found found), ok_bind]
    simp only [saveOneNode_spec (fun child member => heldChildren held member)
      (small tree.id named _ found) file vecNexLev, ok_bind, if_neg valid]
    rw [subTrees_nodeOf, List.flatMap_cons, List.map_append, ← List.append_assoc]
    exact (congrArg (fun index => saveNodes index _ _ _) (setNode_placed found _)).trans done

omit [StreamKey Key] [LawfulStreamKey Key] [PageStore File] in
theorem childIds_level (level : List (Tree (Entry Key) (height + 1))) :
    (level.flatMap childIds).map some =
      (level.flatMap Tree.subTrees).map fun tree => some tree.id := by
  have names : level.flatMap childIds = (level.flatMap Tree.subTrees).map Tree.id :=
    List.map_flatMap.symm
  rw [names, List.map_map]
  rfl

omit [LawfulStreamKey Key] in
/-- A level and the next one. -/
theorem saveLevNode_of_nodes {start between last : IndexTree bPlus Key} {file middle after : File}
    {level next : List (Option Nat)} {calls : Nat}
    (here : saveNodes start file [] level = .ok (true, next, between, middle))
    (below : saveLevNode (calls + 1) between middle next = .ok (true, last, after)) :
    saveLevNode (calls + 2) start file level = .ok (true, last, after) := by
  cases level with
  | nil =>
    cases here
    exact below
  | cons first rest =>
    simp only [saveLevNode, here, ok_bind, if_true]
    exact below

/-- All levels from one on, the topmost nodes first. -/
theorem saveLevNode_spec (preserves : index.Preserves names invariant)
    (small : ∀ id ∈ names, ∀ node, index.heap id = some node → nodeSize bPlus node < 2147483648)
    (level : List (Tree (Entry Key) height)) (saved : List Nat) (offsets : Nat → Nat) (file : File)
    (calls : Nat)
    (trees : ∀ tree ∈ level, (∀ id ∈ tree.ids, id ∈ names) ∧
      ∃ parent, Holds unsaved index.heap parent tree)
    (apart : (saved ++ level.flatMap Tree.ids).Nodup) (holds : invariant saved offsets file)
    (enough : height + 1 < calls) :
    ∃ order last after, order.Perm (level.flatMap Tree.innerIds) ∧
      (index.placed offsets).saveLevNode calls file (level.map fun tree => some tree.id) =
        .ok (true, index.placed last, after) ∧
      invariant (saved ++ level.map Tree.id ++ order) last after := by
  induction height generalizing saved offsets file calls with
  | zero =>
    obtain ⟨calls, rfl⟩ := Nat.exists_eq_add_of_le' (Nat.succ_le_of_lt enough)
    have noneBelow : level.flatMap Tree.innerIds = [] :=
      List.flatMap_eq_nil_iff.mpr fun _ _ => rfl
    have noSubTrees : level.flatMap childIds = [] := List.flatMap_eq_nil_iff.mpr fun _ _ => rfl
    have apartHere := (List.Perm.append_left saved (Tree.ids_level level)).nodup_iff.mp apart
    rw [noneBelow, List.append_nil] at apartHere
    obtain ⟨last, after, done, lastHolds⟩ := saveNodes_spec preserves small level saved
      offsets file [] (fun tree member => ⟨(trees tree member).1 _ tree.id_mem_ids,
        (trees tree member).2⟩) apartHere holds
    rw [noSubTrees] at done
    exact ⟨[], last, after, noneBelow ▸ List.Perm.refl _, saveLevNode_of_nodes done rfl,
      by rwa [List.append_nil]⟩
  | succ height inductionHypothesis =>
    obtain ⟨calls, rfl⟩ := Nat.exists_eq_add_of_le' (Nat.succ_le_of_lt (Nat.zero_lt_of_lt enough))
    have apartBelow := (List.Perm.append_left saved (Tree.ids_level level)).nodup_iff.mp apart
    rw [Tree.innerIds_level, ← List.append_assoc] at apartBelow
    obtain ⟨middle, between, done, middleHolds⟩ := saveNodes_spec preserves small level
      saved offsets file [] (fun tree member => ⟨(trees tree member).1 _ tree.id_mem_ids,
        (trees tree member).2⟩) (List.nodup_append.mp apartBelow).1 holds
    obtain ⟨order, last, after, perm, belowSaved, lastHolds⟩ := inductionHypothesis
      (level.flatMap Tree.subTrees) (saved ++ level.map Tree.id) middle between calls (by
        intro child member
        obtain ⟨tree, inside, childIn⟩ := List.mem_flatMap.mp member
        obtain ⟨named, parent, held⟩ := trees tree inside
        refine ⟨fun id idIn => named id ?_, _, held.2 child childIn⟩
        exact List.mem_cons_of_mem _ (List.mem_flatMap.mpr ⟨child, childIn, idIn⟩))
      apartBelow middleHolds (Nat.lt_of_succ_lt_succ enough)
    rw [List.nil_append, childIds_level] at done
    refine ⟨(level.flatMap Tree.subTrees).map Tree.id ++ order, last, after, ?_, ?_, ?_⟩
    · rw [Tree.innerIds_level]
      exact (List.Perm.append_left _ perm).trans (Tree.ids_level _).symm
    · obtain ⟨more, rfl⟩ := Nat.exists_eq_add_of_le' (Nat.zero_lt_of_lt
        (Nat.lt_of_succ_lt_succ enough))
      exact saveLevNode_of_nodes done belowSaved
    · rw [← List.append_assoc]
      exact lastHolds

end Passes

end IndexTree

end LevelDBLib.KvDB
