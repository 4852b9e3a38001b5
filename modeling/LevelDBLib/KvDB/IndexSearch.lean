/-
This file reads an index back from its page file. The string of a node gives the
node again with offsets for pointers (`readNode_image`), so `searchFromFile` makes
the same comparisons in the file as a search in memory would, and returns the data
offset of the entry that is level with the key.
-/

import LevelDBLib.KvDB.IndexPasses
import LevelDBLib.KvDB.IndexRuns

namespace LevelDBLib.KvDB

open Ranges BranchTrees Runs IndexTree LawfulStreamKey

variable {bPlus : Bool} {Key File : Type} [StreamKey Key] [LawfulStreamKey Key]

/-! ### Reading a node -/

/-- The key that is read back. -/
def fileKey (bPlus : Bool) (offsets : Nat → Nat) (tKey : BT_Key_t Key) : FileKey_t Key :=
  ⟨tKey.key, if bPlus then SMD_INVALIDINDEX_RETURN else tKey.nOffset, leftLink bPlus offsets tKey⟩

/-- The node that is read back. -/
def fileNode (bPlus : Bool) (offsets : Nat → Nat) (node : BT_Node_t Key) : FileNode_t Key :=
  ⟨node.vecKey.map (fileKey bPlus offsets),
    linkOf offsets SMD_INVALIDINDEX_RETURN node.pRightSubTree, !bPlus || node.bLeaf⟩

/-- The numbers of a key are 32-bit ones. -/
def InRange (bPlus : Bool) (offsets : Nat → Nat) (tKey : BT_Key_t Key) : Prop :=
  tKey.nOffset < 4294967296 ∧ leftLink bPlus offsets tKey < 4294967296

omit [StreamKey Key] [LawfulStreamKey Key] in
theorem orInvalid_ofNat {offset : Nat} (small : offset < 4294967296) :
    orInvalid (some (BitVec.ofNat 32 offset)) = offset := by
  show (BitVec.ofNat 32 offset).toNat = offset
  rw [BitVec.toNat_ofNat]
  exact Nat.mod_eq_of_lt small

theorem readKey_holds {offsets : Nat → Nat} {tKey : BT_Key_t Key}
    (inRange : InRange bPlus offsets tKey) (stream : SMDMemStream) (rest : Bytes)
    (small : (keyImage bPlus offsets tKey).length < 2147483648)
    (holds : stream.Holds (keyImage bPlus offsets tKey ++ rest)) :
    ∃ next, readKey bPlus stream = .ok (fileKey bPlus offsets tKey, next) ∧ next.Holds rest := by
  rw [length_keyImage] at small
  rw [keyImage, List.append_assoc] at holds
  obtain ⟨keyed, keyRead, keyHolds⟩ := read_holds stream tKey.key _ (by omega) holds
  rw [List.append_assoc] at keyHolds
  cases bPlus with
  | true =>
    rw [if_pos rfl, List.nil_append] at keyHolds
    obtain ⟨next, linkRead, nextHolds⟩ := keyed.readInt_holds _ rest keyHolds
    refine ⟨next, ?_, nextHolds⟩
    simp only [readKey, keyRead, ok_bind, if_true, linkRead, orInvalid_ofNat inRange.2]
    rfl
  | false =>
    rw [if_neg Bool.false_ne_true] at keyHolds
    obtain ⟨numbered, numberRead, numberHolds⟩ := keyed.readInt_holds _ _ keyHolds
    obtain ⟨next, linkRead, nextHolds⟩ := numbered.readInt_holds _ rest numberHolds
    refine ⟨next, ?_, nextHolds⟩
    simp only [readKey, keyRead, ok_bind, if_neg Bool.false_ne_true, numberRead, linkRead,
      orInvalid_ofNat inRange.1, orInvalid_ofNat inRange.2]
    rfl

theorem readKeys_holds {offsets : Nat → Nat} (vecKey : List (BT_Key_t Key)) :
    ∀ (stream : SMDMemStream) (rest : Bytes), (∀ tKey ∈ vecKey, InRange bPlus offsets tKey) →
      (vecKey.flatMap (keyImage bPlus offsets)).length < 2147483648 →
      stream.Holds (vecKey.flatMap (keyImage bPlus offsets) ++ rest) →
      ∃ next, readKeys bPlus vecKey.length stream =
        .ok (vecKey.map (fileKey bPlus offsets), next) ∧ next.Holds rest := by
  induction vecKey with
  | nil => exact fun stream rest _ _ holds => ⟨stream, rfl, holds⟩
  | cons tKey others inductionHypothesis =>
    intro stream rest inRange small holds
    rw [List.flatMap_cons, List.length_append] at small
    rw [List.flatMap_cons, List.append_assoc] at holds
    obtain ⟨middle, keyRead, middleHolds⟩ := readKey_holds (inRange tKey List.mem_cons_self) stream _
      (by omega) holds
    obtain ⟨next, othersRead, nextHolds⟩ := inductionHypothesis middle rest
      (fun other member => inRange other (List.mem_cons_of_mem _ member)) (by omega) middleHolds
    refine ⟨next, ?_, nextHolds⟩
    simp only [List.length_cons, readKeys, keyRead, ok_bind, othersRead, List.map_cons]

variable (bPlus) in
theorem length_le_flatMap_keyImage (offsets : Nat → Nat) (vecKey : List (BT_Key_t Key)) :
    vecKey.length ≤ (vecKey.flatMap (keyImage bPlus offsets)).length := by
  induction vecKey with
  | nil => exact Nat.le_refl 0
  | cons tKey rest inductionHypothesis =>
    rw [List.length_cons, List.flatMap_cons, List.length_append, length_keyImage]
    split <;> omega

/-- The string of a node gives the node. -/
theorem readNode_image {offsets : Nat → Nat} {node : BT_Node_t Key}
    (small : nodeSize bPlus node < 2147483648)
    (inRange : ∀ tKey ∈ node.vecKey, InRange bPlus offsets tKey)
    (right : linkOf offsets SMD_INVALIDINDEX_RETURN node.pRightSubTree < 4294967296) :
    readNode bPlus ⟨nodeImage bPlus offsets node, 0⟩ = .ok (fileNode bPlus offsets node) := by
  have length := length_nodeImage bPlus offsets node
  have holds : SMDMemStream.Holds ⟨nodeImage bPlus offsets node, 0⟩ (nodeImage bPlus offsets node) :=
    ⟨by simp only; omega, Nat.zero_le _, rfl⟩
  rw [← length] at small
  simp only [nodeImage, List.length_append, SMDValue.length_putInt] at small
  have count := length_le_flatMap_keyImage bPlus offsets node.vecKey
  rw [nodeImage] at holds
  obtain ⟨counted, countRead, countHolds⟩ := SMDMemStream.readInt_holds _ _ _ holds
  obtain ⟨keyed, keysRead, keysHolds⟩ := readKeys_holds node.vecKey counted _ inRange (by omega)
    countHolds
  obtain ⟨linked, linkRead, linkHolds⟩ := keyed.readInt_holds _ _ keysHolds
  have countNat : (BitVec.ofNat 32 node.vecKey.length).toNat = node.vecKey.length := by
    rw [BitVec.toNat_ofNat]
    omega
  rw [← nodeImage] at countRead
  simp only [readNode, countRead, ok_bind, countNat, keysRead, linkRead, orInvalid_ofNat right]
  cases bPlus with
  | false => rfl
  | true =>
    have flag : flagImage true node.bLeaf = [if node.bLeaf then 1 else 0] ++ [] := rfl
    rw [flag] at linkHolds
    obtain ⟨last, flagRead, -⟩ := linked.readBytes_holds _ _ linkHolds
    rw [List.length_singleton] at flagRead
    have bit : ∀ bLeaf : Bool, ((if bLeaf then (1 : UInt8) else 0) &&& 1 == 1) = bLeaf := by
      decide
    rw [if_pos rfl, flagRead, ok_bind]
    exact congrArg (fun bLeaf => Except.ok (FileNode_t.mk _ _ bLeaf)) (bit node.bLeaf)

/-! ### The nodes of a tree in the file -/

section Stored

variable [PageStore File] {height : Nat} {heap : Heap Key} {offsets : Nat → Nat} {file : File}

/-- A tree of nodes that stand in the file, with data offsets of 32 bits. -/
structure InFile (bPlus : Bool) (heap : Heap Key) (offsets : Nat → Nat) (file : File)
    (tree : Tree (Entry Key) height) : Prop where
  held : ∃ parent, Holds unsaved heap parent tree
  stored : StoredAt heap bPlus offsets tree.ids file
  separated : bPlus = true → ∃ low, tree.Separated low
  small : ∀ entry ∈ tree.listing bPlus, entry.2 < 4294967296

omit [StreamKey Key] [LawfulStreamKey Key] in
theorem leftLink_leaf (entry : Entry Key) :
    leftLink bPlus offsets (leafKey entry) = if bPlus then entry.2 else SMD_INVALIDINDEX_RETURN :=
  rfl

variable (bPlus offsets) in
omit [StreamKey Key] [LawfulStreamKey Key] in
/-- The numbers in the node of a tree. -/
theorem nodeOf_inRange {tree : Tree (Entry Key) height} (parent : Option Nat)
    (small : ∀ entry ∈ tree.keys, entry.2 < 4294967296)
    (below : ∀ id ∈ tree.ids, offsets id < 2147483648) :
    (∀ tKey ∈ (nodeOf (unsaved tree.id) parent tree).vecKey, InRange bPlus offsets tKey) ∧
      linkOf offsets SMD_INVALIDINDEX_RETURN
        (nodeOf (unsaved tree.id) parent tree).pRightSubTree < 4294967296 := by
  have invalid : SMD_INVALIDINDEX_RETURN < 4294967296 := by decide
  cases height with
  | zero =>
    refine ⟨fun tKey member => ?_, invalid⟩
    obtain ⟨entry, entryIn, rfl⟩ := List.mem_map.mp member
    refine ⟨small entry entryIn, ?_⟩
    rw [leftLink_leaf]
    cases bPlus with
    | true => exact small entry entryIn
    | false => exact invalid
  | succ height =>
    have child : ∀ subTree ∈ Branch.children tree, offsets subTree.id < 4294967296 := by
      intro subTree member
      have inside : subTree.id ∈ tree.ids :=
        List.mem_cons_of_mem _ (List.mem_flatMap.mpr ⟨subTree, member, subTree.id_mem_ids⟩)
      exact (below _ inside).trans (by decide)
    refine ⟨fun tKey member => ?_, child _ (List.mem_append_right _ List.mem_cons_self)⟩
    obtain ⟨item, itemIn, rfl⟩ := List.mem_map.mp member
    obtain ⟨original, originalIn, rfl⟩ := List.mem_map.mp itemIn
    exact ⟨small _ (List.mem_map_of_mem originalIn),
      child _ (List.mem_append_left _ (List.mem_map_of_mem originalIn))⟩

/-- The topmost node of a tree is read from the file. -/
theorem InFile.read {tree : Tree (Entry Key) height} (inFile : InFile bPlus heap offsets file tree) :
    ∃ parent, readNodeFromFile bPlus file (offsets tree.id) =
      .ok (some (fileNode bPlus offsets (nodeOf (unsaved tree.id) parent tree))) := by
  obtain ⟨parent, held⟩ := inFile.held
  have found := ((holds_iff tree).mp held).1
  obtain ⟨node, same, size, contents, offsetSmall⟩ := inFile.stored tree.id tree.id_mem_ids
  obtain rfl := Option.some.inj (found.symm.trans same)
  have listed := tree.keys_sublist bPlus inFile.separated
  obtain ⟨inRange, right⟩ := nodeOf_inRange bPlus offsets parent
    (fun entry member => inFile.small entry (listed.subset member)) fun id member => by
      obtain ⟨_, -, -, -, small⟩ := inFile.stored id member
      exact small
  have valid : offsets tree.id ≠ SMD_INVALIDINDEX_RETURN := by
    show offsets tree.id ≠ 4294967295
    omega
  refine ⟨parent, ?_⟩
  rw [readNodeFromFile, if_neg valid, PageStore.get_stored _ _ _ contents]
  simp only [readNode_image size inRange right, ok_bind]

theorem InFile.hole {frame : Frame (Entry Key) (Tree (Entry Key) height)}
    {hole : Tree (Entry Key) height} (inFile : InFile bPlus heap offsets file (frame.tree hole)) :
    InFile bPlus heap offsets file hole := by
  obtain ⟨⟨parent, held⟩, stored, separated, small⟩ := inFile
  refine ⟨⟨_, holds_hole held⟩, fun id member => stored id ?_, fun kept => ?_,
    fun entry member => small entry ((frame.hole_listed bPlus hole).subset member)⟩
  · refine List.mem_cons_of_mem _ (List.mem_flatMap.mpr ⟨hole, ?_, member⟩)
    show hole ∈ (frame.fill hole).children
    rw [frame.children_fill]
    exact List.mem_append_right _ List.mem_cons_self
  · obtain ⟨low, isSeparated⟩ := separated kept
    exact ⟨_, ((separated_fill frame hole low).mp isSeparated).2⟩

end Stored

/-! ### Comparisons in a node -/

section Comparing

variable {height : Nat} {offsets : Nat → Nat}

omit [StreamKey Key] [LawfulStreamKey Key] in
theorem subTreeOffset_some {node : BT_Node_t Key} {place id : Nat}
    (pointer : node.subTreeAt place = some id) :
    (fileNode bPlus offsets node).subTreeOffset place = offsets id := by
  unfold BT_Node_t.subTreeAt at pointer
  unfold FileNode_t.subTreeOffset fileNode
  rw [List.getElem?_map]
  cases found : node.vecKey[place]? with
  | none =>
    simp only [found] at pointer
    simp only [Option.map_none, pointer]
    rfl
  | some tKey =>
    simp only [found] at pointer
    simp only [Option.map_some, fileKey, leftLink, pointer]
    rfl

omit [StreamKey Key] [LawfulStreamKey Key] in
theorem subTreeOffset_none {node : BT_Node_t Key} {place : Nat}
    (pointer : node.subTreeAt place = none) :
    (fileNode false offsets node).subTreeOffset place = SMD_INVALIDINDEX_RETURN := by
  unfold BT_Node_t.subTreeAt at pointer
  unfold FileNode_t.subTreeOffset fileNode
  rw [List.getElem?_map]
  cases found : node.vecKey[place]? with
  | none =>
    simp only [found] at pointer
    simp only [Option.map_none, pointer]
    rfl
  | some tKey =>
    simp only [found] at pointer
    simp only [Option.map_some, fileKey, leftLink, pointer]
    rfl

omit [StreamKey Key] [LawfulStreamKey Key] in
/-- The key of a node that holds an entry. -/
theorem getElem?_nodeOf {tree : Tree (Entry Key) height} {before after : List (Entry Key)}
    {entry : Entry Key} (keys : tree.keys = before ++ entry :: after) (offset : Nat)
    (parent : Option Nat) :
    ∃ tKey, (nodeOf offset parent tree).vecKey[before.length]? = some tKey ∧ tKey.entry = entry := by
  have here : ((nodeOf offset parent tree).vecKey[before.length]?).map BT_Key_t.entry =
      some entry := by
    rw [← List.getElem?_map, entries_nodeOf, keys]
    exact getElem?_middle _ _ _ _ rfl
  exact Option.map_eq_some_iff.mp here

variable [LT Key] [DecidableLT Key]

omit [StreamKey Key] [LawfulStreamKey Key] in
theorem lowerBound_fileNode (offset : Nat) (parent : Option Nat) (tree : Tree (Entry Key) height)
    (key : Key) :
    lowerBound FileKey_t.key (fileNode bPlus offsets (nodeOf offset parent tree)).vecKey key =
      lowerBound Prod.fst tree.keys key := by
  rw [← lowerBound_nodeOf offset parent tree]
  unfold lowerBound fileNode
  rw [List.findIdx_map]
  rfl

omit [StreamKey Key] [LawfulStreamKey Key] in
theorem upperBound_fileNode (offset : Nat) (parent : Option Nat) (tree : Tree (Entry Key) height)
    (key : Key) :
    upperBound FileKey_t.key (fileNode bPlus offsets (nodeOf offset parent tree)).vecKey key =
      upperBound Prod.fst tree.keys key := by
  rw [← upperBound_nodeOf offset parent tree]
  unfold upperBound fileNode
  rw [List.findIdx_map]
  rfl

end Comparing

/-! ### Searching -/

section Searching

variable [PageStore File] [LT Key] [DecidableLT Key] [IsStrictOrder Key (· < ·)] {height : Nat}
  {heap : Heap Key} {offsets : Nat → Nat} {file : File} {key : Key}

/-- The B-tree in the file. -/
theorem SMDIndex.searches_file :
    Searches (SMDIndex.searchFromFile file key) offsets key
      (fun _ tree => InFile false heap offsets file tree) where
  below frame hole inFile := inFile.hole
  found tree before after entry calls inFile split := by
    obtain ⟨parent, read⟩ := inFile.read
    rw [SMDIndex.searchFromFile, read, ok_bind]
    have keys := split.joined
    rw [List.append_assoc] at keys
    obtain ⟨tKey, found, rfl⟩ := getElem?_nodeOf keys (unsaved tree.id) parent
    have foundInFile : (fileNode false offsets
        (nodeOf (unsaved tree.id) parent tree)).vecKey[before.length]? =
          some (fileKey false offsets tKey) := by
      unfold fileNode
      rw [List.getElem?_map, found]
      rfl
    simp only [lowerBound_fileNode, upperBound_fileNode, split.lowerBound_eq, split.upperBound_eq,
      Nat.add_sub_cancel_left, List.length_singleton, if_true, foundInFile]
    rfl
  next frame hole before after calls inFile place split := by
    obtain ⟨parent, read⟩ := inFile.read
    have pointer := subTreeAt_fill (unsaved (frame.tree hole).id) parent frame hole
    have valid : offsets hole.id ≠ SMD_INVALIDINDEX_RETURN := by
      obtain ⟨_, -, -, -, small⟩ := inFile.hole.stored hole.id hole.id_mem_ids
      show offsets hole.id ≠ 4294967295
      omega
    rw [SMDIndex.searchFromFile, read, ok_bind]
    simp only [lowerBound_fileNode, upperBound_fileNode, split.lowerBound_eq, split.upperBound_eq,
      List.length_nil, Nat.add_zero, Nat.sub_self, Nat.zero_ne_one, if_false, if_true, ← place,
      subTreeOffset_some pointer, ne_eq, valid, not_false_eq_true]
  missed tree before after calls inFile split := by
    obtain ⟨parent, read⟩ := inFile.read
    have pointer := subTreeAt_leaf (unsaved tree.id) parent tree before.length
    rw [SMDIndex.searchFromFile, read, ok_bind]
    simp only [lowerBound_fileNode, upperBound_fileNode, split.lowerBound_eq, split.upperBound_eq,
      List.length_nil, Nat.add_zero, Nat.sub_self, Nat.zero_ne_one, if_false, if_true,
      subTreeOffset_none pointer, ne_eq, not_true_eq_false]

/-- The B+ tree in the file. -/
theorem SMDIndexBp.searches_file :
    SearchesLeaves (SMDIndexBp.searchFromFile file key) offsets key
      (fun _ tree => InFile true heap offsets file tree) where
  below frame hole inFile := inFile.hole
  branch frame hole before level after calls inFile place atMost split := by
    obtain ⟨parent, read⟩ := inFile.read
    have pointer := subTreeAt_fill (unsaved (frame.tree hole).id) parent frame hole
    have branch : (fileNode true offsets
        (nodeOf (unsaved (frame.tree hole).id) parent (frame.tree hole))).bLeaf = false := rfl
    rw [SMDIndexBp.searchFromFile, read, ok_bind]
    simp only [lowerBound_fileNode, upperBound_fileNode, split.lowerBound_eq, split.upperBound_eq,
      Nat.add_sub_cancel_left, branch, if_neg Bool.false_ne_true]
    by_cases one : level.length = 1
    · rw [if_pos one, ← place, subTreeOffset_some pointer]
    · have same : before.length = frame.before.length := by omega
      rw [if_neg one, if_pos (by omega), same, subTreeOffset_some pointer]
  found tree before after entry calls inFile split := by
    obtain ⟨parent, read⟩ := inFile.read
    rw [SMDIndexBp.searchFromFile, read, ok_bind]
    have keys := split.joined
    rw [List.append_assoc] at keys
    obtain ⟨tKey, found, rfl⟩ := getElem?_nodeOf keys (unsaved tree.id) parent
    obtain ⟨leafEntry, -, rfl⟩ := List.mem_map.mp (List.mem_of_getElem? found)
    have leaf : (fileNode true offsets (nodeOf (unsaved tree.id) parent tree)).bLeaf = true := rfl
    have foundInFile : (fileNode true offsets
        (nodeOf (unsaved tree.id) parent tree)).vecKey[before.length]? =
          some (fileKey true offsets (leafKey leafEntry)) := by
      unfold fileNode
      rw [List.getElem?_map, found]
      rfl
    simp only [lowerBound_fileNode, upperBound_fileNode, split.lowerBound_eq, split.upperBound_eq,
      Nat.add_sub_cancel_left, List.length_singleton, if_true, leaf, foundInFile]
    rfl
  missed tree before after calls inFile split := by
    obtain ⟨parent, read⟩ := inFile.read
    have leaf : (fileNode true offsets (nodeOf (unsaved tree.id) parent tree)).bLeaf = true := rfl
    rw [SMDIndexBp.searchFromFile, read, ok_bind]
    simp only [lowerBound_fileNode, upperBound_fileNode, split.lowerBound_eq, split.upperBound_eq,
      List.length_nil, Nat.add_zero, Nat.sub_self, Nat.zero_ne_one, if_false, if_true, leaf]

/-- Either search, in a tree where at most one entry is level with the key. -/
theorem searchFromFile_spec (tree : Tree (Entry Key) height)
    (inFile : InFile bPlus heap offsets file tree) (sorted : Sorted Prod.fst (tree.listing bPlus))
    (single : Single Prod.fst (tree.listing bPlus) key) (calls : Nat) (enough : height < calls) :
    searchFromFile bPlus file key calls (offsets tree.id) =
      .ok (offsetOf (tree.listing bPlus) key) := by
  cases bPlus with
  | false => exact SMDIndex.searches_file.offset tree calls inFile sorted single enough
  | true =>
    obtain ⟨low, separated⟩ := inFile.separated rfl
    exact SMDIndexBp.searches_file.offset tree calls inFile sorted separated single enough

/-- An index that is saved to a new file with enough room is searched there. -/
theorem saved_spec {index : IndexTree bPlus Key} {root : Rooted (Entry Key)}
    (holding : Holding index root) (small : ∀ entry ∈ root.tree.listing bPlus, entry.2 < 4294967296)
    (isNew : PageStore.created file) (room : index.imageSize ≤ PageStore.room file) :
    ∃ nRootOffset saved after, index.saveIndex file = .ok (true, nRootOffset, saved, after) ∧
      ∀ key, Single Prod.fst (root.tree.listing bPlus) key → ∀ calls, index.top < calls →
        searchFromFile bPlus after key calls nRootOffset =
          .ok (offsetOf (root.tree.listing bPlus) key) := by
  have represents := holding.represents
  obtain ⟨offsets, after, done, stored⟩ := saveIndex_spec index root file represents isNew room
  refine ⟨offsets root.tree.id, index.placed offsets, after, done, fun key single calls enough => ?_⟩
  have inFile : InFile bPlus index.heap offsets after root.tree :=
    ⟨⟨none, represents.held⟩, stored, fun kept => ⟨none, holding.separated kept⟩, small⟩
  have names := length_le_of_apart represents.apart represents.below
  exact searchFromFile_spec root.tree inFile holding.sorted single calls
    (((root.tree.length_ids).trans_le names).trans_le (Nat.le_of_lt enough))

end Searching

/-! ### After any insertions -/

section Runs

variable (File) [PageStore File] [LT Key] [DecidableLT Key] [IsStrictTotalOrder Key (· < ·)]

/-- Either index, saved once to a new page file that has room for it, is a finite map there: after
any insertions `searchFromFile` from the root offset finds the offset that came first with a key,
and nothing for a key that was never inserted. -/
theorem saved_index_is_searched (bPlus : Bool) (most : Nat) (some' : 1 ≤ most)
    (calls : List (Key × Nat)) (inserted : calls ≠ [])
    (offsets : ∀ call ∈ calls, call.2 < 4294967296) :
    ∃ results index, runAll step (empty most : IndexTree bPlus Key) calls = .ok (results, index) ∧
      ∀ file : File, PageStore.created file → index.imageSize ≤ PageStore.room file →
        ∃ nRootOffset saved after,
          index.saveIndex file = .ok (true, nRootOffset, saved, after) ∧
          ∀ key searchCalls, index.top < searchCalls →
            (∀ before offset behind, calls = before ++ (key, offset) :: behind →
              (∀ call ∈ before, call.1 ≠ key) →
              searchFromFile bPlus after key searchCalls nRootOffset = .ok offset) ∧
            ((∀ call ∈ calls, call.1 ≠ key) →
              searchFromFile bPlus after key searchCalls nRootOffset =
                .ok SMD_INVALIDINDEX_RETURN) := by
  obtain ⟨results, index, ran, tracks⟩ := Tracks.runAll some' calls
    (tracks_empty most : Tracks (empty most : IndexTree bPlus Key) most [])
  refine ⟨results, index, ran, fun file isNew room => ?_⟩
  rcases tracks.held with ⟨none', -⟩ | ⟨root, holding, perm⟩
  · exact absurd (acceptedOf_eq_nil none') inserted
  · have small : ∀ entry ∈ root.tree.listing bPlus, entry.2 < 4294967296 := fun entry member =>
      offsets entry (acceptedOf_subset (perm.mem_iff.mp member))
    obtain ⟨nRootOffset, saved, after, done, found⟩ := saved_spec holding small isNew room
    refine ⟨nRootOffset, saved, after, done, fun key searchCalls enough => ?_⟩
    rw [found key (holding.sorted.single key) searchCalls enough]
    obtain ⟨first, never⟩ := offsetOf_accepted holding.sorted perm key
    exact ⟨fun before offset behind split none' => congrArg _ (first before offset behind split none'),
      fun none' => congrArg _ (never none')⟩

end Runs

/-- A B-tree over integers and a B+ tree over strings, each with at most two keys in a node. -/
theorem saved_index_is_searched_once :
    (∃ results index, runAll step (empty 2 : SMDIndex Int32) [(5, 50), (3, 30), (-4, 40)] =
        .ok (results, index) ∧
      ∃ nRootOffset saved after,
        index.saveIndex (OnePage.new 4108 (by decide)) = .ok (true, nRootOffset, saved, after) ∧
        searchFromFile false after (-4 : Int32) (index.top + 1) nRootOffset = .ok 40) ∧
    ∃ results index, runAll step (empty 2 : SMDIndexBp Bytes)
        [([98], 50), ([97, 98], 30), ([98], 1), ([], 40)] = .ok (results, index) ∧
      ∃ nRootOffset saved after,
        index.saveIndex (OnePage.new 4108 (by decide)) = .ok (true, nRootOffset, saved, after) ∧
        searchFromFile true after ([98] : Bytes) (index.top + 1) nRootOffset = .ok 50 ∧
        searchFromFile true after ([97] : Bytes) (index.top + 1) nRootOffset =
          .ok SMD_INVALIDINDEX_RETURN := by
  constructor
  · obtain ⟨results, index, ran, searched⟩ := saved_index_is_searched OnePage false 2
      (by decide) [((5 : Int32), 50), (3, 30), (-4, 40)] (by decide) (by decide)
    have size : ((runAll step (empty 2 : SMDIndex Int32)
        [(5, 50), (3, 30), (-4, 40)]).toOption.elim 0 fun run => run.2.imageSize) = 72 := by decide
    rw [ran] at size
    have size' : index.imageSize = 72 := size
    obtain ⟨nRootOffset, saved, after, done, found⟩ := searched (OnePage.new 4108 (by decide)) rfl
      (by rw [size']; decide)
    exact ⟨results, index, ran, nRootOffset, saved, after, done,
      (found (-4) _ (Nat.lt_succ_self _)).1 [(5, 50), (3, 30)] 40 [] rfl (by decide)⟩
  · obtain ⟨results, index, ran, searched⟩ := saved_index_is_searched OnePage true 2
      (by decide) [(([98] : Bytes), 50), ([97, 98], 30), ([98], 1), ([], 40)] (by decide)
      (by decide)
    have size : ((runAll step (empty 2 : SMDIndexBp Bytes)
        [([98], 50), ([97, 98], 30), ([98], 1), ([], 40)]).toOption.elim 0
          fun run => run.2.imageSize) = 76 := by decide
    rw [ran] at size
    have size' : index.imageSize = 76 := size
    obtain ⟨nRootOffset, saved, after, done, found⟩ := searched (OnePage.new 4108 (by decide)) rfl
      (by rw [size']; decide)
    exact ⟨results, index, ran, nRootOffset, saved, after, done,
      (found [98] _ (Nat.lt_succ_self _)).1 [] 50 _ rfl (by decide),
      (found [97] _ (Nat.lt_succ_self _)).2 (by decide)⟩

end LevelDBLib.KvDB
