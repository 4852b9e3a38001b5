/-
This file puts the two passes of `saveIndex` together: what the first one leaves
in the file and in the nodes, what the second one makes of it, and that after both
every node of the tree can be found in the file, with the offsets of its children
(`StoredAt`).
-/

import Mathlib.Algebra.Order.Group.Nat
import LevelDBLib.KvDB.IndexSave

namespace LevelDBLib.KvDB

open Ranges BranchTrees IndexTree

variable {bPlus : Bool} {Key File : Type} [StreamKey Key] [LawfulStreamKey Key] [PageStore File]

/-- The string at the offset of a node. -/
def StringAt (file : File) (offset : Nat) (bytes : Bytes) : Prop :=
  PageStore.contents file offset = some bytes ∧ offset < 2147483648

namespace IndexTree

/-! ### The first pass -/

/-- What holds after some nodes got their offsets in a new file `created`. -/
structure FoundPlaces (index : IndexTree bPlus Key) (names : List Nat) (created : File)
    (saved : List Nat) (offsets : Nat → Nat) (file : File) : Prop where
  apart : saved.Nodup
  named : ∀ id ∈ saved, id ∈ names
  begins : saved = [] → file = created
  first : ∀ id ∈ saved.head?, offsets id = PageStore.getPageFileBeginOffset created
  waiting : ∀ id ∈ names, id ∉ saved → offsets id = SMD_INVALIDINDEX_RETURN
  stored : ∀ id ∈ saved, ∃ node bytes, index.heap id = some node ∧
    bytes.length = nodeSize bPlus node ∧ StringAt file (offsets id) bytes
  distinct : ∀ id ∈ saved, ∀ other ∈ saved, offsets id = offsets other → id = other
  room : index.imageSize ≤ (saved.map index.sizeAt).sum + PageStore.room file

/-- Some nodes take up no more than all of them. -/
theorem sum_sizeAt_le (index : IndexTree bPlus Key) {names : List Nat} (apart : names.Nodup)
    (below : ∀ id ∈ names, id < index.top) : (names.map index.sizeAt).sum ≤ index.imageSize := by
  have listed : List.Subperm names (List.range index.top) :=
    List.subperm_of_subset apart fun id member => List.mem_range.mpr (below id member)
  obtain ⟨part, perm, inside⟩ := listed
  unfold imageSize
  rw [← (perm.map index.sizeAt).sum_eq]
  exact (inside.map index.sizeAt).sum_le_sum fun _ _ => Nat.zero_le _

theorem foundPlaces_preserves (index : IndexTree bPlus Key) {names : List Nat} {created : File}
    (isNew : PageStore.created created) (below : ∀ id ∈ names, id < index.top) :
    index.Preserves names (FoundPlaces index names created) := by
  intro saved offsets file id node found named notSaved holds
  have waits := holds.waiting id named notSaved
  have apart : (saved ++ [id]).Nodup := List.nodup_append.mpr ⟨holds.apart, List.nodup_singleton id,
    fun one oneIn two twoIn equal => notSaved (List.mem_singleton.mp twoIn ▸ equal ▸ oneIn)⟩
  have isNamed : ∀ other ∈ saved ++ [id], other ∈ names := by
    intro other member
    rcases List.mem_append.mp member with inside | last
    · exact holds.named other inside
    · exact List.mem_singleton.mp last ▸ named
  have size : index.sizeAt id = nodeSize bPlus node + 4 := by
    rw [sizeAt, found]
    rfl
  have sum : ((saved ++ [id]).map index.sizeAt).sum =
      (saved.map index.sizeAt).sum + (nodeSize bPlus node + 4) := by
    rw [List.map_append, List.sum_append, List.map_singleton, List.sum_singleton, size]
  have total := index.sum_sizeAt_le apart fun other member => below other (isNamed other member)
  have length := length_nodeImage bPlus offsets node
  have some' : nodeImage bPlus offsets node ≠ [] := by
    intro empty
    rw [empty, nodeSize, List.length_nil] at length
    omega
  have room := holds.room
  obtain ⟨offset, next, put, small, free, contents, left, atBegin⟩ :=
    PageStore.put_appends file (nodeImage bPlus offsets node) some' (by omega)
  have saving : saveTo bPlus file offsets id node = (offset, next) := (if_pos waits).trans put
  rw [saving]
  have others : ∀ other ∈ saved, other ≠ id := fun other member equal => notSaved (equal ▸ member)
  have kept : ∀ other ∈ saved, offsets other ≠ offset := by
    intro other member equal
    obtain ⟨_, bytes, -, -, stored, -⟩ := holds.stored other member
    rw [equal, free] at stored
    cases stored
  refine ⟨?_, apart, isNamed, fun empty => ?_, ?_, ?_, ?_, ?_, ?_⟩
  · show offset ≠ 4294967295
    omega
  · simp at empty
  · intro head member
    cases saved with
    | nil =>
      obtain rfl := Option.some.inj member
      rw [Function.update_self]
      have start := holds.begins rfl
      rw [start] at atBegin
      exact atBegin isNew
    | cons first rest =>
      obtain rfl := Option.some.inj member
      rw [Function.update_of_ne (others _ List.mem_cons_self)]
      exact holds.first _ rfl
  · intro other member outside
    rw [List.mem_append, not_or, List.mem_singleton] at outside
    rw [Function.update_of_ne outside.2]
    exact holds.waiting other member outside.1
  · intro other member
    rcases List.mem_append.mp member with inside | last
    · obtain ⟨otherNode, bytes, otherFound, otherLength, stored, otherSmall⟩ := holds.stored other inside
      refine ⟨otherNode, bytes, otherFound, otherLength, ?_, ?_⟩
      · rw [contents, Function.update_of_ne (others other inside),
          Function.update_of_ne (kept other inside), stored]
      · rw [Function.update_of_ne (others other inside)]
        exact otherSmall
    · obtain rfl := List.mem_singleton.mp last
      refine ⟨node, _, found, length, ?_, ?_⟩
      · rw [Function.update_self, contents, Function.update_self]
      · rw [Function.update_self]
        exact small
  · intro one oneIn two twoIn equal
    rcases List.mem_append.mp oneIn with oneSaved | oneLast
    · rcases List.mem_append.mp twoIn with twoSaved | twoLast
      · rw [Function.update_of_ne (others one oneSaved), Function.update_of_ne (others two twoSaved)]
          at equal
        exact holds.distinct one oneSaved two twoSaved equal
      · obtain rfl := List.mem_singleton.mp twoLast
        rw [Function.update_of_ne (others one oneSaved), Function.update_self] at equal
        exact absurd equal (kept one oneSaved)
    · obtain rfl := List.mem_singleton.mp oneLast
      rcases List.mem_append.mp twoIn with twoSaved | twoLast
      · rw [Function.update_of_ne (others two twoSaved), Function.update_self] at equal
        exact absurd equal.symm (kept two twoSaved)
      · exact (List.mem_singleton.mp twoLast).symm
  · show _ ≤ _ + PageStore.room next
    rw [sum]
    omega

/-! ### The second pass -/

/-- What holds after some nodes were written with the offsets of their children. -/
structure WrittenAgain (index : IndexTree bPlus Key) (names : List Nat) (places : Nat → Nat)
    (saved : List Nat) (offsets : Nat → Nat) (file : File) : Prop where
  same : offsets = places
  named : ∀ id ∈ saved, id ∈ names
  stored : ∀ id ∈ names, ∃ node bytes, index.heap id = some node ∧
    bytes.length = nodeSize bPlus node ∧ StringAt file (places id) bytes
  written : ∀ id ∈ saved, ∀ node, index.heap id = some node →
    PageStore.contents file (places id) = some (nodeImage bPlus places node)

variable (File) in
theorem writtenAgain_preserves (index : IndexTree bPlus Key) {names : List Nat}
    {places : Nat → Nat}
    (distinct : ∀ id ∈ names, ∀ other ∈ names, places id = places other → id = other) :
    index.Preserves names (WrittenAgain index names places : List Nat → (Nat → Nat) → File → Prop) := by
  rintro saved offsets file id node found named notSaved ⟨rfl, isNamed, stored, written⟩
  obtain ⟨sameNode, old, sameFound, oldLength, oldStored, small⟩ := stored id named
  obtain rfl := Option.some.inj (found.symm.trans sameFound)
  have length := length_nodeImage bPlus offsets node
  have valid : offsets id ≠ SMD_INVALIDINDEX_RETURN := by
    show offsets id ≠ 4294967295
    omega
  obtain ⟨next, put, contents⟩ := PageStore.putAt_overwrites file (nodeImage bPlus offsets node)
    (offsets id) old oldStored (length.trans oldLength.symm)
  have saving : saveTo bPlus file offsets id node = (offsets id, next) := (if_neg valid).trans put
  rw [saving]
  refine ⟨valid, ⟨Function.update_eq_self id offsets, ?_, ?_, ?_⟩⟩
  · intro other member
    rcases List.mem_append.mp member with inside | last
    · exact isNamed other inside
    · exact List.mem_singleton.mp last ▸ named
  · intro other member
    obtain ⟨otherNode, bytes, otherFound, otherLength, otherStored, otherSmall⟩ := stored other member
    by_cases same : other = id
    · obtain rfl := same
      refine ⟨node, _, found, length, ?_, otherSmall⟩
      show PageStore.contents next _ = _
      rw [contents, Function.update_self]
    · refine ⟨otherNode, bytes, otherFound, otherLength, ?_, otherSmall⟩
      show PageStore.contents next _ = _
      rw [contents, Function.update_of_ne fun equal => same (distinct _ member _ named equal)]
      exact otherStored
  · intro other member otherNode otherFound
    show PageStore.contents next _ = _
    rcases List.mem_append.mp member with inside | last
    · by_cases same : other = id
      · obtain rfl := same
        obtain rfl := Option.some.inj (found.symm.trans otherFound)
        rw [contents, Function.update_self]
      · rw [contents, Function.update_of_ne fun equal =>
          same (distinct _ (isNamed other inside) _ named equal)]
        exact written other inside otherNode otherFound
    · obtain rfl := List.mem_singleton.mp last
      obtain rfl := Option.some.inj (found.symm.trans otherFound)
      rw [contents, Function.update_self]

/-! ### Both passes -/

/-- Every one of the nodes stands in the file, with the offsets of its children. -/
def StoredAt (heap : Heap Key) (bPlus : Bool) (offsets : Nat → Nat) (names : List Nat)
    (file : File) : Prop :=
  ∀ id ∈ names, ∃ node, heap id = some node ∧ nodeSize bPlus node < 2147483648 ∧
    StringAt file (offsets id) (nodeImage bPlus offsets node)

/-- `saveIndex` of a tree to a file that is new and has room for it. -/
theorem saveIndex_spec (index : IndexTree bPlus Key) (root : Rooted (Entry Key)) (file : File)
    (represents : Represents unsaved index root) (isNew : PageStore.created file)
    (room : index.imageSize ≤ PageStore.room file) :
    ∃ offsets after,
      index.saveIndex file = .ok (true, offsets root.tree.id, index.placed offsets, after) ∧
      StoredAt index.heap bPlus offsets root.tree.ids after := by
  have small : ∀ id ∈ root.tree.ids, ∀ node, index.heap id = some node →
      nodeSize bPlus node < 2147483648 := by
    intro id member node found
    have total := index.sum_sizeAt_le (List.nodup_singleton id) fun other inside =>
      List.mem_singleton.mp inside ▸ represents.below id member
    rw [List.map_singleton, List.sum_singleton, sizeAt, found] at total
    have limit := PageStore.room_small file
    simp only [Option.elim_some] at total
    omega
  have calls : root.height + 1 < index.top + 2 := by
    have listed : List.Subperm root.tree.ids (List.range index.top) :=
      List.subperm_of_subset represents.apart fun id member =>
        List.mem_range.mpr (represents.below id member)
    have count := listed.length_le
    rw [List.length_range] at count
    have height := root.tree.length_ids
    omega
  have trees : ∀ tree ∈ [root.tree], (∀ id ∈ tree.ids, id ∈ root.tree.ids) ∧
      ∃ parent, Holds unsaved index.heap parent tree := by
    intro tree member
    rw [List.mem_singleton.mp member]
    exact ⟨fun _ inside => inside, none, represents.held⟩
  have apart : ([] ++ [root.tree].flatMap Tree.ids).Nodup := by
    rw [List.flatMap_singleton]
    exact represents.apart
  have names : ∀ order, order.Perm ([root.tree].flatMap Tree.innerIds) →
      ∀ id ∈ root.tree.ids, id ∈ [] ++ [root.tree].map Tree.id ++ order := by
    intro order perm id member
    rw [Tree.ids_eq] at member
    rw [List.flatMap_singleton] at perm
    exact (List.mem_cons.mp member).elim (fun equal => equal ▸ List.mem_cons_self)
      fun inside => List.mem_cons_of_mem _ (perm.mem_iff.mpr inside)
  -- the first pass starts with nodes that have no offsets yet
  let start : Nat → Nat := fun id => (index.heap id).elim 0 BT_Node_t.nOffset
  have waiting : ∀ id ∈ root.tree.ids, start id = SMD_INVALIDINDEX_RETURN := by
    intro id member
    obtain ⟨node, found, offset⟩ := represents.held.found member
    show (index.heap id).elim 0 BT_Node_t.nOffset = _
    rw [found]
    exact offset
  obtain ⟨order, offsets, between, perm, first, found⟩ := saveLevNode_spec
    (foundPlaces_preserves index isNew represents.below) small [root.tree] [] start file
    (index.top + 2) trees apart ⟨List.nodup_nil, by simp, fun _ => rfl, by simp,
      fun id member _ => waiting id member, by simp, by simp, by simpa using room⟩ calls
  have everyName := names order perm
  obtain ⟨again, last, after, againPerm, second, written⟩ := saveLevNode_spec
    (writtenAgain_preserves File index fun id member other otherIn =>
      found.distinct id (everyName id member) other (everyName other otherIn)) small [root.tree] []
    offsets between (index.top + 2) trees apart
    ⟨rfl, by simp, fun id member => found.stored id (everyName id member), by simp⟩ calls
  obtain rfl := written.same
  refine ⟨last, after, ?_, fun id member => ?_⟩
  · have begins : last root.tree.id = PageStore.getPageFileBeginOffset file := found.first _ rfl
    rw [placed_self, List.map_singleton, ← represents.pointer] at first
    rw [List.map_singleton, ← represents.pointer] at second
    have secondPass : saveLevNode ((index.placed last).top + 2) (index.placed last) between
        [(index.placed last).m_pBtreeRoot] = .ok (true, index.placed last, after) := second
    simp only [saveIndex, begins, first, ok_bind, if_true, secondPass]
  · obtain ⟨node, bytes, nodeFound, -, -, offsetSmall⟩ := written.stored id member
    exact ⟨node, nodeFound, small id member node nodeFound, written.written id (names again againPerm id member) node nodeFound,
      offsetSmall⟩

end IndexTree

end LevelDBLib.KvDB
