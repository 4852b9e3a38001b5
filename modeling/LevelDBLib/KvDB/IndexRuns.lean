/-
This file is about an index object over a sequence of insertions. It is always a
tree in which every node but the root is at least half full, whose listing is the
sorted range of what was accepted (`Holding`); an insertion is refused exactly when
the listing already has an entry that is level with the key.
-/

import Mathlib.Data.List.Induction
import LevelDBLib.Library.Runs
import LevelDBLib.KvDB.IndexFind

namespace LevelDBLib.KvDB

open Ranges BranchTrees Runs

variable {Key : Type} {bPlus : Bool} [LT Key]

/-- An index object and the tree that it is. -/
structure Holding (index : IndexTree bPlus Key) (root : Rooted (Entry Key)) : Prop where
  represents : Represents unsaved index root
  sorted : Sorted Prod.fst (root.tree.listing bPlus)
  separated : bPlus = true → root.tree.Separated none
  filled : root.Filled (index.m_nMaxKey / 2) index.m_nMaxKey
  connected : ∀ result ∈ index.connected, result = true

namespace IndexTree

/-- Names below a bound that are apart are not more than the bound. -/
theorem length_le_of_apart {names : List Nat} {top : Nat} (apart : names.Nodup)
    (below : ∀ id ∈ names, id < top) : names.length ≤ top := by
  have listed : List.Subperm names (List.range top) := List.subperm_of_subset apart fun id member =>
    List.mem_range.mpr (below id member)
  rw [← List.length_range (n := top)]
  exact listed.length_le

variable [DecidableLT Key] [IsStrictOrder Key (· < ·)] {height : Nat}

/-- The leaf of a key with the key in its place. -/
theorem Belongs.growing {index : IndexTree bPlus Key} {root : Rooted (Entry Key)} {key : Key}
    {place : Path (Entry Key) 0} {leaf : Tree (Entry Key) 0} (holding : Holding index root)
    (belongs : Belongs key root place leaf bPlus) (offset : Nat) :
    ∃ before after, Leaf.entries leaf = before ++ after ∧
      Sorted Prod.fst (before ++ (key, offset) :: after) ∧
      Growing bPlus index.m_nMaxKey place (Tree.leaf leaf.id (before ++ (key, offset) :: after)) ∧
      ∃ front back, root.tree.listing bPlus = front ++ back ∧
        (place.plug (Tree.leaf leaf.id (before ++ (key, offset) :: after))).tree.listing bPlus =
          front ++ (key, offset) :: back := by
  obtain ⟨rfl, below, above, low, apart⟩ := belongs
  have listing := place.listing_plug bPlus leaf
  have sorted := holding.sorted
  rw [listing] at sorted
  have leafSorted : Sorted Prod.fst leaf.keys :=
    (List.pairwise_append.mp (List.pairwise_append.mp sorted).1).2.1
  obtain ⟨before, level, after, split⟩ := exists_split Prod.fst leaf.keys key leafSorted
  have noLevel : level = [] := by
    cases level with
    | nil => rfl
    | cons entry rest =>
      refine absurd (split.level entry List.mem_cons_self) (apart entry ?_)
      rw [split.joined]
      exact List.mem_append_left _ (List.mem_append_right _ List.mem_cons_self)
  subst noLevel
  have keys : Leaf.entries leaf = before ++ after := by
    have joined := split.joined
    rwa [List.append_nil] at joined
  have whole : leaf.listing bPlus = before ++ after := keys
  have inserted : Sorted Prod.fst (before ++ (key, offset) :: after) :=
    sorted_insert (keys ▸ leafSorted : Sorted Prod.fst (before ++ after)) split.below split.above
  have longer : (place.plug (Tree.leaf leaf.id (before ++ (key, offset) :: after))).tree.listing bPlus =
      (place.front bPlus ++ before) ++ (key, offset) :: (after ++ place.back bPlus) := by
    rw [place.listing_plug]
    show _ ++ (before ++ (key, offset) :: after) ++ _ = _
    simp only [List.append_assoc, List.cons_append]
  rw [whole] at sorted
  have sortedLonger : Sorted Prod.fst ((place.front bPlus ++ before) ++
      (key, offset) :: (after ++ place.back bPlus)) := by
    refine sorted_insert ?_ ?_ ?_
    · simpa only [List.append_assoc] using sorted
    · exact fun entry member => (List.mem_append.mp member).elim (below entry) (split.below entry)
    · exact fun entry member => (List.mem_append.mp member).elim (split.above entry) (above entry)
  obtain ⟨filledAbove, ⟨enough, bounded⟩, -⟩ := (place.filled_plug _ _ leaf).mp holding.filled
  have length : (before ++ (key, offset) :: after).length = leaf.keys.length + 1 := by
    show _ = (Leaf.entries leaf).length + 1
    rw [keys, List.length_append, List.length_append, List.length_cons, Nat.add_assoc]
  refine ⟨before, after, keys, inserted, ⟨longer ▸ sortedLonger, fun kept => ?_, filledAbove, ?_, ?_, trivial⟩,
    place.front bPlus ++ before, after ++ place.back bPlus, ?_, longer⟩
  · obtain ⟨placeSeparated, leafSeparated⟩ := (place.separated_plug leaf).mp (holding.separated kept)
    refine (place.separated_plug _).mpr ⟨placeSeparated, fun entry lowEq => ?_⟩
    -- the first entry of the leaf is below the key, so it stays the first one
    have head := leafSeparated entry lowEq
    rw [keys] at head
    cases before with
    | nil =>
      have member : entry ∈ after := List.mem_of_mem_head? head
      exact absurd (split.above entry member) (lt_asymmetric (low entry lowEq))
    | cons first rest => exact head
  · exact enough.trans ((Nat.le_succ _).trans (Nat.le_of_eq length.symm))
  · exact (Nat.le_of_eq length).trans (Nat.succ_le_succ bounded)
  · rw [listing, whole]
    simp only [List.append_assoc]

/-- What an accepted key does to the listing. -/
structure Accepted (key : Key) (offset : Nat) (before after : List (Entry Key)) : Prop where
  fresh : ∀ entry ∈ before, ¬ Level entry.1 key
  listed : ∃ front back, before = front ++ back ∧ after = front ++ (key, offset) :: back

omit [IsStrictOrder Key (· < ·)] in
/-- The first key of an index. -/
theorem insertKeyOffset_first (index : IndexTree bPlus Key) (key : Key) (offset : Nat)
    (none' : index.m_pBtreeRoot = none) (some' : 1 ≤ index.m_nMaxKey)
    (connected : ∀ result ∈ index.connected, result = true) :
    ∃ after root, index.insertKeyOffset key offset = .ok (true, after) ∧ Holding after root ∧
      after.m_nMaxKey = index.m_nMaxKey ∧ root.tree.listing bPlus = [(key, offset)] := by
  refine ⟨({ index.alloc ⟨[⟨key, offset, none⟩], SMD_INVALIDINDEX_RETURN, true, none, none⟩ with
      m_pBtreeRoot := some index.top } : IndexTree bPlus Key).pushNode index.top, ⟨0, Tree.leaf index.top [(key, offset)]⟩,
    ?_, ⟨⟨rfl, Function.update_self .., List.nodup_singleton _, ?_⟩, List.pairwise_singleton _ _,
      fun _ => ?_, ⟨⟨Nat.le_refl 1, some'⟩, trivial⟩, connected⟩, rfl, rfl⟩
  · rw [insertKeyOffset, insertNode, none']
  · intro id member
    rw [List.mem_singleton.mp member]
    exact Nat.lt_succ_self _
  · rintro entry ⟨⟩

/-- The leaf of a key after the key was pushed and the leaf was sorted. -/
theorem represents_pushed {index : IndexTree bPlus Key} {place : Path (Entry Key) 0}
    {leaf : Tree (Entry Key) 0} (represents : Represents unsaved index (place.plug leaf))
    {before after : List (Entry Key)} {entry : Entry Key} (keys : Leaf.entries leaf = before ++ after)
    (sorted : Sorted Prod.fst (before ++ entry :: after)) :
    ∃ node, index.heap leaf.id = some node ∧
      Represents unsaved (index.setNode leaf.id { node with
        vecKey := sort BT_Key_t.key (node.vecKey ++ [leafKey entry]) })
        (place.plug (Tree.leaf leaf.id (before ++ entry :: after))) := by
  obtain ⟨path, held⟩ := (holds_plug place leaf).mp represents.held
  have ids := place.ids_plug leaf
  have longerIds := place.ids_plug (Tree.leaf leaf.id (before ++ entry :: after))
  have apart := ids.nodup_iff.mp represents.apart
  refine ⟨_, held, ?_, (holds_plug place _).mpr ⟨path.frame fun id member => ?_, ?_⟩,
    longerIds.nodup_iff.mpr apart, fun id member => ?_⟩
  · exact represents.pointer.trans (congrArg some (place.id_plug rfl))
  · refine heap_setNode_other _ _ _ _ fun equal => ?_
    exact (List.nodup_append.mp apart).2.2 id member leaf.id leaf.id_mem_ids equal
  · refine (heap_setNode ..).trans (congrArg some ?_)
    have vecKey : sort BT_Key_t.key ((Leaf.entries leaf).map leafKey ++ [leafKey entry]) =
        (before ++ entry :: after).map leafKey := by
      rw [keys, List.map_append, List.map_append, List.map_cons]
      refine sort_concat _ _ _ _ ?_
      rw [← List.map_cons, ← List.map_append, Sorted, List.pairwise_map]
      exact sorted
    exact congrArg (BT_Node_t.mk · _ _ _ _) vecKey
  · exact represents.below id (ids.mem_iff.mpr (longerIds.mem_iff.mp member))

/-- An insertion that has found the leaf of its key: what the index holds when the key is pushed
there, and the call that goes on. -/
structure Entering (index : IndexTree bPlus Key) (root : Rooted (Entry Key)) (key : Key)
    (offset : Nat) (place : Path (Entry Key) 0) (leaf grown : Tree (Entry Key) 0)
    (node : BT_Node_t Key) : Prop where
  belongs : Belongs key root place leaf bPlus
  ids : grown.ids = leaf.ids
  found : index.heap grown.id = some node
  represents : Represents unsaved (index.setNode grown.id { node with
    vecKey := sort BT_Key_t.key (node.vecKey ++ [leafKey (key, offset)]) }) (place.plug grown)
  growing : Growing bPlus index.m_nMaxKey place grown
  enough : place.length + 2 ≤ index.top + 1
  listed : ∃ front back, root.tree.listing bPlus = front ++ back ∧
    (place.plug grown).tree.listing bPlus = front ++ (key, offset) :: back
  enters : index.insertKeyOffset key offset =
    insertAt (index.top + 1) index (some grown.id) (leafKey (key, offset))

/-- An insertion is refused, or it has found the leaf of its key. -/
theorem insertKeyOffset_enters (index : IndexTree bPlus Key) (root : Rooted (Entry Key)) (key : Key)
    (offset : Nat) (holding : Holding index root) :
    (index.insertKeyOffset key offset = .ok (false, index) ∧
        ∃ entry ∈ root.tree.listing bPlus, Level entry.1 key) ∨
      ∃ place leaf grown node, Entering index root key offset place leaf grown node := by
  have represents := holding.represents
  have names := length_le_of_apart represents.apart represents.below
  have calls : root.height < index.top + 1 := (root.tree.length_ids.trans_le names).trans_le
    (Nat.le_succ _)
  rw [insertKeyOffset, insertNode, represents.pointer]
  simp only
  rcases findInsertNode_spec index key root.tree Path.top none (index.top + 1) represents.held
      holding.sorted holding.separated calls (fun _ member => absurd member List.not_mem_nil)
      (fun _ member => absurd member List.not_mem_nil) (fun entry equal => by cases equal) with
    ⟨refused, level⟩ | ⟨place, leaf, belongs, found⟩
  · refine Or.inl ⟨?_, level⟩
    rw [refused, ok_bind]
  · refine Or.inr ?_
    obtain ⟨before, after, keys, sorted, growing, listed⟩ := belongs.growing holding offset
    have whole : place.plug leaf = root := belongs.whole
    rw [← whole] at represents
    obtain ⟨node, nodeFound, pushed⟩ := represents_pushed represents keys sorted
    have enough : place.length + 2 ≤ index.top + 1 := by
      rw [← whole] at names
      have count := (place.ids_plug leaf).length_eq
      have leafCount : leaf.ids.length = 1 := rfl
      have pathCount := place.length_le_ids
      rw [List.length_append] at count
      omega
    refine ⟨place, leaf, Tree.leaf leaf.id (before ++ (key, offset) :: after), node, belongs, rfl,
      nodeFound, pushed, growing, enough, listed, ?_⟩
    rw [insertKeyOffset, insertNode, holding.represents.pointer]
    simp only
    rw [found, ok_bind]
    rfl

/-- An insertion into a tree. -/
theorem insertKeyOffset_spec (index : IndexTree bPlus Key) (root : Rooted (Entry Key)) (key : Key)
    (offset : Nat) (holding : Holding index root) (some' : 1 ≤ index.m_nMaxKey) :
    (index.insertKeyOffset key offset = .ok (false, index) ∧
        ∃ entry ∈ root.tree.listing bPlus, Level entry.1 key) ∨
      ∃ after last, index.insertKeyOffset key offset = .ok (true, after) ∧ Holding after last ∧
        after.m_nMaxKey = index.m_nMaxKey ∧
        Accepted key offset (root.tree.listing bPlus) (last.tree.listing bPlus) := by
  rcases insertKeyOffset_enters index root key offset holding with
    refused | ⟨place, leaf, grown, node, entering⟩
  · exact Or.inl refused
  · refine Or.inr ?_
    obtain ⟨front, back, listing, longer⟩ := entering.listed
    obtain ⟨last, lastRoot, done, inserted⟩ := insertAt_spec place grown (index.top + 1)
      entering.enough index node (leafKey (key, offset)) entering.found entering.represents
      entering.growing some'
    refine ⟨last, lastRoot, entering.enters.trans done, ⟨inserted.represents, ?_,
      inserted.separated, ?_, ?_⟩, inserted.most, ?_, front, back, listing,
      inserted.listing.trans longer⟩
    · rw [inserted.listing]
      exact entering.growing.sorted
    · rw [inserted.most]
      exact inserted.filled
    · exact inserted.connected holding.connected
    · intro entry member
      rw [← entering.belongs.whole, place.listing_plug] at member
      rcases List.mem_append.mp member with member | member
      · rcases List.mem_append.mp member with member | member
        · exact fun level => level.1 (entering.belongs.below entry member)
        · exact entering.belongs.apart entry member
      · exact fun level => level.2 (entering.belongs.above entry member)

/-- A search in memory, where at most one entry is level with the key. -/
theorem searchFromMem_spec {index : SMDIndex Key} {root : Rooted (Entry Key)}
    (holding : Holding index root) (key : Key)
    (single : Single Prod.fst (root.tree.listing false) key) :
    index.searchFromMem key = .ok (offsetOf (root.tree.listing false) key) := by
  have represents := holding.represents
  have names := length_le_of_apart represents.apart represents.below
  rw [searchFromMem, represents.pointer]
  exact searchKey_spec index key root.tree none (index.top + 1) represents.held holding.sorted
    single ((root.tree.length_ids.trans_le names).trans_le (Nat.le_succ _))

/-! ### Sequences of insertions -/

omit [IsStrictOrder Key (· < ·)] in
/-- A key is accepted unless it is level with one that was accepted before. -/
def accept (accepted : List (Entry Key)) (call : Entry Key) : List (Entry Key) :=
  if ∀ entry ∈ accepted, ¬ Level entry.1 call.1 then accepted ++ [call] else accepted

omit [IsStrictOrder Key (· < ·)] in
/-- The calls that were accepted. -/
def acceptedOf (calls : List (Entry Key)) : List (Entry Key) := calls.foldl accept []

omit [IsStrictOrder Key (· < ·)] in
def step (index : IndexTree bPlus Key) (call : Entry Key) :
    Except Fault (Bool × IndexTree bPlus Key) :=
  index.insertKeyOffset call.1 call.2

omit [IsStrictOrder Key (· < ·)] [DecidableLT Key] in
/-- An index that holds the accepted keys. -/
structure Tracks (index : IndexTree bPlus Key) (most : Nat) (accepted : List (Entry Key)) :
    Prop where
  most : index.m_nMaxKey = most
  connected : ∀ result ∈ index.connected, result = true
  held : (accepted = [] ∧ index.m_pBtreeRoot = none) ∨
    ∃ root, Holding index root ∧ (root.tree.listing bPlus).Perm accepted

omit [IsStrictOrder Key (· < ·)] [DecidableLT Key] in
/-- The order in which the keys were accepted does not matter. -/
theorem Tracks.perm {index : IndexTree bPlus Key} {most : Nat} {accepted other : List (Entry Key)}
    (tracks : Tracks index most accepted) (same : accepted.Perm other) :
    Tracks index most other := by
  obtain ⟨mostEq, connected, ⟨rfl, none'⟩ | ⟨root, holding, listed⟩⟩ := tracks
  · exact ⟨mostEq, connected, Or.inl ⟨same.nil_eq.symm, none'⟩⟩
  · exact ⟨mostEq, connected, Or.inr ⟨root, holding, listed.trans same⟩⟩

theorem Tracks.step {index : IndexTree bPlus Key} {most : Nat} {accepted : List (Entry Key)}
    (tracks : Tracks index most accepted) (some' : 1 ≤ most) (call : Entry Key) :
    ∃ result after, index.step call = .ok (result, after) ∧
      (result = true ↔ ∀ entry ∈ accepted, ¬ Level entry.1 call.1) ∧
      (result = false → after = index) ∧ Tracks after most (accept accepted call) := by
  obtain ⟨mostEq, connected, held⟩ := tracks
  rcases held with ⟨rfl, none'⟩ | ⟨root, holding, perm⟩
  · obtain ⟨after, root, done, holding, same, listing⟩ := insertKeyOffset_first index call.1 call.2
      none' (mostEq ▸ some') connected
    refine ⟨true, after, done, ⟨fun _ _ member => absurd member List.not_mem_nil, fun _ => rfl⟩,
      fun impossible => Bool.noConfusion impossible, same.trans mostEq, holding.connected,
      Or.inr ⟨root, holding, ?_⟩⟩
    rw [listing, accept, if_pos fun _ member => absurd member List.not_mem_nil]
    exact List.Perm.refl _
  · rcases insertKeyOffset_spec index root call.1 call.2 holding (mostEq ▸ some') with
      ⟨refused, entry, member, level⟩ | ⟨after, last, done, lastHolding, same, fresh, front, back,
        before, longer⟩
    · have notAll : ¬ ∀ entry ∈ accepted, ¬ Level entry.1 call.1 := fun all =>
        all entry (perm.mem_iff.mp member) level
      refine ⟨false, index, refused, ⟨fun impossible => ?_, fun all => absurd all notAll⟩,
        fun _ => rfl, mostEq, connected, Or.inr ⟨root, holding, ?_⟩⟩
      · cases impossible
      · rw [accept, if_neg notAll]
        exact perm
    · have all : ∀ entry ∈ accepted, ¬ Level entry.1 call.1 := fun entry member =>
        fresh entry (perm.mem_iff.mpr member)
      refine ⟨true, after, done, ⟨fun _ => all, fun _ => rfl⟩, fun impossible => ?_,
        same.trans mostEq, lastHolding.connected, Or.inr ⟨last, lastHolding, ?_⟩⟩
      · cases impossible
      · rw [longer, accept, if_pos all]
        refine List.perm_middle.trans ((List.perm_append_singleton _ _).symm.trans ?_)
        exact List.Perm.append_right _ (before ▸ perm)

theorem Tracks.runAll {most : Nat} (some' : 1 ≤ most) (calls : List (Entry Key)) :
    ∀ {index : IndexTree bPlus Key} {accepted : List (Entry Key)}, Tracks index most accepted →
      ∃ results after, runAll IndexTree.step index calls = .ok (results, after) ∧
        Tracks after most (calls.foldl accept accepted) := by
  induction calls with
  | nil =>
    intro index accepted tracks
    exact ⟨[], index, rfl, tracks⟩
  | cons call rest inductionHypothesis =>
    intro index accepted tracks
    obtain ⟨result, next, done, -, -, nextTracks⟩ := tracks.step some' call
    obtain ⟨results, after, ran, afterTracks⟩ := inductionHypothesis nextTracks
    refine ⟨result :: results, after, ?_, afterTracks⟩
    rw [Runs.runAll, done]
    simp only
    rw [ran]

omit [IsStrictOrder Key (· < ·)] [DecidableLT Key] in
theorem tracks_empty (most : Nat) : Tracks (empty most : IndexTree bPlus Key) most [] :=
  ⟨rfl, fun _ member => absurd member List.not_mem_nil, Or.inl ⟨rfl, rfl⟩⟩

omit [IsStrictOrder Key (· < ·)] [DecidableLT Key] in
theorem Constructed.tracks {index : IndexTree bPlus Key} (constructed : Constructed index) :
    Tracks index index.m_nMaxKey [] := by
  have tracks := @tracks_empty Key bPlus _ index.m_nMaxKey
  rwa [← constructed.eq_empty] at tracks

end IndexTree

/-! ### Keys in a total order -/

namespace IndexTree

variable [DecidableLT Key] [IsStrictTotalOrder Key (· < ·)]

omit [IsStrictTotalOrder Key (· < ·)] in
theorem acceptedOf_concat (calls : List (Entry Key)) (call : Entry Key) :
    acceptedOf (calls ++ [call]) = accept (acceptedOf calls) call := by
  rw [acceptedOf, List.foldl_append]
  rfl

/-- A key is level with an accepted one exactly when it was inserted before. -/
theorem all_acceptedOf (calls : List (Entry Key)) (key : Key) :
    (∀ entry ∈ acceptedOf calls, ¬ Level entry.1 key) ↔ ∀ call ∈ calls, call.1 ≠ key := by
  induction calls using List.reverseRecOn generalizing key with
  | nil => exact ⟨fun _ _ member => absurd member List.not_mem_nil,
      fun _ _ member => absurd member List.not_mem_nil⟩
  | append_singleton calls call inductionHypothesis =>
    rw [acceptedOf_concat, accept, List.forall_mem_append, List.forall_mem_singleton,
      ← inductionHypothesis]
    by_cases fresh : ∀ entry ∈ acceptedOf calls, ¬ Level entry.1 call.1
    · rw [if_pos fresh, List.forall_mem_append, List.forall_mem_singleton, level_iff_eq]
    · rw [if_neg fresh]
      refine ⟨fun all => ⟨all, ?_⟩, And.left⟩
      rintro rfl
      exact fresh all

omit [IsStrictTotalOrder Key (· < ·)] in
theorem mem_foldl_accept {entry : Entry Key} (calls : List (Entry Key)) :
    ∀ {accepted : List (Entry Key)}, entry ∈ accepted → entry ∈ calls.foldl accept accepted := by
  induction calls with
  | nil => exact fun member => member
  | cons call rest inductionHypothesis =>
    intro accepted member
    refine inductionHypothesis ?_
    rw [accept]
    split
    · exact List.mem_append_left _ member
    · exact member

omit [IsStrictTotalOrder Key (· < ·)] in
/-- Only what was inserted is accepted. -/
theorem acceptedOf_subset {calls : List (Entry Key)} {entry : Entry Key}
    (member : entry ∈ acceptedOf calls) : entry ∈ calls := by
  induction calls using List.reverseRecOn with
  | nil => exact member
  | append_singleton calls call inductionHypothesis =>
    rw [acceptedOf_concat, accept] at member
    split at member
    · rcases List.mem_append.mp member with inside | last
      · exact List.mem_append_left _ (inductionHypothesis inside)
      · exact List.mem_append_right _ last
    · exact List.mem_append_left _ (inductionHypothesis member)

omit [IsStrictTotalOrder Key (· < ·)] in
/-- The first key is always accepted. -/
theorem acceptedOf_eq_nil {calls : List (Entry Key)} (none' : acceptedOf calls = []) : calls = [] := by
  cases calls with
  | nil => rfl
  | cons first rest =>
    have member : first ∈ acceptedOf (first :: rest) := by
      refine mem_foldl_accept rest ?_
      rw [accept, if_pos fun _ member => absurd member List.not_mem_nil]
      exact List.mem_cons_self
    rw [none'] at member
    exact absurd member List.not_mem_nil

/-- The accepted calls are the first ones of their keys. -/
theorem mem_acceptedOf {calls : List (Entry Key)} {entry : Entry Key}
    {before after : List (Entry Key)} (split : calls = before ++ entry :: after)
    (first : ∀ call ∈ before, call.1 ≠ entry.1) : entry ∈ acceptedOf calls := by
  rw [split, acceptedOf, List.foldl_append, List.foldl_cons]
  refine mem_foldl_accept after ?_
  have fresh := (all_acceptedOf before entry.1).mpr first
  rw [acceptedOf] at fresh
  rw [accept, if_pos fresh]
  exact List.mem_append_right _ (List.mem_singleton.mpr rfl)

/-- What is looked up in the listing of an index that was built from `calls`. -/
theorem offsetOf_accepted {calls listing : List (Entry Key)} (sorted : Sorted Prod.fst listing)
    (perm : listing.Perm (acceptedOf calls)) (key : Key) :
    (∀ before offset after, calls = before ++ (key, offset) :: after →
        (∀ call ∈ before, call.1 ≠ key) → offsetOf listing key = offset) ∧
      ((∀ call ∈ calls, call.1 ≠ key) → offsetOf listing key = SMD_INVALIDINDEX_RETURN) := by
  constructor
  · intro before offset after split first
    have member := perm.mem_iff.mpr (mem_acceptedOf split first)
    rw [offsetOf, findLevel_eq_some member (level_self key) (sorted.single key)]
    rfl
  · intro never
    have none' : findLevel Prod.fst listing key = none := findLevel_eq_none.mpr fun entry member =>
      (all_acceptedOf calls key).mpr never entry (perm.mem_iff.mp member)
    rw [offsetOf, none']
    rfl

end IndexTree

namespace SMDIndex

open IndexTree

variable [DecidableLT Key] [IsStrictTotalOrder Key (· < ·)]

/-- The B-tree is a finite map: after any calls, one more call returns true exactly when its key was
not inserted before and otherwise changes nothing, and a search finds the offset that came first. -/
theorem finite_map (start : SMDIndex Key) (constructed : Constructed start)
    (atLeast : 2 ≤ start.m_nMaxKey) (calls : List (Key × Nat)) :
    ∃ results index, runAll step start calls = .ok (results, index) ∧
      (∀ key offset, ∃ result after, index.insertKeyOffset key offset = .ok (result, after) ∧
        (result = true ↔ ∀ call ∈ calls, call.1 ≠ key) ∧ (result = false → after = index)) ∧
      (calls ≠ [] → ∀ key,
        (∀ before offset after, calls = before ++ (key, offset) :: after →
          (∀ call ∈ before, call.1 ≠ key) → index.searchFromMem key = .ok offset) ∧
        ((∀ call ∈ calls, call.1 ≠ key) →
          index.searchFromMem key = .ok SMD_INVALIDINDEX_RETURN)) := by
  have some' : 1 ≤ start.m_nMaxKey := Nat.le_of_succ_le atLeast
  obtain ⟨results, index, ran, tracks⟩ := Tracks.runAll some' calls constructed.tracks
  refine ⟨results, index, ran, fun key offset => ?_, fun inserted key => ?_⟩
  · obtain ⟨result, after, done, accepted, unchanged, -⟩ := tracks.step some' (key, offset)
    exact ⟨result, after, done, accepted.trans (all_acceptedOf calls key), unchanged⟩
  · rcases tracks.held with ⟨none', -⟩ | ⟨root, holding, perm⟩
    · exact absurd (acceptedOf_eq_nil none') inserted
    · rw [searchFromMem_spec holding key (holding.sorted.single key)]
      obtain ⟨first, never⟩ := offsetOf_accepted holding.sorted perm key
      exact ⟨fun before offset after split none' => congrArg _ (first before offset after split none'),
        fun none' => congrArg _ (never none')⟩

/-- The integers inserted into a tree with at most two keys in a node. -/
theorem finite_map_int : ∃ results index,
    runAll step (.new 2 : SMDIndex Int) [(5, 50), (3, 30), (5, 70), (4, 40), (9, 90)] =
      .ok (results, index) ∧ index.searchFromMem 5 = .ok 50 ∧
        index.searchFromMem 7 = .ok SMD_INVALIDINDEX_RETURN := by
  obtain ⟨results, index, ran, -, found⟩ := finite_map (.new 2) (.new 2) (by decide)
    [((5 : Int), 50), (3, 30), (5, 70), (4, 40), (9, 90)]
  exact ⟨results, index, ran, (found (by decide) 5).1 [] 50 _ rfl (by decide),
    (found (by decide) 7).2 (by decide)⟩

end SMDIndex

end LevelDBLib.KvDB
