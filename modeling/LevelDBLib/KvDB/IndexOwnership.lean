/-
This file is about the nodes that an index object owns: `m_vecAllNodeP` lists the nodes that the
destructor deletes, and after every sequence of insertions these are the nodes that the root leads
to.

During an insertion the list is out of step with the tree. The halves of a node that is split are
listed only when the parent has taken the middle key, which may split the parent and delete it, and
until then the node itself stays listed. What is listed and what waits to be listed is at any time
what belongs to the tree and what waits to be deleted (`Accounts`).
-/

import LevelDBLib.KvDB.IndexRuns

namespace LevelDBLib.KvDB

open Ranges BranchTrees Runs

variable {Key : Type} {bPlus : Bool}

/-! ### The nodes of a tree -/

section Trees

variable {height : Nat} {offsets : Nat → Nat} {heap : Heap Key} {parent : Option Nat}

theorem subTree_iff (offset : Nat) (tree : Tree (Entry Key) height) (child : Nat) :
    some child ∈ (nodeOf offset parent tree).subTrees ↔ child ∈ childIds tree := by
  rw [subTrees_nodeOf]
  exact List.mem_map_of_injective (Option.some_injective Nat)

/-- At every name of a tree is a node whose pointers stay in the tree, but for the one of the
topmost node to its parent. -/
theorem Holds.closed {tree : Tree (Entry Key) height} (held : Holds offsets heap parent tree)
    {id : Nat} (member : id ∈ tree.ids) :
    ∃ node, heap id = some node ∧ (∀ child, some child ∈ node.subTrees → child ∈ tree.ids) ∧
      (node.pParent = parent ∨ ∃ above ∈ tree.ids, node.pParent = some above) := by
  induction height generalizing parent with
  | zero =>
    obtain rfl := List.mem_singleton.mp member
    exact ⟨_, held, fun child pointer => absurd ((subTree_iff _ tree child).mp pointer)
      List.not_mem_nil, Or.inl rfl⟩
  | succ height inductionHypothesis =>
    rcases List.mem_cons.mp member with rfl | inside
    · refine ⟨_, held.1, fun child pointer => ?_, Or.inl (pParent_nodeOf ..)⟩
      obtain ⟨subTree, listed, rfl⟩ := List.mem_map.mp ((subTree_iff _ tree child).mp pointer)
      exact List.mem_cons_of_mem _ (List.mem_flatMap.mpr ⟨subTree, listed, subTree.id_mem_ids⟩)
    · obtain ⟨subTree, listed, idIn⟩ := List.mem_flatMap.mp inside
      have within : ∀ id ∈ subTree.ids, id ∈ tree.ids := fun id member =>
        List.mem_cons_of_mem _ (List.mem_flatMap.mpr ⟨subTree, listed, member⟩)
      obtain ⟨node, found, below, above⟩ := inductionHypothesis (held.2 subTree listed) idIn
      refine ⟨node, found, fun child pointer => within _ (below child pointer), Or.inr ?_⟩
      rcases above with equal | ⟨name, nameIn, equal⟩
      · exact ⟨_, List.mem_cons_self, equal⟩
      · exact ⟨name, within _ nameIn, equal⟩

end Trees

namespace IndexTree

/-! ### What an index owns -/

/-- The nodes that the root leads to. -/
inductive Reachable (index : IndexTree bPlus Key) : Nat → Prop
  | root {address : Nat} (pointer : index.m_pBtreeRoot = some address) : Reachable index address
  | child {address child : Nat} {node : BT_Node_t Key} (above : Reachable index address)
      (found : index.heap address = some node) (pointer : some child ∈ node.subTrees) :
      Reachable index child

/-- A node that was allocated and not deleted. -/
def Alive (index : IndexTree bPlus Key) (address : Nat) : Prop :=
  ∃ node, index.heap address = some node

/-- The list holds the nodes that the root leads to, each once, and there are no other nodes. No
pointer of such a node, neither to a subtree nor to its parent, leads to a deleted node. -/
structure Owns (index : IndexTree bPlus Key) : Prop where
  once : index.m_vecAllNodeP.Nodup
  registered : ∀ address, address ∈ index.m_vecAllNodeP ↔ index.Reachable address
  alive : ∀ address, index.Alive address ↔ address ∈ index.m_vecAllNodeP
  referenced : ∀ address node pointer, index.Reachable address → index.heap address = some node →
    some pointer ∈ node.subTrees ∨ node.pParent = some pointer → index.Alive pointer

/-- `delete` of a node that has to be there. -/
def free (index : IndexTree bPlus Key) (address : Nat) : Except Fault (IndexTree bPlus Key) := do
  let (address, _) ← index.deref (some address)
  .ok (index.delete address)

/-- `clearBtreeNode` and `clearBPtreeNode`, which the destructors call. -/
def clearBtreeNode (index : IndexTree bPlus Key) : Except Fault (IndexTree bPlus Key) :=
  index.m_vecAllNodeP.foldlM free index

section Trees

variable {height : Nat} {offsets : Nat → Nat} {parent : Option Nat}

theorem reachable_of_holds {index : IndexTree bPlus Key} {tree : Tree (Entry Key) height}
    (held : Holds offsets index.heap parent tree) (top : index.Reachable tree.id) {id : Nat}
    (member : id ∈ tree.ids) : index.Reachable id := by
  induction height generalizing parent with
  | zero =>
    obtain rfl := List.mem_singleton.mp member
    exact top
  | succ height inductionHypothesis =>
    rcases List.mem_cons.mp member with rfl | inside
    · exact top
    · obtain ⟨subTree, listed, idIn⟩ := List.mem_flatMap.mp inside
      refine inductionHypothesis (held.2 subTree listed) (top.child held.1 ?_) idIn
      exact (subTree_iff _ tree _).mpr (List.mem_map.mpr ⟨subTree, listed, rfl⟩)

/-- The root leads to the nodes of the tree that an index represents. -/
theorem reachable_iff {index : IndexTree bPlus Key} {root : Rooted (Entry Key)}
    (represents : Represents unsaved index root) (id : Nat) :
    index.Reachable id ↔ id ∈ root.tree.ids := by
  constructor
  · intro reachable
    induction reachable with
    | root pointer =>
      rw [represents.pointer] at pointer
      rw [← Option.some.inj pointer]
      exact root.tree.id_mem_ids
    | child _ found pointer inductionHypothesis =>
      obtain ⟨node, nodeFound, below, _⟩ := represents.held.closed inductionHypothesis
      rw [nodeFound] at found
      exact below _ (Option.some.inj found ▸ pointer)
  · exact reachable_of_holds represents.held (.root represents.pointer)

theorem not_reachable {index : IndexTree bPlus Key} (none' : index.m_pBtreeRoot = none)
    (address : Nat) : ¬ index.Reachable address := by
  intro reachable
  induction reachable with
  | root pointer =>
    rw [none'] at pointer
    cases pointer
  | child _ _ _ inductionHypothesis => exact inductionHypothesis

theorem owns_empty (most : Nat) : (empty most : IndexTree bPlus Key).Owns := by
  have unreachable : ∀ address, ¬ (empty most : IndexTree bPlus Key).Reachable address :=
    not_reachable rfl
  refine ⟨List.nodup_nil, fun address => ?_, fun address => ?_, fun address node pointer reachable =>
    absurd reachable (unreachable address)⟩
  · exact iff_of_false List.not_mem_nil (unreachable address)
  · refine iff_of_false (fun alive => ?_) List.not_mem_nil
    obtain ⟨node, found⟩ := alive
    cases found

end Trees

/-! ### Allocating and deleting -/

theorem alive_setNode (index : IndexTree bPlus Key) (address other : Nat) (node : BT_Node_t Key) :
    (index.setNode address node).Alive other ↔ index.Alive other ∨ other = address := by
  rw [Alive, Alive]
  by_cases equal : other = address
  · rw [equal, heap_setNode]
    exact ⟨fun _ => Or.inr rfl, fun _ => ⟨node, rfl⟩⟩
  · rw [heap_setNode_other _ _ _ _ equal]
    exact (or_iff_left equal).symm

theorem alive_delete (index : IndexTree bPlus Key) (address other : Nat) :
    (index.delete address).Alive other ↔ other ≠ address ∧ index.Alive other := by
  show (∃ node, Function.update index.heap address none other = some node) ↔ _
  by_cases equal : other = address
  · rw [equal, Function.update_self]
    refine ⟨fun found => ?_, fun impossible => absurd rfl impossible.1⟩
    obtain ⟨node, equal⟩ := found
    cases equal
  · rw [Function.update_of_ne equal]
    exact (and_iff_right equal).symm

theorem foldlM_free (addresses : List Nat) (apart : addresses.Nodup) :
    ∀ index : IndexTree bPlus Key, (∀ address, index.Alive address ↔ address ∈ addresses) →
      ∃ cleared, addresses.foldlM free index = .ok cleared ∧
        ∀ address, cleared.heap address = none := by
  induction addresses with
  | nil =>
    intro index alive
    refine ⟨index, rfl, fun address => Option.eq_none_iff_forall_ne_some.mpr fun node found => ?_⟩
    exact List.not_mem_nil ((alive address).mp ⟨node, found⟩)
  | cons address rest inductionHypothesis =>
    intro index alive
    obtain ⟨notIn, restApart⟩ := List.nodup_cons.mp apart
    obtain ⟨node, found⟩ := (alive address).mpr List.mem_cons_self
    obtain ⟨cleared, done, nothing⟩ := inductionHypothesis restApart (index.delete address)
      fun other => by
        rw [alive_delete, alive, List.mem_cons]
        constructor
        · rintro ⟨different, equal | member⟩
          · exact absurd equal different
          · exact member
        · exact fun member => ⟨fun equal => notIn (equal ▸ member), Or.inr member⟩
    refine ⟨cleared, ?_, nothing⟩
    rw [List.foldlM_cons, free, deref_some found, ok_bind]
    exact done

/-- The destructor deletes every node that the index owns, and none twice. -/
theorem Owns.cleared {index : IndexTree bPlus Key} (owns : index.Owns) :
    ∃ cleared, index.clearBtreeNode = .ok cleared ∧ ∀ address, cleared.heap address = none :=
  foldlM_free index.m_vecAllNodeP owns.once index owns.alive

/-! ### The nodes that a split allocates -/

/-- A later index has the nodes at `fresh` too; no other node is new, and none is gone. -/
def Grows (index after : IndexTree bPlus Key) (fresh : List Nat) : Prop :=
  ∀ address, after.Alive address ↔ index.Alive address ∨ address ∈ fresh

section Growth

variable {index after last : IndexTree bPlus Key} {first second : List Nat}

theorem Grows.trans (one : Grows index after first) (two : Grows after last second) :
    Grows index last (first ++ second) := by
  intro address
  rw [two, one, List.mem_append, or_assoc]

theorem grows_refl (index : IndexTree bPlus Key) : Grows index index [] := fun _ =>
  (or_iff_left List.not_mem_nil).symm

/-- A node that is there is written. -/
theorem grows_setNode {address : Nat} (alive : index.Alive address) (node : BT_Node_t Key) :
    Grows index (index.setNode address node) [] := by
  intro other
  rw [alive_setNode, or_iff_left List.not_mem_nil, or_iff_left_iff_imp]
  rintro rfl
  exact alive

theorem grows_alloc (index : IndexTree bPlus Key) (node : BT_Node_t Key) :
    Grows index (index.alloc node) [index.top] := by
  intro other
  rw [List.mem_singleton]
  exact alive_setNode index index.top other node

theorem deref_eq_ok {pointer : Option Nat} {found : Nat × BT_Node_t Key}
    (equal : index.deref pointer = .ok found) : pointer = some found.1 ∧ index.Alive found.1 := by
  cases pointer with
  | none => cases equal
  | some address =>
    rw [deref] at equal
    cases node : index.heap address with
    | none =>
      rw [node] at equal
      cases equal
    | some here =>
      rw [node] at equal
      cases equal
      exact ⟨rfl, here, node⟩

theorem adopt_grows (parent : Nat) (pointers : List (Option Nat)) :
    ∀ {index after : IndexTree bPlus Key}, index.adopt parent pointers = .ok after →
      Grows index after [] ∧ after.top = index.top := by
  induction pointers with
  | nil =>
    intro index after equal
    cases equal
    exact ⟨grows_refl index, rfl⟩
  | cons pointer rest inductionHypothesis =>
    intro index after equal
    rw [adopt, bind_eq_ok] at equal
    obtain ⟨⟨address, node⟩, found, adopted⟩ := equal
    obtain ⟨grows, top⟩ := inductionHypothesis adopted
    exact ⟨(grows_setNode (deref_eq_ok found).2 _).trans grows, top⟩

theorem newHalf_grows {node : BT_Node_t Key} {keys : List (BT_Key_t Key)} {half : Nat}
    (made : index.newHalf node keys = .ok (half, after)) :
    Grows index after [index.top] ∧ after.top = index.top + 1 := by
  have allocated := grows_alloc index ⟨keys, SMD_INVALIDINDEX_RETURN, node.bLeaf, node.pParent, none⟩
  rw [newHalf] at made
  cases leaf : node.bLeaf with
  | true =>
    rw [leaf] at made allocated
    cases made
    exact ⟨allocated, rfl⟩
  | false =>
    rw [leaf, if_neg Bool.false_ne_true, bind_eq_ok] at made
    rw [leaf] at allocated
    obtain ⟨adopted, inner, equal⟩ := made
    cases equal
    obtain ⟨grows, top⟩ := adopt_grows _ _ inner
    exact ⟨allocated.trans grows, top⟩

theorem hangRight_grows {half : Nat} {subTree : Option Nat}
    (hung : index.hangRight half subTree = .ok after) :
    Grows index after [] ∧ after.top = index.top := by
  rw [hangRight, bind_eq_ok] at hung
  obtain ⟨⟨address, node⟩, found, adopted⟩ := hung
  obtain ⟨same, alive⟩ := deref_eq_ok found
  cases same
  obtain ⟨grows, top⟩ := adopt_grows _ _ adopted
  exact ⟨(grows_setNode alive _).trans grows, top⟩

/-- A split allocates the two halves. -/
theorem splitNode_grows {pInsertAt left right : Nat} {middle : BT_Key_t Key}
    (ran : index.splitNode pInsertAt = .ok (left, right, middle, after)) :
    Grows index after [index.top, index.top + 1] := by
  rw [splitNode, bind_eq_ok] at ran
  obtain ⟨⟨address, node⟩, found, ran⟩ := ran
  obtain ⟨same, alive⟩ := deref_eq_ok found
  cases same
  dsimp only at ran
  cases at' : node.vecKey[node.vecKey.length / 2]? with
  | none =>
    rw [at'] at ran
    cases ran
  | some key =>
    rw [at'] at ran
    dsimp only at ran
    rw [bind_eq_ok] at ran
    obtain ⟨⟨leftNode, one⟩, leftMade, ran⟩ := ran
    rw [bind_eq_ok] at ran
    obtain ⟨⟨rightNode, two⟩, rightMade, ran⟩ := ran
    obtain ⟨leftGrows, leftTop⟩ := newHalf_grows leftMade
    obtain ⟨rightGrows, rightTop⟩ := newHalf_grows rightMade
    have halves := leftGrows.trans rightGrows
    rw [leftTop] at halves
    cases leaf : node.bLeaf with
    | true =>
      rw [leaf, if_pos rfl] at ran
      cases ran
      exact halves.trans (grows_setNode ((halves address).mpr (Or.inl alive)) _)
    | false =>
      rw [leaf, if_neg Bool.false_ne_true, bind_eq_ok] at ran
      obtain ⟨between, leftHung, ran⟩ := ran
      rw [bind_eq_ok] at ran
      obtain ⟨hung, rightHung, ran⟩ := ran
      cases ran
      have all := (halves.trans (hangRight_grows leftHung).1).trans (hangRight_grows rightHung).1
      exact all.trans (grows_setNode ((all address).mpr (Or.inl alive)) _)

/-- A root that has no parent gets a new one, which is listed at once. -/
theorem makeRoot_grows {pInsertAt : Nat} (made : index.makeRoot pInsertAt = .ok after) :
    after = index ∨ (Grows index after [index.top] ∧
      after.m_vecAllNodeP = index.m_vecAllNodeP ++ [index.top]) := by
  rw [makeRoot, bind_eq_ok] at made
  obtain ⟨⟨address, node⟩, found, made⟩ := made
  obtain ⟨same, alive⟩ := deref_eq_ok found
  cases same
  dsimp only at made
  cases above : node.pParent with
  | some parent =>
    rw [above] at made
    cases made
    exact Or.inl rfl
  | none =>
    rw [above] at made
    cases made
    have allocated := grows_alloc index ⟨[], SMD_INVALIDINDEX_RETURN, false, none, none⟩
    refine Or.inr ⟨allocated.trans (grows_setNode ?_ _), rfl⟩
    exact (allocated address).mpr (Or.inl alive)

end Growth

/-! ### The accounts of an insertion -/

/-- The nodes at `names` belong to the tree, those at `gone` wait to be deleted and those at
`pending` to be listed. There are no other nodes, and the list has no others. -/
structure Accounts (index : IndexTree bPlus Key) (names gone pending : List Nat) : Prop where
  listed : (index.m_vecAllNodeP ++ pending).Perm (names ++ gone)
  apart : (names ++ gone).Nodup
  alive : ∀ address, index.Alive address ↔ address ∈ names ++ gone
  below : ∀ address ∈ names ++ gone, address < index.top

section Accounting

variable {index after : IndexTree bPlus Key} {names gone pending : List Nat} {height : Nat}
  {root : Rooted (Entry Key)}

/-- Where nothing waits, the index owns the nodes of its tree. -/
theorem Accounts.owns (represents : Represents unsaved index root)
    (accounts : Accounts index root.tree.ids [] []) : index.Owns := by
  obtain ⟨listed, apart, alive, below⟩ := accounts
  rw [List.append_nil, List.append_nil] at listed
  rw [List.append_nil] at alive apart
  refine ⟨listed.nodup_iff.mpr apart, fun address => ?_, fun address => ?_, ?_⟩
  · rw [reachable_iff represents, listed.mem_iff]
  · rw [alive, listed.mem_iff]
  · intro address node pointer reachable found pointed
    obtain ⟨held, heldFound, inside, above⟩ :=
      represents.held.closed ((reachable_iff represents address).mp reachable)
    rw [found] at heldFound
    cases heldFound
    rw [alive]
    rcases pointed with subTree | parent
    · exact inside pointer subTree
    · rcases above with none' | ⟨name, member, equal⟩
      · rw [none'] at parent
        cases parent
      · rw [equal] at parent
        cases parent
        exact member

theorem Owns.accounts (owns : index.Owns) (represents : Represents unsaved index root) :
    Accounts index root.tree.ids [] [] := by
  have same : ∀ address, address ∈ index.m_vecAllNodeP ↔ address ∈ root.tree.ids :=
    fun address => (owns.registered address).trans (reachable_iff represents address)
  refine ⟨?_, ?_, fun address => ?_, fun address member => ?_⟩
  · rw [List.append_nil, List.append_nil]
    exact (List.perm_ext_iff_of_nodup owns.once represents.apart).mpr same
  · rw [List.append_nil]
    exact represents.apart
  · rw [List.append_nil, owns.alive, same]
  · rw [List.append_nil] at member
    exact represents.below address member

theorem Accounts.perm {others : List Nat} (accounts : Accounts index names gone pending)
    (same : names.Perm others) : Accounts index others gone pending := by
  have all := List.Perm.append_right gone same
  exact ⟨accounts.listed.trans all, all.nodup_iff.mp accounts.apart,
    fun address => (accounts.alive address).trans all.mem_iff,
    fun address member => accounts.below address (all.mem_iff.mpr member)⟩

/-- Nodes are written, and none is allocated or deleted. -/
theorem Accounts.written (accounts : Accounts index names gone pending)
    (grows : Grows index after []) (listed : after.m_vecAllNodeP = index.m_vecAllNodeP)
    (top : after.top = index.top) : Accounts after names gone pending := by
  refine ⟨listed ▸ accounts.listed, accounts.apart, fun address => ?_, top ▸ accounts.below⟩
  rw [grows, or_iff_left List.not_mem_nil, accounts.alive]

/-- A new root is listed at once. -/
theorem Accounts.rooted (accounts : Accounts index names gone pending)
    (grows : Grows index after [index.top])
    (listed : after.m_vecAllNodeP = index.m_vecAllNodeP ++ [index.top])
    (top : after.top = index.top + 1) : Accounts after (index.top :: names) gone pending := by
  refine ⟨?_, List.nodup_cons.mpr ⟨fun member => ?_, accounts.apart⟩, fun address => ?_,
    fun address member => ?_⟩
  · rw [listed, List.append_assoc]
    exact List.perm_middle.trans (List.Perm.cons _ accounts.listed)
  · exact Nat.lt_irrefl _ (accounts.below _ member)
  · rw [grows, accounts.alive, ← List.mem_append]
    exact List.perm_append_comm.mem_iff
  · rw [top]
    rcases List.mem_cons.mp member with equal | member
    · rw [equal]
      exact Nat.lt_succ_self _
    · exact Nat.lt_succ_of_lt (accounts.below address member)

/-- A node was divided, and the halves are in its place in the tree. -/
theorem Accounts.divided {divided left right : Nat} {rest : List Nat}
    (accounts : Accounts index names gone pending) (before : names.Perm (divided :: rest))
    (grows : Grows index after [left, right]) (listed : after.m_vecAllNodeP = index.m_vecAllNodeP)
    (leftEq : left = index.top) (rightEq : right = index.top + 1)
    (top : after.top = index.top + 2) {halved : List Nat}
    (behind : halved.Perm (left :: right :: rest)) :
    Accounts after halved (divided :: gone) (left :: right :: pending) := by
  have moved : (halved ++ divided :: gone).Perm (left :: right :: (names ++ gone)) := by
    refine (List.Perm.append_right _ behind).trans ?_
    refine List.Perm.cons _ (List.Perm.cons _ ?_)
    exact List.perm_middle.trans (List.Perm.append_right gone before).symm
  have fresh : left ∉ right :: (names ++ gone) ∧ right ∉ names ++ gone := by
    constructor
    · intro member
      rcases List.mem_cons.mp member with equal | member
      · omega
      · have := accounts.below left member
        omega
    · intro member
      have := accounts.below right member
      omega
  refine ⟨?_, ?_, fun address => ?_, fun address member => ?_⟩
  · rw [listed]
    refine (List.perm_middle.trans (List.Perm.cons _ List.perm_middle)).trans ?_
    exact (List.Perm.cons _ (List.Perm.cons _ accounts.listed)).trans moved.symm
  · refine moved.nodup_iff.mpr (List.nodup_cons.mpr ⟨fresh.1, List.nodup_cons.mpr ⟨fresh.2, ?_⟩⟩)
    exact accounts.apart
  · rw [grows, accounts.alive, moved.mem_iff, ← List.mem_append]
    exact List.perm_append_comm.mem_iff
  · rw [top]
    rcases List.mem_cons.mp (moved.mem_iff.mp member) with equal | member
    · omega
    · rcases List.mem_cons.mp member with equal | member
      · omega
      · have := accounts.below address member
        omega

/-- The node that was divided is taken from the list and deleted, and the halves are listed. -/
theorem Accounts.settled {divided left right : Nat}
    (accounts : Accounts index names (divided :: gone) (left :: right :: pending))
    (listed : divided ∈ index.m_vecAllNodeP) :
    Accounts ((((index.eraseCleaningNode divided).delete divided).pushNode left).pushNode right)
      names gone pending := by
  have moved : (names ++ divided :: gone).Perm (divided :: (names ++ gone)) := List.perm_middle
  obtain ⟨notIn, apart⟩ := List.nodup_cons.mp (moved.nodup_iff.mp accounts.apart)
  refine ⟨?_, apart, fun address => ?_, fun address member => ?_⟩
  · have erased := (List.perm_cons_erase listed).symm.append_right (left :: right :: pending)
    have all := erased.trans (accounts.listed.trans moved)
    show (index.m_vecAllNodeP.erase divided ++ [left] ++ [right] ++ pending).Perm _
    rw [List.append_assoc, List.append_assoc]
    exact all.cons_inv
  · refine (alive_delete index divided address).trans ?_
    rw [accounts.alive, moved.mem_iff, List.mem_cons]
    constructor
    · rintro ⟨different, equal | member⟩
      · exact absurd equal different
      · exact member
    · intro member
      exact ⟨fun equal => notIn (equal ▸ member), Or.inr member⟩
  · exact accounts.below address (moved.mem_iff.mpr (List.mem_cons_of_mem _ member))

end Accounting

/-! ### Climbing -/

section Climbing

variable [LT Key] [DecidableLT Key] {height : Nat} {gone pending : List Nat}

/-- What `insertAt` does to the accounts at a node that grows into the tree `grown`. The nodes that
it may divide are listed. -/
def Balances (calls : Nat) (bPlus : Bool) (path : Path (Entry Key) height)
    (grown : Tree (Entry Key) height) : Prop :=
  ∀ (index : IndexTree bPlus Key) (node : BT_Node_t Key) (tKey : BT_Key_t Key)
    (gone pending : List Nat), index.heap grown.id = some node →
    Represents unsaved
      (index.setNode grown.id { node with vecKey := sort BT_Key_t.key (node.vecKey ++ [tKey]) })
      (path.plug grown) →
    Growing bPlus index.m_nMaxKey path grown → 1 ≤ index.m_nMaxKey →
    Accounts index (path.plug grown).tree.ids gone pending →
    (∀ id ∈ grown.id :: path.spine, id ∈ index.m_vecAllNodeP) →
    ∃ after root, insertAt calls index (some grown.id) tKey = .ok (true, after) ∧
      Represents unsaved after root ∧ Accounts after root.tree.ids gone pending

/-- A node that has room for the key. -/
theorem balances_room (calls : Nat) (path : Path (Entry Key) height)
    (grown : Tree (Entry Key) height) (index : IndexTree bPlus Key) (node : BT_Node_t Key)
    (tKey : BT_Key_t Key) (found : index.heap grown.id = some node)
    (represents : Represents unsaved
      (index.setNode grown.id { node with vecKey := sort BT_Key_t.key (node.vecKey ++ [tKey]) })
      (path.plug grown))
    (room : grown.keys.length ≤ index.m_nMaxKey)
    (accounts : Accounts index (path.plug grown).tree.ids gone pending) :
    ∃ after root, insertAt (calls + 1) index (some grown.id) tKey = .ok (true, after) ∧
      Represents unsaved after root ∧ Accounts after root.tree.ids gone pending := by
  have length := length_grown represents
  refine ⟨_, path.plug grown, ?_, represents,
    accounts.written (grows_setNode ⟨node, found⟩ _) rfl rfl⟩
  rw [insertAt, deref_some found, ok_bind]
  exact if_pos (length.trans_le room)

/-- When the middle key goes on to the parent, the node waits to be deleted and the halves wait to
be listed. -/
theorem HandsUp.accounts {index : IndexTree bPlus Key}
    {frame : Frame (Entry Key) (Tree (Entry Key) height)} {up : Path (Entry Key) (height + 1)}
    {grown left right : Tree (Entry Key) height} {middle : Entry Key} {heap : Heap Key}
    (hands : HandsUp index frame up grown left middle right heap)
    (accounts : Accounts index (up.plug (frame.tree grown)).tree.ids gone pending) :
    Accounts (index.handedUp heap frame up) (up.plug ((frame.add left middle).tree right)).tree.ids
      (grown.id :: gone) (index.top :: (index.top + 1) :: pending) := by
  have ids : (up.plug (frame.tree grown)).tree.ids.Perm
      (grown.id :: ((Path.under frame up).ids ++ grown.innerIds)) := by
    refine ((Path.under frame up).ids_plug grown).trans ?_
    rw [grown.ids_eq]
    exact List.perm_middle
  have frameIn : frame.id ∈ (up.plug (frame.tree grown)).tree.ids := by
    refine ids.mem_iff.mpr (List.mem_cons_of_mem _ (List.mem_append_left _ ?_))
    exact List.mem_append_left _ List.mem_cons_self
  have alive := (accounts.alive frame.id).mpr (List.mem_append_left _ frameIn)
  have split := splitNode_grows hands.ran
  have halves := hands.split.divides.ids_up frame up
  rw [hands.split.leftId, hands.split.rightId] at halves
  have grows : Grows index (index.handedUp heap frame up) [index.top, index.top + 1] :=
    split.trans (grows_setNode ((split frame.id).mpr (Or.inl alive)) _)
  exact accounts.divided ids grows rfl rfl rfl rfl halves

variable [IsStrictOrder Key (· < ·)]

theorem splitUp_balances (calls : Nat) (index : IndexTree bPlus Key)
    (frame : Frame (Entry Key) (Tree (Entry Key) height)) (up : Path (Entry Key) (height + 1))
    (grown : Tree (Entry Key) height) (parted : Parted index frame up grown)
    (splitting : Splitting bPlus index.m_nMaxKey frame up grown) (some' : 1 ≤ index.m_nMaxKey)
    (accounts : Accounts index (up.plug (frame.tree grown)).tree.ids gone pending)
    (listed : ∀ id ∈ grown.id :: frame.id :: up.spine, id ∈ index.m_vecAllNodeP)
    (balancesAbove : ∀ left middle right,
      Balances calls bPlus up ((frame.add left middle).tree right)) :
    ∃ after root, splitUp (insertAt calls) index grown.id = .ok (true, after) ∧
      Represents unsaved after root ∧ Accounts after root.tree.ids gone pending := by
  obtain ⟨left, middle, right, heap, hands⟩ := splitUp_handsUp parted
    (by rw [splitting.full]; exact Nat.succ_pos _)
    fun left middle right divides count => (splitting.growing some' divides count).sorted_keys
  have name : ((frame.add left middle).tree right).id = frame.id := Frame.id_fill ..
  have handed := hands.accounts accounts
  obtain ⟨after, root, inserted, represents, balanced⟩ := balancesAbove left middle right
    (index.handedUp heap frame up) (linkedParent index.top frame up)
    ⟨middle.1, middle.2, some index.top⟩ _ _ (by rw [name]; exact hands.found)
    (by rw [name]; exact hands.represents)
    (splitting.growing some' hands.split.divides hands.split.count) some' handed
    (by rw [name]; exact fun id member => listed id (List.mem_cons_of_mem _ member))
  rw [name] at inserted
  have goneIn : grown.id ∈ root.tree.ids ++ grown.id :: gone :=
    List.mem_append_right _ List.mem_cons_self
  have gone' : grown.id ∉ root.tree.ids := fun member =>
    (List.nodup_append.mp balanced.apart).2.2 _ member _ List.mem_cons_self rfl
  -- the node was listed before, so it is none of those that wait to be listed
  have listedStill : grown.id ∈ after.m_vecAllNodeP := by
    refine (List.mem_append.mp (balanced.listed.mem_iff.mpr goneIn)).resolve_right fun waits => ?_
    have apart := handed.listed.nodup_iff.mpr handed.apart
    exact (List.nodup_append.mp apart).2.2 _ (listed _ List.mem_cons_self) _ waits rfl
  refine ⟨(((after.eraseCleaningNode grown.id).delete grown.id).pushNode index.top).pushNode
    (index.top + 1), root, ?_, represents_delete represents gone' rfl rfl rfl,
    balanced.settled listedStill⟩
  rw [hands.finish, inserted, ok_bind]

theorem insertAt_balances (path : Path (Entry Key) height) (grown : Tree (Entry Key) height)
    (calls : Nat) (enough : path.length + 2 ≤ calls) : Balances calls bPlus path grown := by
  induction path generalizing calls with
  | @top height =>
    obtain ⟨calls, rfl⟩ := Nat.exists_eq_add_of_le' ((Nat.le_add_left 2 _).trans enough)
    intro index node tKey gone pending found represents growing some' accounts listed
    by_cases room : grown.keys.length ≤ index.m_nMaxKey
    · exact balances_room _ _ _ _ _ _ found represents room accounts
    · have pushed := accounts.written (grows_setNode ⟨node, found⟩
        { node with vecKey := sort BT_Key_t.key (node.vecKey ++ [tKey]) }) rfl rfl
      obtain ⟨later, made, splits, parted, most, topEq, -⟩ :=
        insertAt_full_root (calls + 1) index node tKey grown found represents room
      obtain ⟨grows, listedTop⟩ := (makeRoot_grows made).resolve_left fun same => by
        rw [same] at topEq
        exact absurd topEq (Nat.ne_of_lt (Nat.lt_succ_self _))
      have ids : (Path.top.plug (Frame.tree ⟨index.top, [], none⟩ grown)).tree.ids =
          index.top :: (Path.top.plug grown).tree.ids :=
        congrArg (index.top :: ·) (List.append_nil grown.ids)
      have rooted := pushed.rooted grows listedTop topEq
      obtain ⟨after, root, done, balanced⟩ := splitUp_balances (calls + 1) later
        ⟨index.top, [], none⟩ Path.top grown parted
        (most ▸ growing.splitting_root room index.top) (most ▸ some') (ids ▸ rooted)
        (fun id member => by
          rw [listedTop]
          rcases List.mem_cons.mp member with equal | member
          · exact List.mem_append_left _ (listed id (List.mem_cons.mpr (Or.inl equal)))
          · exact List.mem_append_right _ member)
        (fun left middle right later node tKey gone pending found represents growing some' accounts _ =>
          balances_room _ _ _ _ _ _ found represents some' accounts)
      exact ⟨after, root, splits.trans done, balanced⟩
  | under frame up inductionHypothesis =>
    obtain ⟨calls, rfl⟩ := Nat.exists_eq_add_of_le' ((Nat.le_add_left 1 _).trans enough)
    intro index node tKey gone pending found represents growing some' accounts listed
    by_cases room : grown.keys.length ≤ index.m_nMaxKey
    · exact balances_room _ _ _ _ _ _ found represents room accounts
    · have pushed := accounts.written (grows_setNode ⟨node, found⟩
        { node with vecKey := sort BT_Key_t.key (node.vecKey ++ [tKey]) }) rfl rfl
      obtain ⟨after, root, done, balanced⟩ := splitUp_balances calls _ frame up grown
        (parted_of_represents represents) (growing.splitting room) some' pushed listed
        (fun left middle right => inductionHypothesis _ calls (Nat.le_of_succ_le_succ enough))
      refine ⟨after, root, ?_, balanced⟩
      exact (insertAt_full_under _ _ _ _ frame up _ found represents room).trans done

end Climbing
/-! ### Sequences of insertions -/

section Sequences

variable [LT Key] [DecidableLT Key]

/-- The first key of an index that owns no node yet. -/
theorem Owns.first {index : IndexTree bPlus Key} (owns : index.Owns)
    (none' : index.m_pBtreeRoot = none) (key : Key) (offset : Nat) :
    ∃ after, index.insertKeyOffset key offset = .ok (true, after) ∧ after.Owns ∧
      after.m_nMaxKey = index.m_nMaxKey ∧
      Represents unsaved after (Path.top.plug (Tree.leaf index.top [(key, offset)])) := by
  have unreachable := not_reachable none'
  have unlisted : index.m_vecAllNodeP = [] := List.eq_nil_iff_forall_not_mem.mpr fun address member =>
    unreachable address ((owns.registered address).mp member)
  have represents : Represents unsaved
      (({ index.alloc ⟨[⟨key, offset, none⟩], SMD_INVALIDINDEX_RETURN, true, none, none⟩ with
        m_pBtreeRoot := some index.top } : IndexTree bPlus Key).pushNode index.top)
      (Path.top.plug (Tree.leaf index.top [(key, offset)])) := by
    refine ⟨rfl, Function.update_self .., List.nodup_singleton _, fun id member => ?_⟩
    rw [List.mem_singleton.mp member]
    exact Nat.lt_succ_self _
  refine ⟨_, ?_, Accounts.owns represents ⟨?_, ?_, fun address => ?_, fun address member => ?_⟩, rfl,
    represents⟩
  · rw [insertKeyOffset, insertNode, none']
  · show ((index.m_vecAllNodeP ++ [index.top]) ++ []).Perm [index.top]
    rw [unlisted]
    exact List.Perm.refl _
  · exact List.nodup_singleton _
  · refine (grows_alloc index _ address).trans ((or_iff_right ?_).trans ?_)
    · rw [owns.alive, unlisted]
      exact List.not_mem_nil
    · rfl
  · exact represents.below address member

variable [IsStrictOrder Key (· < ·)]

/-- An insertion keeps what an index owns. -/
theorem Owns.insertKeyOffset {index : IndexTree bPlus Key} {root : Rooted (Entry Key)}
    (owns : index.Owns) (holding : Holding index root) (some' : 1 ≤ index.m_nMaxKey) (key : Key)
    (offset : Nat) : ∃ result after, index.insertKeyOffset key offset = .ok (result, after) ∧
      after.Owns := by
  rcases insertKeyOffset_enters index root key offset holding with
    ⟨refused, -⟩ | ⟨place, leaf, grown, node, entering⟩
  · exact ⟨false, index, refused, owns⟩
  · have whole : place.plug leaf = root := entering.belongs.whole
    have ids : root.tree.ids.Perm (place.plug grown).tree.ids := by
      rw [← whole]
      refine (place.ids_plug leaf).trans ?_
      rw [← entering.ids]
      exact (place.ids_plug grown).symm
    have accounts := (owns.accounts holding.represents).perm ids
    obtain ⟨after, last, done, represents, balanced⟩ := insertAt_balances place grown
      (index.top + 1) entering.enough index node (leafKey (key, offset)) [] [] entering.found
      entering.represents entering.growing some' accounts fun id member => by
        rw [owns.registered, reachable_iff holding.represents, ids.mem_iff,
          (place.ids_plug grown).mem_iff]
        rcases List.mem_cons.mp member with equal | member
        · exact List.mem_append_right _ (equal ▸ grown.id_mem_ids)
        · exact List.mem_append_left _ (place.spine_subset_ids member)
    exact ⟨true, after, entering.enters.trans done, balanced.owns represents⟩

/-- With a maximum of no keys in a node a split never ends: the middle key is too many for the new
root as well. -/
theorem insertAt_endless (calls : Nat) : ∀ {height : Nat} (index : IndexTree bPlus Key)
    (grown : Tree (Entry Key) height) (node : BT_Node_t Key) (tKey : BT_Key_t Key),
    index.m_nMaxKey = 0 → index.heap grown.id = some node →
    Represents unsaved
      (index.setNode grown.id { node with vecKey := sort BT_Key_t.key (node.vecKey ++ [tKey]) })
      (Path.top.plug grown) → 0 < grown.keys.length →
    insertAt calls index (some grown.id) tKey = .error .nonTermination := by
  induction calls with
  | zero =>
    intro height index grown node tKey _ _ _ _
    rfl
  | succ calls inductionHypothesis =>
    intro height index grown node tKey none' found represents some'
    obtain ⟨later, -, splits, parted, most, -, -⟩ := insertAt_full_root calls index node tKey grown
      found represents (by rw [none']; exact Nat.not_le_of_lt some')
    obtain ⟨left, middle, right, heap, hands⟩ := splitUp_handsUp parted some'
      fun left middle right _ _ => List.pairwise_singleton _ _
    have name : (Frame.tree (Frame.add ⟨index.top, [], none⟩ left middle) right).id = index.top := rfl
    have endless := inductionHypothesis
      (later.handedUp heap ⟨index.top, [], none⟩ Path.top)
      (Frame.tree (Frame.add ⟨index.top, [], none⟩ left middle) right)
      (linkedParent later.top ⟨index.top, [], none⟩ Path.top)
      ⟨middle.1, middle.2, some later.top⟩ (most.trans none') hands.found hands.represents
      (Nat.lt_succ_self 0)
    rw [splits, hands.finish]
    rw [name] at endless
    rw [endless]
    rfl

/-- An index of a single leaf with a maximum of no keys refuses a key, or never returns. -/
theorem insertKeyOffset_endless {index : IndexTree bPlus Key} {leaf : Tree (Entry Key) 0}
    (represents : Represents unsaved index (Path.top.plug leaf)) (sorted : Sorted Prod.fst leaf.keys)
    (none' : index.m_nMaxKey = 0) (key : Key) (offset : Nat) :
    index.insertKeyOffset key offset = .ok (false, index) ∨
      index.insertKeyOffset key offset = .error .nonTermination := by
  rw [insertKeyOffset, insertNode, represents.pointer]
  simp only
  rcases findInsertNode_step index key leaf none index.top represents.held sorted with
    ⟨refused, -⟩ | ⟨before, after, split, found⟩
  · refine Or.inl ?_
    rw [show (Path.top.plug leaf).tree.id = leaf.id from rfl, refused, ok_bind]
  · refine Or.inr ?_
    have keys : Leaf.entries leaf = before ++ after := by
      have joined := split.joined
      rwa [List.append_nil] at joined
    have inserted : Sorted Prod.fst (before ++ (key, offset) :: after) :=
      sorted_insert (keys ▸ sorted : Sorted Prod.fst (before ++ after)) split.below split.above
    obtain ⟨node, nodeFound, pushed⟩ := represents_pushed represents keys inserted
    have endless := insertAt_endless (index.top + 1) index
      (Tree.leaf leaf.id (before ++ (key, offset) :: after)) node (leafKey (key, offset)) none'
      nodeFound pushed (by
        show 0 < (before ++ (key, offset) :: after).length
        rw [List.length_append, List.length_cons]
        omega)
    have entered : index.findInsertNode key (index.top + 1) (some leaf.id) = .ok (some leaf.id) :=
      found.trans (if_pos rfl)
    rw [show (Path.top.plug leaf).tree.id = leaf.id from rfl, entered, ok_bind]
    exact endless

/-- One insertion, where a node may hold a key. -/
theorem Tracks.step_owns {index : IndexTree bPlus Key} {most : Nat} {accepted : List (Entry Key)}
    (tracks : Tracks index most accepted) (owns : index.Owns) (some' : 1 ≤ most) (call : Entry Key) :
    ∃ result after, index.step call = .ok (result, after) ∧ after.Owns ∧
      Tracks after most (accept accepted call) := by
  obtain ⟨result, after, done, -, -, next⟩ := tracks.step some' call
  refine ⟨result, after, done, ?_, next⟩
  rcases tracks.held with ⟨-, none'⟩ | ⟨root, holding, -⟩
  · obtain ⟨last, same, lastOwns, -, -⟩ := owns.first none' call.1 call.2
    cases same.symm.trans done
    exact lastOwns
  · obtain ⟨_, last, same, lastOwns⟩ :=
      owns.insertKeyOffset holding (tracks.most ▸ some') call.1 call.2
    cases same.symm.trans done
    exact lastOwns

theorem Tracks.runAll_owns {most : Nat} (some' : 1 ≤ most) (calls : List (Entry Key)) :
    ∀ {index : IndexTree bPlus Key} {accepted : List (Entry Key)}, Tracks index most accepted →
      index.Owns → ∃ results after, Runs.runAll IndexTree.step index calls = .ok (results, after) ∧
        after.Owns := by
  induction calls with
  | nil =>
    intro index accepted _ owns
    exact ⟨[], index, rfl, owns⟩
  | cons call rest inductionHypothesis =>
    intro index accepted tracks owns
    obtain ⟨result, next, done, nextOwns, nextTracks⟩ := tracks.step_owns owns some' call
    obtain ⟨results, after, ran, afterOwns⟩ := inductionHypothesis nextTracks nextOwns
    refine ⟨result :: results, after, ?_, afterOwns⟩
    rw [Runs.runAll, done]
    simp only
    rw [ran]

/-- An index with a maximum of no keys in a node: it has no node, or only a leaf. -/
structure Stuck (index : IndexTree bPlus Key) : Prop where
  owns : index.Owns
  most : index.m_nMaxKey = 0
  held : index.m_pBtreeRoot = none ∨ ∃ leaf : Tree (Entry Key) 0,
    Represents unsaved index (Path.top.plug leaf) ∧ Sorted Prod.fst leaf.keys

theorem Stuck.step {index after : IndexTree bPlus Key} {call : Entry Key} {result : Bool}
    (stuck : Stuck index) (done : index.step call = .ok (result, after)) : Stuck after := by
  rcases stuck.held with none' | ⟨leaf, represents, sorted⟩
  · obtain ⟨first, same, owns, most, represents⟩ := stuck.owns.first none' call.1 call.2
    cases same.symm.trans done
    exact ⟨owns, most.trans stuck.most, Or.inr ⟨_, represents, List.pairwise_singleton _ _⟩⟩
  · rcases insertKeyOffset_endless represents sorted stuck.most call.1 call.2 with refused | endless
    · cases refused.symm.trans done
      exact stuck
    · cases endless.symm.trans done

/-- After every sequence of insertions that returns, the list of nodes is what the root leads to,
and the destructor frees each of these nodes once and leaves none. A sequence returns if a node may
hold a key. -/
theorem nodes_owned (most : Nat) (calls : List (Key × Nat)) :
    (1 ≤ most → ∃ results index,
      runAll step (empty most : IndexTree bPlus Key) calls = .ok (results, index)) ∧
    ∀ results index, runAll step (empty most : IndexTree bPlus Key) calls = .ok (results, index) →
      index.Owns ∧
        ∃ cleared, index.clearBtreeNode = .ok cleared ∧ ∀ address, cleared.heap address = none := by
  have owned : 1 ≤ most → ∃ results index,
      runAll step (empty most : IndexTree bPlus Key) calls = .ok (results, index) ∧ index.Owns :=
    fun some' => Tracks.runAll_owns some' calls (tracks_empty most) (owns_empty most)
  refine ⟨fun some' => ?_, fun results index ran => ?_⟩
  · obtain ⟨results, index, ran, -⟩ := owned some'
    exact ⟨results, index, ran⟩
  · have owns : index.Owns := by
      rcases Nat.eq_zero_or_pos most with rfl | some'
      · have run : Run step (fun _ _ _ => True) (empty 0) ((calls.zip results).reverse ++ []) index :=
          run_of_runAll calls Run.start (fun _ _ _ _ => trivial) ran
        exact (run.invariant (fun _ index => Stuck index) ⟨owns_empty 0, rfl, Or.inl rfl⟩
          fun _ _ _ _ _ stuck _ done => stuck.step done).owns
      · obtain ⟨_, _, same, owns⟩ := owned some'
        cases same.symm.trans ran
        exact owns
    exact ⟨owns, owns.cleared⟩

/-- The integers inserted into a B+ tree with at most two keys in a node. -/
theorem nodes_owned_int : ∃ results index,
    runAll step (empty 2 : SMDIndexBp Int) [(5, 50), (3, 30), (8, 80), (4, 40), (9, 90), (5, 70)] =
      .ok (results, index) ∧ index.Owns := by
  obtain ⟨returns, owned⟩ := @nodes_owned Int true _ _ _ 2
    [(5, 50), (3, 30), (8, 80), (4, 40), (9, 90), (5, 70)]
  obtain ⟨results, index, ran⟩ := returns (by decide)
  exact ⟨results, index, ran, (owned results index ran).1⟩

end Sequences

end IndexTree

end LevelDBLib.KvDB
