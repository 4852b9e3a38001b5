/-
This file is the theory of search trees whose nodes have names: all leaves at the
same depth, and in a branch one subtree more than entries.

There are two ways to keep entries in such a tree. Either every entry stands in
one node, or the leaves hold all entries and the entry between two subtrees is a
copy of the first entry of the right one; `copied` says which. The entries of a
tree in order are its `listing`.

A place in a tree is a node and the path above it, a chain of branches with a
hole. A node that has grown too large is divided in two halves around a middle
entry; the left half and the middle entry are added in front of the hole, and the
right half fills it.
-/

import LevelDBLib.Library.Ranges

namespace BranchTrees

open Ranges

variable {Entry : Type}

/-! ### Trees -/

structure Leaf (Entry : Type) where
  id : Nat
  entries : List Entry

/-- A branch: every item is a subtree and the entry behind it. -/
structure Branch (Entry Child : Type) where
  id : Nat
  items : List (Child × Entry)
  right : Child

/-- A tree of the given height. -/
def Tree (Entry : Type) : Nat → Type
  | 0 => Leaf Entry
  | height + 1 => Branch Entry (Tree Entry height)

def Tree.leaf (id : Nat) (entries : List Entry) : Tree Entry 0 := ⟨id, entries⟩

def Branch.children {Child : Type} (branch : Branch Entry Child) : List Child :=
  branch.items.map Prod.fst ++ [branch.right]

/-- The same branch over other subtrees. -/
def Branch.map {Child Other : Type} (change : Child → Other) (branch : Branch Entry Child) :
    Branch Entry Other :=
  ⟨branch.id, branch.items.map fun item => (change item.1, item.2), change branch.right⟩

/-- The part of the listing that the entry of an item is. -/
def own (copied : Bool) (entry : Entry) : List Entry := if copied then [] else [entry]

namespace Tree

variable {height : Nat}

/-- The name of the topmost node. -/
def id : {height : Nat} → Tree Entry height → Nat
  | 0, tree => Leaf.id tree
  | _ + 1, tree => Branch.id tree

/-- The entries of the topmost node. -/
def keys : {height : Nat} → Tree Entry height → List Entry
  | 0, tree => Leaf.entries tree
  | _ + 1, tree => (Branch.items tree).map Prod.snd

/-- The names of all nodes. -/
def ids : {height : Nat} → Tree Entry height → List Nat
  | 0, tree => [Leaf.id tree]
  | _ + 1, tree => Branch.id tree :: (Branch.children tree).flatMap fun child => child.ids

/-- The names of all nodes below the topmost one. -/
def innerIds : {height : Nat} → Tree Entry height → List Nat
  | 0, _ => []
  | _ + 1, tree => (Branch.children tree).flatMap ids

/-- The names of the nodes of the subtrees in front of a list of entries. -/
def itemIds (items : List (Tree Entry height × Entry)) : List Nat :=
  items.flatMap fun item => item.1.ids

theorem ids_mem_itemIds {items : List (Tree Entry height × Entry)} {item : Tree Entry height × Entry}
    (member : item ∈ items) {id : Nat} (inside : id ∈ item.1.ids) : id ∈ itemIds items :=
  List.mem_flatMap.mpr ⟨item, member, inside⟩

theorem ids_eq (tree : Tree Entry height) : tree.ids = tree.id :: tree.innerIds := by
  cases height with
  | zero => rfl
  | succ height => rfl

def listing (copied : Bool) : {height : Nat} → Tree Entry height → List Entry
  | 0, tree => Leaf.entries tree
  | _ + 1, tree => ((Branch.items tree).flatMap fun item =>
      item.1.listing copied ++ own copied item.2) ++ (Branch.right tree).listing copied

/-- Every node holds between `least` and `most` entries. -/
def Filled (least most : Nat) : {height : Nat} → Tree Entry height → Prop
  | 0, tree => least ≤ (Leaf.entries tree).length ∧ (Leaf.entries tree).length ≤ most
  | _ + 1, tree => (least ≤ (Branch.items tree).length ∧ (Branch.items tree).length ≤ most) ∧
      ∀ child ∈ Branch.children tree, child.Filled least most

/-- Every node below the topmost one holds between `least` and `most` entries. -/
def ChildrenFilled (least most : Nat) : {height : Nat} → Tree Entry height → Prop
  | 0, _ => True
  | _ + 1, tree => ∀ child ∈ Branch.children tree, child.Filled least most

theorem filled_iff (least most : Nat) (tree : Tree Entry height) :
    tree.Filled least most ↔
      (least ≤ tree.keys.length ∧ tree.keys.length ≤ most) ∧ tree.ChildrenFilled least most := by
  cases height with
  | zero => exact ⟨fun counts => ⟨counts, trivial⟩, And.left⟩
  | succ height =>
    show (_ ∧ _) ∧ _ ↔ _
    rw [keys, List.length_map]
    rfl

theorem id_mem_ids (tree : Tree Entry height) : tree.id ∈ tree.ids := by
  cases height with
  | zero => exact List.mem_singleton.mpr rfl
  | succ height => exact List.mem_cons_self

/-- The subtrees of a tree that is not a leaf. -/
def subTrees (tree : Tree Entry (height + 1)) : List (Tree Entry height) := Branch.children tree

/-- The names of some trees are those of their topmost nodes and those below them. -/
theorem ids_level (level : List (Tree Entry height)) :
    (level.flatMap ids).Perm (level.map id ++ level.flatMap innerIds) := by
  induction level with
  | nil => exact List.Perm.refl _
  | cons tree rest inductionHypothesis =>
    rw [List.flatMap_cons, List.map_cons, List.flatMap_cons, ids_eq]
    refine List.Perm.cons _ ?_
    exact (List.Perm.append_left _ inductionHypothesis).trans
      (List.perm_append_comm_assoc _ _ _)

theorem innerIds_level (level : List (Tree Entry (height + 1))) :
    level.flatMap innerIds = (level.flatMap subTrees).flatMap ids :=
  List.flatMap_assoc.symm

theorem length_ids (tree : Tree Entry height) : height < tree.ids.length := by
  induction height with
  | zero => exact Nat.lt_add_one 0
  | succ height inductionHypothesis =>
    show _ < (_ :: List.flatMap _ (_ ++ [_])).length
    rw [List.length_cons, List.flatMap_append, List.length_append, List.flatMap_singleton]
    have := inductionHypothesis (Branch.right tree)
    omega

end Tree

/-! ### Items -/

/-- The listing of the items in front of a subtree. -/
def listItems (copied : Bool) {height : Nat} (items : List (Tree Entry height × Entry)) :
    List Entry :=
  items.flatMap fun item => item.1.listing copied ++ own copied item.2

/-- The last entry of the items, or `low` where there are none. -/
def lastOf {Child : Type} (low : Option Entry) : List (Child × Entry) → Option Entry
  | [] => low
  | (_, entry) :: rest => lastOf (some entry) rest

theorem lastOf_append {Child : Type} (low : Option Entry) (front back : List (Child × Entry)) :
    lastOf low (front ++ back) = lastOf (lastOf low front) back := by
  induction front generalizing low with
  | nil => rfl
  | cons item rest inductionHypothesis =>
    obtain ⟨child, entry⟩ := item
    exact inductionHypothesis (some entry)

theorem lastOf_eq {Child : Type} (low : Option Entry) (items : List (Child × Entry)) :
    lastOf low items = ((items.map Prod.snd).getLast?).or low := by
  induction items generalizing low with
  | nil => rfl
  | cons item rest inductionHypothesis =>
    obtain ⟨child, first⟩ := item
    rw [lastOf, inductionHypothesis, List.map_cons]
    cases rest with
    | nil => rfl
    | cons other others =>
      rw [List.map_cons, List.getLast?_cons_cons, List.getLast?_cons, Option.some_or, Option.some_or]

theorem lastOf_mem {Child : Type} {low : Option Entry} {items : List (Child × Entry)} {entry : Entry}
    (last : lastOf low items = some entry) : low = some entry ∨ entry ∈ items.map Prod.snd := by
  induction items generalizing low with
  | nil => exact Or.inl last
  | cons item rest inductionHypothesis =>
    obtain ⟨child, first⟩ := item
    rcases inductionHypothesis last with equal | member
    · exact Or.inr (Option.some.inj equal ▸ List.mem_cons_self)
    · exact Or.inr (List.mem_cons_of_mem _ member)

/-- `holds` of every subtree among the items and the entry in front of it. -/
def Chained {Child : Type} (holds : Option Entry → Child → Prop) :
    Option Entry → List (Child × Entry) → Prop
  | _, [] => True
  | low, (child, entry) :: rest => holds low child ∧ Chained holds (some entry) rest

theorem chained_append {Child : Type} (holds : Option Entry → Child → Prop) (low : Option Entry)
    (front back : List (Child × Entry)) :
    Chained holds low (front ++ back) ↔
      Chained holds low front ∧ Chained holds (lastOf low front) back := by
  induction front generalizing low with
  | nil => exact ⟨fun chained => ⟨trivial, chained⟩, And.right⟩
  | cons item rest inductionHypothesis =>
    obtain ⟨child, entry⟩ := item
    show _ ∧ Chained holds (some entry) (rest ++ back) ↔ (_ ∧ _) ∧ _
    rw [inductionHypothesis (some entry), and_assoc]
    rfl

namespace Tree

variable {height : Nat}

/-- Every entry between two subtrees is the first entry of the right one, as is `low` of this
tree. -/
def Separated : {height : Nat} → Option Entry → Tree Entry height → Prop
  | 0, low, tree => ∀ entry, low = some entry → (Leaf.entries tree).head? = some entry
  | _ + 1, low, tree => Chained Separated low (Branch.items tree) ∧
      Separated (lastOf low (Branch.items tree)) (Branch.right tree)

theorem Separated.head {entry : Entry} {tree : Tree Entry height}
    (separated : tree.Separated (some entry)) : (tree.listing true).head? = some entry := by
  induction height with
  | zero => exact separated entry rfl
  | succ height inductionHypothesis =>
    obtain ⟨name, items, right⟩ := tree
    obtain ⟨chained, last⟩ := separated
    show (listItems true items ++ right.listing true).head? = some entry
    cases items with
    | nil => exact inductionHypothesis last
    | cons item rest =>
      obtain ⟨child, next⟩ := item
      have first := inductionHypothesis chained.1
      rw [listItems, List.flatMap_cons, List.append_assoc, List.append_assoc, List.head?_append,
        first, Option.some_or]

end Tree

/-- The entries of a branch stand in its listing, in the same order. -/
theorem keys_sublist_of_chained {height : Nat} (items : List (Tree Entry height × Entry))
    (right : Tree Entry height) (low : Option Entry) (chained : Chained Tree.Separated low items)
    (last : right.Separated (lastOf low items)) :
    (low.toList ++ items.map Prod.snd).Sublist (listItems true items ++ right.listing true) := by
  have lowFirst : ∀ (tree : Tree Entry height) (low : Option Entry), tree.Separated low →
      low.toList.Sublist (tree.listing true) := by
    intro tree low separated
    cases low with
    | none => exact List.nil_sublist _
    | some entry =>
      obtain ⟨rest, equal⟩ := List.head?_eq_some_iff.mp separated.head
      rw [equal]
      exact List.singleton_sublist.mpr List.mem_cons_self
  induction items generalizing low with
  | nil =>
    rw [List.map_nil, List.append_nil]
    exact lowFirst right low last
  | cons item rest inductionHypothesis =>
    obtain ⟨child, entry⟩ := item
    have inner := inductionHypothesis (some entry) chained.2 last
    rw [listItems, List.flatMap_cons, List.append_assoc, List.append_assoc, List.map_cons]
    exact (lowFirst child low chained.1).append inner

theorem Tree.keys_sublist {height : Nat} (copied : Bool) (tree : Tree Entry height)
    (separated : copied = true → ∃ low, tree.Separated low) :
    tree.keys.Sublist (tree.listing copied) := by
  cases height with
  | zero => exact List.Sublist.refl _
  | succ height =>
    obtain ⟨name, items, right⟩ := tree
    show (items.map Prod.snd).Sublist (listItems copied items ++ right.listing copied)
    cases copied with
    | true =>
      obtain ⟨low, chained, last⟩ := separated rfl
      exact (List.sublist_append_right _ _).trans
        (keys_sublist_of_chained items right low chained last)
    | false =>
      refine List.Sublist.trans ?_ (List.sublist_append_left _ _)
      clear separated
      induction items with
      | nil => exact List.Sublist.refl _
      | cons item rest inductionHypothesis =>
        rw [listItems, List.flatMap_cons, List.map_cons, List.append_assoc]
        exact (List.Sublist.cons_cons _ inductionHypothesis).trans (List.sublist_append_right _ _)

/-! ### Places -/

/-- A branch with a hole in place of one of its subtrees: the items in front of the hole, and the
entry, the items and the last subtree behind it. -/
structure Frame (Entry Child : Type) where
  id : Nat
  before : List (Child × Entry)
  after : Option (Entry × List (Child × Entry) × Child)

namespace Frame

variable {Child : Type}

def fill (frame : Frame Entry Child) (hole : Child) : Branch Entry Child :=
  match frame.after with
  | none => ⟨frame.id, frame.before, hole⟩
  | some (entry, items, right) => ⟨frame.id, frame.before ++ (hole, entry) :: items, right⟩

/-- One more item in front of the hole. -/
def add (frame : Frame Entry Child) (left : Child) (entry : Entry) : Frame Entry Child :=
  { frame with before := frame.before ++ [(left, entry)] }

/-- The subtrees in front of the hole and those behind it. -/
def fore (frame : Frame Entry Child) : List Child := frame.before.map Prod.fst

def aft (frame : Frame Entry Child) : List Child :=
  match frame.after with
  | none => []
  | some (_, items, right) => items.map Prod.fst ++ [right]

theorem children_fill (frame : Frame Entry Child) (hole : Child) :
    (frame.fill hole).children = frame.fore ++ hole :: frame.aft := by
  obtain ⟨name, before, after⟩ := frame
  cases after with
  | none => rfl
  | some behind =>
    obtain ⟨entry, items, right⟩ := behind
    show (before ++ (hole, entry) :: items).map Prod.fst ++ [right] = _
    rw [List.map_append, List.map_cons, List.append_assoc]
    rfl

theorem id_fill (frame : Frame Entry Child) (hole : Child) : (frame.fill hole).id = frame.id := by
  obtain ⟨name, before, after⟩ := frame
  cases after with
  | none => rfl
  | some behind => rfl

theorem fore_add (frame : Frame Entry Child) (left : Child) (entry : Entry) :
    (frame.add left entry).fore = frame.fore ++ [left] := by
  rw [fore, add, List.map_append]
  rfl

theorem aft_add (frame : Frame Entry Child) (left : Child) (entry : Entry) :
    (frame.add left entry).aft = frame.aft := rfl

/-- The number of entries does not depend on what fills the hole. -/
def count (frame : Frame Entry Child) : Nat :=
  frame.before.length + (frame.after.map fun behind => behind.2.1.length + 1).getD 0

theorem length_fill (frame : Frame Entry Child) (hole : Child) :
    (frame.fill hole).items.length = frame.count := by
  obtain ⟨name, before, after⟩ := frame
  cases after with
  | none => rfl
  | some behind => exact List.length_append

theorem count_add (frame : Frame Entry Child) (left : Child) (entry : Entry) :
    (frame.add left entry).count = frame.count + 1 := by
  rw [count, count, add, List.length_append, List.length_singleton, Nat.add_right_comm]

/-- The added item stands in front of everything behind it. -/
theorem items_add (frame : Frame Entry Child) (left hole : Child) (entry : Entry) :
    ∃ tail, (frame.fill hole).items = frame.before ++ tail ∧
      ((frame.add left entry).fill hole).items = frame.before ++ (left, entry) :: tail := by
  obtain ⟨name, before, after⟩ := frame
  cases after with
  | none => exact ⟨[], (List.append_nil _).symm, rfl⟩
  | some behind =>
    obtain ⟨next, items, right⟩ := behind
    refine ⟨(hole, next) :: items, rfl, ?_⟩
    show (before ++ [(left, entry)]) ++ (hole, next) :: items = _
    rw [List.append_assoc]
    rfl

theorem right_add (frame : Frame Entry Child) (left hole : Child) (entry : Entry) :
    ((frame.add left entry).fill hole).right = (frame.fill hole).right := by
  obtain ⟨name, before, after⟩ := frame
  cases after with
  | none => rfl
  | some behind => rfl

def map {Other : Type} (change : Child → Other) (frame : Frame Entry Child) :
    Frame Entry Other :=
  ⟨frame.id, frame.before.map fun item => (change item.1, item.2),
    frame.after.map fun behind =>
      (behind.1, behind.2.1.map fun item => (change item.1, item.2), change behind.2.2)⟩

theorem map_fill {Other : Type} (change : Child → Other) (frame : Frame Entry Child)
    (hole : Child) : (frame.fill hole).map change = (frame.map change).fill (change hole) := by
  obtain ⟨name, before, after⟩ := frame
  cases after with
  | none => rfl
  | some behind =>
    obtain ⟨entry, items, right⟩ := behind
    show Branch.mk name ((before ++ (hole, entry) :: items).map _) (change right) = _
    rw [List.map_append, List.map_cons]
    rfl

theorem fore_map {Other : Type} (change : Child → Other) (frame : Frame Entry Child) :
    (frame.map change).fore = frame.fore.map change := by
  rw [fore, fore, map, List.map_map, List.map_map]
  rfl

theorem aft_map {Other : Type} (change : Child → Other) (frame : Frame Entry Child) :
    (frame.map change).aft = frame.aft.map change := by
  obtain ⟨name, before, after⟩ := frame
  cases after with
  | none => rfl
  | some behind =>
    obtain ⟨entry, items, right⟩ := behind
    show (items.map _).map Prod.fst ++ [change right] = (items.map Prod.fst ++ [right]).map change
    rw [List.map_append, List.map_map, List.map_map]
    rfl

theorem map_add {Other : Type} (change : Child → Other) (frame : Frame Entry Child)
    (left : Child) (entry : Entry) :
    (frame.add left entry).map change = (frame.map change).add (change left) entry := by
  rw [add, map, List.map_append]
  rfl

end Frame

section Frames

variable {height : Nat}

/-- The listing in front of the hole of a frame, and the one behind it. -/
def Frame.front (copied : Bool) (frame : Frame Entry (Tree Entry height)) : List Entry :=
  listItems copied frame.before

def Frame.back (copied : Bool) (frame : Frame Entry (Tree Entry height)) : List Entry :=
  match frame.after with
  | none => []
  | some (entry, items, right) => own copied entry ++ (listItems copied items ++
      right.listing copied)

theorem listItems_append (copied : Bool) (front back : List (Tree Entry height × Entry)) :
    listItems copied (front ++ back) = listItems copied front ++ listItems copied back := by
  rw [listItems, List.flatMap_append]
  rfl

theorem listItems_cons (copied : Bool) (child : Tree Entry height) (entry : Entry)
    (rest : List (Tree Entry height × Entry)) :
    listItems copied ((child, entry) :: rest) =
      child.listing copied ++ (own copied entry ++ listItems copied rest) := by
  rw [listItems, List.flatMap_cons, List.append_assoc]
  rfl

theorem listing_branch (copied : Bool) (tree : Tree Entry (height + 1)) :
    tree.listing copied = listItems copied (Branch.items tree) ++ (Branch.right tree).listing copied :=
  rfl

/-- A filled frame as a tree. -/
def Frame.tree (frame : Frame Entry (Tree Entry height)) (hole : Tree Entry height) :
    Tree Entry (height + 1) := frame.fill hole

theorem listing_fill (copied : Bool) (frame : Frame Entry (Tree Entry height))
    (hole : Tree Entry height) :
    (frame.tree hole).listing copied =
      frame.front copied ++ hole.listing copied ++ frame.back copied := by
  obtain ⟨name, before, after⟩ := frame
  cases after with
  | none => exact (List.append_nil _).symm
  | some behind =>
    obtain ⟨entry, items, right⟩ := behind
    show listItems copied (before ++ (hole, entry) :: items) ++ right.listing copied = _
    rw [listItems_append, listItems_cons, List.append_assoc, List.append_assoc, List.append_assoc,
      List.append_assoc]
    rfl

/-- The listing of a subtree is a part of the listing of the branch. -/
theorem Frame.hole_listed (copied : Bool) (frame : Frame Entry (Tree Entry height))
    (hole : Tree Entry height) :
    (hole.listing copied).Sublist ((frame.tree hole).listing copied) := by
  rw [listing_fill]
  exact (List.sublist_append_right _ _).trans (List.sublist_append_left _ _)

theorem front_add (copied : Bool) (frame : Frame Entry (Tree Entry height))
    (left : Tree Entry height) (entry : Entry) :
    (frame.add left entry).front copied =
      frame.front copied ++ (left.listing copied ++ own copied entry) := by
  have none' : listItems copied ([] : List (Tree Entry height × Entry)) = [] := rfl
  rw [Frame.front, Frame.add, listItems_append, listItems_cons, none', List.append_nil]
  rfl

theorem keys_fill (frame : Frame Entry (Tree Entry height)) (hole : Tree Entry height) :
    (frame.tree hole).keys.length = frame.count := by
  show ((frame.fill hole).items.map Prod.snd).length = _
  rw [List.length_map, frame.length_fill]

/-- The entries in front of the hole. -/
theorem keys_take (frame : Frame Entry (Tree Entry height)) (hole : Tree Entry height) :
    (frame.tree hole).keys.take frame.before.length = frame.before.map Prod.snd := by
  have whole : (frame.tree hole).keys = (frame.fill hole).items.map Prod.snd := rfl
  obtain ⟨name, before, after⟩ := frame
  rw [whole]
  cases after with
  | none => exact List.take_of_length_le (Nat.le_of_eq (List.length_map ..))
  | some behind =>
    show ((before ++ (hole, behind.1) :: behind.2.1).map Prod.snd).take before.length = _
    rw [List.map_append, List.take_left' (List.length_map ..)]

/-- The entries between the subtrees other than the hole are separated. -/
def Frame.Separated (frame : Frame Entry (Tree Entry height)) (low : Option Entry) : Prop :=
  Chained Tree.Separated low frame.before ∧
    ∀ entry items right, frame.after = some (entry, items, right) →
      Chained Tree.Separated (some entry) items ∧ right.Separated (lastOf (some entry) items)

theorem separated_fill (frame : Frame Entry (Tree Entry height)) (hole : Tree Entry height)
    (low : Option Entry) :
    (frame.tree hole).Separated low ↔
      frame.Separated low ∧ hole.Separated (lastOf low frame.before) := by
  obtain ⟨name, before, after⟩ := frame
  cases after with
  | none =>
    constructor
    · rintro ⟨chained, last⟩
      exact ⟨⟨chained, fun _ _ _ equal => by cases equal⟩, last⟩
    · rintro ⟨⟨chained, _⟩, last⟩
      exact ⟨chained, last⟩
  | some behind =>
    obtain ⟨entry, items, right⟩ := behind
    show Chained Tree.Separated low (before ++ (hole, entry) :: items) ∧
      right.Separated (lastOf low (before ++ (hole, entry) :: items)) ↔ _
    rw [chained_append, lastOf_append]
    constructor
    · rintro ⟨⟨chained, here, rest⟩, last⟩
      refine ⟨⟨chained, ?_⟩, here⟩
      rintro _ _ _ equal
      cases equal
      exact ⟨rest, last⟩
    · rintro ⟨⟨chained, others⟩, here⟩
      obtain ⟨rest, last⟩ := others entry items right rfl
      exact ⟨⟨chained, here, rest⟩, last⟩

theorem separated_add (frame : Frame Entry (Tree Entry height)) (left : Tree Entry height)
    (entry : Entry) (low : Option Entry) (separated : frame.Separated low)
    (leftSeparated : left.Separated (lastOf low frame.before)) :
    (frame.add left entry).Separated low ∧ lastOf low (frame.add left entry).before = some entry := by
  refine ⟨⟨(chained_append _ _ _ _).mpr ⟨separated.1, leftSeparated, trivial⟩, separated.2⟩, ?_⟩
  rw [Frame.add, lastOf_append]
  rfl

end Frames

/-- The branches above a node, from the one right above it to the topmost one. -/
inductive Path (Entry : Type) : Nat → Type
  | top {height : Nat} : Path Entry height
  | under {height : Nat} (frame : Frame Entry (Tree Entry height)) (up : Path Entry (height + 1)) :
    Path Entry height

/-- A tree of some height. -/
structure Rooted (Entry : Type) where
  height : Nat
  tree : Tree Entry height

/-- Every node holds between `least` and `most` entries, but the topmost one only needs one. -/
def Rooted.Filled (least most : Nat) (root : Rooted Entry) : Prop :=
  (1 ≤ root.tree.keys.length ∧ root.tree.keys.length ≤ most) ∧
    root.tree.ChildrenFilled least most

namespace Path

variable {height : Nat}

/-- The whole tree with a node in its place. -/
def plug : {height : Nat} → Path Entry height → Tree Entry height → Rooted Entry
  | _, top, tree => ⟨_, tree⟩
  | _, under frame up, tree => up.plug (frame.tree tree)

def length : {height : Nat} → Path Entry height → Nat
  | _, top => 0
  | _, under _ up => up.length + 1

/-- The name of the node right above. -/
def parent : Path Entry height → Option Nat
  | top => none
  | under frame _ => some frame.id

/-- The names of all nodes but those of the tree in the place. -/
def ids : {height : Nat} → Path Entry height → List Nat
  | _, top => []
  | _, under frame up =>
    frame.id :: (frame.fore.flatMap Tree.ids ++ frame.aft.flatMap Tree.ids) ++ up.ids

/-- The names of the nodes above the place, the nearest one first. -/
def spine : {height : Nat} → Path Entry height → List Nat
  | _, top => []
  | _, under frame up => frame.id :: up.spine

def front (copied : Bool) : {height : Nat} → Path Entry height → List Entry
  | _, top => []
  | _, under frame up => up.front copied ++ frame.front copied

def back (copied : Bool) : {height : Nat} → Path Entry height → List Entry
  | _, top => []
  | _, under frame up => frame.back copied ++ up.back copied

/-- The entry right in front of the place. -/
def low : {height : Nat} → Path Entry height → Option Entry
  | _, top => none
  | _, under frame up => lastOf up.low frame.before

def Separated : {height : Nat} → Path Entry height → Prop
  | _, top => True
  | _, under frame up => frame.Separated up.low ∧ up.Separated

/-- The fewest entries that the node in the place holds. -/
def least (least : Nat) : Path Entry height → Nat
  | top => 1
  | under _ _ => least

def Filled (least most : Nat) : {height : Nat} → Path Entry height → Prop
  | _, top => True
  | _, under frame up => (up.least least ≤ frame.count ∧ frame.count ≤ most) ∧
      (∀ child ∈ frame.fore ++ frame.aft, child.Filled least most) ∧ up.Filled least most

theorem listing_plug (copied : Bool) (path : Path Entry height) (tree : Tree Entry height) :
    (path.plug tree).tree.listing copied =
      path.front copied ++ tree.listing copied ++ path.back copied := by
  induction path with
  | top => exact (List.append_nil _).symm
  | under frame up inductionHypothesis =>
    rw [plug, inductionHypothesis, listing_fill, front, back]
    simp only [List.append_assoc]

theorem separated_plug (path : Path Entry height) (tree : Tree Entry height) :
    (path.plug tree).tree.Separated none ↔ path.Separated ∧ tree.Separated path.low := by
  induction path with
  | top => exact ⟨fun separated => ⟨trivial, separated⟩, And.right⟩
  | under frame up inductionHypothesis =>
    rw [plug, inductionHypothesis, separated_fill, Separated, low]
    constructor
    · rintro ⟨above, here, below⟩
      exact ⟨⟨here, above⟩, below⟩
    · rintro ⟨⟨here, above⟩, below⟩
      exact ⟨above, here, below⟩

theorem filled_plug (least most : Nat) (path : Path Entry height) (tree : Tree Entry height) :
    (path.plug tree).Filled least most ↔ path.Filled least most ∧
      (path.least least ≤ tree.keys.length ∧ tree.keys.length ≤ most) ∧
        tree.ChildrenFilled least most := by
  induction path with
  | top => exact ⟨fun filled => ⟨trivial, filled⟩, And.right⟩
  | under frame up inductionHypothesis =>
    rw [plug, inductionHypothesis, keys_fill]
    show _ ∧ _ ∧ (∀ child ∈ (frame.fill tree).children, child.Filled least most) ↔
      ((_ ∧ _) ∧ _ ∧ _) ∧ _
    rw [frame.children_fill, List.forall_mem_append, List.forall_mem_cons, List.forall_mem_append,
      tree.filled_iff]
    constructor
    · rintro ⟨above, counts, fore, here, aft⟩
      exact ⟨⟨counts, ⟨fore, aft⟩, above⟩, here⟩
    · rintro ⟨⟨counts, ⟨fore, aft⟩, above⟩, here⟩
      exact ⟨above, counts, fore, here, aft⟩

theorem length_le_ids (path : Path Entry height) : path.length ≤ path.ids.length := by
  induction path with
  | top => exact Nat.le_refl 0
  | under frame up inductionHypothesis =>
    rw [length, ids, List.length_append, List.length_cons]
    omega

theorem spine_subset_ids (path : Path Entry height) : path.spine ⊆ path.ids := by
  induction path with
  | top => exact List.Subset.refl _
  | under frame up inductionHypothesis =>
    intro id member
    rcases List.mem_cons.mp member with equal | member
    · exact List.mem_append_left _ (List.mem_cons.mpr (Or.inl equal))
    · exact List.mem_append_right _ (inductionHypothesis member)

/-- The topmost node keeps its name when the tree in the place is replaced. -/
theorem id_plug (path : Path Entry height) {tree other : Tree Entry height}
    (same : other.id = tree.id) : (path.plug other).tree.id = (path.plug tree).tree.id := by
  induction path with
  | top => exact same
  | under frame up inductionHypothesis =>
    refine inductionHypothesis ?_
    exact (frame.id_fill other).trans (frame.id_fill tree).symm

theorem ids_plug (path : Path Entry height) (tree : Tree Entry height) :
    (path.plug tree).tree.ids.Perm (path.ids ++ tree.ids) := by
  induction path with
  | top => exact List.Perm.refl _
  | under frame up inductionHypothesis =>
    refine (inductionHypothesis (frame.tree tree)).trans ?_
    have inside : (frame.tree tree).ids = frame.id ::
        (frame.fore.flatMap Tree.ids ++ (tree.ids ++ frame.aft.flatMap Tree.ids)) := by
      show (frame.fill tree).id :: (frame.fill tree).children.flatMap Tree.ids = _
      rw [frame.id_fill, frame.children_fill, List.flatMap_append, List.flatMap_cons]
    rw [inside, ids]
    refine List.perm_append_comm.trans ?_
    rw [List.cons_append, List.cons_append, List.cons_append]
    refine List.Perm.cons _ ?_
    simp only [List.append_assoc]
    refine List.Perm.append_left _ ?_
    -- the tree in the place goes behind everything else
    exact List.perm_append_comm.trans (by simp only [List.append_assoc, List.Perm.refl])

end Path

/-! ### Descending -/

/-- A subtree of a branch is found between two of its entries. -/
theorem exists_frame {height : Nat} (tree : Tree Entry (height + 1)) (before after : List Entry)
    (keys : tree.keys = before ++ after) :
    ∃ frame hole, Frame.tree frame hole = tree ∧ frame.before.map Prod.snd = before ∧
      frame.after.map Prod.fst = after.head? := by
  obtain ⟨name, items, right⟩ := tree
  have keys' : items.map Prod.snd = before ++ after := keys
  obtain ⟨front, back, rfl, frontEq, backEq⟩ := List.map_eq_append_iff.mp keys'
  cases back with
  | nil =>
    refine ⟨⟨name, front, none⟩, right, ?_, frontEq, ?_⟩
    · rw [List.append_nil]
      rfl
    · rw [← backEq]
      rfl
  | cons item rest =>
    refine ⟨⟨name, front, some (item.2, rest, right)⟩, item.1, rfl, frontEq, ?_⟩
    rw [← backEq]
    rfl

section Descending

variable {Key : Type} [LT Key] [IsStrictOrder Key (· < ·)] {height : Nat} {copied : Bool}
  {frame : Frame Entry (Tree Entry height)} {hole : Tree Entry height}

/-- Where branches copy, the last entry in front of the hole is the first one of what fills it. -/
theorem hole_first {low : Option Entry} (separated : (frame.tree hole).Separated low)
    {init : List Entry} {last : Entry} (keys : frame.before.map Prod.snd = init ++ [last]) :
    ∃ rest, hole.listing true = last :: rest := by
  have inside := ((separated_fill _ _ _).mp separated).2
  obtain ⟨front, back, whole, frontEq, backEq⟩ := List.map_eq_append_iff.mp keys
  obtain ⟨⟨child, entry⟩, rfl, equal⟩ := List.map_eq_singleton_iff.mp backEq
  rw [whole, lastOf_append] at inside
  rw [← equal]
  exact List.head?_eq_some_iff.mp (Tree.Separated.head inside)

/-- What stands in front of the hole is not above the last entry there. -/
theorem front_below {key : Entry → Key} (sorted : Sorted key ((frame.tree hole).listing copied))
    (separated : copied = true → ∃ low, (frame.tree hole).Separated low) {value : Key}
    (below : ∀ entry ∈ frame.before.map Prod.snd, key entry < value) :
    ∀ entry ∈ frame.front copied, key entry < value := by
  intro entry member
  rw [listing_fill] at sorted
  rcases List.eq_nil_or_concat' frame.before with none' | ⟨init, ⟨child, last⟩, whole⟩
  · rw [Frame.front, none'] at member
    exact absurd member List.not_mem_nil
  · have keys : frame.before.map Prod.snd = init.map Prod.snd ++ [last] := by
      rw [whole, List.map_append]
      rfl
    have lastBelow : key last < value := below last (by rw [keys]; simp)
    cases copied with
    | true =>
      obtain ⟨low, whole⟩ := separated rfl
      obtain ⟨rest, first⟩ := hole_first whole keys
      have inFront := (List.pairwise_append.mp (List.pairwise_append.mp sorted).1).2.2
      exact lt_chain (inFront entry member last (by rw [first]; exact List.mem_cons_self)) lastBelow
    | false =>
      have front : frame.front false = listItems false init ++ child.listing false ++ [last] := by
        rw [Frame.front, whole, listItems_append, listItems_cons, List.append_assoc]
        rfl
      have frontSorted := (List.pairwise_append.mp (List.pairwise_append.mp sorted).1).1
      rw [front] at frontSorted member
      rcases List.mem_append.mp member with inside | equal
      · exact lt_chain ((List.pairwise_append.mp frontSorted).2.2 entry inside last
          List.mem_cons_self) lastBelow
      · rw [List.mem_singleton.mp equal]
        exact lastBelow

/-- The entry behind the hole is the first one of what stands behind it. -/
theorem back_first (separated : copied = true → ∃ low, (frame.tree hole).Separated low) {next : Entry}
    (behind : frame.after.map Prod.fst = some next) : ∃ rest, frame.back copied = next :: rest := by
  obtain ⟨name, before, after⟩ := frame
  obtain ⟨⟨entry, items, right⟩, rfl, rfl⟩ := Option.map_eq_some_iff.mp behind
  cases copied with
  | false => exact ⟨listItems false items ++ right.listing false, rfl⟩
  | true =>
    obtain ⟨low, whole⟩ := separated rfl
    obtain ⟨chained, last⟩ := ((separated_fill _ _ _).mp whole).1.2 entry items right rfl
    -- the part behind the entry is a branch whose first entry it is
    have head := @Tree.Separated.head Entry (height + 1) entry ⟨name, items, right⟩ ⟨chained, last⟩
    exact List.head?_eq_some_iff.mp head

/-- What stands behind the hole is not below the first entry there. -/
theorem back_above {key : Entry → Key} (sorted : Sorted key ((frame.tree hole).listing copied))
    (separated : copied = true → ∃ low, (frame.tree hole).Separated low) {value : Key}
    (above : ∀ entry ∈ frame.after.map Prod.fst, value < key entry) :
    ∀ entry ∈ frame.back copied, value < key entry := by
  rw [listing_fill] at sorted
  have backSorted := (List.pairwise_append.mp sorted).2.1
  intro entry member
  cases behind : frame.after.map Prod.fst with
  | none =>
    obtain ⟨name, before, after⟩ := frame
    obtain rfl : after = none := Option.map_eq_none_iff.mp behind
    exact absurd member List.not_mem_nil
  | some next =>
    obtain ⟨rest, first⟩ := back_first separated behind
    rw [first] at backSorted member
    rcases List.mem_cons.mp member with equal | member
    · rw [equal]
      exact above next behind
    · exact lt_chain (above next behind) ((List.pairwise_cons.mp backSorted).1 entry member)

omit [LT Key] [IsStrictOrder Key (· < ·)] in
/-- Where branches do not copy, the entries in front of the hole stand in front of it. -/
theorem before_front {entry : Entry} (member : entry ∈ frame.before.map Prod.snd) :
    entry ∈ frame.front false := by
  obtain ⟨item, inside, rfl⟩ := List.mem_map.mp member
  refine List.mem_flatMap.mpr ⟨item, inside, List.mem_append_right _ ?_⟩
  exact List.mem_singleton.mpr rfl

/-- A value that is level with no entry of a branch belongs into one of its subtrees. -/
theorem exists_place {key : Entry → Key} (tree : Tree Entry (height + 1))
    (sorted : Sorted key (tree.listing copied))
    (separated : copied = true → ∃ low, tree.Separated low) {value : Key}
    {before after : List Entry} (split : Split key tree.keys value before [] after) :
    ∃ frame hole, Frame.tree frame hole = tree ∧ frame.before.length = before.length ∧
      (∀ entry ∈ frame.before.map Prod.snd, key entry < value) ∧
      (∀ entry ∈ frame.front copied, key entry < value) ∧
      ∀ entry ∈ frame.back copied, value < key entry := by
  obtain ⟨frame, hole, rfl, beforeEq, afterEq⟩ := exists_frame tree before after
    (by rw [split.joined, List.append_nil])
  have beforeBelow : ∀ entry ∈ frame.before.map Prod.snd, key entry < value := by
    rw [beforeEq]
    exact split.below
  refine ⟨frame, hole, rfl, ?_, beforeBelow, front_below sorted separated beforeBelow,
    back_above sorted separated ?_⟩
  · rw [← beforeEq, List.length_map]
  · intro entry member
    rw [afterEq] at member
    exact split.above entry (List.mem_of_mem_head? member)

omit [LT Key] [IsStrictOrder Key (· < ·)] in
/-- Every subtree of a branch fills a frame. -/
theorem frame_of_child {tree : Tree Entry (height + 1)} {child : Tree Entry height}
    (member : child ∈ Branch.children tree) : ∃ frame, Frame.tree frame child = tree := by
  obtain ⟨name, items, right⟩ := tree
  rcases List.mem_append.mp member with inItems | last
  · obtain ⟨⟨_, entry⟩, inside, rfl⟩ := List.mem_map.mp inItems
    obtain ⟨front, back, rfl⟩ := List.append_of_mem inside
    exact ⟨⟨name, front, some (entry, back, right)⟩, rfl⟩
  · rw [List.mem_singleton.mp last]
    exact ⟨⟨name, items, none⟩, rfl⟩

omit [LT Key] [IsStrictOrder Key (· < ·)] in
/-- Where branches copy, the listing of a branch is that of its subtrees. -/
theorem mem_listing_copied {tree : Tree Entry (height + 1)} {entry : Entry}
    (member : entry ∈ tree.listing true) :
    ∃ child ∈ Branch.children tree, entry ∈ child.listing true := by
  rcases List.mem_append.mp member with inItems | last
  · obtain ⟨item, inside, listed⟩ := List.mem_flatMap.mp inItems
    rw [own, if_pos rfl, List.append_nil] at listed
    exact ⟨item.1, List.mem_append_left _ (List.mem_map_of_mem inside), listed⟩
  · exact ⟨Branch.right tree, List.mem_append_right _ List.mem_cons_self, last⟩

/-- Where branches copy, an entry of a subtree is behind the entries in front of the subtree, and
may be the last one of them, and in front of those behind the subtree. -/
theorem keys_around {key : Entry → Key} (sorted : Sorted key ((frame.tree hole).listing true))
    {low : Option Entry} (separated : (frame.tree hole).Separated low) {entry : Entry}
    (member : entry ∈ hole.listing true) :
    (∀ other ∈ frame.before.map Prod.snd, ¬ key entry < key other) ∧
      ∀ other ∈ (frame.tree hole).keys.drop frame.before.length, key entry < key other := by
  have copies : true = true → ∃ low, (frame.tree hole).Separated low := fun _ => ⟨low, separated⟩
  have keysSorted := sorted.sublist ((frame.tree hole).keys_sublist true copies)
  have keys : (frame.tree hole).keys = frame.before.map Prod.snd ++
      (frame.tree hole).keys.drop frame.before.length := by
    rw [← keys_take frame hole, List.take_append_drop]
  rw [keys] at keysSorted
  obtain ⟨beforeSorted, afterSorted, -⟩ := List.pairwise_append.mp keysSorted
  rw [listing_fill] at sorted
  obtain ⟨frontSorted, -, between⟩ := List.pairwise_append.mp sorted
  obtain ⟨-, holeSorted, -⟩ := List.pairwise_append.mp frontSorted
  constructor
  · intro other otherIn less
    rcases List.eq_nil_or_concat' (frame.before.map Prod.snd) with none' | ⟨init, last, whole⟩
    · rw [none'] at otherIn
      exact absurd otherIn List.not_mem_nil
    · obtain ⟨rest, first⟩ := hole_first separated whole
      rw [first] at holeSorted member
      rw [whole] at beforeSorted otherIn
      have lastLess : key last < key other := by
        rcases List.mem_cons.mp member with equal | inRest
        · exact equal ▸ less
        · exact lt_chain ((List.pairwise_cons.mp holeSorted).1 entry inRest) less
      rcases List.mem_append.mp otherIn with inInit | equal
      · exact lt_asymmetric lastLess
          ((List.pairwise_append.mp beforeSorted).2.2 other inInit last List.mem_cons_self)
      · rw [List.mem_singleton.mp equal] at lastLess
        exact not_lt_self _ lastLess
  · intro other otherIn
    obtain ⟨next, rest, behind⟩ := List.exists_cons_of_ne_nil (List.ne_nil_of_mem otherIn)
    have head : frame.after.map Prod.fst = some next := by
      obtain ⟨name, before, after⟩ := frame
      cases after with
      | none =>
        have keysEq : (Frame.tree ⟨name, before, none⟩ hole).keys = before.map Prod.snd := rfl
        rw [keysEq, List.drop_of_length_le (Nat.le_of_eq (List.length_map ..))] at behind
        cases behind
      | some part =>
        obtain ⟨entry, items, right⟩ := part
        have keysEq : (Frame.tree ⟨name, before, some (entry, items, right)⟩ hole).keys =
            before.map Prod.snd ++ entry :: items.map Prod.snd := List.map_append
        rw [keysEq, List.drop_left' (List.length_map ..)] at behind
        cases behind
        rfl
    obtain ⟨others, first⟩ := back_first copies head
    have nextAbove : key entry < key next := by
      refine between entry (List.mem_append_right _ member) next ?_
      rw [first]
      exact List.mem_cons_self
    rw [behind] at afterSorted otherIn
    rcases List.mem_cons.mp otherIn with equal | inRest
    · exact equal ▸ nextAbove
    · exact lt_chain nextAbove ((List.pairwise_cons.mp afterSorted).1 other inRest)

end Descending

/-! ### Halves -/

/-- A node divided in two around a middle entry, which in a leaf of copied entries stays the first
one of the right half. -/
def Tree.Divides (copied : Bool) :
    {height : Nat} → Tree Entry height → Tree Entry height → Entry → Tree Entry height → Prop
  | 0, tree, left, middle, right => ∃ behind,
      Leaf.entries tree = Leaf.entries left ++ middle :: behind ∧
      Leaf.entries right = if copied then middle :: behind else behind
  | _ + 1, tree, left, middle, right =>
      Branch.items tree =
        Branch.items left ++ (Branch.right left, middle) :: Branch.items right ∧
      Branch.right tree = Branch.right right

namespace Tree.Divides

variable {height : Nat} {copied : Bool} {tree left right : Tree Entry height} {middle : Entry}

theorem listing (divides : tree.Divides copied left middle right) :
    tree.listing copied = left.listing copied ++ own copied middle ++ right.listing copied := by
  cases height with
  | zero =>
    obtain ⟨behind, whole, half⟩ := divides
    show Leaf.entries tree = Leaf.entries left ++ own copied middle ++ Leaf.entries right
    rw [whole, half]
    cases copied with
    | true =>
      rw [own, if_pos rfl, if_pos rfl, List.append_nil]
    | false =>
      rw [own, if_neg Bool.false_ne_true, if_neg Bool.false_ne_true, List.append_assoc]
      rfl
  | succ height =>
    obtain ⟨items, last⟩ := divides
    rw [listing_branch, listing_branch, listing_branch, items, last, listItems_append,
      listItems_cons]
    simp only [List.append_assoc]

theorem separated (divides : tree.Divides copied left middle right) (kept : copied = true)
    (some' : left.keys ≠ []) {low : Option Entry} (separated : tree.Separated low) :
    left.Separated low ∧ right.Separated (some middle) := by
  cases height with
  | zero =>
    obtain ⟨behind, whole, half⟩ := divides
    rw [kept] at half
    constructor
    · intro entry equal
      have head := separated entry equal
      obtain ⟨first, rest, front⟩ := List.exists_cons_of_ne_nil some'
      have front' : Leaf.entries left = first :: rest := front
      rw [whole, front'] at head
      rw [front']
      exact head
    · intro entry equal
      rw [half]
      exact equal
  | succ height =>
    obtain ⟨items, last⟩ := divides
    obtain ⟨chained, ends⟩ := separated
    rw [items, chained_append] at chained
    rw [items, lastOf_append, last] at ends
    exact ⟨⟨chained.1, chained.2.1⟩, chained.2.2, ends⟩

/-- The subtrees of a divided branch are those of its halves. -/
theorem children {tree left right : Tree Entry (height + 1)}
    (divides : tree.Divides copied left middle right) :
    Branch.children tree = Branch.children left ++ Branch.children right := by
  show (Branch.items tree).map Prod.fst ++ [Branch.right tree] =
    ((Branch.items left).map Prod.fst ++ [Branch.right left]) ++
      ((Branch.items right).map Prod.fst ++ [Branch.right right])
  rw [divides.1, divides.2, List.map_append, List.map_cons, List.append_assoc, List.append_assoc]
  rfl

theorem childrenFilled (divides : tree.Divides copied left middle right) {least most : Nat}
    (filled : tree.ChildrenFilled least most) :
    left.ChildrenFilled least most ∧ right.ChildrenFilled least most := by
  cases height with
  | zero => exact ⟨trivial, trivial⟩
  | succ height =>
    have all : ∀ child ∈ Branch.children tree, child.Filled least most := filled
    rw [divides.children, List.forall_mem_append] at all
    exact all

theorem innerIds (divides : tree.Divides copied left middle right) :
    tree.innerIds = left.innerIds ++ right.innerIds := by
  cases height with
  | zero => rfl
  | succ height =>
    show (Branch.children tree).flatMap _ = (Branch.children left).flatMap _ ++
      (Branch.children right).flatMap _
    rw [← List.flatMap_append, divides.children]

/-- The listing does not change when a node is divided and its middle entry goes up. -/
theorem listing_up (divides : tree.Divides copied left middle right)
    (frame : Frame Entry (Tree Entry height)) (up : Path Entry (height + 1)) :
    (up.plug ((frame.add left middle).tree right)).tree.listing copied =
      (up.plug (frame.tree tree)).tree.listing copied := by
  have same : ((frame.add left middle).tree right).listing copied =
      (frame.tree tree).listing copied := by
    rw [listing_fill, listing_fill, front_add, divides.listing]
    show _ = frame.front copied ++ (left.listing copied ++ own copied middle ++
      right.listing copied) ++ frame.back copied
    simp only [List.append_assoc]
    rfl
  rw [up.listing_plug, up.listing_plug, same]

theorem separated_up (divides : tree.Divides copied left middle right) (kept : copied = true)
    (some' : left.keys ≠ []) (frame : Frame Entry (Tree Entry height))
    (up : Path Entry (height + 1)) (separated : (up.plug (frame.tree tree)).tree.Separated none) :
    (up.plug ((frame.add left middle).tree right)).tree.Separated none := by
  obtain ⟨above, here⟩ := (up.separated_plug _).mp separated
  obtain ⟨beside, inside⟩ := (separated_fill frame tree up.low).mp here
  obtain ⟨leftSeparated, rightSeparated⟩ := divides.separated kept some' inside
  obtain ⟨added, last⟩ := separated_add frame left middle up.low beside leftSeparated
  refine (up.separated_plug _).mpr ⟨above, (separated_fill _ _ _).mpr ⟨added, ?_⟩⟩
  rw [last]
  exact rightSeparated

/-- The names after a node is divided: the two halves take the place of the node. -/
theorem ids_up (divides : tree.Divides copied left middle right)
    (frame : Frame Entry (Tree Entry height)) (up : Path Entry (height + 1)) :
    (up.plug ((frame.add left middle).tree right)).tree.ids.Perm
      (left.id :: right.id :: ((Path.under frame up).ids ++ tree.innerIds)) := by
  refine (up.ids_plug _).trans ?_
  have inside : ((frame.add left middle).tree right).ids = frame.id ::
      (frame.fore.flatMap Tree.ids ++ (left.ids ++ (right.ids ++ frame.aft.flatMap Tree.ids))) := by
    show ((frame.add left middle).fill right).id ::
      ((frame.add left middle).fill right).children.flatMap Tree.ids = _
    rw [Frame.id_fill, Frame.children_fill, Frame.fore_add, Frame.aft_add, List.flatMap_append,
      List.flatMap_append, List.flatMap_cons, List.flatMap_nil, List.append_nil,
      List.flatMap_cons, List.append_assoc]
    rfl
  rw [inside, divides.innerIds, left.ids_eq, right.ids_eq, Path.ids]
  refine List.perm_iff_count.mpr fun id => ?_
  simp only [List.count_append, List.count_cons]
  omega

theorem count (divides : tree.Divides copied left middle right) :
    tree.keys.length ≤ left.keys.length + 1 + right.keys.length ∧
      left.keys.length + right.keys.length ≤ tree.keys.length := by
  cases height with
  | zero =>
    obtain ⟨behind, whole, half⟩ := divides
    show (Leaf.entries tree).length ≤ (Leaf.entries left).length + 1 + (Leaf.entries right).length ∧
      (Leaf.entries left).length + (Leaf.entries right).length ≤ (Leaf.entries tree).length
    rw [whole, half, List.length_append, List.length_cons]
    cases copied with
    | true =>
      rw [if_pos rfl, List.length_cons]
      omega
    | false =>
      rw [if_neg Bool.false_ne_true]
      omega
  | succ height =>
    show ((Branch.items tree).map Prod.snd).length ≤ ((Branch.items left).map Prod.snd).length + 1 +
        ((Branch.items right).map Prod.snd).length ∧
      ((Branch.items left).map Prod.snd).length + ((Branch.items right).map Prod.snd).length ≤
        ((Branch.items tree).map Prod.snd).length
    simp only [List.length_map]
    rw [divides.1, List.length_append, List.length_cons]
    omega

end Tree.Divides

end BranchTrees
