/-
This file models the life of the indexes of `SMDIndexSegment`: which index objects
its map holds, what the segment operations do with them, and in which order the
operations may come.

An index object is known here by the class it is an instance of. What its tree
answers and where the page file of the index puts its nodes is up to the
environment; these answers come with the calls. The second pass of `saveIndex` runs
over the nodes once more, and the assertions of its writes are those of `put` at an
offset.
-/

import Mathlib.Logic.Function.Basic
import LevelDBLib.Library.Runs
import LevelDBLib.KvDB.Index
import LevelDBLib.KvDB.PageWrites
import LevelDBLib.KvDB.Schema

namespace LevelDBLib.KvDB

open Runs Schema SMDPageFile

inductive SMD_INDEX_KEYTYPE where
  | NULL
  | INT
  | UINT
  | DOUBLE
  | STRING
  | PAIR
deriving DecidableEq, Repr

/-- The class of an index object: `SMDIndex` or `SMDIndexBp` of two key types. -/
structure IndexClass (KeyType : Type) where
  bPlus : Bool
  SEARCH_KEY : KeyType
  FILE_KEY : KeyType
deriving DecidableEq, Repr

structure tIndexTableInfo (KeyType : Type) where
  pIndexBase : Option (IndexClass KeyType)
  nOffset : Nat
  enumIndexType : SMD_INDEX_INDEXTYPE
  enumKeyType : SMD_INDEX_KEYTYPE
deriving DecidableEq, Repr

/-- One line of the stored segment: the name, the root offset and the key type of an index. -/
structure StoredIndex where
  name : Bytes
  nOffset : Nat
  enumKeyType : SMD_INDEX_KEYTYPE
deriving DecidableEq, Repr

/-- The entry of an index as `read` finds it: there is no index object. -/
def StoredIndex.info {KeyType : Type} (stored : StoredIndex) : tIndexTableInfo KeyType :=
  ⟨none, stored.nOffset, .NULL, stored.enumKeyType⟩

/-- A node that the second pass of `saveIndex` writes again: where `put` has put its string, how
long it is, and where the contents begin of the pages that `put` turns to. -/
structure SavedNode where
  nOffset : Int
  size : Nat
  turned : Nat → Int

/-- What `saveIndex` comes to: the root offset, the nodes of its second pass, none where the first
one fails, and whether all were written. -/
structure SavedIndex where
  nRootOffset : Nat
  vecLevNode : List SavedNode
  bRet : Bool

def SavedNode.writes (pageSize : Nat) (node : SavedNode) : List PageWrite :=
  putAtWrites pageSize node.size node.nOffset node.turned

/-- The writes of the second pass pass the assertion of `SMDPage::write`. -/
def SavedIndex.Fits (pageSize : Nat) (saved : SavedIndex) : Prop :=
  ∀ node ∈ saved.vecLevNode, ∀ write ∈ node.writes pageSize, write.Fits pageSize

/-- The second pass of `saveLevNode` over some nodes. -/
def saveLevNode (pageSize : Nat) : List SavedNode → Except Fault Unit
  | [] => .ok ()
  | node :: rest => do
    assertWrites pageSize (node.writes pageSize)
    saveLevNode pageSize rest

/-- `saveIndex` where `createPageFile` returns a page file. -/
def SavedIndex.saveIndex (pageSize : Nat) (saved : SavedIndex) : Except Fault Bool := do
  saveLevNode pageSize saved.vecLevNode
  .ok saved.bRet

theorem saveLevNode_eq_ok {pageSize : Nat} {nodes : List SavedNode} :
    saveLevNode pageSize nodes = .ok () ↔
      ∀ node ∈ nodes, ∀ write ∈ node.writes pageSize, write.Fits pageSize := by
  induction nodes with
  | nil => exact ⟨(fun _ _ member => nomatch member), fun _ => rfl⟩
  | cons node rest inductionHypothesis =>
    rw [List.forall_mem_cons, ← inductionHypothesis, ← assertWrites_eq_ok, saveLevNode, bind_eq_ok]
    exact ⟨fun ⟨(), written, behind⟩ => ⟨written, behind⟩, fun ⟨written, behind⟩ =>
      ⟨(), written, behind⟩⟩

theorem SavedIndex.saveIndex_fits {pageSize : Nat} {saved : SavedIndex}
    (fits : saved.Fits pageSize) : saved.saveIndex pageSize = .ok saved.bRet := by
  rw [SavedIndex.saveIndex, saveLevNode_eq_ok.mpr fits, ok_bind]

theorem SavedIndex.saveIndex_fails {pageSize : Nat} {saved : SavedIndex}
    (unfit : ¬ saved.Fits pageSize) : ∃ fault, saved.saveIndex pageSize = .error fault := by
  cases written : saveLevNode pageSize saved.vecLevNode with
  | ok done => exact absurd (saveLevNode_eq_ok.mp written) unfit
  | error fault => exact ⟨fault, by rw [SavedIndex.saveIndex, written, error_bind]⟩

/-- A call on the segment. The answer of a tree comes with `insertKeyOffset` and `searchFromFile`,
and with `save` what each `saveIndex` comes to, none where `createPageFile` returns `NULL`; with
`read` comes the stored segment, if there is one. -/
inductive IndexCall (KeyType : Type) where
  | insertKeyOffset (sName : Bytes) (SEARCH_KEY FILE_KEY : KeyType)
    (enumIndexType : SMD_INDEX_INDEXTYPE) (inserted : Bool)
  | save (saveIndex : Bytes → Option SavedIndex) (createPageFile : Bool)
  | read (stored : Option (List StoredIndex))
  | searchFromFile (sName : Bytes) (enumIndexType : SMD_INDEX_INDEXTYPE) (found : Nat)

inductive IndexReply where
  | done (success : Bool)
  | offset (offset : Nat)
deriving DecidableEq, Repr

/-- The map of the segment, in the order of the names. -/
structure SMDIndexSegment (KeyType : Type) where
  m_mapIndexTableInfo : List (Bytes × tIndexTableInfo KeyType)

namespace SMDIndexSegment

variable {KeyType : Type}

/-! ### The operations -/

/-- `std::map::find`. -/
def findInfo (sName : Bytes) :
    List (Bytes × tIndexTableInfo KeyType) → Option (tIndexTableInfo KeyType)
  | [] => none
  | entry :: rest => if entry.1 = sName then some entry.2 else findInfo sName rest

def find (segment : SMDIndexSegment KeyType) (sName : Bytes) : Option (tIndexTableInfo KeyType) :=
  findInfo sName segment.m_mapIndexTableInfo

/-- The entry goes in front of the first one with a larger name. -/
def placeInfo (entry : Bytes × tIndexTableInfo KeyType) :
    List (Bytes × tIndexTableInfo KeyType) → List (Bytes × tIndexTableInfo KeyType)
  | [] => [entry]
  | other :: rest =>
    if entry.1 < other.1 then entry :: other :: rest else other :: placeInfo entry rest

/-- `std::map::insert`, which leaves an entry that is there alone. -/
def insertInfo (sName : Bytes) (info : tIndexTableInfo KeyType)
    (map : List (Bytes × tIndexTableInfo KeyType)) : List (Bytes × tIndexTableInfo KeyType) :=
  if (findInfo sName map).isSome then map else placeInfo (sName, info) map

/-- `read`, which the constructor calls as well. -/
def read (stored : Option (List StoredIndex)) : SMDIndexSegment KeyType :=
  ⟨(stored.getD []).foldl (fun map line => insertInfo line.name line.info map) []⟩

/-- Every index is saved and deleted, and its entry stays. What `setIndexKeyType` finds in the name
of a key type is up to the compiler. -/
def saveAllIndex (keyTypeOf : KeyType → SMD_INDEX_KEYTYPE) (pageSize : Nat)
    (saveIndex : Bytes → Option SavedIndex) : List (Bytes × tIndexTableInfo KeyType) →
      Except Fault (Bool × List (Bytes × tIndexTableInfo KeyType))
  | [] => .ok (true, [])
  | (name, info) :: rest =>
    match info.pIndexBase with
    | none => .error .nullPointer
    | some index => do
      let saved := saveIndex name
      let saving ← saved.elim (.ok false) (SavedIndex.saveIndex pageSize)
      let (bRet, rest) ← saveAllIndex keyTypeOf pageSize saveIndex rest
      .ok (saving && bRet, (name, { info with
        pIndexBase := none
        nOffset := (saved.map SavedIndex.nRootOffset).getD info.nOffset
        enumKeyType := keyTypeOf index.FILE_KEY }) :: rest)

variable [DecidableEq KeyType]

/-- `insertKeyOffsetBTree` and `insertKeyOffsetBPTree`: the base pointer is cast to the class of the
caller. -/
def insertKeyOffsetAs (segment : SMDIndexSegment KeyType) (sName : Bytes)
    (index : IndexClass KeyType) (enumIndexType : SMD_INDEX_INDEXTYPE) (inserted : Bool) :
    Except Fault (Bool × SMDIndexSegment KeyType) :=
  match segment.find sName with
  | none => .ok (inserted, ⟨insertInfo sName ⟨some index, SMD_INVALIDINDEX_RETURN, enumIndexType,
      .NULL⟩ segment.m_mapIndexTableInfo⟩)
  | some info =>
    match info.pIndexBase with
    | none => .error .nullPointer
    | some held => if held = index then .ok (inserted, segment) else .error .wrongClass

def insertKeyOffset (segment : SMDIndexSegment KeyType) (sName : Bytes)
    (SEARCH_KEY FILE_KEY : KeyType) (enumIndexType : SMD_INDEX_INDEXTYPE) (inserted : Bool) :
    Except Fault (Bool × SMDIndexSegment KeyType) :=
  match enumIndexType with
  | .BTREE => segment.insertKeyOffsetAs sName ⟨false, SEARCH_KEY, FILE_KEY⟩ .BTREE inserted
  | .BPTREE => segment.insertKeyOffsetAs sName ⟨true, SEARCH_KEY, FILE_KEY⟩ .BPTREE inserted
  | .HASH => .ok (false, segment)
  | .NULL => .ok (true, segment)

def save (keyTypeOf : KeyType → SMD_INDEX_KEYTYPE) (pageSize : Nat)
    (segment : SMDIndexSegment KeyType) (saveIndex : Bytes → Option SavedIndex)
    (createPageFile : Bool) : Except Fault (Bool × SMDIndexSegment KeyType) := do
  let (saved, map) ← saveAllIndex keyTypeOf pageSize saveIndex segment.m_mapIndexTableInfo
  .ok (saved && (map.isEmpty || createPageFile), ⟨map⟩)

/-- The search makes an index object of its own; only the root offset comes from the entry. -/
def searchFromFile (segment : SMDIndexSegment KeyType) (sName : Bytes)
    (enumIndexType : SMD_INDEX_INDEXTYPE) (found : Nat) : Except Fault Nat :=
  match segment.find sName with
  | none => .ok SMD_INVALIDINDEX_RETURN
  | some info =>
    match enumIndexType with
    | .BTREE =>
      -- `readNodeFromFile` of the B-tree asserts that there is a root offset
      if info.nOffset = SMD_INVALIDINDEX_RETURN then .error .assertion else .ok found
    | .BPTREE =>
      if info.nOffset = SMD_INVALIDINDEX_RETURN then .ok SMD_INVALIDINDEX_RETURN else .ok found
    | _ => .ok SMD_INVALIDINDEX_RETURN

def step (keyTypeOf : KeyType → SMD_INDEX_KEYTYPE) (pageSize : Nat)
    (segment : SMDIndexSegment KeyType) :
    IndexCall KeyType → Except Fault (IndexReply × SMDIndexSegment KeyType)
  | .insertKeyOffset sName SEARCH_KEY FILE_KEY enumIndexType inserted => do
    let (success, segment) ←
      segment.insertKeyOffset sName SEARCH_KEY FILE_KEY enumIndexType inserted
    .ok (.done success, segment)
  | .save saveIndex createPageFile => do
    let (success, segment) ← segment.save keyTypeOf pageSize saveIndex createPageFile
    .ok (.done success, segment)
  | .read stored => .ok (.done stored.isSome, read stored)
  | .searchFromFile sName enumIndexType found => do
    let offset ← segment.searchFromFile sName enumIndexType found
    .ok (.offset offset, segment)

/-! ### The life of an index -/

/-- What the calls have made of the index of a name: it is not there, its object takes keys, or
its object is gone, and there is an offset to search it at or there is none. -/
inductive Life (KeyType : Type) where
  | absent
  | building (index : IndexClass KeyType)
  | gone (searchable : Bool)
deriving DecidableEq, Repr

/-- The class that an insertion with the index type is about. -/
def classOf (enumIndexType : SMD_INDEX_INDEXTYPE) (SEARCH_KEY FILE_KEY : KeyType) :
    Option (IndexClass KeyType) :=
  match enumIndexType with
  | .BTREE => some ⟨false, SEARCH_KEY, FILE_KEY⟩
  | .BPTREE => some ⟨true, SEARCH_KEY, FILE_KEY⟩
  | _ => none

omit [DecidableEq KeyType] in
/-- The lives behind a `read`: what the stored segment names has no object. -/
def loaded (stored : Option (List StoredIndex)) (name : Bytes) : Life KeyType :=
  match (stored.getD []).find? fun line => line.name = name with
  | none => .absent
  | some line => .gone (decide (line.nOffset ≠ SMD_INVALIDINDEX_RETURN))

/-- The life of an index behind a `save` that comes to `saved`. -/
def Life.saved (saved : Option SavedIndex) : Life KeyType → Life KeyType
  | .building _ => .gone (saved.any fun saved => saved.nRootOffset ≠ SMD_INVALIDINDEX_RETURN)
  | life => life

/-- The lives behind a call. -/
def livesAfter (before : Bytes → Life KeyType) : IndexCall KeyType → Bytes → Life KeyType
  | .insertKeyOffset sName SEARCH_KEY FILE_KEY enumIndexType _ =>
    match classOf enumIndexType SEARCH_KEY FILE_KEY with
    | some index => Function.update before sName (.building index)
    | none => before
  | .save saveIndex _ => fun name => (before name).saved (saveIndex name)
  | .read stored => loaded stored
  | .searchFromFile _ _ _ => before

/-- The lives behind the calls of a segment that was constructed over `start`. -/
def lives (start : Option (List StoredIndex)) :
    History (IndexCall KeyType) IndexReply → Bytes → Life KeyType
  | [] => loaded start
  | (call, _) :: history => livesAfter (lives start history) call

/-- A call that the lives allow: keys go to a new index or to one of the same class that still
takes keys, all indexes are saved before any is gone, each where its page file takes the writes of
the second pass, and a B-tree is searched in the file when there is an offset. -/
def Allowed (pageSize : Nat) (lives : Bytes → Life KeyType) : IndexCall KeyType → Prop
  | .insertKeyOffset sName SEARCH_KEY FILE_KEY enumIndexType _ =>
    ∀ index, classOf enumIndexType SEARCH_KEY FILE_KEY = some index →
      lives sName = .absent ∨ lives sName = .building index
  | .save saveIndex _ => (∀ name searchable, lives name ≠ .gone searchable) ∧
    ∀ name index, lives name = .building index → ∀ saved ∈ saveIndex name, saved.Fits pageSize
  | .read _ => True
  | .searchFromFile sName enumIndexType _ =>
    enumIndexType = .BTREE → lives sName = .absent ∨ lives sName = .gone true

/-! ### The entries and the lives -/

/-- The life that an entry shows. -/
def standing : Option (tIndexTableInfo KeyType) → Life KeyType
  | none => .absent
  | some info =>
    match info.pIndexBase with
    | some index => .building index
    | none => .gone (decide (info.nOffset ≠ SMD_INVALIDINDEX_RETURN))

/-- The entries show the lives, and an index that takes keys has no offset yet. -/
structure Shows (segment : SMDIndexSegment KeyType) (lives : Bytes → Life KeyType) : Prop where
  life : ∀ name, standing (segment.find name) = lives name
  offset : ∀ name info, segment.find name = some info → info.pIndexBase.isSome →
    info.nOffset = SMD_INVALIDINDEX_RETURN
  distinct : (segment.m_mapIndexTableInfo.map Prod.fst).Nodup

section Map

omit [DecidableEq KeyType]

theorem findInfo_eq_none {sName : Bytes} {map : List (Bytes × tIndexTableInfo KeyType)} :
    findInfo sName map = none ↔ sName ∉ map.map Prod.fst := by
  induction map with
  | nil => simp [findInfo]
  | cons entry rest inductionHypothesis =>
    rw [findInfo]
    split
    · rename_i same
      simp [same]
    · rename_i different
      simp [inductionHypothesis, Ne.symm different]

theorem placeInfo_perm (entry : Bytes × tIndexTableInfo KeyType)
    (map : List (Bytes × tIndexTableInfo KeyType)) : (placeInfo entry map).Perm (entry :: map) := by
  induction map with
  | nil => exact .refl _
  | cons other rest inductionHypothesis =>
    rw [placeInfo]
    split
    · exact .refl _
    · exact (inductionHypothesis.cons other).trans (.swap entry other rest)

theorem findInfo_placeInfo {entry : Bytes × tIndexTableInfo KeyType} {sName : Bytes}
    {map : List (Bytes × tIndexTableInfo KeyType)} (absent : findInfo entry.1 map = none) :
    findInfo sName (placeInfo entry map) =
      if entry.1 = sName then some entry.2 else findInfo sName map := by
  induction map with
  | nil => simp [placeInfo, findInfo]
  | cons other rest inductionHypothesis =>
    rw [findInfo] at absent
    split at absent
    · cases absent
    · rename_i different
      rw [placeInfo]
      split
      · rw [findInfo]
      · rw [findInfo, inductionHypothesis absent, findInfo]
        by_cases same : other.1 = sName
        · rw [if_pos same, if_pos same, if_neg (by rw [← same]; exact Ne.symm different)]
        · rw [if_neg same, if_neg same]

/-- An insertion adds an entry where there was none. -/
theorem findInfo_insertInfo (sName other : Bytes) (info : tIndexTableInfo KeyType)
    (map : List (Bytes × tIndexTableInfo KeyType)) :
    findInfo other (insertInfo sName info map) =
      if sName = other then (findInfo sName map).or (some info) else findInfo other map := by
  rw [insertInfo]
  cases found : findInfo sName map with
  | none =>
    rw [if_neg (by simp), findInfo_placeInfo found, Option.none_or]
  | some held =>
    rw [Option.isSome_some, if_pos rfl, Option.some_or]
    split
    · rename_i same
      rw [← same, found]
    · rfl

theorem distinct_insertInfo {sName : Bytes} {info : tIndexTableInfo KeyType}
    {map : List (Bytes × tIndexTableInfo KeyType)} (distinct : (map.map Prod.fst).Nodup) :
    ((insertInfo sName info map).map Prod.fst).Nodup := by
  rw [insertInfo]
  cases found : findInfo sName map with
  | none =>
    rw [if_neg (by simp), ((placeInfo_perm (sName, info) map).map Prod.fst).nodup_iff]
    exact List.nodup_cons.mpr ⟨findInfo_eq_none.mp found, distinct⟩
  | some held =>
    rw [Option.isSome_some, if_pos rfl]
    exact distinct

theorem mem_of_findInfo {sName : Bytes} {info : tIndexTableInfo KeyType}
    {map : List (Bytes × tIndexTableInfo KeyType)} (found : findInfo sName map = some info) :
    (sName, info) ∈ map := by
  induction map with
  | nil => cases found
  | cons entry rest inductionHypothesis =>
    rw [findInfo] at found
    split at found
    · rename_i same
      cases found
      rw [← same]
      exact List.mem_cons_self
    · exact List.mem_cons_of_mem _ (inductionHypothesis found)

theorem findInfo_of_mem {sName : Bytes} {info : tIndexTableInfo KeyType}
    {map : List (Bytes × tIndexTableInfo KeyType)} (distinct : (map.map Prod.fst).Nodup)
    (member : (sName, info) ∈ map) : findInfo sName map = some info := by
  induction map with
  | nil => cases member
  | cons entry rest inductionHypothesis =>
    obtain ⟨apart, restDistinct⟩ := List.nodup_cons.mp distinct
    rw [findInfo]
    rcases List.mem_cons.mp member with equal | member
    · rw [← equal, if_pos rfl]
    · rw [if_neg fun same => apart (by
        rw [same]
        exact List.mem_map_of_mem (f := Prod.fst) member), inductionHypothesis restDistinct member]

/-- What `read` puts into the map behind what is there. -/
theorem findInfo_foldl (stored : List StoredIndex) (sName : Bytes)
    (map : List (Bytes × tIndexTableInfo KeyType)) :
    findInfo sName (stored.foldl (fun map line => insertInfo line.name line.info map) map) =
      (findInfo sName map).or
        ((stored.find? fun line => line.name = sName).map StoredIndex.info) := by
  induction stored generalizing map with
  | nil => simp
  | cons line rest inductionHypothesis =>
    rw [List.foldl_cons, inductionHypothesis, findInfo_insertInfo, List.find?_cons]
    by_cases same : line.name = sName
    · cases found : findInfo sName map <;> simp [same, found]
    · simp [same]

theorem distinct_foldl (stored : List StoredIndex) (map : List (Bytes × tIndexTableInfo KeyType))
    (distinct : (map.map Prod.fst).Nodup) :
    ((stored.foldl (fun map line => insertInfo line.name line.info map) map).map
      Prod.fst).Nodup := by
  induction stored generalizing map with
  | nil => exact distinct
  | cons line rest inductionHypothesis => exact inductionHypothesis _ (distinct_insertInfo distinct)

/-- `read` leaves entries without an object, as the stored segment has them. -/
theorem shows_read (stored : Option (List StoredIndex)) :
    Shows (read stored : SMDIndexSegment KeyType) (loaded stored) := by
  have found : ∀ name, (read stored : SMDIndexSegment KeyType).find name =
      ((stored.getD []).find? fun line => line.name = name).map StoredIndex.info := by
    intro name
    rw [find, read, findInfo_foldl, findInfo, Option.none_or]
  refine ⟨fun name => ?_, fun name info held live => ?_, distinct_foldl _ _ List.nodup_nil⟩
  · rw [found, loaded]
    cases (stored.getD []).find? fun line => line.name = name <;> rfl
  · rw [found, Option.map_eq_some_iff] at held
    obtain ⟨line, _, equal⟩ := held
    rw [← equal] at live
    cases live

variable (keyTypeOf : KeyType → SMD_INDEX_KEYTYPE) (pageSize : Nat)
  (saveIndex : Bytes → Option SavedIndex)

/-- The entry has an index object, and its page file takes the writes of the second pass. -/
def Saveable (entry : Bytes × tIndexTableInfo KeyType) : Prop :=
  entry.2.pIndexBase.isSome ∧ ∀ saved ∈ saveIndex entry.1, saved.Fits pageSize

theorem saving_fits {name : Bytes} (fits : ∀ saved ∈ saveIndex name, saved.Fits pageSize) :
    ∃ saving, (saveIndex name).elim (.ok false) (SavedIndex.saveIndex pageSize) =
      .ok saving := by
  cases equal : saveIndex name with
  | none => exact ⟨false, rfl⟩
  | some saved => exact ⟨saved.bRet, SavedIndex.saveIndex_fits (fits saved equal)⟩

/-- Indexes that all can be saved are saved, and none is left. -/
theorem saveAllIndex_live (map : List (Bytes × tIndexTableInfo KeyType))
    (live : ∀ entry ∈ map, Saveable pageSize saveIndex entry)
    (new : ∀ entry ∈ map, entry.2.nOffset = SMD_INVALIDINDEX_RETURN) :
    ∃ bRet after, saveAllIndex keyTypeOf pageSize saveIndex map = .ok (bRet, after) ∧
      after.map Prod.fst = map.map Prod.fst ∧ (∀ entry ∈ after, entry.2.pIndexBase = none) ∧
      ∀ name, standing (findInfo name after) =
        (standing (findInfo name map)).saved (saveIndex name) := by
  induction map with
  | nil => exact ⟨true, [], rfl, rfl, by simp, fun _ => rfl⟩
  | cons entry rest inductionHypothesis =>
    obtain ⟨name, info⟩ := entry
    obtain ⟨bRet, after, savedEq, names, gone, lives⟩ := inductionHypothesis
      (fun other member => live other (List.mem_cons_of_mem _ member))
      (fun other member => new other (List.mem_cons_of_mem _ member))
    obtain ⟨held, fits⟩ := live (name, info) List.mem_cons_self
    have unsaved := new (name, info) List.mem_cons_self
    obtain ⟨index, indexEq⟩ := Option.isSome_iff_exists.mp held
    obtain ⟨saving, savingEq⟩ := saving_fits pageSize saveIndex fits
    simp only at indexEq unsaved
    refine ⟨_, _, by rw [saveAllIndex, indexEq]; simp only [savingEq, savedEq, ok_bind]; rfl,
      by simp [names], ?_, fun other => ?_⟩
    · intro other member
      rcases List.mem_cons.mp member with equal | member
      · rw [equal]
      · exact gone other member
    · rw [findInfo, findInfo]
      by_cases same : name = other
      · subst same
        rw [if_pos rfl, if_pos rfl]
        simp only [standing, indexEq, Life.saved]
        cases saveIndex name <;> simp [unsaved]
      · rw [if_neg same, if_neg same]
        exact lives other

/-- An index without an object is dereferenced, and a write that does not fit fails its assertion. -/
theorem saveAllIndex_fails (map : List (Bytes × tIndexTableInfo KeyType))
    {entry : Bytes × tIndexTableInfo KeyType} (member : entry ∈ map)
    (unsaveable : ¬ Saveable pageSize saveIndex entry) :
    ∃ fault, saveAllIndex keyTypeOf pageSize saveIndex map = .error fault := by
  induction map with
  | nil => cases member
  | cons first rest inductionHypothesis =>
    obtain ⟨name, info⟩ := first
    rw [saveAllIndex]
    cases indexEq : info.pIndexBase with
    | none => exact ⟨_, rfl⟩
    | some index =>
      simp only
      rcases List.mem_cons.mp member with rfl | member
      · simp only [Saveable, indexEq, Option.isSome_some, true_and, not_forall] at unsaveable
        obtain ⟨saved, savedEq, unfit⟩ := unsaveable
        obtain ⟨fault, failed⟩ := SavedIndex.saveIndex_fails unfit
        rw [Option.mem_def.mp savedEq, Option.elim_some, failed, error_bind]
        exact ⟨fault, rfl⟩
      · obtain ⟨fault, failed⟩ := inductionHypothesis member
        cases savingEq : (saveIndex name).elim (.ok false) (SavedIndex.saveIndex pageSize) with
        | error first => exact ⟨first, by rw [error_bind]⟩
        | ok saving => exact ⟨fault, by rw [ok_bind, failed, error_bind]⟩

end Map

/-! ### One call -/

variable {segment : SMDIndexSegment KeyType} (keyTypeOf : KeyType → SMD_INDEX_KEYTYPE)
  (pageSize : Nat)

theorem insertKeyOffset_eq (sName : Bytes) (SEARCH_KEY FILE_KEY : KeyType)
    (enumIndexType : SMD_INDEX_INDEXTYPE) (inserted : Bool) {index : IndexClass KeyType}
    (class' : classOf enumIndexType SEARCH_KEY FILE_KEY = some index) :
    segment.insertKeyOffset sName SEARCH_KEY FILE_KEY enumIndexType inserted =
      segment.insertKeyOffsetAs sName index enumIndexType inserted := by
  cases enumIndexType <;> cases class' <;> rfl

variable {lives : Bytes → Life KeyType}

theorem Shows.insert (shows : Shows segment lives) (sName : Bytes) (index : IndexClass KeyType)
    (enumIndexType : SMD_INDEX_INDEXTYPE) (inserted : Bool) :
    ((∃ result, segment.insertKeyOffsetAs sName index enumIndexType inserted = .ok result) ↔
      lives sName = .absent ∨ lives sName = .building index) ∧
    ∀ success after, segment.insertKeyOffsetAs sName index enumIndexType inserted =
        .ok (success, after) →
      Shows after (Function.update lives sName (.building index)) := by
  have life := shows.life sName
  rw [insertKeyOffsetAs]
  cases found : segment.find sName with
  | none =>
    rw [found] at life
    refine ⟨⟨fun _ => .inl life.symm, fun _ => ⟨_, rfl⟩⟩, fun success after returned => ?_⟩
    cases returned
    have foundAfter : ∀ name, (⟨insertInfo sName ⟨some index, SMD_INVALIDINDEX_RETURN, enumIndexType,
        .NULL⟩ segment.m_mapIndexTableInfo⟩ : SMDIndexSegment KeyType).find name =
        if sName = name then some ⟨some index, SMD_INVALIDINDEX_RETURN, enumIndexType, .NULL⟩
        else segment.find name := by
      intro name
      rw [find, findInfo_insertInfo]
      rw [find] at found
      rw [found, Option.none_or]
      rfl
    refine ⟨fun name => ?_, fun name info held live => ?_, distinct_insertInfo shows.distinct⟩
    · rw [foundAfter]
      by_cases same : sName = name
      · rw [if_pos same, ← same, Function.update_self]
        rfl
      · rw [if_neg same, Function.update_of_ne (Ne.symm same), shows.life]
    · rw [foundAfter] at held
      by_cases same : sName = name
      · rw [if_pos same] at held
        cases held
        rfl
      · rw [if_neg same] at held
        exact shows.offset name info held live
  | some info =>
    rw [found, standing] at life
    cases indexEq : info.pIndexBase with
    | none =>
      simp only [indexEq] at life ⊢
      rw [← life]
      simp
    | some held =>
      simp only [indexEq] at life ⊢
      by_cases same : held = index
      · rw [if_pos same]
        refine ⟨⟨fun _ => .inr (by rw [← life, same]), fun _ => ⟨_, rfl⟩⟩, fun _ _ returned => ?_⟩
        cases returned
        rw [← same, life, Function.update_eq_self]
        exact shows
      · rw [if_neg same, ← life]
        simp [same]

omit [DecidableEq KeyType] in
/-- The lives allow a `save` when all entries can be saved. -/
theorem Shows.allowed_save (shows : Shows segment lives) (saveIndex : Bytes → Option SavedIndex)
    (createPageFile : Bool) :
    Allowed pageSize lives (.save saveIndex createPageFile) ↔
      ∀ entry ∈ segment.m_mapIndexTableInfo, Saveable pageSize saveIndex entry := by
  refine ⟨fun allowed entry member => ?_, fun live => ⟨fun name searchable goneEq => ?_,
    fun name index building => ?_⟩⟩
  · have life := shows.life entry.1
    rw [find, findInfo_of_mem shows.distinct member, standing] at life
    cases indexEq : entry.2.pIndexBase with
    | none =>
      simp only [indexEq] at life
      exact absurd life.symm (allowed.1 _ _)
    | some index =>
      simp only [indexEq] at life
      exact ⟨by rw [indexEq]; rfl, allowed.2 _ index life.symm⟩
  · rw [← shows.life] at goneEq
    cases held : segment.find name with
    | none => simp [held, standing] at goneEq
    | some info =>
      obtain ⟨index, indexEq⟩ := Option.isSome_iff_exists.mp (live _ (mem_of_findInfo held)).1
      simp only at indexEq
      simp [held, indexEq, standing] at goneEq
  · rw [← shows.life] at building
    cases held : segment.find name with
    | none => simp [held, standing] at building
    | some info => exact (live _ (mem_of_findInfo held)).2

omit [DecidableEq KeyType] in
theorem Shows.save (shows : Shows segment lives) (saveIndex : Bytes → Option SavedIndex)
    (createPageFile : Bool) :
    ((∃ result, segment.save keyTypeOf pageSize saveIndex createPageFile = .ok result) ↔
      Allowed pageSize lives (.save saveIndex createPageFile)) ∧
    ∀ success after, segment.save keyTypeOf pageSize saveIndex createPageFile =
        .ok (success, after) →
      Shows after fun name => (lives name).saved (saveIndex name) := by
  rw [shows.allowed_save pageSize saveIndex createPageFile]
  by_cases live : ∀ entry ∈ segment.m_mapIndexTableInfo, Saveable pageSize saveIndex entry
  · have found : ∀ entry ∈ segment.m_mapIndexTableInfo, segment.find entry.1 = some entry.2 :=
      fun entry member => findInfo_of_mem shows.distinct member
    obtain ⟨bRet, after, savedEq, names, gone, livesEq⟩ := saveAllIndex_live keyTypeOf pageSize
      saveIndex _ live fun entry member =>
        shows.offset entry.1 entry.2 (found entry member) (live entry member).1
    rw [SMDIndexSegment.save, savedEq]
    simp only [ok_bind]
    refine ⟨⟨fun _ => live, fun _ => ⟨_, rfl⟩⟩, fun success last returned => ?_⟩
    · cases returned
      refine ⟨fun name => ?_, fun name info held isLive => ?_, ?_⟩
      · rw [find, livesEq, ← shows.life]
        rfl
      · have none' := gone _ (mem_of_findInfo held)
        simp only at none'
        rw [none'] at isLive
        cases isLive
      · show (after.map Prod.fst).Nodup
        rw [names]
        exact shows.distinct
  · have unsaveable := live
    simp only [not_forall] at unsaveable
    obtain ⟨entry, member, unsaveable⟩ := unsaveable
    obtain ⟨fault, failed⟩ := saveAllIndex_fails keyTypeOf pageSize saveIndex _ member unsaveable
    rw [SMDIndexSegment.save, failed, error_bind]
    refine ⟨⟨?_, fun allowed => absurd allowed live⟩, fun success after returned => nomatch returned⟩
    rintro ⟨_, equal⟩
    cases equal

omit [DecidableEq KeyType] in
theorem Shows.search (shows : Shows segment lives) (sName : Bytes)
    (enumIndexType : SMD_INDEX_INDEXTYPE) (found : Nat) :
    (∃ result, segment.searchFromFile sName enumIndexType found = .ok result) ↔
      (enumIndexType = .BTREE → lives sName = .absent ∨ lives sName = .gone true) := by
  have life := shows.life sName
  rw [searchFromFile]
  cases held : segment.find sName with
  | none =>
    rw [held] at life
    exact ⟨fun _ _ => .inl life.symm, fun _ => ⟨_, rfl⟩⟩
  | some info =>
    rw [held, standing] at life
    rw [← life]
    cases enumIndexType with
    | BTREE =>
      cases indexEq : info.pIndexBase with
      | none => by_cases invalid : info.nOffset = SMD_INVALIDINDEX_RETURN <;> simp [invalid]
      | some index =>
        have invalid := shows.offset sName info held (by rw [indexEq]; rfl)
        simp [invalid]
    | BPTREE => by_cases invalid : info.nOffset = SMD_INVALIDINDEX_RETURN <;> simp [invalid]
    | HASH => simp
    | NULL => simp

/-- A call returns exactly when the lives allow it, and then the entries show the lives again. -/
theorem Shows.step (shows : Shows segment lives) (call : IndexCall KeyType) :
    ((∃ reply after, step keyTypeOf pageSize segment call = .ok (reply, after)) ↔
      Allowed pageSize lives call) ∧
    ∀ reply after, step keyTypeOf pageSize segment call = .ok (reply, after) →
      Shows after (livesAfter lives call) := by
  cases call with
  | insertKeyOffset sName SEARCH_KEY FILE_KEY enumIndexType inserted =>
    rw [SMDIndexSegment.step, Allowed, livesAfter]
    cases class' : classOf enumIndexType SEARCH_KEY FILE_KEY with
    | none =>
      have ignored : ∃ success, segment.insertKeyOffset sName SEARCH_KEY FILE_KEY enumIndexType
          inserted = .ok (success, segment) := by
        cases enumIndexType with
        | NULL => exact ⟨true, rfl⟩
        | HASH => exact ⟨false, rfl⟩
        | BTREE => cases class'
        | BPTREE => cases class'
      obtain ⟨success, returned⟩ := ignored
      simp only [returned, ok_bind]
      refine ⟨⟨fun _ _ equal => (by cases equal), fun _ => ⟨_, _, rfl⟩⟩, fun reply after equal => ?_⟩
      cases equal
      exact shows
    | some index =>
      obtain ⟨returns, showsAfter⟩ := shows.insert sName index enumIndexType inserted
      rw [insertKeyOffset_eq sName SEARCH_KEY FILE_KEY enumIndexType inserted class']
      simp only [bind_eq_ok, Option.some.injEq, forall_eq']
      rw [← returns]
      refine ⟨⟨?_, ?_⟩, ?_⟩
      · rintro ⟨_, _, result, returned, _⟩
        exact ⟨result, returned⟩
      · rintro ⟨result, returned⟩
        exact ⟨_, _, result, returned, rfl⟩
      · rintro reply after ⟨⟨success, next⟩, returned, equal⟩
        cases equal
        exact showsAfter success next returned
  | save saveIndex createPageFile =>
    obtain ⟨returns, showsAfter⟩ := shows.save keyTypeOf pageSize saveIndex createPageFile
    rw [SMDIndexSegment.step, livesAfter, ← returns]
    simp only [bind_eq_ok]
    refine ⟨⟨?_, ?_⟩, ?_⟩
    · rintro ⟨_, _, result, returned, _⟩
      exact ⟨result, returned⟩
    · rintro ⟨result, returned⟩
      exact ⟨_, _, result, returned, rfl⟩
    · rintro reply after ⟨⟨success, next⟩, returned, equal⟩
      cases equal
      exact showsAfter success next returned
  | read stored =>
    refine ⟨⟨fun _ => trivial, fun _ => ⟨_, _, rfl⟩⟩, fun reply after equal => ?_⟩
    cases equal
    exact shows_read stored
  | searchFromFile sName enumIndexType found =>
    rw [SMDIndexSegment.step, Allowed, livesAfter, ← shows.search sName enumIndexType found]
    simp only [bind_eq_ok]
    refine ⟨⟨?_, ?_⟩, ?_⟩
    · rintro ⟨_, _, result, returned, _⟩
      exact ⟨result, returned⟩
    · rintro ⟨result, returned⟩
      exact ⟨_, _, result, returned, rfl⟩
    · rintro reply after ⟨result, returned, equal⟩
      cases equal
      exact shows

end SMDIndexSegment

end LevelDBLib.KvDB
