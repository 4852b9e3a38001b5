/-
This file settles the sharing of databases. `LevelDBFactory` keeps one object for every
database that is open and counts its users. Whoever creates a handle of a path shares the
object of every other path with the same spelling, and the object is deleted with the last
handle. The count is an `int`, which is what bounds the number of handles.
-/

import Mathlib.Data.List.Count
import Mathlib.Logic.Function.Basic
import LevelDBLib.Library.Runs
import LevelDBLib.Navi.LevelDB

namespace LevelDBLib.Navi

open KvDB PathParser Runs

/-- The objects of the program by their addresses, and the pointers of the registry. -/
structure LevelDBFactory where
  heap : Nat → Option LevelDB
  leveldbs : List Nat

namespace LevelDBFactory

def empty : LevelDBFactory := ⟨fun _ => none, []⟩

/-- The object behind a pointer; where one was deleted there is no memory of the program. -/
def deref (factory : LevelDBFactory) (pointer : Nat) : Except Fault LevelDB :=
  match factory.heap pointer with
  | some leveldb => .ok leveldb
  | none => .error .outOfBounds

def assign (factory : LevelDBFactory) (pointer : Nat) (leveldb : Option LevelDB) :
    LevelDBFactory :=
  { factory with heap := Function.update factory.heap pointer leveldb }

/-- The loop of `create` over the registry. -/
def search (factory : LevelDBFactory) (dbPath dbName : Bytes) :
    List Nat → Except Fault (Option Nat)
  | [] => .ok none
  | pointer :: rest => do
    let leveldb ← factory.deref pointer
    if leveldb.comparePath dbPath dbName then .ok (some pointer)
    else factory.search dbPath dbName rest

/-- `create`; `address` is where `new` puts an object and `opened` is what `DB::Open` answers.
An object that could not be opened is never deleted. -/
def create (factory : LevelDBFactory) (_dbPath : Bytes) (address : Nat) (opened : Status) :
    Except Fault (Option Nat × LevelDBFactory) :=
  match parsed _dbPath with
  | none => .ok (none, factory)
  | some (dbPath, dbName) => do
    let found ← factory.search dbPath dbName factory.leveldbs
    match found with
    | some pointer => do
      let leveldb ← factory.deref pointer
      .ok (some pointer, factory.assign pointer
        (some { leveldb with reference := leveldb.reference.increase }))
    | none =>
      let leveldb := (LevelDB.new.openPath _dbPath opened).2
      if (LevelDB.new.openPath _dbPath opened).1.ok = false then
        .ok (none, factory.assign address (some leveldb))
      else
        .ok (some address,
          { factory.assign address
              (some { leveldb with reference := leveldb.reference.increase }) with
            leveldbs := factory.leveldbs ++ [address] })

/-- `remove`. -/
def remove (factory : LevelDBFactory) : Option Nat → Except Fault LevelDBFactory
  | none => .ok factory
  | some pointer => do
    let leveldb ← factory.deref pointer
    if leveldb.reference._nReferenceNum = 1 then
      if pointer ∈ factory.leveldbs then
        .ok { factory.assign pointer none with leveldbs := factory.leveldbs.erase pointer }
      else .ok factory
    else
      .ok (factory.assign pointer
        (some { leveldb with reference := leveldb.reference.decrease }))

end LevelDBFactory

/-! ### Users -/

/-- A handle that is in use, with the path it was created with. -/
abbrev Handle := Nat × Bytes

inductive FactoryCall where
  | create (_dbPath : Bytes) (address : Nat) (opened : Status)
  | remove (handle : Option Handle)
deriving DecidableEq, Repr

/-- The factory and the handles in use. -/
structure Users where
  factory : LevelDBFactory
  outstanding : List Handle

def Users.nobody : Users := ⟨.empty, []⟩

/-- A call, and what it makes of the handles in use. -/
def Users.call (users : Users) : FactoryCall → Except Fault (Option Nat × Users)
  | .create _dbPath address opened => do
    let (created, factory) ← users.factory.create _dbPath address opened
    .ok (created, ⟨factory, (created.map fun pointer => (pointer, _dbPath)).toList ++
      users.outstanding⟩)
  | .remove handle => do
    let factory ← users.factory.remove (handle.map Prod.fst)
    .ok (none, ⟨factory, handle.elim users.outstanding users.outstanding.erase⟩)

/-- Objects are made where there is none, and only handles in use are removed. -/
def Matched (users : Users) : FactoryCall → Prop
  | .create _ address _ => users.factory.heap address = none
  | .remove handle => ∀ held ∈ handle, held ∈ users.outstanding

/-- The handles of a path in use. -/
def Users.sharing (users : Users) (_dbPath : Bytes) : Nat :=
  users.outstanding.countP fun handle => parsed handle.2 = parsed _dbPath

/-- One more handle of the path is one that an `int` can count. -/
def Countable (users : Users) : FactoryCall → Prop
  | .create _dbPath _ _ => users.sharing _dbPath + 1 < 2147483648
  | .remove _ => True

/-- The handles that point to an object. -/
def Users.handles (users : Users) (pointer : Nat) : Nat :=
  users.outstanding.countP fun handle => handle.1 = pointer

theorem Users.handles_erase (users : Users) {handle : Handle}
    (member : handle ∈ users.outstanding) (pointer : Nat) :
    (users.outstanding.erase handle).countP (fun held => held.1 = pointer) =
      users.handles pointer - if handle.1 = pointer then 1 else 0 := by
  rw [List.countP_erase, Users.handles]
  simp only [member, true_and, decide_eq_true_eq]

/-! ### What the factory keeps -/

/-- The registry and the handles in use agree. -/
structure Shared (users : Users) : Prop where
  nodup : users.factory.leveldbs.Nodup
  alive : ∀ pointer ∈ users.factory.leveldbs, ∃ leveldb,
    users.factory.heap pointer = some leveldb ∧
      leveldb.reference._nReferenceNum = users.handles pointer ∧ 0 < users.handles pointer ∧
      users.handles pointer < 2147483648
  apart : ∀ one ∈ users.factory.leveldbs, ∀ other ∈ users.factory.leveldbs,
    ∀ first second, users.factory.heap one = some first →
      users.factory.heap other = some second →
      first.dbPath = second.dbPath → first.dbName = second.dbName → one = other
  held : ∀ handle ∈ users.outstanding, handle.1 ∈ users.factory.leveldbs ∧
    ∃ leveldb, users.factory.heap handle.1 = some leveldb ∧
      parsed handle.2 = some (leveldb.dbPath, leveldb.dbName)

namespace LevelDBFactory

variable {factory : LevelDBFactory} {pointer : Nat} {leveldb : LevelDB}

@[simp] theorem heap_assign_self (factory : LevelDBFactory) (pointer : Nat)
    (object : Option LevelDB) : (factory.assign pointer object).heap pointer = object :=
  Function.update_self _ _ _

theorem heap_assign_of_ne (factory : LevelDBFactory) {pointer other : Nat}
    (object : Option LevelDB) (different : other ≠ pointer) :
    (factory.assign pointer object).heap other = factory.heap other :=
  Function.update_of_ne different _ _

theorem deref_of_some (alive : factory.heap pointer = some leveldb) :
    factory.deref pointer = .ok leveldb := by
  unfold deref
  rw [alive]

theorem comparePath_iff (leveldb : LevelDB) (dbPath dbName : Bytes) :
    leveldb.comparePath dbPath dbName = true ↔
      leveldb.dbPath = dbPath ∧ leveldb.dbName = dbName := by
  rw [LevelDB.comparePath, Bool.and_eq_true, decide_eq_true_iff, decide_eq_true_iff, and_comm]

/-- The search finds an object of the path, or there is none. -/
theorem search_eq (dbPath dbName : Bytes) (pointers : List Nat)
    (alive : ∀ pointer ∈ pointers, ∃ leveldb, factory.heap pointer = some leveldb) :
    (∃ pointer ∈ pointers, ∃ leveldb, factory.heap pointer = some leveldb ∧
      leveldb.dbPath = dbPath ∧ leveldb.dbName = dbName ∧
      factory.search dbPath dbName pointers = .ok (some pointer)) ∨
    (∀ pointer ∈ pointers, ∀ leveldb, factory.heap pointer = some leveldb →
      leveldb.dbPath = dbPath → leveldb.dbName ≠ dbName) ∧
      factory.search dbPath dbName pointers = .ok none := by
  induction pointers with
  | nil => exact .inr ⟨fun _ member => absurd member List.not_mem_nil, rfl⟩
  | cons pointer rest hypothesis =>
    obtain ⟨leveldb, found⟩ := alive pointer List.mem_cons_self
    rw [search, deref_of_some found, ok_bind]
    by_cases same : leveldb.comparePath dbPath dbName = true
    · obtain ⟨samePath, sameName⟩ := (comparePath_iff _ _ _).mp same
      exact .inl ⟨pointer, List.mem_cons_self, leveldb, found, samePath, sameName, if_pos same⟩
    · rw [if_neg same]
      rcases hypothesis fun other member => alive other (List.mem_cons_of_mem _ member) with
        ⟨other, member, later⟩ | ⟨none, later⟩
      · exact .inl ⟨other, List.mem_cons_of_mem _ member, later⟩
      · refine .inr ⟨fun other member held heldEq samePath sameName => ?_, later⟩
        rcases List.mem_cons.mp member with equal | old
        · rw [equal, found] at heldEq
          cases heldEq
          exact same ((comparePath_iff _ _ _).mpr ⟨samePath, sameName⟩)
        · exact none other old held heldEq samePath sameName

/-- A new object opens the path that it is given. -/
theorem openPath_new {_dbPath dbPath dbName : Bytes} (opened : Status)
    (split : parsed _dbPath = some (dbPath, dbName)) :
    LevelDB.new.openPath _dbPath opened =
      (opened, if opened.ok then
          { LevelDB.new with db := some ⟨dbPath, dbName, true, false⟩, dbPath := dbPath,
                             dbName := dbName }
        else LevelDB.new) := by
  unfold LevelDB.openPath LevelDB.openNamed
  rw [split]
  show (if opened.ok then _ else _) = _
  split <;> rfl

theorem create_of_none {_dbPath : Bytes} (address : Nat) (opened : Status)
    (invalid : parsed _dbPath = none) :
    factory.create _dbPath address opened = .ok (none, factory) := by
  unfold create
  rw [invalid]

theorem create_of_found {_dbPath dbPath dbName : Bytes} (address : Nat) (opened : Status)
    (split : parsed _dbPath = some (dbPath, dbName))
    (searched : factory.search dbPath dbName factory.leveldbs = .ok (some pointer))
    (found : factory.heap pointer = some leveldb) :
    factory.create _dbPath address opened = .ok (some pointer, factory.assign pointer
      (some { leveldb with reference := leveldb.reference.increase })) := by
  unfold create
  rw [split]
  dsimp only
  rw [searched, ok_bind]
  dsimp only
  rw [deref_of_some found, ok_bind]

/-- The object that `create` registers. -/
def opens (dbPath dbName : Bytes) : LevelDB :=
  { LevelDB.new with db := some ⟨dbPath, dbName, true, false⟩, dbPath := dbPath, dbName := dbName,
                     reference := LevelDB.new.reference.increase }

theorem create_of_opened {_dbPath dbPath dbName : Bytes} (address : Nat) {opened : Status}
    (split : parsed _dbPath = some (dbPath, dbName))
    (searched : factory.search dbPath dbName factory.leveldbs = .ok none)
    (success : opened.ok = true) :
    factory.create _dbPath address opened =
      .ok (some address, { factory.assign address (some (opens dbPath dbName)) with
        leveldbs := factory.leveldbs ++ [address] }) := by
  have opening := openPath_new opened split
  rw [if_pos success] at opening
  unfold create
  rw [split]
  dsimp only
  rw [searched, ok_bind]
  dsimp only
  rw [opening, if_neg (ne_of_eq_of_ne success (by decide))]
  rfl

theorem create_of_refused {_dbPath dbPath dbName : Bytes} (address : Nat) {opened : Status}
    (split : parsed _dbPath = some (dbPath, dbName))
    (searched : factory.search dbPath dbName factory.leveldbs = .ok none)
    (failure : opened.ok = false) :
    factory.create _dbPath address opened =
      .ok (none, factory.assign address (some LevelDB.new)) := by
  have opening := openPath_new opened split
  rw [failure, if_neg (by decide)] at opening
  unfold create
  rw [split]
  dsimp only
  rw [searched, ok_bind]
  dsimp only
  rw [opening, if_pos failure]

end LevelDBFactory

namespace Shared

variable {users : Users} {pointer : Nat} {leveldb : LevelDB}

/-- An address without an object is in nobody's hands. -/
theorem fresh (shared : Shared users) {address : Nat}
    (free : users.factory.heap address = none) : address ∉ users.factory.leveldbs := by
  intro member
  obtain ⟨leveldb, found, _⟩ := shared.alive address member
  exact Option.some_ne_none _ (found.symm.trans free)

theorem handles_eq_zero (shared : Shared users) (unregistered : pointer ∉ users.factory.leveldbs) :
    users.handles pointer = 0 := by
  refine List.countP_eq_zero.mpr fun handle member => ?_
  rw [decide_eq_true_iff]
  intro equal
  exact unregistered (equal ▸ (shared.held handle member).1)

/-- The handles of a path point to the one object that has it open. -/
theorem sharing_eq (shared : Shared users) (member : pointer ∈ users.factory.leveldbs)
    (found : users.factory.heap pointer = some leveldb) {_dbPath : Bytes}
    (split : parsed _dbPath = some (leveldb.dbPath, leveldb.dbName)) :
    users.sharing _dbPath = users.handles pointer := by
  refine List.countP_congr fun handle handleMember => ?_
  obtain ⟨registered, other, otherEq, otherSplit⟩ := shared.held handle handleMember
  rw [decide_eq_true_iff, decide_eq_true_iff, split, otherSplit]
  constructor
  · intro equal
    obtain ⟨samePath, sameName⟩ := Prod.mk.inj (Option.some.inj equal)
    exact shared.apart _ registered _ member _ _ otherEq found samePath sameName
  · intro equal
    rw [equal, found] at otherEq
    rw [Option.some.inj otherEq]

/-- A new count in the object of a path, with handles that agree with it. -/
theorem recount (shared : Shared users) (member : pointer ∈ users.factory.leveldbs)
    (found : users.factory.heap pointer = some leveldb) (reference : Reference)
    (outstanding : List Handle)
    (own : ∀ handle ∈ outstanding, handle ∈ users.outstanding ∨
      handle.1 = pointer ∧ parsed handle.2 = some (leveldb.dbPath, leveldb.dbName))
    (others : ∀ other, other ≠ pointer →
      Users.handles ⟨users.factory, outstanding⟩ other = users.handles other)
    (count : reference._nReferenceNum = Users.handles ⟨users.factory, outstanding⟩ pointer)
    (some' : 0 < Users.handles ⟨users.factory, outstanding⟩ pointer)
    (small : Users.handles ⟨users.factory, outstanding⟩ pointer < 2147483648) :
    Shared ⟨users.factory.assign pointer (some { leveldb with reference := reference }),
      outstanding⟩ := by
  have names : ∀ other held, (users.factory.assign pointer
      (some { leveldb with reference := reference })).heap other = some held →
      ∃ before, users.factory.heap other = some before ∧ before.dbPath = held.dbPath ∧
        before.dbName = held.dbName := by
    intro other held heldEq
    by_cases same : other = pointer
    · rw [same, LevelDBFactory.heap_assign_self] at heldEq
      cases heldEq
      exact ⟨leveldb, same ▸ found, rfl, rfl⟩
    · rw [LevelDBFactory.heap_assign_of_ne _ _ same] at heldEq
      exact ⟨held, heldEq, rfl, rfl⟩
  refine ⟨shared.nodup, fun other otherMember => ?_, fun one oneMember other otherMember
    first second firstEq secondEq samePath sameName => ?_, fun handle handleMember => ?_⟩
  · by_cases same : other = pointer
    · rw [same]
      exact ⟨_, Function.update_self _ _ _, count, some', small⟩
    · obtain ⟨held, heldEq, counted⟩ := shared.alive other otherMember
      refine ⟨held, (Function.update_of_ne same _ _).trans heldEq, ?_⟩
      rw [← others other same] at counted
      exact counted
  · obtain ⟨firstBefore, firstFound, firstPath, firstName⟩ := names one first firstEq
    obtain ⟨secondBefore, secondFound, secondPath, secondName⟩ := names other second secondEq
    refine shared.apart one oneMember other otherMember _ _ firstFound secondFound ?_ ?_
    · rw [firstPath, secondPath, samePath]
    · rw [firstName, secondName, sameName]
  · have kept : handle.1 = pointer → parsed handle.2 = some (leveldb.dbPath, leveldb.dbName) →
        handle.1 ∈ users.factory.leveldbs ∧ ∃ held, (users.factory.assign pointer
          (some { leveldb with reference := reference })).heap handle.1 = some held ∧
          parsed handle.2 = some (held.dbPath, held.dbName) := by
      intro same split
      rw [same]
      exact ⟨member, _, Function.update_self _ _ _, split⟩
    rcases own handle handleMember with old | ⟨same, split⟩
    · obtain ⟨registered, held, heldEq, split⟩ := shared.held handle old
      by_cases same : handle.1 = pointer
      · rw [same, found] at heldEq
        cases heldEq
        exact kept same split
      · exact ⟨registered, held, (Function.update_of_ne same _ _).trans heldEq, split⟩
    · exact kept same split

/-- An object that stays out of the registry. -/
theorem unregistered (shared : Shared users) {address : Nat}
    (free : users.factory.heap address = none) (object : LevelDB) :
    Shared ⟨users.factory.assign address (some object), users.outstanding⟩ := by
  have elsewhere : ∀ other ∈ users.factory.leveldbs,
      (users.factory.assign address (some object)).heap other = users.factory.heap other := by
    intro other member
    have different : other ≠ address := fun equal => shared.fresh free (equal ▸ member)
    exact LevelDBFactory.heap_assign_of_ne _ _ different
  refine ⟨shared.nodup, fun other member => ?_, fun one oneMember other otherMember first second
    firstEq secondEq => ?_, fun handle member => ?_⟩
  · rw [elsewhere other member]
    exact shared.alive other member
  · rw [elsewhere one oneMember] at firstEq
    rw [elsewhere other otherMember] at secondEq
    exact shared.apart one oneMember other otherMember first second firstEq secondEq
  · obtain ⟨registered, held⟩ := shared.held handle member
    rw [elsewhere handle.1 registered]
    exact ⟨registered, held⟩

/-- An object that is registered with its first handle. -/
theorem registered (shared : Shared users) {address : Nat}
    (free : users.factory.heap address = none) {object : LevelDB} {_dbPath : Bytes}
    (split : parsed _dbPath = some (object.dbPath, object.dbName))
    (count : object.reference._nReferenceNum = 1)
    (none' : ∀ pointer ∈ users.factory.leveldbs, ∀ leveldb,
      users.factory.heap pointer = some leveldb →
        leveldb.dbPath = object.dbPath → leveldb.dbName ≠ object.dbName) :
    Shared ⟨{ users.factory.assign address (some object) with
      leveldbs := users.factory.leveldbs ++ [address] }, (address, _dbPath) :: users.outstanding⟩ := by
  have new := shared.fresh free
  have elsewhere : ∀ other ∈ users.factory.leveldbs, other ≠ address ∧
      (users.factory.assign address (some object)).heap other = users.factory.heap other := by
    intro other member
    have different : other ≠ address := fun equal => new (equal ▸ member)
    exact ⟨different, LevelDBFactory.heap_assign_of_ne _ _ different⟩
  have here : (users.factory.assign address (some object)).heap address = some object :=
    Function.update_self _ _ _
  have members : ∀ other ∈ users.factory.leveldbs ++ [address],
      other ∈ users.factory.leveldbs ∨ other = address := by
    intro other member
    exact (List.mem_append.mp member).imp_right List.mem_singleton.mp
  refine ⟨?_, fun other member => ?_, fun one oneMember other otherMember first second firstEq
    secondEq samePath sameName => ?_, fun handle member => ?_⟩
  · exact List.nodup_append.mpr ⟨shared.nodup, List.pairwise_singleton _ _, fun one oneMember other
      otherMember equal => new (List.mem_singleton.mp otherMember ▸ equal ▸ oneMember)⟩
  · rcases members other member with old | equal
    · obtain ⟨different, same⟩ := elsewhere other old
      obtain ⟨held, heldEq, counted⟩ := shared.alive other old
      refine ⟨held, same.trans heldEq, ?_⟩
      have handles : Users.handles ⟨{ users.factory.assign address (some object) with
          leveldbs := users.factory.leveldbs ++ [address] },
          (address, _dbPath) :: users.outstanding⟩ other = users.handles other :=
        List.countP_cons_of_neg (by simpa using different.symm)
      rw [handles]
      exact counted
    · have handles : Users.handles ⟨{ users.factory.assign address (some object) with
          leveldbs := users.factory.leveldbs ++ [address] },
          (address, _dbPath) :: users.outstanding⟩ other = 1 := by
        rw [Users.handles, List.countP_cons_of_pos (by simp [equal])]
        exact congrArg (· + 1) (equal ▸ shared.handles_eq_zero new)
      rw [handles, equal]
      exact ⟨object, here, count, by decide, by decide⟩
  · dsimp only at firstEq secondEq
    rcases members one oneMember with oneOld | oneNew <;>
      rcases members other otherMember with otherOld | otherNew
    · rw [(elsewhere one oneOld).2] at firstEq
      rw [(elsewhere other otherOld).2] at secondEq
      exact shared.apart one oneOld other otherOld _ _ firstEq secondEq samePath sameName
    · rw [(elsewhere one oneOld).2] at firstEq
      rw [otherNew, here] at secondEq
      cases secondEq
      exact absurd sameName (none' one oneOld first firstEq samePath)
    · rw [(elsewhere other otherOld).2] at secondEq
      rw [oneNew, here] at firstEq
      cases firstEq
      exact absurd sameName.symm (none' other otherOld second secondEq samePath.symm)
    · rw [oneNew, otherNew]
  · rcases List.mem_cons.mp member with equal | old
    · rw [equal]
      exact ⟨List.mem_append_right _ (List.mem_singleton.mpr rfl), object, here, split⟩
    · obtain ⟨registered, held⟩ := shared.held handle old
      rw [(elsewhere handle.1 registered).2]
      exact ⟨List.mem_append_left _ registered, held⟩

/-- The last handle of an object is given up. -/
theorem removed (shared : Shared users) {handle : Handle} (member : handle ∈ users.outstanding)
    (last : users.handles handle.1 = 1) :
    Shared ⟨{ users.factory.assign handle.1 none with
      leveldbs := users.factory.leveldbs.erase handle.1 }, users.outstanding.erase handle⟩ := by
  have survives : ∀ other ∈ users.factory.leveldbs.erase handle.1,
      other ≠ handle.1 ∧ other ∈ users.factory.leveldbs ∧
        (users.factory.assign handle.1 none).heap other = users.factory.heap other := by
    intro other otherMember
    obtain ⟨different, old⟩ := shared.nodup.mem_erase_iff.mp otherMember
    exact ⟨different, old, LevelDBFactory.heap_assign_of_ne _ _ different⟩
  have counts := users.handles_erase member
  refine ⟨shared.nodup.erase _, fun other otherMember => ?_, fun one oneMember other otherMember
    first second firstEq secondEq => ?_, fun held heldMember => ?_⟩
  · obtain ⟨different, old, same⟩ := survives other otherMember
    obtain ⟨object, found, counted⟩ := shared.alive other old
    refine ⟨object, same.trans found, ?_⟩
    rw [Users.handles, counts other, if_neg (Ne.symm different)]
    exact counted
  · obtain ⟨_, oneOld, oneSame⟩ := survives one oneMember
    obtain ⟨_, otherOld, otherSame⟩ := survives other otherMember
    exact shared.apart one oneOld other otherOld first second (oneSame.symm.trans firstEq)
      (otherSame.symm.trans secondEq)
  · obtain ⟨registered, object, found, split⟩ := shared.held held (List.mem_of_mem_erase heldMember)
    have different : held.1 ≠ handle.1 := by
      intro equal
      have none := counts handle.1
      rw [last, if_pos rfl, Nat.sub_self] at none
      exact List.countP_eq_zero.mp none held heldMember (decide_eq_true equal)
    exact ⟨shared.nodup.mem_erase_iff.mpr ⟨different, registered⟩, object,
      (LevelDBFactory.heap_assign_of_ne _ _ different).trans found, split⟩

end Shared

/-! ### Calls -/

/-- The call removes the last handle of the object. -/
def LastRemoved (users : Users) (call : FactoryCall) (pointer : Nat) : Prop :=
  (∃ _dbPath, call = .remove (some (pointer, _dbPath))) ∧ users.handles pointer = 1

/-- What a call leaves behind. -/
def Keeps (users : Users) (call : FactoryCall) : Prop :=
  ∃ reply after, users.call call = .ok (reply, after) ∧ Shared after ∧
    ∀ pointer, users.factory.heap pointer ≠ none →
      (after.factory.heap pointer = none ↔ LastRemoved users call pointer)

namespace Shared

variable {users : Users}

/-- Creating destroys nothing. -/
theorem create_destroys_nothing {factory : LevelDBFactory} {_dbPath : Bytes} {address : Nat}
    {opened : Status} (object : LevelDB) (touched : Nat)
    (heap : factory.heap = (users.factory.assign touched (some object)).heap) (pointer : Nat)
    (alive : users.factory.heap pointer ≠ none) :
    factory.heap pointer = none ↔
      LastRemoved users (.create _dbPath address opened) pointer := by
  refine iff_of_false ?_ fun last => ?_
  · rw [heap]
    by_cases same : pointer = touched
    · rw [same, LevelDBFactory.heap_assign_self]
      exact Option.some_ne_none _
    · rw [LevelDBFactory.heap_assign_of_ne _ _ same]
      exact alive
  · obtain ⟨⟨_, equal⟩, _⟩ := last
    cases equal

theorem create (shared : Shared users) {_dbPath : Bytes} {address : Nat} {opened : Status}
    (free : users.factory.heap address = none)
    (small : users.sharing _dbPath + 1 < 2147483648) :
    Keeps users (.create _dbPath address opened) := by
  cases split : parsed _dbPath with
  | none =>
    refine ⟨none, users, ?_, shared, fun pointer alive => iff_of_false alive fun last => ?_⟩
    · rw [Users.call, LevelDBFactory.create_of_none address opened split]
      rfl
    · obtain ⟨⟨_, equal⟩, _⟩ := last
      cases equal
  | some path =>
    obtain ⟨dbPath, dbName⟩ := path
    rcases LevelDBFactory.search_eq dbPath dbName users.factory.leveldbs
      (fun pointer member => (shared.alive pointer member).imp fun _ held => held.1) with
      ⟨pointer, member, leveldb, found, samePath, sameName, searched⟩ | ⟨none', searched⟩
    · have created := LevelDBFactory.create_of_found address opened split searched found
      rw [← samePath, ← sameName] at split
      have sharing := shared.sharing_eq member found split
      obtain ⟨held, heldEq, counted, positive, _⟩ := shared.alive pointer member
      rw [found] at heldEq
      cases heldEq
      have here : Users.handles ⟨users.factory, (pointer, _dbPath) :: users.outstanding⟩ pointer =
          users.handles pointer + 1 := List.countP_cons_of_pos (decide_eq_true rfl)
      refine ⟨some pointer, ⟨users.factory.assign pointer
        (some { leveldb with reference := leveldb.reference.increase }),
        (pointer, _dbPath) :: users.outstanding⟩, ?_, ?_,
        create_destroys_nothing _ pointer rfl⟩
      · rw [Users.call, created]
        rfl
      · refine shared.recount member found _ _ (fun handle handleMember => ?_)
          (fun other different => ?_) ?_ ?_ ?_
        · rcases List.mem_cons.mp handleMember with equal | old
          · rw [equal]
            exact .inr ⟨rfl, split⟩
          · exact .inl old
        · exact List.countP_cons_of_neg (by simpa using different.symm)
        · rw [here, Reference.increase, counted, Int.natCast_add]
          exact int_of_lt (users.handles pointer + 1) (by omega)
        · rw [here]
          omega
        · rw [here]
          omega
    · cases success : opened.ok with
      | true =>
        have kept := @registered _ shared _ free (LevelDBFactory.opens dbPath dbName) _ split rfl none'
        refine ⟨some address, _, ?_, kept, create_destroys_nothing _ address rfl⟩
        rw [Users.call, LevelDBFactory.create_of_opened address split searched success]
        rfl
      | false =>
        refine ⟨none, _, ?_, shared.unregistered free LevelDB.new,
          create_destroys_nothing _ address rfl⟩
        rw [Users.call, LevelDBFactory.create_of_refused address split searched success]
        rfl

theorem remove (shared : Shared users) {handle : Option Handle}
    (known : ∀ held ∈ handle, held ∈ users.outstanding) : Keeps users (.remove handle) := by
  cases handle with
  | none =>
    refine ⟨none, users, rfl, shared, fun pointer alive => iff_of_false alive fun last => ?_⟩
    obtain ⟨⟨_, equal⟩, _⟩ := last
    cases equal
  | some handle =>
    have member := known handle rfl
    obtain ⟨registered, leveldb, found, split⟩ := shared.held handle member
    obtain ⟨held, heldEq, counted, positive, small⟩ := shared.alive handle.1 registered
    rw [found] at heldEq
    cases heldEq
    have deref := LevelDBFactory.deref_of_some found
    have counts := users.handles_erase member
    by_cases last : users.handles handle.1 = 1
    · refine ⟨none, _, ?_, shared.removed member last, fun pointer alive => ?_⟩
      · have one : leveldb.reference._nReferenceNum = 1 := by rw [counted, last]; rfl
        simp only [Users.call, LevelDBFactory.remove, Option.map_some, deref, ok_bind, if_pos one,
          if_pos registered, Option.elim_some]
      · by_cases same : pointer = handle.1
        · rw [same]
          exact iff_of_true (LevelDBFactory.heap_assign_self _ _ _) ⟨⟨handle.2, rfl⟩, last⟩
        · refine iff_of_false ?_ fun removed => ?_
          · rw [LevelDBFactory.heap_assign_of_ne _ _ same]
            exact alive
          · obtain ⟨⟨_, equal⟩, _⟩ := removed
            cases equal
            exact same rfl
    · refine ⟨none, ⟨users.factory.assign handle.1
        (some { leveldb with reference := leveldb.reference.decrease }),
        users.outstanding.erase handle⟩, ?_, ?_, fun pointer alive => ?_⟩
      · have notOne : leveldb.reference._nReferenceNum ≠ 1 := by
          rw [counted]
          omega
        simp only [Users.call, LevelDBFactory.remove, Option.map_some, deref, ok_bind,
          if_neg notOne, Option.elim_some]
      · have here := counts handle.1
        rw [if_pos rfl] at here
        refine shared.recount registered found _ _
          (fun other otherMember => .inl (List.mem_of_mem_erase otherMember))
          (fun other different => ?_) ?_ ?_ ?_
        · rw [Users.handles, counts other, if_neg different.symm, Nat.sub_zero]
        · rw [Users.handles, here, Reference.decrease, counted]
          rw [← Int.natCast_one, ← Int.natCast_sub positive]
          exact int_of_lt _ (by omega)
        · rw [Users.handles, here]
          omega
        · rw [Users.handles, here]
          omega
      · refine iff_of_false ?_ fun removed => ?_
        · by_cases same : pointer = handle.1
          · rw [same, LevelDBFactory.heap_assign_self]
            exact Option.some_ne_none _
          · rw [LevelDBFactory.heap_assign_of_ne _ _ same]
            exact alive
        · obtain ⟨⟨_, equal⟩, one⟩ := removed
          cases equal
          exact last one

end Shared

/-! ### Runs -/

/-- Every handle is removed at most once, and an `int` can count the handles of a path. -/
def Admitted (_ : History FactoryCall (Option Nat)) (users : Users) (call : FactoryCall) : Prop :=
  Matched users call ∧ Countable users call

theorem Shared.call {users : Users} (shared : Shared users) {call : FactoryCall}
    (matched : Matched users call) (countable : Countable users call) : Keeps users call := by
  cases call with
  | create _dbPath address opened => exact shared.create matched countable
  | remove handle => exact shared.remove matched

theorem shared_of_run {history : History FactoryCall (Option Nat)} {users : Users}
    (run : Run Users.call Admitted Users.nobody history users) : Shared users := by
  refine run.invariant (fun _ users => Shared users) ?_
    fun _ users call reply after shared admitted returned => ?_
  · exact ⟨List.nodup_nil, fun _ member => absurd member List.not_mem_nil,
      fun _ member => absurd member List.not_mem_nil,
      fun _ member => absurd member List.not_mem_nil⟩
  · obtain ⟨_, _, returnedEq, kept, _⟩ := shared.call admitted.1 admitted.2
    cases returned.symm.trans returnedEq
    exact kept

/-- In every state that users reach, the registry has one object for a path, handles are equal
exactly when their paths have one spelling, and an object counts its handles; and a further call
destroys an object exactly when it removes the last handle. -/
theorem instances_shared {history : History FactoryCall (Option Nat)} {users : Users}
    (run : Run Users.call Admitted Users.nobody history users) :
    (users.factory.leveldbs.Nodup ∧
      ∀ one ∈ users.factory.leveldbs, ∀ other ∈ users.factory.leveldbs,
        ∀ first second, users.factory.heap one = some first →
          users.factory.heap other = some second →
          (first.dbPath, first.dbName) = (second.dbPath, second.dbName) → one = other) ∧
    (∀ first ∈ users.outstanding, ∀ second ∈ users.outstanding,
      first.1 = second.1 ↔ normal first.2 = normal second.2) ∧
    (∀ pointer ∈ users.factory.leveldbs, ∃ leveldb, users.factory.heap pointer = some leveldb ∧
      leveldb.reference._nReferenceNum = users.handles pointer) ∧
    (∀ handle ∈ users.outstanding, handle.1 ∈ users.factory.leveldbs) ∧
    ∀ call, Admitted history users call →
      ∃ reply after, users.call call = .ok (reply, after) ∧
        ∀ pointer, users.factory.heap pointer ≠ none →
          (after.factory.heap pointer = none ↔ LastRemoved users call pointer) := by
  have shared := shared_of_run run
  refine ⟨⟨shared.nodup, fun one oneMember other otherMember first second firstEq secondEq same =>
    ?_⟩, fun first firstMember second secondMember => ?_, fun pointer member => ?_,
    fun handle member => (shared.held handle member).1, fun call admitted => ?_⟩
  · obtain ⟨samePath, sameName⟩ := Prod.mk.inj same
    exact shared.apart one oneMember other otherMember _ _ firstEq secondEq samePath sameName
  · obtain ⟨firstRegistered, one, oneEq, oneSplit⟩ := shared.held first firstMember
    obtain ⟨secondRegistered, other, otherEq, otherSplit⟩ := shared.held second secondMember
    rw [← parsed_eq_iff oneSplit otherSplit]
    constructor
    · intro same
      rw [same, otherEq] at oneEq
      rw [Option.some.inj oneEq]
    · intro same
      obtain ⟨samePath, sameName⟩ := Prod.mk.inj same
      exact shared.apart _ firstRegistered _ secondRegistered _ _ oneEq otherEq samePath sameName
  · obtain ⟨leveldb, found, counted, _⟩ := shared.alive pointer member
    exact ⟨leveldb, found, counted⟩
  · obtain ⟨reply, after, returned, _, destroyed⟩ := shared.call admitted.1 admitted.2
    exact ⟨reply, after, returned, destroyed⟩

/-- `/x`, in the spelling of the registry. -/
def pathX : Bytes := [47, 120]

/-- The object after `count + 1` calls of `create`. -/
def crowded (count : Nat) : LevelDB :=
  { LevelDBFactory.opens [47] [120] with reference := ⟨int (count + 1)⟩ }

/-- One object with `count + 1` handles. -/
def crowd (count : Nat) : Users :=
  ⟨⟨Function.update (fun _ => none) 0 (some (crowded count)), [0]⟩,
    List.replicate (count + 1) (0, pathX)⟩

theorem heap_crowd (count : Nat) : (crowd count).factory.heap 0 = some (crowded count) := by
  show Function.update (fun _ => none) 0 (some (crowded count)) 0 = _
  exact Function.update_self 0 _ _

theorem matched_nobody : Matched Users.nobody (.create pathX 0 .OK) := by
  unfold Matched Users.nobody LevelDBFactory.empty
  rfl

theorem matched_crowd (count : Nat) : Matched (crowd count) (.create pathX 1 .OK) := by
  show Function.update (fun _ => none) 0 (some (crowded count)) 1 = none
  exact Function.update_of_ne Nat.one_ne_zero _ _

theorem call_nobody : Users.nobody.call (.create pathX 0 .OK) = .ok (some 0, crowd 0) := by
  have split : parsed pathX = some ([47], [120]) := by decide
  rw [Users.call, Users.nobody, LevelDBFactory.create_of_opened 0 split rfl rfl]
  rfl

/-- `/x` is created in two spellings and `/y` once, and the first handle is removed. The object of
`/x` goes with its second handle. -/
theorem instances_shared_once : ∃ history users,
    Run Users.call Admitted Users.nobody history users ∧
    history = [(.remove (some (0, pathX)), none), (.create [47, 121] 1 .OK, some 1),
      (.create [47, 47, 120] 1 .OK, some 0), (.create pathX 0 .OK, some 0)] ∧
    users.outstanding = [(1, [47, 121]), (0, [47, 47, 120])] ∧
    (∃ leveldb, users.factory.heap 0 = some leveldb ∧ leveldb.reference._nReferenceNum = 1) ∧
    ∃ reply after, users.call (.remove (some (0, [47, 47, 120]))) = .ok (reply, after) ∧
      after.factory.heap 0 = none ∧ after.factory.heap 1 ≠ none := by
  obtain ⟨first, second, third, users, one, two, three, four, outstanding, registry, alive,
      twoAdmitted, threeAdmitted, fourAdmitted⟩ :
      ∃ first second third users,
        Users.nobody.call (.create pathX 0 .OK) = .ok (some 0, first) ∧
        first.call (.create [47, 47, 120] 1 .OK) = .ok (some 0, second) ∧
        second.call (.create [47, 121] 1 .OK) = .ok (some 1, third) ∧
        third.call (.remove (some (0, pathX))) = .ok (none, users) ∧
        users.outstanding = [(1, [47, 121]), (0, [47, 47, 120])] ∧
        users.factory.leveldbs = [0, 1] ∧
        (users.factory.heap 0 ≠ none ∧ users.factory.heap 1 ≠ none) ∧
        Admitted [] first (.create [47, 47, 120] 1 .OK) ∧
        Admitted [] second (.create [47, 121] 1 .OK) ∧
        Admitted [] third (.remove (some (0, pathX))) := by
    refine ⟨_, _, _, _, rfl, rfl, rfl, rfl, rfl, rfl, ⟨Option.some_ne_none _, Option.some_ne_none _⟩,
      ⟨rfl, by unfold Countable; decide⟩, ⟨rfl, by unfold Countable; decide⟩, ?_, trivial⟩
    rintro _ ⟨⟩
    decide
  have run : Run Users.call Admitted Users.nobody _ users :=
    ((((Run.start.step ⟨matched_nobody, by unfold Countable; decide⟩ one).step twoAdmitted
      two).step threeAdmitted three).step fourAdmitted four)
  obtain ⟨_, _, counts, _, calls⟩ := instances_shared run
  have handles : users.handles 0 = 1 := by
    rw [Users.handles, outstanding]
    rfl
  obtain ⟨leveldb, found, counted⟩ := counts 0 (by rw [registry]; decide)
  have admitted : Matched users (.remove (some (0, [47, 47, 120]))) := by
    rintro _ ⟨⟩
    rw [outstanding]
    decide
  obtain ⟨reply, after, returned, destroyed⟩ := calls _ ⟨admitted, trivial⟩
  refine ⟨_, users, run, rfl, outstanding, ⟨leveldb, found, ?_⟩, reply, after, returned,
    (destroyed 0 alive.1).mpr ⟨⟨_, rfl⟩, handles⟩, fun gone => ?_⟩
  · rw [counted, handles]
    rfl
  · obtain ⟨⟨_, other⟩, _⟩ := (destroyed 1 alive.2).mp gone
    cases other

theorem call_crowd (count : Nat) :
    (crowd count).call (.create pathX 1 .OK) = .ok (some 0, crowd (count + 1)) := by
  have split : parsed pathX = some ([47], [120]) := by decide
  have searched : (crowd count).factory.search [47] [120] (crowd count).factory.leveldbs =
      .ok (some 0) := by
    show (crowd count).factory.search [47] [120] [0] = _
    rw [LevelDBFactory.search, LevelDBFactory.deref_of_some (heap_crowd count), ok_bind]
    rfl
  have counted : int (int (count + 1) + 1) = int (↑(count + 1) + 1) := by
    unfold int
    omega
  rw [Users.call, LevelDBFactory.create_of_found 1 .OK split searched (heap_crowd count)]
  simp only [ok_bind, LevelDBFactory.assign, crowd, crowded, Reference.increase, counted,
    Function.update_idem, Option.map_some, Option.toList_some, List.singleton_append,
    ← List.replicate_succ]

theorem run_crowd (count : Nat) : ∃ history,
    Run Users.call (fun _ => Matched) Users.nobody history (crowd count) := by
  induction count with
  | zero => exact ⟨_, Run.start.step matched_nobody call_nobody⟩
  | succ count hypothesis =>
    obtain ⟨history, run⟩ := hypothesis
    exact ⟨_, run.step (matched_crowd count) (call_crowd count)⟩

/-- With 2^31 handles of one path, the count of the object is negative. -/
theorem count_differs_from_handles :
    ∃ history users, Run Users.call (fun _ => Matched) Users.nobody history users ∧
      ∃ pointer ∈ users.factory.leveldbs, ∃ leveldb, users.factory.heap pointer = some leveldb ∧
        users.handles pointer = 2147483648 ∧
        leveldb.reference._nReferenceNum = -2147483648 := by
  obtain ⟨history, run⟩ := run_crowd 2147483647
  refine ⟨history, _, run, 0, List.mem_singleton.mpr rfl, _, heap_crowd _, ?_, ?_⟩
  · show List.countP _ (List.replicate _ _) = _
    rw [List.countP_replicate]
    rfl
  · show int _ = _
    decide

end LevelDBLib.Navi
