/-
This file states what the chain results assume of the file behind the allocator,
and gives the simplest file that meets it.

A `CoherentDevice` loads, for every page number, the bytes last saved for it,
and never refuses a save. Bytes that were never saved are left open, except that
a saved page is not lost when another one is saved. `PageDisk` is such a file: a
list of pages that grows with pages of zeros, with a record of the page numbers
saved so far.
-/

import LevelDBLib.KvDB.PageManagement

namespace LevelDBLib.KvDB

open Buffers

/-- A device on which page loads return the last saved bytes and every save succeeds. `saves`
lists the page numbers saved so far. -/
class CoherentDevice (Device : Type) extends PageDevice Device where
  contents : Device → Nat → Option Bytes
  saves : Device → List Nat
  load_coherent : ∀ (device : Device) (pageno : Nat), ∃ after,
    getPageByNo device pageno = .ok (contents device pageno, after) ∧
      contents after = contents device ∧ saves after = saves device
  save_coherent : ∀ (device : Device) (pageno offset : Nat) (bytes : Bytes), ∃ after,
    save device pageno offset bytes = .ok (true, after) ∧
      contents after pageno = some bytes ∧
      (∀ other held, other ≠ pageno → contents device other = some held →
        contents after other = some held) ∧
      saves after = saves device ++ [pageno]

/-! ### A coherent file -/

structure PageDisk where
  pages : List Bytes
  saved : List Nat
deriving DecidableEq, Repr

namespace PageDisk

/-- The pages with page `pageno` replaced. A page behind the end leaves pages of zeros. -/
def replaced (pages : List Bytes) (pageno : Nat) (bytes : Bytes) : List Bytes :=
  (pages ++ List.replicate (pageno + 1 - pages.length)
    (List.replicate bytes.length 0)).set pageno bytes

theorem replaced_self (pages : List Bytes) (pageno : Nat) (bytes : Bytes) :
    (replaced pages pageno bytes)[pageno]? = some bytes := by
  rw [replaced, List.getElem?_set_self]
  rw [List.length_append, List.length_replicate]
  omega

theorem replaced_other (pages : List Bytes) (pageno other : Nat) (bytes held : Bytes)
    (different : other ≠ pageno) (present : pages[other]? = some held) :
    (replaced pages pageno bytes)[other]? = some held := by
  have inside : other < pages.length := (List.getElem?_eq_some_iff.mp present).1
  rw [replaced, List.getElem?_set_ne different.symm, List.getElem?_append_left inside, present]

instance : CoherentDevice PageDisk where
  getPageByNo disk pageno := .ok (disk.pages[pageno]?, disk)
  save disk pageno _ bytes :=
    .ok (true, ⟨replaced disk.pages pageno bytes, disk.saved ++ [pageno]⟩)
  contents disk pageno := disk.pages[pageno]?
  saves disk := disk.saved
  load_coherent disk _ := ⟨disk, rfl, rfl, rfl⟩
  save_coherent disk pageno _ bytes :=
    ⟨⟨replaced disk.pages pageno bytes, disk.saved ++ [pageno]⟩, rfl,
      replaced_self disk.pages pageno bytes,
      fun other held different => replaced_other disk.pages pageno other bytes held different,
      rfl⟩

end PageDisk

/-! ### A new table file -/

/-- The bytes that `SMDTable::saveFlag` writes at the start of a new file. -/
def flagPage (pageSize : Nat) : Except Fault Bytes := do
  let page ← SMDPage.new pageSize 0
  let page ← page.push
  fetch page.data 0 pageSize

/-- A device that holds what `saveFlag` wrote. -/
def HoldsFlag {Device : Type} [CoherentDevice Device] (device : Device) (pageSize : Nat) : Prop :=
  ∃ bytes, flagPage pageSize = .ok bytes ∧ CoherentDevice.contents device 0 = some bytes

/-- The new table file as a `PageDisk`. -/
def PageDisk.create (pageSize : Nat) : Except Fault PageDisk := do
  let bytes ← flagPage pageSize
  .ok ⟨[bytes], []⟩

end LevelDBLib.KvDB
