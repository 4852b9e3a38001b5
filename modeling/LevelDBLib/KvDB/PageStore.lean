/-
This file says what a page file is for: a store of independent byte strings. An
appended string gets an offset where nothing is stored, the first one of a new
file the offset where the file begins; a string may be overwritten by one of the
same length, which leaves all others as they are; what is stored is read back.

The layers above the page file use it only through this interface. Offsets are
`int` in the page file and never negative while the store has room.
-/

import Mathlib.Logic.Function.Basic
import LevelDBLib.KvDB.Value

namespace LevelDBLib.KvDB

/-- A page file as a store of byte strings. -/
class PageStore (File : Type) where
  /-- `put` of a stream: the offset of the string, as an `unsigned int`. -/
  put : File → Bytes → Nat × File
  /-- `put` of a stream at an offset, which it returns. -/
  putAt : File → Bytes → Nat → Nat × File
  /-- `get` of the string at an offset, where it succeeds. -/
  get : File → Nat → Option Bytes
  getPageFileBeginOffset : File → Nat
  /-- The file has just been created. -/
  created : File → Prop
  /-- The strings that were stored, at their offsets. -/
  contents : File → Nat → Option Bytes
  /-- The number of bytes that the file can still take; the length of a string takes four. -/
  room : File → Nat
  room_small : ∀ file, room file < 2147483648
  contents_created : ∀ file, created file → ∀ offset, contents file offset = none
  put_appends : ∀ file bytes, bytes ≠ [] → bytes.length + 4 ≤ room file →
    ∃ offset next, put file bytes = (offset, next) ∧ offset < 2147483648 ∧
      contents file offset = none ∧
      contents next = Function.update (contents file) offset (some bytes) ∧
      room file ≤ room next + (bytes.length + 4) ∧
      (created file → offset = getPageFileBeginOffset file)
  putAt_overwrites : ∀ file bytes offset old, contents file offset = some old →
    bytes.length = old.length → ∃ next, putAt file bytes offset = (offset, next) ∧
      contents next = Function.update (contents file) offset (some bytes)
  get_stored : ∀ file offset bytes, contents file offset = some bytes →
    get file offset = some bytes

/-- A page file that fits on one page: its strings follow each other, each behind its length. -/
structure OnePage where
  begin : Nat
  next : Nat
  strings : Nat → Option Bytes
  ordered : begin ≤ next
  small : next ≤ 2147483647
  free : ∀ offset, next ≤ offset → strings offset = none
  first : next = begin → ∀ offset, strings offset = none

namespace OnePage

def new (begin : Nat) (small : begin ≤ 2147483647) : OnePage :=
  ⟨begin, begin, fun _ => none, Nat.le_refl _, small, fun _ _ => rfl, fun _ _ => rfl⟩

def put (file : OnePage) (bytes : Bytes) : Nat × OnePage :=
  if room : bytes ≠ [] ∧ file.next + (bytes.length + 4) ≤ 2147483647 then
    (file.next, {
      begin := file.begin
      next := file.next + (bytes.length + 4)
      strings := Function.update file.strings file.next (some bytes)
      ordered := Nat.le_trans file.ordered (Nat.le_add_right _ _)
      small := room.2
      free := fun offset behind => by
        rw [Function.update_of_ne (by omega)]
        exact file.free offset (by omega)
      first := fun same => absurd file.ordered (by omega) })
  else (4294967295, file)

def putAt (file : OnePage) (bytes : Bytes) (offset : Nat) : Nat × OnePage :=
  if stored : file.strings offset ≠ none then
    (offset, { file with
      strings := Function.update file.strings offset (some bytes)
      free := fun other behind => by
        have different : other ≠ offset := by
          rintro rfl
          exact stored (file.free _ behind)
        rw [Function.update_of_ne different]
        exact file.free other behind
      first := fun same => absurd (file.first same offset) stored })
  else (4294967295, file)

instance : PageStore OnePage where
  put := put
  putAt := putAt
  get file offset := file.strings offset
  getPageFileBeginOffset file := file.begin
  created file := file.next = file.begin
  contents file := file.strings
  room file := 2147483647 - file.next
  room_small file := Nat.lt_succ_of_le (Nat.sub_le _ _)
  contents_created file created := file.first created
  put_appends file bytes some' room := by
    have fits : bytes ≠ [] ∧ file.next + (bytes.length + 4) ≤ 2147483647 := ⟨some', by omega⟩
    refine ⟨_, _, dif_pos fits, ?_, file.free _ (Nat.le_refl _), rfl, ?_, id⟩
    · omega
    · show _ ≤ 2147483647 - (file.next + (bytes.length + 4)) + _
      omega
  putAt_overwrites file bytes offset old stored _ :=
    ⟨_, dif_pos (by rw [stored]; exact Option.some_ne_none old), rfl⟩
  get_stored _ _ _ stored := stored

end OnePage

end LevelDBLib.KvDB
