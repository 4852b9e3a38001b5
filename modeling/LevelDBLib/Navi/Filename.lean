/-
This file models the names of the files of a database, and the parser of such names. A name is
the path and the name of the database, a number of at least six digits where there is one, and
what kind of file it is, with dots between them, cut at the size of a buffer. The parser takes
the kind from behind the last dot and the number from behind the first one. They agree on a name
without dots that fits; a table with a number does not come back at all.
-/

import LevelDBLib.Navi.Logging
import Mathlib.Data.List.TakeWhile

namespace LevelDBLib.Navi

open KvDB Decimals PathParser Logging

inductive FileType where
  | kLogFile
  | kDBLockFile
  | kTableFile
  | kDescriptorFile
  | kCurrentFile
  | kTempFile
  /-- Either the current one, or an old one. -/
  | kInfoLogFile
deriving DecidableEq, Repr

namespace Filename

def FILENUMBER_LDB : Nat := 0

def FILENUMBER_MANIFEST : Nat := 1

/-! ### Suffixes -/

/-- `log`. -/
def log : Bytes := [108, 111, 103]

/-- `ldb`. -/
def ldb : Bytes := [108, 100, 98]

/-- `sst`. -/
def sst : Bytes := [115, 115, 116]

/-- `manifest`. -/
def manifest : Bytes := [109, 97, 110, 105, 102, 101, 115, 116]

/-- `current`. -/
def current : Bytes := [99, 117, 114, 114, 101, 110, 116]

/-- `lock`. -/
def lock : Bytes := [108, 111, 99, 107]

/-- `dbtmp`. -/
def dbtmp : Bytes := [100, 98, 116, 109, 112]

/-- `lg`. -/
def lg : Bytes := [108, 103]

/-- `oldlg`. -/
def oldlg : Bytes := [111, 108, 100, 108, 103]

/-! ### Writing -/

/-- The bytes of a string that `%s` prints. -/
def cstr (text : Bytes) : Bytes := text.takeWhile fun byte => byte ≠ 0

/-- What `snprintf` leaves in a buffer of 1024 bytes. -/
def printed (text : Bytes) : Bytes := text.take 1023

/-- `%06llu`. -/
def digits (number : BitVec 64) : Bytes := (padded 6 number.toNat).map char

/-- `MakeFileName` with a number. -/
def MakeNumberedFileName (dbpath name : Bytes) (number : BitVec 64) (suffix : Bytes) : Bytes :=
  printed (cstr dbpath ++ cstr name ++ dot :: digits number ++ dot :: suffix)

def MakeFileName (dbpath dbname suffix : Bytes) : Bytes :=
  printed (cstr dbpath ++ cstr dbname ++ dot :: suffix)

def LogFileName (dbpath dbname : Bytes) (number : BitVec 64) : Except Fault Bytes :=
  if number.toNat > 0 then .ok (MakeNumberedFileName dbpath dbname number log) else .error .assertion

def TableFileName (dbpath dbname : Bytes) (number : BitVec 64) : Bytes :=
  if number.toNat = FILENUMBER_LDB then MakeFileName dbpath dbname ldb
  else MakeNumberedFileName dbpath dbname number ldb

/-- The number is not used. -/
def DescriptorFileName (dbpath dbname : Bytes) (_number : BitVec 64) : Bytes :=
  MakeFileName dbpath dbname manifest

def CurrentFileName (dbpath dbname : Bytes) : Bytes := MakeFileName dbpath dbname current

def LockFileName (dbpath dbname : Bytes) : Bytes := MakeFileName dbpath dbname lock

def TempFileName (dbpath dbname : Bytes) (number : BitVec 64) : Except Fault Bytes :=
  if number.toNat > 0 then .ok (MakeNumberedFileName dbpath dbname number dbtmp)
  else .error .assertion

def InfoLogFileName (dbpath dbname : Bytes) : Bytes := MakeFileName dbpath dbname lg

/-! ### Parsing -/

/-- `find_first_of('.') + 1`, which is zero where there is no dot. -/
def behindFirstDot (fname : Bytes) : Nat := (fname.findIdx? (· == dot)).elim 0 (· + 1)

/-- The branches of `ParseFileName`. -/
def bySuffix (fname suffix : Bytes) : Option (Nat × FileType) :=
  if suffix = current then some (0, .kCurrentFile)
  else if suffix = lock then some (0, .kDBLockFile)
  else if suffix = lg ∨ suffix = oldlg then some (0, .kInfoLogFile)
  else if suffix = manifest then
    if fname.take (behindFirstDot fname) ++ manifest ≠ fname then none
    else some (1, .kDescriptorFile)
  else if suffix = ldb then
    if fname.take (behindFirstDot fname) ++ ldb ≠ fname then none
    else some (FILENUMBER_LDB, .kTableFile)
  else
    match ConsumeDecimalNumber (fname.drop (behindFirstDot fname)) with
    | none => none
    | some (num, _) =>
      if suffix = log then some (num, .kLogFile)
      else if suffix = sst ∨ suffix = ldb then some (num, .kTableFile)
      else if suffix = dbtmp then some (num, .kTempFile)
      else none

/-- `ParseFileName`; the path of the database is not used. -/
def ParseFileName (_dbpath fname : Bytes) : Option (Nat × FileType) :=
  match GetFileSuffix fname with
  | none => none
  | some suffix => bySuffix fname suffix

/-! ### What is accepted -/

/-- The names of database files. -/
inductive FileName : Bytes → Nat → FileType → Prop
  | current (front : Bytes) (nonempty : front ≠ []) :
      FileName (front ++ dot :: current) 0 .kCurrentFile
  | lock (front : Bytes) (nonempty : front ≠ []) : FileName (front ++ dot :: lock) 0 .kDBLockFile
  | lg (front : Bytes) (nonempty : front ≠ []) : FileName (front ++ dot :: lg) 0 .kInfoLogFile
  | oldlg (front : Bytes) (nonempty : front ≠ []) : FileName (front ++ dot :: oldlg) 0 .kInfoLogFile
  | manifest (front : Bytes) (nonempty : front ≠ []) (plain : dot ∉ front) :
      FileName (front ++ dot :: manifest) FILENUMBER_MANIFEST .kDescriptorFile
  | ldb (front : Bytes) (nonempty : front ≠ []) (plain : dot ∉ front) :
      FileName (front ++ dot :: ldb) FILENUMBER_LDB .kTableFile
  | log (front behind : Bytes) (number : Nat) (plain : dot ∉ front) (begins : Begins behind number) :
      FileName (front ++ dot :: behind ++ dot :: log) number .kLogFile
  | sst (front behind : Bytes) (number : Nat) (plain : dot ∉ front) (begins : Begins behind number) :
      FileName (front ++ dot :: behind ++ dot :: sst) number .kTableFile
  | dbtmp (front behind : Bytes) (number : Nat) (plain : dot ∉ front)
      (begins : Begins behind number) :
      FileName (front ++ dot :: behind ++ dot :: dbtmp) number .kTempFile

theorem behindFirstDot_append (front back : Bytes) (plain : dot ∉ front) :
    behindFirstDot (front ++ dot :: back) = front.length + 1 := by
  have absent : front.findIdx? (· == dot) = none := by
    rw [List.findIdx?_eq_none_iff]
    exact fun byte listed => beq_false_of_ne fun same => plain (same ▸ listed)
  rw [behindFirstDot, List.findIdx?_append, absent, List.findIdx?_cons]
  simp

/-- A name with a suffix is parsed by it. -/
theorem ParseFileName_append (dbpath front suffix : Bytes) (nonempty : front ≠ [])
    (more : suffix ≠ []) (last : dot ∉ suffix) :
    ParseFileName dbpath (front ++ dot :: suffix) = bySuffix (front ++ dot :: suffix) suffix := by
  rw [ParseFileName, (GetFileSuffix_iff _ suffix).mpr ⟨front, nonempty, more, last, rfl⟩]

/-- The text in front of a suffix without dots is all that stands in front of the first dot. -/
theorem take_behindFirstDot_iff (front suffix : Bytes) :
    (front ++ dot :: suffix).take (behindFirstDot (front ++ dot :: suffix)) ++ suffix =
        front ++ dot :: suffix ↔ dot ∉ front := by
  constructor
  · intro equal listed
    obtain ⟨first, others, rfl, plain⟩ := List.eq_append_cons_of_mem listed
    rw [List.append_assoc, List.cons_append, behindFirstDot_append _ _ plain] at equal
    have lengths := congrArg List.length equal
    rw [List.length_append, List.length_take, List.length_append, List.length_cons,
      List.length_append, List.length_cons] at lengths
    omega
  · intro plain
    have whole : front ++ dot :: suffix = (front ++ [dot]) ++ suffix := by
      rw [List.append_assoc, List.singleton_append]
    have length : (front ++ [dot]).length = front.length + 1 := by
      rw [List.length_append, List.length_singleton]
    rw [behindFirstDot_append _ _ plain, whole, ← length, List.take_left]

theorem drop_behindFirstDot (front back : Bytes) (plain : dot ∉ front) :
    (front ++ dot :: back).drop (behindFirstDot (front ++ dot :: back)) = back := by
  rw [behindFirstDot_append _ _ plain, List.drop_append, List.drop_of_length_le (Nat.le_succ _),
    Nat.add_sub_cancel_left, List.nil_append, List.drop_one, List.tail_cons]

/-- What stands behind the first dot of a text that has one. -/
theorem exists_behind_iff (text : Bytes) (listed : dot ∈ text) (holds : Bytes → Prop) :
    (∃ first behind, text = first ++ dot :: behind ∧ dot ∉ first ∧ holds behind) ↔
      holds (text.drop (behindFirstDot text)) := by
  constructor
  · rintro ⟨first, behind, rfl, plain, held⟩
    rw [drop_behindFirstDot first behind plain]
    exact held
  · intro held
    obtain ⟨first, behind, rfl, plain⟩ := List.eq_append_cons_of_mem listed
    rw [drop_behindFirstDot first behind plain] at held
    exact ⟨first, behind, rfl, plain, held⟩

theorem stops_dot (rest : Bytes) : Stops (dot :: rest) := by
  intro c first
  cases first
  decide

/-- The number behind the first dot of a name with a dot in front of its suffix. -/
theorem begins_behind_iff (front rest : Bytes) (listed : dot ∈ front) (number : Nat) :
    Begins ((front ++ dot :: rest).drop (behindFirstDot (front ++ dot :: rest))) number ↔
      Begins (front.drop (behindFirstDot front)) number := by
  obtain ⟨first, behind, rfl, plain⟩ := List.eq_append_cons_of_mem listed
  rw [drop_behindFirstDot first behind plain, List.append_assoc, List.cons_append,
    drop_behindFirstDot first _ plain, begins_append_iff _ _ _ (stops_dot rest)]

/-- A name with a number has it behind its first dot. -/
theorem number_iff (front suffix : Bytes) (number : Nat) (letters : ¬ Begins suffix number) :
    Begins ((front ++ dot :: suffix).drop (behindFirstDot (front ++ dot :: suffix))) number ↔
      ∃ first behind, front = first ++ dot :: behind ∧ dot ∉ first ∧ Begins behind number := by
  by_cases listed : dot ∈ front
  · rw [begins_behind_iff front suffix listed, exists_behind_iff front listed]
  · rw [drop_behindFirstDot front suffix listed]
    refine iff_of_false letters ?_
    rintro ⟨first, behind, rfl, _⟩
    exact listed (List.mem_append_right _ List.mem_cons_self)

theorem not_begins_of_letter (suffix : Bytes) (number : Nat) (letters : Stops suffix) :
    ¬ Begins suffix number := by
  rintro ⟨rest, accepted⟩
  obtain ⟨word, nonempty, small, _, _, split, _⟩ := (ConsumeDecimalNumber_iff _ _ _).mp accepted
  cases word with
  | nil => exact nonempty rfl
  | cons first word =>
    have stopped := letters (char first) (by rw [split]; rfl)
    exact absurd (isDigit_char (small first List.mem_cons_self)) (by rw [stopped]; decide)

/-- The suffixes behind a number. -/
def numbered : List (Bytes × FileType) := [(log, .kLogFile), (sst, .kTableFile), (dbtmp, .kTempFile)]

/-- The suffixes behind a name without dots. -/
def unnumbered : List (Bytes × Nat × FileType) :=
  [(manifest, FILENUMBER_MANIFEST, .kDescriptorFile), (ldb, FILENUMBER_LDB, .kTableFile)]

theorem bySuffix_of_numbered {suffix : Bytes} {kind : FileType}
    (listed : (suffix, kind) ∈ numbered) (fname : Bytes) :
    bySuffix fname suffix =
      (ConsumeDecimalNumber (fname.drop (behindFirstDot fname))).map fun num => (num.1, kind) := by
  simp only [numbered, List.mem_cons, List.not_mem_nil, or_false, Prod.mk.injEq] at listed
  cases equal : ConsumeDecimalNumber (fname.drop (behindFirstDot fname)) with
  | none =>
    rcases listed with ⟨rfl, rfl⟩ | ⟨rfl, rfl⟩ | ⟨rfl, rfl⟩
    all_goals simp only [bySuffix, equal]; rfl
  | some num =>
    rcases listed with ⟨rfl, rfl⟩ | ⟨rfl, rfl⟩ | ⟨rfl, rfl⟩
    all_goals simp only [bySuffix, equal]; rfl

theorem bySuffix_of_unnumbered {suffix : Bytes} {kind : Nat × FileType}
    (listed : (suffix, kind) ∈ unnumbered) (fname : Bytes) :
    bySuffix fname suffix =
      if fname.take (behindFirstDot fname) ++ suffix ≠ fname then none else some kind := by
  simp only [unnumbered, List.mem_cons, List.not_mem_nil, or_false, Prod.mk.injEq] at listed
  rcases listed with ⟨rfl, rfl⟩ | ⟨rfl, rfl⟩
  · rfl
  · rfl

theorem stops_of_all {rest : Bytes} (letter : rest.head?.all (fun c => !isDigit c) = true) :
    Stops rest := by
  intro c first
  rw [first, Option.all_some] at letter
  exact Bool.not_eq_true' _ |>.mp letter

theorem letters_numbered {pair : Bytes × FileType} (listed : pair ∈ numbered) : Stops pair.1 := by
  have letters : ∀ pair ∈ numbered, pair.1.head?.all (fun c => !isDigit c) = true := by decide
  exact stops_of_all (letters pair listed)

theorem bySuffix_numbered {suffix : Bytes} {kind : FileType} (listed : (suffix, kind) ∈ numbered)
    (front : Bytes) (number : Nat) (type : FileType) :
    bySuffix (front ++ dot :: suffix) suffix = some (number, type) ↔
      type = kind ∧
        ∃ first behind, front = first ++ dot :: behind ∧ dot ∉ first ∧ Begins behind number := by
  rw [bySuffix_of_numbered listed,
    ← number_iff front suffix number
      (not_begins_of_letter suffix number (letters_numbered listed)),
    Option.map_eq_some_iff]
  constructor
  · rintro ⟨⟨num, rest⟩, accepted, equal⟩
    cases equal
    exact ⟨rfl, rest, accepted⟩
  · rintro ⟨rfl, rest, accepted⟩
    exact ⟨(number, rest), accepted, rfl⟩

theorem bySuffix_unnumbered {suffix : Bytes} {kind : Nat × FileType}
    (listed : (suffix, kind) ∈ unnumbered) (front : Bytes) (parsed : Nat × FileType) :
    bySuffix (front ++ dot :: suffix) suffix = some parsed ↔ dot ∉ front ∧ parsed = kind := by
  rw [bySuffix_of_unnumbered listed, ← take_behindFirstDot_iff front suffix]
  split
  · rename_i differs
    exact iff_of_false (fun equal => by cases equal) fun plain => differs plain.1
  · rename_i same
    rw [Option.some_inj, eq_comm]
    exact (and_iff_right (not_not.mp same)).symm

/-- The suffixes that the parser knows. -/
def known : List Bytes := [current, lock, lg, oldlg, manifest, ldb, log, sst, dbtmp]

theorem known_of_bySuffix {fname suffix : Bytes} {parsed : Nat × FileType}
    (returned : bySuffix fname suffix = some parsed) : suffix ∈ known := by
  by_contra unknown
  simp only [known, List.mem_cons, List.not_mem_nil, or_false, not_or] at unknown
  obtain ⟨notCurrent, notLock, notLg, notOldlg, notManifest, notLdb, notLog, notSst, notDbtmp⟩ :=
    unknown
  rw [bySuffix, if_neg notCurrent, if_neg notLock,
    if_neg fun either => either.elim notLg notOldlg, if_neg notManifest, if_neg notLdb] at returned
  split at returned
  · cases returned
  · rw [if_neg notLog, if_neg fun either => either.elim notSst notLdb, if_neg notDbtmp] at returned
    cases returned

theorem plain_known : ∀ suffix ∈ known, suffix ≠ [] ∧ dot ∉ suffix := by decide

/-- The parser accepts the names of database files. -/
theorem ParseFileName_iff (dbpath fname : Bytes) (number : Nat) (type : FileType) :
    ParseFileName dbpath fname = some (number, type) ↔ FileName fname number type := by
  constructor
  · intro accepted
    rw [ParseFileName] at accepted
    split at accepted
    · cases accepted
    · rename_i suffix found
      obtain ⟨front, nonempty, more, last, rfl⟩ := (GetFileSuffix_iff _ _).mp found
      have listed := known_of_bySuffix accepted
      simp only [known, List.mem_cons, List.not_mem_nil, or_false] at listed
      rcases listed with rfl | rfl | rfl | rfl | rfl | rfl | rfl | rfl | rfl
      · cases accepted
        exact .current front nonempty
      · cases accepted
        exact .lock front nonempty
      · cases accepted
        exact .lg front nonempty
      · cases accepted
        exact .oldlg front nonempty
      · obtain ⟨plain, equal⟩ := (bySuffix_unnumbered (List.mem_cons_self ..) _ _).mp accepted
        cases equal
        exact .manifest front nonempty plain
      · obtain ⟨plain, equal⟩ := (bySuffix_unnumbered (List.mem_cons_of_mem _ List.mem_cons_self)
          _ _).mp accepted
        cases equal
        exact .ldb front nonempty plain
      · obtain ⟨rfl, first, behind, rfl, plain, begins⟩ :=
          (bySuffix_numbered (show (log, FileType.kLogFile) ∈ numbered by decide) _ _ _).mp accepted
        exact .log first behind number plain begins
      · obtain ⟨rfl, first, behind, rfl, plain, begins⟩ :=
          (bySuffix_numbered (show (sst, FileType.kTableFile) ∈ numbered by decide) _ _ _).mp accepted
        exact .sst first behind number plain begins
      · obtain ⟨rfl, first, behind, rfl, plain, begins⟩ :=
          (bySuffix_numbered (show (dbtmp, FileType.kTempFile) ∈ numbered by decide) _ _ _).mp accepted
        exact .dbtmp first behind number plain begins
  · have inner : ∀ first behind : Bytes, first ++ dot :: behind ≠ [] := fun first behind =>
      List.append_ne_nil_of_right_ne_nil _ (List.cons_ne_nil _ _)
    have spelled : ∀ suffix ∈ known, ∀ front : Bytes, front ≠ [] →
        ParseFileName dbpath (front ++ dot :: suffix) = bySuffix (front ++ dot :: suffix) suffix :=
      fun suffix listed front nonempty => ParseFileName_append _ _ _ nonempty
        (plain_known suffix listed).1 (plain_known suffix listed).2
    intro named
    cases named with
    | current front nonempty => exact spelled current (by decide) front nonempty
    | lock front nonempty => exact spelled lock (by decide) front nonempty
    | lg front nonempty => exact spelled lg (by decide) front nonempty
    | oldlg front nonempty => exact spelled oldlg (by decide) front nonempty
    | manifest front nonempty plain =>
      exact (spelled manifest (by decide) front nonempty).trans
        ((bySuffix_unnumbered (by decide) _ _).mpr ⟨plain, rfl⟩)
    | ldb front nonempty plain =>
      exact (spelled ldb (by decide) front nonempty).trans
        ((bySuffix_unnumbered (by decide) _ _).mpr ⟨plain, rfl⟩)
    | log first behind number plain begins =>
      exact (spelled log (by decide) _ (inner first behind)).trans
        ((bySuffix_numbered (by decide) _ _ _).mpr ⟨rfl, first, behind, rfl, plain, begins⟩)
    | sst first behind number plain begins =>
      exact (spelled sst (by decide) _ (inner first behind)).trans
        ((bySuffix_numbered (by decide) _ _ _).mpr ⟨rfl, first, behind, rfl, plain, begins⟩)
    | dbtmp first behind number plain begins =>
      exact (spelled dbtmp (by decide) _ (inner first behind)).trans
        ((bySuffix_numbered (by decide) _ _ _).mpr ⟨rfl, first, behind, rfl, plain, begins⟩)

/-! ### Kinds of files -/

inductive Kind where
  | log
  | table
  | descriptor
  | lock
  | current
  | temp
  | infoLog
deriving DecidableEq, Repr

namespace Kind

/-- The name that the function of the kind makes. -/
def fileName (kind : Kind) (dbpath dbname : Bytes) (number : BitVec 64) : Except Fault Bytes :=
  match kind with
  | log => LogFileName dbpath dbname number
  | table => .ok (TableFileName dbpath dbname number)
  | descriptor => .ok (DescriptorFileName dbpath dbname number)
  | lock => .ok (LockFileName dbpath dbname)
  | current => .ok (CurrentFileName dbpath dbname)
  | temp => TempFileName dbpath dbname number
  | infoLog => .ok (InfoLogFileName dbpath dbname)

/-- The file type that matches the kind. -/
def type : Kind → FileType
  | log => .kLogFile
  | table => .kTableFile
  | descriptor => .kDescriptorFile
  | lock => .kDBLockFile
  | current => .kCurrentFile
  | temp => .kTempFile
  | infoLog => .kInfoLogFile

/-- The number is to come back. -/
def hasNumber : Kind → Bool
  | log | table | temp => true
  | _ => false

end Kind

theorem cstr_of_not_mem {text : Bytes} (plain : 0 ∉ text) : cstr text = text := by
  rw [cstr, List.takeWhile_eq_self_iff]
  intro byte member
  exact decide_eq_true fun zero => plain (zero ▸ member)

/-- The last component of a path. -/
def baseName (path : Bytes) : Bytes :=
  match find_last_of slash path with
  | none => path
  | some lastSep => path.drop (lastSep + 1)

/-- A base name is read as a file of the kind with the number. -/
def ReadAs (kind : Kind) (number : BitVec 64) (dbpath base : Bytes) : Prop :=
  ∃ parsed, ParseFileName dbpath base = some (parsed, kind.type) ∧
    (kind.hasNumber = true → parsed = number.toNat)

/-- The base name of the file is read as a file of the kind, with its number where it has one. -/
def ParsesBack (kind : Kind) (dbpath dbname : Bytes) (number : BitVec 64) : Prop :=
  ∃ fname, kind.fileName dbpath dbname number = .ok fname ∧
    ReadAs kind number dbpath (baseName fname)

namespace Kind

/-- What a name has behind the path and the name of the database. -/
def extension (kind : Kind) (number : BitVec 64) : Bytes :=
  match kind with
  | log => dot :: digits number ++ dot :: Filename.log
  | table =>
    if number.toNat = FILENUMBER_LDB then dot :: ldb else dot :: digits number ++ dot :: ldb
  | descriptor => dot :: manifest
  | lock => dot :: Filename.lock
  | current => dot :: Filename.current
  | temp => dot :: digits number ++ dot :: dbtmp
  | infoLog => dot :: lg

/-- The numbers for which the function returns. -/
def Asserted (kind : Kind) (number : BitVec 64) : Prop :=
  match kind with
  | log | temp => 0 < number.toNat
  | _ => True

/-- What the last component of the path and the name has to be: not empty where no number follows;
without a dot where the parser asks for that, and where it looks for the number behind the first
dot, with that number there. -/
def Plain (kind : Kind) (number : BitVec 64) (stem : Bytes) : Prop :=
  match kind with
  | log | temp => dot ∈ stem → Begins (stem.drop (behindFirstDot stem)) number.toNat
  | table => number.toNat = FILENUMBER_LDB ∧ stem ≠ [] ∧ dot ∉ stem
  | descriptor => stem ≠ [] ∧ dot ∉ stem
  | _ => stem ≠ []

end Kind

/-- The path and the name of a database, as they are printed. -/
def printedPath (dbpath dbname : Bytes) : Bytes := cstr dbpath ++ cstr dbname

/-- The names that come back: those that fit into the buffer and have a plain last component, and
those where the cut falls into the path and the name, and leaves such a file's name. -/
def Readable (kind : Kind) (dbpath dbname : Bytes) (number : BitVec 64) : Prop :=
  kind.Asserted number ∧
    if (printedPath dbpath dbname ++ kind.extension number).length ≤ 1023 then
      kind.Plain number (baseName (printedPath dbpath dbname))
    else 1023 ≤ (printedPath dbpath dbname).length ∧
      ∃ parsed, FileName (baseName ((printedPath dbpath dbname).take 1023)) parsed kind.type ∧
        (kind.hasNumber = true → parsed = number.toNat)

theorem MakeNumberedFileName_eq (dbpath dbname : Bytes) (number : BitVec 64) (suffix : Bytes) :
    MakeNumberedFileName dbpath dbname number suffix =
      printed (printedPath dbpath dbname ++ (dot :: digits number ++ dot :: suffix)) := by
  rw [MakeNumberedFileName, printedPath, List.append_assoc]

theorem fileName_eq (kind : Kind) (dbpath dbname : Bytes) (number : BitVec 64)
    (asserted : kind.Asserted number) :
    kind.fileName dbpath dbname number =
      .ok (printed (printedPath dbpath dbname ++ kind.extension number)) := by
  cases kind with
  | log =>
    rw [Kind.fileName, LogFileName, if_pos (show number.toNat > 0 from asserted), MakeNumberedFileName_eq]
    rfl
  | temp =>
    rw [Kind.fileName, TempFileName, if_pos (show number.toNat > 0 from asserted), MakeNumberedFileName_eq]
    rfl
  | table =>
    rw [Kind.fileName, TableFileName, Kind.extension]
    split
    · rfl
    · rw [MakeNumberedFileName_eq]
  | descriptor => rfl
  | lock => rfl
  | current => rfl
  | infoLog => rfl

theorem asserted_of_fileName {kind : Kind} {dbpath dbname fname : Bytes} {number : BitVec 64}
    (returned : kind.fileName dbpath dbname number = .ok fname) : kind.Asserted number := by
  cases kind with
  | log =>
    by_contra failed
    cases (if_neg failed).symm.trans returned
  | temp =>
    by_contra failed
    cases (if_neg failed).symm.trans returned
  | table => exact trivial
  | descriptor => exact trivial
  | lock => exact trivial
  | current => exact trivial
  | infoLog => exact trivial

theorem baseName_append (path extension : Bytes) (last : slash ∉ extension) :
    baseName (path ++ extension) = baseName path ++ extension := by
  unfold baseName
  cases found : find_last_of slash path with
  | none =>
    have absent := (find_last_of_eq_none_iff slash path).mp found
    rw [(find_last_of_eq_none_iff slash (path ++ extension)).mpr
      fun listed => (List.mem_append.mp listed).elim absent last]
  | some lastSep =>
    obtain ⟨front, back, rfl, plain, rfl⟩ := find_last_of_eq_some found
    rw [List.append_assoc, List.cons_append, find_last_of_append slash front (back ++ extension)
      fun listed => (List.mem_append.mp listed).elim plain last]
    dsimp only
    rw [← List.cons_append, ← List.append_assoc, List.drop_append_of_le_length
      (by rw [List.length_append, List.length_cons]; omega)]

theorem isDigit_digits {number : BitVec 64} {c : UInt8} (listed : c ∈ digits number) :
    isDigit c = true := by
  obtain ⟨digit, member, rfl⟩ := List.mem_map.mp listed
  exact isDigit_char (padded_lt member)

theorem dot_not_mem_digits (number : BitVec 64) : dot ∉ digits number := fun listed =>
  absurd (isDigit_digits listed) (by decide)

theorem extension_eq (kind : Kind) (number : BitVec 64) :
    ∃ suffix ∈ known, kind.extension number = dot :: suffix ∨
      kind.extension number = dot :: digits number ++ dot :: suffix := by
  cases kind with
  | log => exact ⟨log, by decide, .inr rfl⟩
  | table =>
    rw [Kind.extension]
    split
    · exact ⟨ldb, by decide, .inl rfl⟩
    · exact ⟨ldb, by decide, .inr rfl⟩
  | descriptor => exact ⟨manifest, by decide, .inl rfl⟩
  | lock => exact ⟨lock, by decide, .inl rfl⟩
  | current => exact ⟨current, by decide, .inl rfl⟩
  | temp => exact ⟨dbtmp, by decide, .inr rfl⟩
  | infoLog => exact ⟨lg, by decide, .inl rfl⟩

/-- What no suffix has, and no number. -/
theorem not_mem_extension {byte : UInt8} (plain : ∀ suffix ∈ known, byte ∉ dot :: suffix)
    (letter : isDigit byte = false) (kind : Kind) (number : BitVec 64) :
    byte ∉ kind.extension number := by
  obtain ⟨suffix, listed, equal | equal⟩ := extension_eq kind number
  · rw [equal]
    exact plain suffix listed
  · rw [equal, List.cons_append, List.mem_cons, List.mem_append]
    rintro (first | inner | last)
    · exact plain suffix listed (first ▸ List.mem_cons_self)
    · exact absurd (isDigit_digits inner) (by rw [letter]; decide)
    · exact plain suffix listed last

theorem slash_extension (kind : Kind) (number : BitVec 64) : slash ∉ kind.extension number :=
  not_mem_extension (by decide) (by decide) kind number

theorem zero_extension (kind : Kind) (number : BitVec 64) : 0 ∉ kind.extension number :=
  not_mem_extension (by decide) (by decide) kind number

/-! ### Names that are cut -/

/-- A name with another suffix is refused. -/
theorem ParseFileName_unknown (dbpath front suffix : Bytes) (last : dot ∉ suffix)
    (unknown : suffix ∉ known) : ParseFileName dbpath (front ++ dot :: suffix) = none := by
  rw [ParseFileName]
  cases found : GetFileSuffix (front ++ dot :: suffix) with
  | none => rfl
  | some other =>
    obtain ⟨start, _, _, otherLast, split⟩ := (GetFileSuffix_iff _ _).mp found
    have places := congrArg (find_last_of dot) split
    rw [find_last_of_append _ _ _ last, find_last_of_append _ _ _ otherLast] at places
    obtain ⟨_, tails⟩ := List.append_inj split (Option.some.inj places)
    obtain rfl := (List.cons.inj tails).2
    dsimp only
    cases parsed : bySuffix (front ++ dot :: suffix) suffix with
    | none => rfl
    | some result => exact absurd (known_of_bySuffix parsed) unknown

/-- No part of a suffix that is cut is a suffix. -/
theorem take_not_known : ∀ suffix ∈ known, ∀ count < suffix.length, suffix.take count ∉ known := by
  decide

theorem take_digits_not_known (number : BitVec 64) (count : Nat) :
    (digits number).take count ∉ known := by
  have letters : ∀ suffix ∈ known, suffix.head?.all (fun c => !isDigit c) = true := by decide
  intro listed
  have nonempty := (plain_known _ listed).1
  have letter := stops_of_all (letters _ listed)
  cases equal : (digits number).take count with
  | nil => exact nonempty equal
  | cons c rest =>
    have digit : c ∈ digits number := List.mem_of_mem_take (by rw [equal]; exact List.mem_cons_self)
    rw [equal] at letter
    exact absurd (isDigit_digits digit) (by rw [letter c rfl]; decide)

/-- A name that is cut behind its path and name is refused. -/
theorem ParseFileName_cut (dbpath stem : Bytes) (kind : Kind) (number : BitVec 64) (count : Nat)
    (positive : 0 < count) (cut : count < (kind.extension number).length) :
    ParseFileName dbpath (stem ++ (kind.extension number).take count) = none := by
  obtain ⟨left, rfl⟩ := Nat.exists_eq_succ_of_ne_zero (Nat.ne_of_gt positive)
  obtain ⟨suffix, listed, equal | equal⟩ := extension_eq kind number
  · rw [equal, List.length_cons] at cut
    rw [equal, List.take_succ_cons]
    exact ParseFileName_unknown dbpath stem _
      (fun inner => (plain_known suffix listed).2 (List.mem_of_mem_take inner))
      (take_not_known suffix listed left (Nat.lt_of_succ_lt_succ cut))
  · rw [equal, List.cons_append, List.length_cons, List.length_append, List.length_cons] at cut
    rw [equal, List.cons_append, List.take_succ_cons, List.take_append]
    by_cases inner : left ≤ (digits number).length
    · rw [Nat.sub_eq_zero_of_le inner, List.take_zero, List.append_nil]
      exact ParseFileName_unknown dbpath stem _
        (fun member => dot_not_mem_digits number (List.mem_of_mem_take member))
        (take_digits_not_known number left)
    · obtain ⟨behind, behindEq⟩ := Nat.exists_eq_add_of_lt (Nat.lt_of_not_le inner)
      have rest : left - (digits number).length = behind + 1 := by omega
      rw [List.take_of_length_le (Nat.le_of_not_le inner), rest, List.take_succ_cons,
        ← List.cons_append, ← List.append_assoc]
      exact ParseFileName_unknown dbpath _ _
        (fun member => (plain_known suffix listed).2 (List.mem_of_mem_take member))
        (take_not_known suffix listed behind (by omega))

/-! ### Names that fit -/

theorem ParseFileName_dot (dbpath suffix : Bytes) (last : dot ∉ suffix) :
    ParseFileName dbpath (dot :: suffix) = none := by
  rw [ParseFileName]
  cases found : GetFileSuffix (dot :: suffix) with
  | none => rfl
  | some other =>
    obtain ⟨front, nonempty, _, _, split⟩ := (GetFileSuffix_iff _ _).mp found
    cases front with
    | nil => exact absurd rfl nonempty
    | cons first front =>
      obtain ⟨_, equal⟩ := List.cons.inj split
      exact absurd (by rw [equal]; exact List.mem_append_right _ List.mem_cons_self) last

/-- A number comes back from behind the first dot, where the name in front of it is. -/
theorem written_iff (dbpath stem : Bytes) (number : BitVec 64) {suffix : Bytes} {kind : FileType}
    (listed : (suffix, kind) ∈ numbered) (member : suffix ∈ known) :
    ParseFileName dbpath (stem ++ (dot :: digits number ++ dot :: suffix)) =
        some (number.toNat, kind) ↔
      (dot ∈ stem → Begins (stem.drop (behindFirstDot stem)) number.toNat) := by
  have inner : dot ∈ stem ++ dot :: digits number :=
    List.mem_append_right _ List.mem_cons_self
  rw [← List.append_assoc, ParseFileName_append dbpath _ suffix (List.ne_nil_of_mem inner)
    (plain_known suffix member).1 (plain_known suffix member).2, bySuffix_numbered listed,
    and_iff_right rfl, exists_behind_iff _ inner]
  by_cases dotted : dot ∈ stem
  · rw [begins_behind_iff stem (digits number) dotted]
    exact ⟨fun begins _ => begins, fun begins => begins dotted⟩
  · rw [drop_behindFirstDot stem _ dotted]
    refine iff_of_true ⟨[], ?_⟩ fun listed => absurd listed dotted
    have read := ConsumeDecimalNumber_padded 6 number.toNat [] (by decide) number.isLt
      fun c first => by cases first
    rwa [List.append_nil] at read

/-- Without a number, a suffix that asks for a name without dots. -/
theorem unnumbered_iff (dbpath stem : Bytes) {suffix : Bytes} {kind parsed : Nat × FileType}
    (listed : (suffix, kind) ∈ unnumbered) (member : suffix ∈ known) :
    ParseFileName dbpath (stem ++ dot :: suffix) = some parsed ↔
      stem ≠ [] ∧ dot ∉ stem ∧ parsed = kind := by
  cases stem with
  | nil =>
    rw [List.nil_append, ParseFileName_dot _ _ (plain_known suffix member).2]
    exact iff_of_false (fun equal => by cases equal) fun plain => plain.1 rfl
  | cons first stem =>
    rw [ParseFileName_append _ _ _ (List.cons_ne_nil _ _) (plain_known suffix member).1
      (plain_known suffix member).2, bySuffix_unnumbered listed,
      and_iff_right (List.cons_ne_nil first stem)]

/-- Without a number, a suffix that asks for nothing. -/
theorem alone_iff (dbpath stem : Bytes) {suffix : Bytes} {kind parsed : Nat × FileType}
    (branch : ∀ fname, bySuffix fname suffix = some kind) (member : suffix ∈ known) :
    ParseFileName dbpath (stem ++ dot :: suffix) = some parsed ↔ stem ≠ [] ∧ parsed = kind := by
  cases stem with
  | nil =>
    rw [List.nil_append, ParseFileName_dot _ _ (plain_known suffix member).2]
    exact iff_of_false (fun equal => by cases equal) fun plain => plain.1 rfl
  | cons first stem =>
    rw [ParseFileName_append _ _ _ (List.cons_ne_nil _ _) (plain_known suffix member).1
      (plain_known suffix member).2, branch, and_iff_right (List.cons_ne_nil first stem),
      Option.some_inj, eq_comm]

theorem readAs_of_hasNumber (kind : Kind) (number : BitVec 64) (dbpath base : Bytes)
    (has : kind.hasNumber = true) :
    ReadAs kind number dbpath base ↔
      ParseFileName dbpath base = some (number.toNat, kind.type) := by
  constructor
  · rintro ⟨parsed, accepted, same⟩
    rw [accepted, same has]
  · exact fun accepted => ⟨number.toNat, accepted, fun _ => rfl⟩

theorem readAs_of_not_hasNumber (kind : Kind) (number : BitVec 64) (dbpath base : Bytes)
    (hasNot : kind.hasNumber = false) {holds : Prop} (expected : Nat)
    (accepted_iff : ∀ parsed, ParseFileName dbpath base = some parsed ↔
      holds ∧ parsed = (expected, kind.type)) : ReadAs kind number dbpath base ↔ holds := by
  constructor
  · rintro ⟨parsed, accepted, _⟩
    exact ((accepted_iff _).mp accepted).1
  · intro held
    exact ⟨expected, (accepted_iff _).mpr ⟨held, rfl⟩, fun has => by rw [hasNot] at has; cases has⟩

theorem plain_iff (kind : Kind) (number : BitVec 64) (dbpath stem : Bytes) :
    ReadAs kind number dbpath (stem ++ kind.extension number) ↔ kind.Plain number stem := by
  cases kind with
  | log =>
    rw [readAs_of_hasNumber _ _ _ _ rfl]
    exact written_iff dbpath stem number (show (log, FileType.kLogFile) ∈ numbered by decide)
      (by decide)
  | temp =>
    rw [readAs_of_hasNumber _ _ _ _ rfl]
    exact written_iff dbpath stem number (show (dbtmp, FileType.kTempFile) ∈ numbered by decide)
      (by decide)
  | table =>
    rw [readAs_of_hasNumber _ _ _ _ rfl, Kind.extension, Kind.Plain]
    have ldbListed : (ldb, FILENUMBER_LDB, FileType.kTableFile) ∈ unnumbered := by decide
    split
    · rename_i zero
      rw [unnumbered_iff dbpath stem ldbListed (by decide), zero]
      exact ⟨fun ⟨nonempty, plain, _⟩ => ⟨rfl, nonempty, plain⟩,
        fun ⟨_, nonempty, plain⟩ => ⟨nonempty, plain, rfl⟩⟩
    · rename_i other
      rw [← List.append_assoc, unnumbered_iff dbpath _ ldbListed (by decide)]
      refine iff_of_false (fun plain => plain.2.1 ?_) fun zero => other zero.1
      exact List.mem_append_right _ List.mem_cons_self
  | descriptor =>
    refine readAs_of_not_hasNumber _ _ _ _ rfl FILENUMBER_MANIFEST fun parsed => ?_
    rw [Kind.Plain, and_assoc]
    exact unnumbered_iff dbpath stem
      (show (manifest, FILENUMBER_MANIFEST, FileType.kDescriptorFile) ∈ unnumbered by decide)
      (by decide)
  | lock =>
    exact readAs_of_not_hasNumber _ _ _ _ rfl 0 fun parsed =>
      alone_iff dbpath stem (fun fname => rfl) (by decide)
  | current =>
    exact readAs_of_not_hasNumber _ _ _ _ rfl 0 fun parsed =>
      alone_iff dbpath stem (fun fname => rfl) (by decide)
  | infoLog =>
    exact readAs_of_not_hasNumber _ _ _ _ rfl 0 fun parsed =>
      alone_iff dbpath stem (fun fname => rfl) (by decide)

/-- The base name of a file is read as what was written exactly for the readable names. -/
theorem parses_back_iff (kind : Kind) (dbpath dbname : Bytes) (number : BitVec 64) :
    ParsesBack kind dbpath dbname number ↔ Readable kind dbpath dbname number := by
  by_cases asserted : kind.Asserted number
  · have single : ParsesBack kind dbpath dbname number ↔ ReadAs kind number dbpath
        (baseName (printed (printedPath dbpath dbname ++ kind.extension number))) := by
      rw [ParsesBack, fileName_eq kind dbpath dbname number asserted]
      exact ⟨fun ⟨fname, equal, read⟩ => Except.ok.inj equal ▸ read, fun read => ⟨_, rfl, read⟩⟩
    rw [single, Readable, and_iff_right asserted, printed]
    split
    · rename_i fits
      rw [List.take_of_length_le fits, baseName_append _ _ (slash_extension kind number), plain_iff]
    · rename_i cut
      by_cases long : 1023 ≤ (printedPath dbpath dbname).length
      · rw [List.take_append_of_le_length long, and_iff_right long, ReadAs]
        simp only [ParseFileName_iff]
      · have length := Nat.lt_of_not_le long
        rw [List.length_append] at cut
        rw [List.take_append, List.take_of_length_le (Nat.le_of_lt length),
          baseName_append _ _ fun listed =>
            slash_extension kind number (List.mem_of_mem_take listed)]
        refine iff_of_false ?_ fun readable => long readable.1
        rintro ⟨parsed, accepted, _⟩
        rw [ParseFileName_cut _ _ kind number _ (by omega) (by omega)] at accepted
        cases accepted
  · refine iff_of_false ?_ fun readable => asserted readable.1
    rintro ⟨fname, returned, _⟩
    exact asserted (asserted_of_fileName returned)

/-- The table 5 of `map` does not come back, and neither does the log 5 of `a.b`. -/
theorem table_not_parsed :
    TableFileName [] [109, 97, 112] 5#64 =
        [109, 97, 112, 46, 48, 48, 48, 48, 48, 53, 46, 108, 100, 98] ∧
      ¬ ParsesBack .table [] [109, 97, 112] 5#64 ∧ ¬ ParsesBack .log [] [97, 46, 98] 5#64 := by
  refine ⟨by decide, ?_, ?_⟩
  · rintro ⟨fname, returned, parsed, accepted, _⟩
    cases returned
    exact absurd accepted (by rw [show ParseFileName [] _ = none by decide]; nofun)
  · rintro ⟨fname, returned, parsed, accepted, _⟩
    cases returned
    exact absurd accepted (by rw [show ParseFileName [] _ = none by decide]; nofun)

end Filename

end LevelDBLib.Navi
