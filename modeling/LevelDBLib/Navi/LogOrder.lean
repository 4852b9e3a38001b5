/-
This file compares the order in which `Recover` replays the logs of a database, that of their
names, with the order of their numbers. A number has at least six digits, with zeros in front; of
two numbers with more digits the longer one comes first unless its first digits say at least the
shorter one. A name begins with that of the database, so the logs of another database whose name
is longer stand in between, or behind.
-/

import LevelDBLib.Navi.Recovery

namespace LevelDBLib.Navi

open KvDB Decimals PathParser Logging Filename Paths Replays

namespace DBImpl

/-! ### Logs and their files -/

/-- The name under which the directory lists a log of the database. -/
def logName (db : DBImpl) (number : BitVec 64) : Bytes :=
  db.dbname_ ++ Kind.log.extension number

/-- The file of a log of the database. -/
def logFile (db : DBImpl) (number : BitVec 64) : Bytes :=
  Disk.place (MakeNumberedFileName db.dbpath_ db.dbname_ number log)

/-- The file that `RecoverLogFile` opens. -/
def opened (db : DBImpl) (log_name : Bytes) : Bytes :=
  Disk.place (db.dbpath_ ++ slash :: log_name)

/-- Whatever becomes of the single logs: those of the database are replayed in this order, up to the
first failure, and the last of them, and no other file, is treated as the last log. -/
def InOrder (db : DBImpl) (env : LockingEnv) (order : List (BitVec 64)) : Prop :=
  ∀ RecoverLogFile,
    taken db.opened (order.map db.logFile) (db.Recover RecoverLogFile env).replayed <+:
        marked (order.map db.logFile) ∧
      ((db.Recover RecoverLogFile env).status.ok = true →
        taken db.opened (order.map db.logFile) (db.Recover RecoverLogFile env).replayed =
          marked (order.map db.logFile))

/-- A recovery that comes to the logs, of a database without a dot in its name. The names in a
directory differ, and have no zero byte; the directory is no file. `order` are the logs of the
database that are there and newer, with their numbers increasing. -/
structure Found (db : DBImpl) (env : LockingEnv) (versions : VersionSet) (after : LockingEnv)
    (filenames : List Bytes) (order : List (BitVec 64)) : Prop where
  dots : dot ∉ db.dbname_
  prepared : db.prepare env = (.ok versions, after)
  listing : db.children after = some filenames
  expected : (db.collect versions filenames).1 = ∅
  once : filenames.Nodup
  bytes : ∀ filename ∈ filenames, 0 ∉ filename
  directory : Disk.place db.dbpath_ ∉ after.disk.files
  increasing : order.Pairwise fun first second => first.toNat < second.toNat
  complete : ∀ number, number ∈ order ↔
    db.logFile number ∈ after.disk.files ∧ versions.newer number.toNat = true

/-- How many digits a number has in a name. -/
def width (number : BitVec 64) : Nat := (digits number).length

/-- The log is found again where it was created. -/
structure Reached (db : DBImpl) (number : BitVec 64) : Prop where
  listable : db.Listable
  fits : (db.dbpath_ ++ db.dbname_ ++ Kind.log.extension number).length ≤ 1023

/-- Every log is found again; of two of them the longer number says in its first digits at least the
shorter one; and every other log that is listed comes before one of them. -/
structure Sorts (db : DBImpl) (versions : VersionSet) (filenames : List Bytes)
    (order : List (BitVec 64)) : Prop where
  reached : ∀ number ∈ order, db.Reached number
  widths : order.Pairwise fun first second =>
    first.toNat ≤ second.toNat / 10 ^ (width second - width first)
  others : ∀ filename ∈ filenames, db.isLog versions filename = true →
    db.opened filename ∉ order.map db.logFile → ∃ number ∈ order, filename < db.logName number

/-! ### Names of logs -/

theorem length_padded_digits (number : BitVec 64) : (padded 6 number.toNat).length = width number :=
  (List.length_map _).symm

theorem width_mono {first second : BitVec 64} (less : first.toNat ≤ second.toNat) :
    width first ≤ width second := by
  rw [← length_padded_digits, ← length_padded_digits]
  exact length_padded_mono 6 less

theorem ordered_char : Ordered char := by
  refine ⟨fun first small second small' => ?_, fun first small second small' => ?_⟩
  · rw [UInt8.lt_iff_toNat_lt, toNat_char small, toNat_char small', Nat.add_lt_add_iff_left]
  · rw [← UInt8.toNat_inj, toNat_char small, toNat_char small', Nat.add_right_inj]

theorem append_lt_iff (front first second : Bytes) :
    front ++ first < front ++ second ↔ first < second := by
  induction front with
  | nil => exact Iff.rfl
  | cons byte front hypothesis =>
    rw [List.cons_append, List.cons_append, List.cons_lt_cons_iff, hypothesis]
    exact or_iff_right (UInt8.lt_irrefl byte) |>.trans (and_iff_right rfl)

/-- The text of the number and the suffix decides. -/
theorem logName_lt_iff (db : DBImpl) (first second : BitVec 64) :
    db.logName first < db.logName second ↔
      digits first ++ dot :: log < digits second ++ dot :: log := by
  rw [logName, logName, append_lt_iff]
  exact append_lt_iff [dot] _ _

theorem logName_injective (db : DBImpl) {first second : BitVec 64}
    (equal : db.logName first = db.logName second) : first = second := by
  have texts : digits first ++ dot :: log = digits second ++ dot :: log :=
    (List.cons.inj (List.append_cancel_left equal)).2
  have words := congrArg ConsumeDecimalNumber texts
  have read : ∀ number : BitVec 64, ConsumeDecimalNumber (digits number ++ dot :: log) =
      some (number.toNat, dot :: log) := fun number =>
    ConsumeDecimalNumber_padded 6 number.toNat _ (by decide) number.isLt (stops_dot log)
  rw [read first, read second, Option.some_inj] at words
  exact BitVec.eq_of_toNat_eq (congrArg Prod.fst words)

/-- A smaller number has the smaller name exactly when the first digits of the other one, as many as
it has itself, say at least it. -/
theorem logName_lt_iff_widths (db : DBImpl) {first second : BitVec 64}
    (less : first.toNat < second.toNat) :
    db.logName first < db.logName second ↔
      first.toNat ≤ second.toNat / 10 ^ (width second - width first) := by
  have small : ∀ number : BitVec 64, ∀ digit ∈ padded 6 number.toNat, digit < 10 :=
    fun number digit listed => padded_lt listed
  rcases Nat.lt_or_eq_of_le (width_mono (Nat.le_of_lt less)) with shorter | same
  · have before : ∀ digit < 10, ¬ char digit < dot ∧ char digit ≠ dot := by decide
    have behind := text_stop_lt_iff ordered_char before (padded 6 first.toNat) (padded 6 second.toNat)
      (by rwa [length_padded_digits, length_padded_digits]) (small first) (small second) log log
    rw [value_padded, value_padded, length_padded_digits, length_padded_digits] at behind
    have apart : db.logName first ≠ db.logName second := fun equal =>
      absurd less (by rw [logName_injective db equal]; exact Nat.lt_irrefl _)
    rw [← Nat.not_lt, ← behind]
    show _ ↔ ¬ digits second ++ dot :: log < digits first ++ dot :: log
    rw [← logName_lt_iff db second first, List.not_lt, List.le_iff_lt_or_eq]
    exact (or_iff_left apart).symm
  · have lengths : (padded 6 first.toNat).length = (padded 6 second.toNat).length := by
      rw [length_padded_digits, length_padded_digits, same]
    have texts := text_lt_iff ordered_char (padded 6 first.toNat) (padded 6 second.toNat) lengths
      (small first) (small second) (dot :: log) (dot :: log)
    rw [value_padded, value_padded] at texts
    rw [same, Nat.sub_self, Nat.pow_zero, Nat.div_one, logName_lt_iff]
    exact iff_of_true (texts.mpr (.inl less)) (Nat.le_of_lt less)

/-! ### Logs that are found again -/

variable {db : DBImpl} {env after : LockingEnv} {versions : VersionSet} {filenames : List Bytes}
  {order : List (BitVec 64)} {number : BitVec 64} {name : Bytes}

/-- The log is read as what it is. -/
theorem ParseFileName_logName (dots : dot ∉ db.dbname_) (number : BitVec 64) :
    ParseFileName db.dbpath_ (db.logName number) = some (number.toNat, .kLogFile) :=
  (written_iff db.dbpath_ db.dbname_ number (show (log, FileType.kLogFile) ∈ numbered by decide)
    (by decide)).mpr fun dotted => absurd dotted dots

theorem logFile_eq (db : DBImpl) (number : BitVec 64) :
    db.logFile number =
      Disk.place (printed (printedPath db.dbpath_ db.dbname_ ++ Kind.log.extension number)) := by
  rw [logFile, MakeNumberedFileName_eq]
  rfl

theorem Reached.logFile_eq (reached : db.Reached number) :
    db.logFile number = squeeze db.dbpath_ ++ db.logName number := by
  rw [DBImpl.logFile_eq, reached.listable.place_eq reached.fits (zero_extension .log number)
    (slash_extension .log number), logName]

/-- The file that a child is opened as. -/
theorem opened_eq (path : 0 ∉ db.dbpath_) (bytes : 0 ∉ name) (plain : slash ∉ name) :
    db.opened name = squeeze (db.dbpath_ ++ [slash]) ++ name := by
  have whole : db.dbpath_ ++ slash :: name = db.dbpath_ ++ [slash] ++ name := by
    rw [List.append_assoc, List.singleton_append]
  rw [opened, whole]
  refine Disk.place_append (fun zero => ?_) bytes plain
  exact (List.mem_append.mp zero).elim path (by decide)

/-- A log that is found again is opened where it was created. -/
theorem Reached.opened_eq (reached : db.Reached number) :
    db.opened (db.logName number) = db.logFile number := by
  have bytes : 0 ∉ db.logName number := fun zero =>
    (List.mem_append.mp zero).elim reached.listable.name (zero_extension .log number)
  have plain : slash ∉ db.logName number := fun inner =>
    (List.mem_append.mp inner).elim reached.listable.slashes (slash_extension .log number)
  rw [reached.logFile_eq, DBImpl.opened_eq reached.listable.path bytes plain,
    squeeze_ends _ reached.listable.ends]

/-- Such a log is among those that are replayed. -/
theorem Reached.listed (reached : db.Reached number) (dots : dot ∉ db.dbname_)
    (listing : db.children after = some filenames) (here : db.logFile number ∈ after.disk.files)
    (newer : versions.newer number.toNat = true) :
    db.logName number ∈ filenames.filter (db.isLog versions) := by
  rw [DBImpl.logFile_eq] at here
  refine List.mem_filter.mpr ⟨reached.listable.mem_children listing reached.fits (List.cons_ne_nil _ _)
    (zero_extension .log number) (slash_extension .log number) (.inl here), ?_⟩
  rw [isLog, ParseFileName_logName dots]
  exact newer

/-! ### Logs that are opened -/

/-- What begins with the name as `strncmp` sees it. -/
theorem prefix_of_listed {dbname entry : Bytes} (same : listed dbname entry = true)
    (bytes : 0 ∉ entry) : 0 ∉ dbname ∧ dbname <+: entry ∨ entry = cstr dbname := by
  induction dbname generalizing entry with
  | nil => exact .inl ⟨List.not_mem_nil, List.nil_prefix⟩
  | cons c dbname hypothesis =>
    cases entry with
    | nil =>
      have zero : c = 0 := of_decide_eq_true same
      rw [zero]
      exact .inr rfl
    | cons first entry =>
      rw [listed, Bool.and_eq_true, decide_eq_true_eq] at same
      obtain ⟨rfl, rest⟩ := same
      obtain ⟨other, others⟩ := not_or.mp (mt List.mem_cons.mpr bytes)
      rcases hypothesis rest others with ⟨plain, begins⟩ | equal
      · refine .inl ⟨fun zero => (List.mem_cons.mp zero).elim other plain, ?_⟩
        exact (List.prefix_cons_inj c).mpr begins
      · have nonzero : c ≠ 0 := fun zero => other zero.symm
        rw [equal, cstr, cstr, List.takeWhile_cons, if_pos (decide_eq_true nonzero)]
        exact .inr rfl

theorem dot_of_parsed {dbpath fname : Bytes} {parsed : Nat × FileType}
    (accepted : ParseFileName dbpath fname = some parsed) : dot ∈ fname := by
  rw [ParseFileName] at accepted
  split at accepted
  · cases accepted
  · rename_i suffix found
    obtain ⟨front, _, _, _, rfl⟩ := (GetFileSuffix_iff _ _).mp found
    exact List.mem_append_right _ List.mem_cons_self

/-- A child that is read begins with the name of the database, which has no zero byte. -/
theorem prefix_of_parsed {dbname entry dbpath : Bytes} {parsed : Nat × FileType}
    (dots : dot ∉ dbname) (same : listed dbname entry = true) (bytes : 0 ∉ entry)
    (accepted : ParseFileName dbpath entry = some parsed) : 0 ∉ dbname ∧ dbname <+: entry := by
  refine (prefix_of_listed same bytes).resolve_right fun equal => ?_
  have dotted := dot_of_parsed accepted
  rw [equal] at dotted
  exact dots ((List.takeWhile_sublist _).subset dotted)

/-- A name that is cut is not read as a log. -/
theorem not_cut {count : Nat} {parsed : Nat × FileType} (dots : dot ∉ db.dbname_)
    (accepted : ParseFileName db.dbpath_ ((db.logName number).take count) = some parsed) :
    (db.logName number).length ≤ count := by
  by_contra cut
  rw [logName, List.take_append] at accepted
  rw [logName, List.length_append] at cut
  by_cases inner : count ≤ db.dbname_.length
  · rw [Nat.sub_eq_zero_of_le inner, List.take_zero, List.append_nil] at accepted
    exact dots (List.mem_of_mem_take (dot_of_parsed accepted))
  · rw [List.take_of_length_le (Nat.le_of_not_le inner), ParseFileName_cut _ _ .log number _
      (Nat.sub_pos_of_lt (Nat.lt_of_not_le inner)) (by omega)] at accepted
    cases accepted

/-- The file of a log, where the name of the database has neither a zero byte nor a slash. -/
theorem logFile_eq_take (name : 0 ∉ db.dbname_) (slashes : slash ∉ db.dbname_) :
    db.logFile number = squeeze ((cstr db.dbpath_).take 1023) ++
      (db.logName number).take (1023 - (cstr db.dbpath_).length) := by
  have whole : printed (printedPath db.dbpath_ db.dbname_ ++ Kind.log.extension number) =
      (cstr db.dbpath_).take 1023 ++ (db.logName number).take (1023 - (cstr db.dbpath_).length) := by
    rw [printed, printedPath, cstr_of_not_mem name, List.append_assoc, List.take_append, logName]
  rw [DBImpl.logFile_eq, whole]
  refine Disk.place_append (fun zero => ?_) (fun zero => ?_) fun inner => ?_
  · exact absurd (List.mem_takeWhile_imp (List.mem_of_mem_take zero)) (by decide)
  · exact (List.mem_append.mp (List.mem_of_mem_take zero)).elim name (zero_extension .log number)
  · exact (List.mem_append.mp (List.mem_of_mem_take inner)).elim slashes (slash_extension .log number)

theorem opened_of_zero (path : 0 ∈ db.dbpath_) : db.opened name = Disk.place db.dbpath_ := by
  obtain ⟨front, back, equal, plain⟩ := List.eq_append_cons_of_mem path
  have nonzero : ∀ byte ∈ front, decide (byte ≠ 0) = true :=
    fun byte member => decide_eq_true fun zero => plain (zero ▸ member)
  have first : ∀ rest : Bytes, cstr (front ++ 0 :: rest) = front := by
    intro rest
    rw [cstr, List.takeWhile_append_of_pos nonzero]
    exact List.append_nil front
  rw [opened, Disk.place, Disk.place, equal, List.append_assoc, List.cons_append, first, first]

/-- A child that is read as a log, and is the file of one, is that log, and found again. -/
theorem Found.reached (found : db.Found env versions after filenames order)
    (listed : name ∈ filenames) {parsed : Nat × FileType}
    (accepted : ParseFileName db.dbpath_ name = some parsed)
    (here : db.logFile number ∈ after.disk.files) (same : db.opened name = db.logFile number) :
    db.Reached number ∧ name = db.logName number := by
  obtain ⟨entries, listing, rfl⟩ := Option.map_eq_some_iff.mp found.listing
  obtain ⟨entry, begins⟩ := List.mem_filter.mp listed
  have bytes := found.bytes name listed
  have plain := Disk.plain_of_readdir listing entry
  obtain ⟨nameBytes, starts⟩ := prefix_of_parsed found.dots begins bytes accepted
  have slashes : slash ∉ db.dbname_ := fun inner => plain (starts.subset inner)
  have path : 0 ∉ db.dbpath_ := by
    intro zero
    rw [opened_of_zero zero] at same
    exact found.directory (same ▸ here)
  have nonempty : name ≠ [] := List.ne_nil_of_mem (dot_of_parsed accepted)
  rw [opened_eq path bytes plain, logFile_eq_take nameBytes slashes, cstr_of_not_mem path] at same
  have short : db.dbpath_.length ≤ 1023 := by
    by_contra long
    -- all of the name would have to be among the slashes
    rw [Nat.sub_eq_zero_of_le (Nat.le_of_not_le long), List.take_zero, List.append_nil] at same
    have kept := congrArg (fun path => (path.filter fun byte => byte ≠ slash).length) same
    have all : name.filter (fun byte => byte ≠ slash) = name :=
      List.filter_eq_self.mpr fun byte member => decide_eq_true fun equal => plain (equal ▸ member)
    rw [List.filter_append, filter_squeeze, filter_squeeze, all, List.filter_append,
      List.length_append, List.length_append] at kept
    have less := ((List.take_sublist 1023 db.dbpath_).filter fun byte => byte ≠ slash).length_le
    have more := List.length_pos_iff.mpr nonempty
    omega
  rw [List.take_of_length_le short] at same
  have ends : db.dbpath_.getLast? = some slash := by
    by_contra last
    rw [squeeze_open _ last, List.append_assoc, List.append_cancel_left_eq] at same
    have inner : slash ∈ db.logName number :=
      List.mem_of_mem_take (same ▸ List.mem_append_left _ (List.mem_singleton.mpr rfl))
    exact (List.mem_append.mp inner).elim slashes (slash_extension .log number)
  rw [squeeze_ends _ ends, List.append_cancel_left_eq] at same
  have whole := not_cut found.dots (same ▸ accepted)
  rw [List.take_of_length_le whole] at same
  refine ⟨⟨⟨path, ends, nameBytes, slashes⟩, ?_⟩, same⟩
  rw [List.append_assoc, List.length_append]
  rw [logName] at whole
  omega

/-! ### The order -/

/-- The names of the logs, sorted. -/
def sorted (db : DBImpl) (versions : VersionSet) (filenames : List Bytes) : List Bytes :=
  (filenames.filter (db.isLog versions)).insertionSort fun first second => first ≤ second

theorem mem_sorted_iff : name ∈ db.sorted versions filenames ↔
    name ∈ filenames ∧ db.isLog versions name = true := by
  rw [sorted, List.mem_insertionSort, List.mem_filter]

theorem sorted_increasing (once : filenames.Nodup) :
    (db.sorted versions filenames).Pairwise fun first second => first < second := by
  have apart : (db.sorted versions filenames).Nodup :=
    (List.perm_insertionSort _ _).nodup_iff.mpr (once.filter _)
  have increasing := List.pairwise_insertionSort (fun first second : Bytes => first ≤ second)
    (filenames.filter (db.isLog versions))
  exact List.Pairwise.imp₂ (fun _ _ le ne => (List.le_iff_lt_or_eq.mp le).resolve_right ne)
    increasing apart

/-- Failures leave of a recovery what comes before them. -/
theorem Found.inOrder_iff_marked (found : db.Found env versions after filenames order) :
    db.InOrder env order ↔
      taken db.opened (order.map db.logFile) (marked (db.sorted versions filenames)) =
        marked (order.map db.logFile) := by
  have recovered : ∀ RecoverLogFile, db.Recover RecoverLogFile env =
      replay RecoverLogFile (db.sorted versions filenames) after := fun RecoverLogFile =>
    Recover_of_found RecoverLogFile found.prepared found.listing found.expected
  constructor
  · intro inOrder
    have success : (replay succeed (db.sorted versions filenames) after).status.ok = true := by
      rw [replay_ok fun _ _ _ => rfl]
      rfl
    have same := inOrder succeed
    rw [recovered succeed, (replay_marked succeed (db.sorted versions filenames) after).2 success]
      at same
    exact same.2 success
  · intro same RecoverLogFile
    obtain ⟨before, whole⟩ := replay_marked RecoverLogFile (db.sorted versions filenames) after
    rw [recovered RecoverLogFile]
    refine ⟨same ▸ taken_mono _ _ before, fun success => ?_⟩
    rw [whole success]
    exact same

theorem pairwise_logName_iff (db : DBImpl)
    (increasing : order.Pairwise fun first second => first.toNat < second.toNat) :
    (order.map db.logName).Pairwise (fun first second => first < second) ↔
      order.Pairwise fun first second =>
        first.toNat ≤ second.toNat / 10 ^ (width second - width first) := by
  rw [List.pairwise_map]
  exact ⟨List.Pairwise.imp₂ (fun _ _ less named => (logName_lt_iff_widths db less).mp named) increasing,
    List.Pairwise.imp₂ (fun _ _ less widths => (logName_lt_iff_widths db less).mpr widths) increasing⟩

/-- A recovery replays the logs in the order of their numbers exactly when their names sort so. -/
theorem inOrder_iff (db : DBImpl) (env : LockingEnv) (versions : VersionSet) (after : LockingEnv)
    (filenames : List Bytes) (order : List (BitVec 64))
    (found : db.Found env versions after filenames order) :
    db.InOrder env order ↔ db.Sorts versions filenames order := by
  have only : ∀ name ∈ db.sorted versions filenames, ∀ number ∈ order,
      db.opened name = db.logFile number → db.Reached number ∧ name = db.logName number := by
    intro name member number listed same
    obtain ⟨child, isLog⟩ := mem_sorted_iff.mp member
    obtain ⟨parsed, accepted, _⟩ := (Option.any_eq_true _ _).mp isLog
    exact found.reached child accepted ((found.complete number).mp listed).1 same
  have reached : ∀ number ∈ order, db.Reached number →
      db.logName number ∈ db.sorted versions filenames ∧
        db.opened (db.logName number) = db.logFile number := by
    intro number listed reached
    obtain ⟨here, newer⟩ := (found.complete number).mp listed
    obtain ⟨child, isLog⟩ := List.mem_filter.mp (reached.listed found.dots found.listing here newer)
    exact ⟨mem_sorted_iff.mpr ⟨child, isLog⟩, reached.opened_eq⟩
  rw [found.inOrder_iff_marked, taken_marked_iff (sorted_increasing found.once) only reached,
    pairwise_logName_iff db found.increasing]
  constructor
  · rintro ⟨all, widths, others⟩
    exact ⟨all, widths, fun name child isLog => others name (mem_sorted_iff.mpr ⟨child, isLog⟩)⟩
  · rintro ⟨all, widths, others⟩
    refine ⟨all, widths, fun name member => ?_⟩
    exact others name (mem_sorted_iff.mp member).1 (mem_sorted_iff.mp member).2

/-! ### A directory with logs -/

theorem width_le (number : BitVec 64) : width number ≤ 20 := by
  rw [← length_padded_digits, length_padded]
  refine Nat.max_le.mpr ⟨by decide, (Nat.digits_length_le_iff (by decide) _).mpr ?_⟩
  exact Nat.lt_of_lt_of_le number.isLt (by decide)

/-- The database `m` in `/d/`, whose descriptor lists no table. -/
def listsNothing : DBImpl :=
  ⟨false, false, [47, 100, 47], [109], .OK, fun _ => .ok ⟨[], 1, 0⟩⟩

/-- `/d/`, with the descriptor of `m` and these logs. -/
def withLogs (order : List (BitVec 64)) : LockingEnv :=
  ⟨⟨[[47, 100, 47]], listsNothing.descriptor :: order.map listsNothing.logFile⟩, ∅, fun _ => false,
    []⟩

/-- The children of `/d/`. -/
def listed (order : List (BitVec 64)) : List Bytes :=
  ([109, 46] ++ lock) :: ([109, 46] ++ manifest) :: order.map listsNothing.logName

theorem reached_listsNothing (number : BitVec 64) : listsNothing.Reached number := by
  refine ⟨⟨by decide, by decide, by decide, by decide⟩, ?_⟩
  have short := width_le number
  unfold width at short
  simp only [listsNothing, Kind.extension, log, List.length_append, List.length_cons, List.length_nil]
  omega

/-- The logs of `m` are those in the list. -/
theorem complete_withLogs {order : List (BitVec 64)} {files : List Bytes}
    (here : files = (listed order).map fun child => [47, 100, 47] ++ child)
    (positive : ∀ number ∈ order, 1 ≤ number.toNat) (number : BitVec 64) :
    number ∈ order ↔ listsNothing.logFile number ∈ files ∧
      VersionSet.newer ⟨[], 1, 0⟩ number.toNat = true := by
  have dots : dot ∉ listsNothing.dbname_ := by decide
  have file : listsNothing.logFile number = [47, 100, 47] ++ listsNothing.logName number :=
    (reached_listsNothing number).logFile_eq
  rw [here, file, List.mem_map_of_injective (List.append_right_injective [47, 100, 47]), DBImpl.listed,
    List.mem_cons, List.mem_cons, List.mem_map_of_injective fun _ _ => logName_injective _]
  constructor
  · exact fun member => ⟨.inr (.inr member), by
      rw [VersionSet.newer, Bool.or_eq_true]
      exact .inl (decide_eq_true (positive number member))⟩
  · rintro ⟨equal | equal | member, _⟩
    · have read := ParseFileName_logName dots number
      rw [equal, show ParseFileName _ _ = some (0, .kDBLockFile) by decide] at read
      cases congrArg Prod.snd (Option.some.inj read)
    · have read := ParseFileName_logName dots number
      rw [equal, show ParseFileName _ _ = some (1, .kDescriptorFile) by decide] at read
      cases congrArg Prod.snd (Option.some.inj read)
    · exact member

theorem found_two : listsNothing.Found (withLogs [2#64, 3#64]) ⟨[], 1, 0⟩
    (listsNothing.prepare (withLogs [2#64, 3#64])).2 (listed [2#64, 3#64]) [2#64, 3#64] where
  dots := by decide
  prepared := by rfl
  listing := by decide +kernel
  expected := by decide +kernel
  once := by decide +kernel
  bytes := by decide +kernel
  directory := by decide +kernel
  increasing := by decide
  complete := complete_withLogs (by decide +kernel) (by simp)

theorem inOrder_iff_two : listsNothing.InOrder (withLogs [2#64, 3#64]) [2#64, 3#64] ↔
    listsNothing.Sorts ⟨[], 1, 0⟩ (listed [2#64, 3#64]) [2#64, 3#64] :=
  inOrder_iff listsNothing (withLogs [2#64, 3#64]) ⟨[], 1, 0⟩
    (listsNothing.prepare (withLogs [2#64, 3#64])).2 (listed [2#64, 3#64]) [2#64, 3#64] found_two

theorem found_seven : listsNothing.Found (withLogs [999999#64, 1000000#64]) ⟨[], 1, 0⟩
    (listsNothing.prepare (withLogs [999999#64, 1000000#64])).2 (listed [999999#64, 1000000#64])
    [999999#64, 1000000#64] where
  dots := by decide
  prepared := by rfl
  listing := by decide +kernel
  expected := by decide +kernel
  once := by decide +kernel
  bytes := by decide +kernel
  directory := by decide +kernel
  increasing := by decide
  complete := complete_withLogs (by decide +kernel) (by simp)

/-- The log 1000000 is replayed before the log 999999, which is treated as the last one. -/
theorem not_inOrder :
    listsNothing.Found (withLogs [999999#64, 1000000#64]) ⟨[], 1, 0⟩
        (listsNothing.prepare (withLogs [999999#64, 1000000#64])).2 (listed [999999#64, 1000000#64])
        [999999#64, 1000000#64] ∧
      (listsNothing.Recover succeed (withLogs [999999#64, 1000000#64])).replayed =
        [(listsNothing.logName 1000000#64, false), (listsNothing.logName 999999#64, true)] ∧
      ¬ listsNothing.InOrder (withLogs [999999#64, 1000000#64]) [999999#64, 1000000#64] := by
  have replayed : (listsNothing.Recover succeed (withLogs [999999#64, 1000000#64])).replayed =
      [(listsNothing.logName 1000000#64, false), (listsNothing.logName 999999#64, true)] := by
    decide +kernel
  refine ⟨found_seven, replayed, fun inOrder => ?_⟩
  have before := (inOrder succeed).1
  rw [replayed] at before
  exact absurd before (by decide +kernel)

end DBImpl

end LevelDBLib.Navi
