/-
This file compares the paths under which a database creates its files with those under which it
takes them up again. A created path is the path of the database with a name behind it; a listed
child is put behind the path and one more slash, which is the same place. The descriptor that was
recovered is measured and reopened behind the path of the database, although its name has that
path already, and the repairer archives old descriptors behind the name of the database.
-/

import LevelDBLib.Navi.Filename

namespace LevelDBLib.Navi

open KvDB PathParser Logging Filename

namespace Paths

/-- The same path, up to repeated slashes. -/
def SamePath (first second : Bytes) : Prop := squeeze first = squeeze second

/-! ### Listing -/

/-- `strncmp(d_name, dbname.data(), dbname.length()) == 0`; the terminator of the entry differs from
every byte but zero. -/
def listed : Bytes → Bytes → Bool
  | [], _ => true
  | c :: _, [] => c = 0
  | c :: dbname, entry :: d_name => c = entry && listed dbname d_name

/-- `GetChildren` of the Posix build, on the entries of the directory. -/
def GetChildren (entries : List Bytes) (dbname : Bytes) : List Bytes :=
  entries.filter fun d_name => listed dbname d_name

/-- The file that was created under a path is this entry of the directory. -/
structure Entry (dbpath child created : Bytes) : Prop where
  plain : slash ∉ child
  place : SamePath created (dbpath ++ child)

/-! ### The descriptor that was recovered -/

/-- `kTargetFileSize`. -/
def kTargetFileSize : Nat := 2097152

/-- What `GetFileSize` and `NewAppendableFile` answer. -/
structure Env where
  GetFileSize : Bytes → Option Nat
  NewAppendableFile : Bytes → Bool

/-- `ReuseManifest`, with the paths that it hands to the environment. -/
def ReuseManifest (env : Env) (reuse_logs : Bool) (dbpath_ dscname : Bytes) : Bool × List Bytes :=
  if reuse_logs = false then (false, [])
  else
    match env.GetFileSize (dbpath_ ++ dscname) with
    | none => (false, [dbpath_ ++ dscname])
    | some manifest_size =>
      if manifest_size ≥ kTargetFileSize then (false, [dbpath_ ++ dscname])
      else (env.NewAppendableFile (dbpath_ ++ dscname), [dbpath_ ++ dscname, dbpath_ ++ dscname])

/-- What `VersionSet::Recover` reuses: the descriptor that it has read. -/
def reused (env : Env) (reuse_logs : Bool) (dbpath dbname : Bytes) : List Bytes :=
  (ReuseManifest env reuse_logs dbpath (DescriptorFileName dbpath dbname 1#64)).2

/-! ### Listed children -/

/-- What `DeleteObsoleteFiles` asks of the versions. -/
structure Versions where
  live : Nat → Bool
  LogNumber : Nat
  PrevLogNumber : Nat

def keep (versions : Versions) (number : Nat) : FileType → Bool
  | .kLogFile => number ≥ versions.LogNumber || number = versions.PrevLogNumber
  | .kDescriptorFile => number = 1
  | .kTempFile => versions.live number
  | .kTableFile | .kCurrentFile | .kDBLockFile | .kInfoLogFile => true

/-- The paths that `DeleteObsoleteFiles` deletes. -/
def DeleteObsoleteFiles (bg_error_ok : Bool) (versions : Versions) (dbpath_ : Bytes)
    (filenames : List Bytes) : List Bytes :=
  if bg_error_ok = false then []
  else (filenames.filter fun filename =>
    (ParseFileName dbpath_ filename).any fun parsed => !keep versions parsed.1 parsed.2).map
      fun filename => dbpath_ ++ slash :: filename

/-- The paths that `RecoverLogFile` opens: to read, and where the log is used again, to measure and
to append. -/
def RecoverLogFile (dbpath_ log_name : Bytes) (opened reuse : Bool) : List Bytes :=
  (dbpath_ ++ slash :: log_name) ::
    if opened && reuse then [dbpath_ ++ slash :: log_name, dbpath_ ++ slash :: log_name] else []

/-! ### Archiving -/

/-- `/lost`. -/
def lost : Bytes := [47, 108, 111, 115, 116]

/-- `ArchiveFile`: the two arguments of `RenameFile`. -/
def ArchiveFile (fname : Bytes) : Bytes × Bytes :=
  match find_last_of slash (cstr fname) with
  | none => (fname, lost ++ slash :: cstr fname)
  | some lastSep => (fname, fname.take lastSep ++ lost ++ slash :: (cstr fname).drop (lastSep + 1))

/-- The descriptors that `FindFiles` of the repairer collects. -/
def FindFiles (dbpath_ dbname_ : Bytes) (entries : List Bytes) : List Bytes :=
  (GetChildren entries dbname_).filter fun filename =>
    (ParseFileName dbpath_ filename).any fun parsed => parsed.2 = .kDescriptorFile

/-- What `WriteDescriptor` of the repairer archives. -/
def WriteDescriptor (dbname_ : Bytes) (manifests_ : List Bytes) : List (Bytes × Bytes) :=
  manifests_.map fun manifest => ArchiveFile (dbname_ ++ slash :: manifest)

/-! ### Agreement -/

/-- The descriptor is reused under the path it was created with. -/
def ReuseAgrees (dbpath dbname : Bytes) : Prop :=
  ∀ env reuse_logs, ∀ path ∈ reused env reuse_logs dbpath dbname,
    SamePath path (DescriptorFileName dbpath dbname 1#64)

/-- Listed children are deleted and recovered under the path they were created with. -/
def ChildrenAgree (dbpath dbname : Bytes) : Prop :=
  ∀ kind number created child entries, Kind.fileName kind dbpath dbname number = .ok created →
    Entry dbpath child created → child ∈ GetChildren entries dbname →
      (∀ bg_error_ok versions, ∀ path ∈ DeleteObsoleteFiles bg_error_ok versions dbpath [child],
        SamePath path created) ∧
      ∀ opened reuse, ∀ path ∈ RecoverLogFile dbpath child opened reuse, SamePath path created

/-- An old descriptor is archived from the path it was created with. -/
def ArchiveAgrees (dbpath dbname : Bytes) : Prop :=
  ∀ child, Entry dbpath child (DescriptorFileName dbpath dbname 1#64) →
    ∀ archived ∈ WriteDescriptor dbname (FindFiles dbpath dbname [child]),
      SamePath archived.1 (DescriptorFileName dbpath dbname 1#64)

/-- Every place agrees. -/
structure Agree (dbpath dbname : Bytes) : Prop where
  reuse : ReuseAgrees dbpath dbname
  children : ChildrenAgree dbpath dbname
  archive : ArchiveAgrees dbpath dbname

/-- The repairer finds the descriptor in the listing. -/
def Collected (dbpath dbname : Bytes) : Prop :=
  ∃ child, Entry dbpath child (DescriptorFileName dbpath dbname 1#64) ∧
    child ∈ FindFiles dbpath dbname [child]

/-! ### Slashes -/

theorem squeeze_cons (first : UInt8) (rest : Bytes) :
    squeeze (first :: rest) =
      if first = slash ∧ rest.head? = some slash then squeeze rest else first :: squeeze rest := by
  cases rest with
  | nil =>
    rw [if_neg fun both => by cases both.2]
    rfl
  | cons second rest =>
    simp only [squeeze, List.head?_cons, Option.some_inj]

/-- A doubled slash is one slash. -/
theorem squeeze_double (front back : Bytes) :
    squeeze (front ++ slash :: slash :: back) = squeeze (front ++ slash :: back) := by
  induction front with
  | nil => rw [List.nil_append, List.nil_append, squeeze_cons, if_pos ⟨rfl, rfl⟩]
  | cons first front hypothesis =>
    have head : (front ++ slash :: slash :: back).head? = (front ++ slash :: back).head? := by
      cases front with
      | nil => rfl
      | cons second front => rfl
    rw [List.cons_append, List.cons_append, squeeze_cons, squeeze_cons, hypothesis, head]

/-- A name without slashes is left alone. -/
theorem squeeze_append (front back : Bytes) (plain : slash ∉ back) :
    squeeze (front ++ back) = squeeze front ++ back := by
  induction front with
  | nil =>
    rw [List.nil_append, squeeze, List.nil_append]
    induction back with
    | nil => rfl
    | cons first back hypothesis =>
      obtain ⟨other, others⟩ := not_or.mp (mt List.mem_cons.mpr plain)
      rw [squeeze_cons, if_neg fun both => other both.1.symm, hypothesis others]
  | cons first front hypothesis =>
    have head : (front ++ back).head? = some slash ↔ front.head? = some slash := by
      cases front with
      | nil =>
        refine iff_of_false (fun same => plain ?_) fun same => by cases same
        exact List.mem_of_head? same
      | cons second front => exact Iff.rfl
    rw [List.cons_append, squeeze_cons, squeeze_cons, hypothesis]
    simp only [head]
    split
    · rfl
    · rfl

/-- Everything but slashes stays. -/
theorem filter_squeeze (path : Bytes) :
    (squeeze path).filter (fun byte => byte ≠ slash) = path.filter fun byte => byte ≠ slash := by
  induction path with
  | nil => rfl
  | cons first rest hypothesis =>
    rw [squeeze_cons]
    split
    · rename_i both
      rw [hypothesis, List.filter_cons_of_neg (by rw [both.1]; decide)]
    · rw [List.filter_cons, List.filter_cons, hypothesis]

/-- Slashes in front of a slash are that slash. -/
theorem squeeze_slashes (front back : Bytes) (slashes : ∀ byte ∈ front, byte = slash)
    (head : back.head? = some slash) : squeeze (front ++ back) = squeeze back := by
  induction front with
  | nil => rfl
  | cons first front hypothesis =>
    obtain ⟨same, others⟩ := List.forall_mem_cons.mp slashes
    have next : (front ++ back).head? = some slash := by
      cases front with
      | nil => exact head
      | cons second front => exact congrArg some (others second List.mem_cons_self)
    rw [List.cons_append, squeeze_cons, if_pos ⟨same, next⟩, hypothesis others]

/-- A slash behind a slash is that slash. -/
theorem squeeze_ends (path : Bytes) (ends : path.getLast? = some slash) :
    squeeze (path ++ [slash]) = squeeze path := by
  obtain ⟨front, rfl⟩ := List.getLast?_eq_some_iff.mp ends
  rw [List.append_assoc, List.singleton_append, squeeze_double front []]

/-- A slash behind anything else stays. -/
theorem squeeze_open (path : Bytes) (last : path.getLast? ≠ some slash) :
    squeeze (path ++ [slash]) = squeeze path ++ [slash] := by
  induction path with
  | nil => rfl
  | cons first rest hypothesis =>
    cases rest with
    | nil =>
      have other : first ≠ slash := fun same => last (congrArg some same)
      rw [List.singleton_append, squeeze_cons, if_neg fun both => other both.1]
      rfl
    | cons second rest =>
      rw [List.getLast?_cons_cons] at last
      rw [List.cons_append, squeeze_cons, hypothesis last, squeeze_cons first (second :: rest)]
      have head : (second :: rest ++ [slash]).head? = (second :: rest).head? := rfl
      rw [head]
      by_cases both : first = slash ∧ (second :: rest).head? = some slash
      · rw [if_pos both, if_pos both]
      · rw [if_neg both, if_neg both, List.cons_append]

/-! ### The places, one by one -/

/-- A path in front of a path is not seen exactly when it is slashes, in front of a slash. -/
theorem samePath_append_iff (front back : Bytes)
    (head : (∀ byte ∈ front, byte = slash) → back.head? = some slash) :
    SamePath (front ++ back) back ↔ ∀ byte ∈ front, byte = slash := by
  refine ⟨fun same byte member => ?_, fun slashes => squeeze_slashes front back slashes (head slashes)⟩
  have kept := congrArg (List.filter fun byte => byte ≠ slash) same
  rw [filter_squeeze, filter_squeeze, List.filter_append] at kept
  have none := List.append_left_eq_self.mp kept
  by_contra other
  have listed : byte ∈ front.filter fun byte => byte ≠ slash :=
    List.mem_filter.mpr ⟨member, decide_eq_true other⟩
  rw [none] at listed
  exact List.not_mem_nil listed

theorem reused_eq {env : Env} {reuse_logs : Bool} {dbpath dbname path : Bytes}
    (member : path ∈ reused env reuse_logs dbpath dbname) :
    path = dbpath ++ DescriptorFileName dbpath dbname 1#64 := by
  unfold reused ReuseManifest at member
  split at member
  · exact absurd member List.not_mem_nil
  · split at member
    · exact List.mem_singleton.mp member
    · split at member
      · exact List.mem_singleton.mp member
      · exact (List.mem_cons.mp member).elim id List.mem_singleton.mp

theorem head_descriptor (dbpath dbname : Bytes) (ends : dbpath.getLast? = some slash)
    (slashes : ∀ byte ∈ dbpath, byte = slash) :
    (DescriptorFileName dbpath dbname 1#64).head? = some slash := by
  cases dbpath with
  | nil => cases ends
  | cons first dbpath =>
    obtain rfl := slashes first List.mem_cons_self
    rfl

/-- The recovered descriptor is reused under its path only where that path has no name in it. -/
theorem reuseAgrees_iff (dbpath dbname : Bytes) (ends : dbpath.getLast? = some slash) :
    ReuseAgrees dbpath dbname ↔ ∀ byte ∈ dbpath, byte = slash := by
  rw [← samePath_append_iff dbpath _ (head_descriptor dbpath dbname ends)]
  constructor
  · exact fun agrees => agrees ⟨fun _ => none, fun _ => false⟩ true _ List.mem_cons_self
  · intro same env reuse_logs path member
    rw [reused_eq member]
    exact same

theorem samePath_child {dbpath child created : Bytes} (ends : dbpath.getLast? = some slash)
    (entry : Entry dbpath child created) : SamePath (dbpath ++ slash :: child) created := by
  obtain ⟨front, rfl⟩ := List.getLast?_eq_some_iff.mp ends
  refine Eq.trans ?_ entry.place.symm
  rw [List.append_assoc, List.append_assoc, List.singleton_append, List.singleton_append]
  exact squeeze_double front child

theorem deleted_eq {bg_error_ok : Bool} {versions : Versions} {dbpath child path : Bytes}
    (member : path ∈ DeleteObsoleteFiles bg_error_ok versions dbpath [child]) :
    path = dbpath ++ slash :: child := by
  unfold DeleteObsoleteFiles at member
  split at member
  · exact absurd member List.not_mem_nil
  · obtain ⟨other, kept, rfl⟩ := List.mem_map.mp member
    rw [List.mem_singleton.mp (List.mem_filter.mp kept).1]

theorem recovered_eq {dbpath child path : Bytes} {opened reuse : Bool}
    (member : path ∈ RecoverLogFile dbpath child opened reuse) :
    path = dbpath ++ slash :: child := by
  unfold RecoverLogFile at member
  split at member
  · simpa using member
  · exact List.mem_singleton.mp member

/-- Listed children are taken up under the path they were created with. -/
theorem childrenAgree (dbpath dbname : Bytes) (ends : dbpath.getLast? = some slash) :
    ChildrenAgree dbpath dbname := by
  intro kind number created child entries _ entry _
  refine ⟨fun bg_error_ok versions path member => ?_, fun opened reuse path member => ?_⟩
  · rw [deleted_eq member]
    exact samePath_child ends entry
  · rw [recovered_eq member]
    exact samePath_child ends entry

theorem ArchiveFile_fst (fname : Bytes) : (ArchiveFile fname).1 = fname := by
  unfold ArchiveFile
  split
  · rfl
  · rfl

theorem samePath_archived_iff {dbpath dbname child created : Bytes}
    (entry : Entry dbpath child created) :
    SamePath (dbname ++ slash :: child) created ↔ SamePath (dbname ++ [slash]) dbpath := by
  have whole : dbname ++ slash :: child = dbname ++ [slash] ++ child := by
    rw [List.append_assoc, List.singleton_append]
  rw [SamePath, entry.place, whole, squeeze_append _ _ entry.plain, squeeze_append _ _ entry.plain,
    List.append_left_inj]
  rfl

/-- An old descriptor that is found is archived from its path only where the name of the database is
the path of its directory. -/
theorem archiveAgrees_iff (dbpath dbname : Bytes) :
    ArchiveAgrees dbpath dbname ↔
      (Collected dbpath dbname → SamePath (dbname ++ [slash]) dbpath) := by
  constructor
  · rintro agrees ⟨child, entry, found⟩
    have same := agrees child entry (ArchiveFile (dbname ++ slash :: child))
      (List.mem_map.mpr ⟨child, found, rfl⟩)
    rw [ArchiveFile_fst] at same
    exact (samePath_archived_iff entry).mp same
  · intro same child entry archived member
    obtain ⟨manifest, found, rfl⟩ := List.mem_map.mp member
    obtain rfl : manifest = child :=
      List.mem_singleton.mp (List.mem_filter.mp (List.mem_filter.mp found).1).1
    rw [ArchiveFile_fst]
    exact (samePath_archived_iff entry).mpr (same ⟨manifest, entry, found⟩)

theorem listed_append (dbname rest : Bytes) : listed dbname (dbname ++ rest) = true := by
  induction dbname with
  | nil => rfl
  | cons c dbname hypothesis =>
    rw [List.cons_append, listed, hypothesis, Bool.and_true]
    exact decide_eq_true rfl

/-- The repairer finds the descriptor of a plain name that fits. -/
theorem collected_of_plain (dbpath dbname : Bytes) (path : 0 ∉ dbpath) (name : 0 ∉ dbname)
    (nonempty : dbname ≠ []) (dots : dot ∉ dbname) (slashes : slash ∉ dbname)
    (fits : (dbpath ++ dbname ++ dot :: manifest).length ≤ 1023) : Collected dbpath dbname := by
  have created : DescriptorFileName dbpath dbname 1#64 = dbpath ++ (dbname ++ dot :: manifest) := by
    rw [DescriptorFileName, MakeFileName, printed, cstr_of_not_mem path, cstr_of_not_mem name,
      List.take_of_length_le fits, List.append_assoc]
  refine ⟨dbname ++ dot :: manifest, ⟨fun member => ?_, ?_⟩, ?_⟩
  · exact (List.mem_append.mp member).elim slashes (by decide)
  · exact congrArg squeeze created
  · have parsed := (unnumbered_iff dbpath dbname
      (show (manifest, FILENUMBER_MANIFEST, FileType.kDescriptorFile) ∈ unnumbered by decide)
      (by decide)).mpr ⟨nonempty, dots, rfl⟩
    refine List.mem_filter.mpr ⟨List.mem_filter.mpr ⟨List.mem_singleton_self _, ?_⟩, ?_⟩
    · exact listed_append dbname _
    · rw [parsed]
      rfl

/-- Every place uses the path that the file was created with exactly when the path of the database
is made of slashes, and the name of the database is that path where the repairer finds the
descriptor. -/
theorem agree_iff (dbpath dbname : Bytes) (ends : dbpath.getLast? = some slash) :
    Agree dbpath dbname ↔ (∀ byte ∈ dbpath, byte = slash) ∧
      (Collected dbpath dbname → SamePath (dbname ++ [slash]) dbpath) := by
  rw [← reuseAgrees_iff dbpath dbname ends, ← archiveAgrees_iff]
  exact ⟨fun agree => ⟨agree.reuse, agree.archive⟩,
    fun both => ⟨both.1, childrenAgree dbpath dbname ends, both.2⟩⟩

theorem agree_iff_root :
    Agree [47] [109] ↔ (∀ byte ∈ ([47] : Bytes), byte = slash) ∧
      (Collected [47] [109] → SamePath ([109] ++ [slash]) [47]) :=
  agree_iff [47] [109] rfl

/-- The descriptor of `map` in `/d/` is reused as `/d//d/map.manifest`. -/
theorem not_agree : ¬ Agree [47, 100, 47] [109, 97, 112] := by
  intro agree
  have same := agree.reuse ⟨fun _ => none, fun _ => false⟩ true _ List.mem_cons_self
  exact absurd same (show ¬ squeeze _ = squeeze _ by decide)

end Paths

end LevelDBLib.Navi
