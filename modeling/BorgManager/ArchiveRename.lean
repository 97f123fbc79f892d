import BorgManager.ArchiveSeries
import BorgManager.Exceptions
import BorgManager.Rankings
import BorgManager.ScheduleRequests

namespace BorgManager.ArchiveRename

open ArchiveSeries PythonText Rankings Records

abbrev HTTPException := ScheduleRequests.HTTPException

def startsWith (name text : String) : Bool := text.toList.isPrefixOf name.toList

/-- Every prefix of every job, in the order of the rows. -/
def entries (repositoryJobs : List JobRow) : List (String × JobRow) :=
  repositoryJobs.flatMap (fun job => (jobArchivePrefixes job).map (fun text => (text, job)))

def entryLength (entry : String × JobRow) : Nat := entry.1.length

def candidates (archiveName : String) (repositoryJobs : List JobRow) : List (String × JobRow) :=
  (entries repositoryJobs).filter (fun entry => startsWith archiveName entry.1)

/-- `archive_owner_job`: `max` takes the first of several longest prefixes. -/
def archiveOwnerJob (archiveName : String) (repositoryJobs : List JobRow) : Option JobRow :=
  ((candidates archiveName repositoryJobs).argmax entryLength).map Prod.snd

structure AssignedArchive where
  name : String
  jobId : Option Nat
  jobName : Option String
  legacy : Bool
  selectedJob : Bool

def assignArchiveOwner (repositoryJobs : List JobRow) (selectedJobId : Option Nat) (name : String) : AssignedArchive :=
  let owner := (sorted entryLength (entries repositoryJobs)).find? (fun entry => startsWith name entry.1)
  { name := name
    jobId := owner.map (fun entry => entry.2.id)
    jobName := owner.map (fun entry => entry.2.name)
    legacy := owner.isNone
    selectedJob := selectedJobId.any (fun id => id != 0 && owner.any (fun entry => entry.2.id == id)) }

def assignArchiveOwners (archives : List String) (repositoryJobs : List JobRow) (selectedJobId : Option Nat) :
    List AssignedArchive :=
  archives.map (assignArchiveOwner repositoryJobs selectedJobId)

/-- A valid request. -/
structure ArchiveRenameIn where
  archive : String
  newName : String
  differ : archive ≠ newName

def invalidNameCharacters : List Char := [Char.ofNat 0, '\r', '\n', '/']

def doubleColon (name : String) : Bool := name.toList.tails.any (fun rest => [':', ':'].isPrefixOf rest)

/-- The validators of one name, with the length limits of the field. -/
def validArchive (value : String) : Except String String :=
  if value.length = 0 then .error "String should have at least 1 character"
  else if 300 < value.length then .error "String should have at most 300 characters"
  else if strip value = "" || startsWith (strip value) "-" || doubleColon (strip value) ||
      (strip value).toList.any (fun c => invalidNameCharacters.contains c) then .error "invalid archive name"
  else .ok (strip value)

def ArchiveRenameIn.validate (archive newName : String) : Except String ArchiveRenameIn := do
  let archive ← validArchive archive
  let newName ← validArchive newName
  if hsame : archive = newName then throw "new archive name must differ from the current name"
  else pure ⟨archive, newName, hsame⟩

structure RepositoryRow where
  id : Nat
  enabled : Bool
  storagePath : Option String
  initialized : Bool
  present : Bool

/-- What a request finds: the rows, Borg's answer to `list` and the answer of
`queue_job_action` with the text of its exception. -/
structure Manager where
  findJob : Nat → Option (JobRow × RepositoryRow)
  repositoryJobs : Nat → List JobRow
  mounts : List ManagerArchiveMount
  archiveNames : Nat → Except HTTPException (List String)
  queueJobAction : Nat → ArchiveRenameIn → Except String Nat

variable (s : Manager)

/-- `load_job_with_connections` without the check of the client access. -/
def loadJobWithConnections (jobId : Nat) : Except HTTPException (JobRow × RepositoryRow) :=
  match s.findJob jobId with
  | none => .error ⟨404, "Job not found"⟩
  | some (job, repository) =>
      if repository.enabled = false then .error ⟨409, "Repository ist deaktiviert"⟩
      else if (truthy repository.storagePath).isSome ∧
          (repository.initialized = false ∨ repository.present = false) then
        .error ⟨400, "Managed repository is missing or not initialized"⟩
      else .ok (job, repository)

def activeMount (repositoryId : Nat) (archive : String) (mount : ManagerArchiveMount) : Bool :=
  mount.repositoryId == repositoryId && mount.archive == archive &&
    (mount.status == .mounting || mount.status == .mounted)

/-- The first prefix that the archive starts with, in the order of the rows. -/
def ownerPrefix (archive : String) (repositoryJobs : List JobRow) : Option String :=
  ((entries repositoryJobs).find? (fun entry => startsWith archive entry.1)).map Prod.fst

def renameArchive (jobId : Nat) (data : ArchiveRenameIn) : Except HTTPException Nat := do
  let (_, repository) ← loadJobWithConnections s jobId
  if s.mounts.any (activeMount repository.id data.archive) then
    throw ⟨409, "Archive is currently mounted and must be unmounted first"⟩
  else
    let names ← s.archiveNames jobId
    if data.archive ∉ names then throw ⟨404, "Archive not found in this repository"⟩
    else if data.newName ∈ names then throw ⟨409, "An archive with the new name already exists"⟩
    else
      match (truthy (ownerPrefix data.archive (s.repositoryJobs repository.id))).filter
          (fun text => !startsWith data.newName text) with
      | some text => throw ⟨400, "The new name must keep the job prefix " ++ text⟩
      | none =>
          match s.queueJobAction jobId data with
          | .error text => throw ⟨400, text⟩
          | .ok runId => pure runId

variable {s} {jobs : List JobRow} {archive newName : String} {entry : String × JobRow}

/-- Both functions name the same owner. -/
theorem assigned_owner (jobs : List JobRow) (selected : Option Nat) (name : String) :
    (assignArchiveOwner jobs selected name).jobId = (archiveOwnerJob name jobs).map JobRow.id := by
  rw [assignArchiveOwner, archiveOwnerJob, candidates, ← find?_sorted, Option.map_map]
  rfl

theorem mem_candidates : entry ∈ candidates archive jobs ↔ entry ∈ entries jobs ∧ startsWith archive entry.1 = true :=
  List.mem_filter

theorem archiveOwnerJob_eq_none : archiveOwnerJob archive jobs = none ↔
    ∀ entry ∈ entries jobs, startsWith archive entry.1 = false := by
  rw [archiveOwnerJob, Option.map_eq_none_iff, List.argmax_eq_none, candidates, List.filter_eq_nil_iff]
  constructor
  · exact fun h entry hentry => Bool.eq_false_of_not_eq_true (h entry hentry)
  · exact fun h entry hentry hmatch => Bool.false_ne_true ((h entry hentry).symm.trans hmatch)

/-- Two prefixes of one length that a name starts with are the same. -/
theorem prefix_unique {a b : String} (ha : startsWith archive a = true) (hb : startsWith archive b = true)
    (hlength : a.length = b.length) : a = b := by
  have ha : a.toList <+: archive.toList := List.isPrefixOf_iff_prefix.mp ha
  have hb : b.toList <+: archive.toList := List.isPrefixOf_iff_prefix.mp hb
  apply String.toList_inj.mp
  exact (List.prefix_of_prefix_length_le ha hb (Nat.le_of_eq hlength)).eq_of_length hlength

/-- Every prefix of another job that the name starts with is outdone by a prefix
of the job: a longer one, or the same one in an earlier row. -/
def Outdone (jobs : List JobRow) (jobId : Nat) (name : String) : Prop :=
  ∀ before entry after, entries jobs = before ++ entry :: after → startsWith name entry.1 = true → entry.2.id ≠ jobId →
    ∃ own ∈ entries jobs, own.2.id = jobId ∧ startsWith name own.1 = true ∧
      (entry.1.length < own.1.length ∨ (own.1 = entry.1 ∧ own ∈ before))

/-- The owner of a name is the job whose prefixes outdo all others. -/
theorem owner_iff_outdone {jobId : Nat} (hstarts : ∃ entry ∈ entries jobs, startsWith newName entry.1 = true) :
    (archiveOwnerJob newName jobs).map JobRow.id = some jobId ↔ Outdone jobs jobId newName := by
  obtain ⟨start, hstart, hmatch⟩ := hstarts
  cases hbest : (candidates newName jobs).argmax entryLength with
  | none =>
      rw [List.argmax_eq_none] at hbest
      have hmem := mem_candidates.mpr ⟨hstart, hmatch⟩
      rw [hbest] at hmem
      exact absurd hmem List.not_mem_nil
  | some best =>
      obtain ⟨hbestMem, hbestMatch⟩ := mem_candidates.mp (List.argmax_mem hbest)
      rw [archiveOwnerJob, hbest, Option.map_some, Option.map_some, Option.some.injEq]
      constructor
      · intro howner before entry after hsplit hentry hother
        have hmem : entry ∈ candidates newName jobs := by
          rw [mem_candidates, hsplit]
          exact ⟨List.mem_append_right _ (List.mem_cons_self ..), hentry⟩
        refine ⟨best, hbestMem, howner, hbestMatch, ?_⟩
        rcases Nat.lt_or_eq_of_le (List.le_of_mem_argmax hmem hbest) with hlt | heq
        · exact .inl hlt
        · right
          rw [candidates, hsplit, List.filter_append, List.filter_cons, if_pos hentry] at hbest
          rcases first_of_argmax entryLength hbest heq with hsame | hfirst
          · rw [hsame] at howner
            exact absurd howner hother
          · exact ⟨prefix_unique hbestMatch hentry heq.symm, List.mem_of_mem_filter hfirst⟩
      · intro houtdone
        by_contra hother
        obtain ⟨xs, ys, hsplit, hbelow⟩ := argmax_split entryLength hbest
        obtain ⟨before, rest, hentries, hbefore, hrest⟩ := List.filter_eq_append_iff.mp hsplit
        obtain ⟨skipped, after, hrest, hskipped, -, -⟩ := List.filter_eq_cons_iff.mp hrest
        rw [hrest, ← List.append_assoc] at hentries
        obtain ⟨own, hown, -, hownMatch, hlt | ⟨heq, hearlier⟩⟩ := houtdone _ best after hentries hbestMatch hother
        · have hle := List.le_of_mem_argmax (mem_candidates.mpr ⟨hown, hownMatch⟩) hbest
          exact absurd hle (Nat.not_le.mpr hlt)
        · rcases List.mem_append.mp hearlier with hin | hin
          · have hlt := hbelow own (hbefore ▸ List.mem_filter.mpr ⟨hin, hownMatch⟩)
            rw [entryLength, entryLength, heq] at hlt
            exact absurd hlt (Nat.lt_irrefl _)
          · exact hskipped own hin hownMatch

/-- The checks of a rename. -/
structure Admitted (s : Manager) (jobId : Nat) (repository : RepositoryRow) (data : ArchiveRenameIn) : Prop where
  enabled : repository.enabled = true
  managed : (truthy repository.storagePath).isSome = true → repository.initialized = true ∧ repository.present = true
  unmounted : s.mounts.any (activeMount repository.id data.archive) = false
  listed : ∃ names, s.archiveNames jobId = .ok names ∧ data.archive ∈ names ∧ data.newName ∉ names
  keepsPrefix : ∀ text, ownerPrefix data.archive (s.repositoryJobs repository.id) = some text →
    startsWith data.newName text = true
  queued : ∃ runId, s.queueJobAction jobId data = .ok runId

theorem loadJob_ok {jobId : Nat} {job : JobRow} {repository : RepositoryRow} :
    loadJobWithConnections s jobId = .ok (job, repository) ↔
      s.findJob jobId = some (job, repository) ∧ repository.enabled = true ∧
        ((truthy repository.storagePath).isSome = true → repository.initialized = true ∧
          repository.present = true) := by
  rw [loadJobWithConnections]
  cases hfind : s.findJob jobId with
  | none => exact ⟨nofun, nofun⟩
  | some found =>
      obtain ⟨job', repository'⟩ := found
      dsimp only
      split
      · next hdisabled =>
          refine ⟨nofun, ?_⟩
          rintro ⟨heq, henabled, -⟩
          cases heq
          rw [hdisabled] at henabled
          nomatch henabled
      split
      · next hmissing =>
          refine ⟨nofun, ?_⟩
          rintro ⟨heq, -, hmanaged⟩
          cases heq
          obtain ⟨hinitialized, hpresent⟩ := hmanaged hmissing.1
          rcases hmissing.2 with hfalse | hfalse
          · rw [hfalse] at hinitialized
            nomatch hinitialized
          · rw [hfalse] at hpresent
            nomatch hpresent
      · next henabled hmanaged =>
          constructor
          · intro heq
            cases heq
            refine ⟨rfl, Bool.eq_true_of_not_eq_false henabled, fun hpath => ?_⟩
            rw [not_and_or, not_or, Bool.not_eq_false, Bool.not_eq_false] at hmanaged
            exact hmanaged.resolve_left (not_not_intro hpath)
          · rintro ⟨heq, -⟩
            cases heq
            rfl

theorem prefix_kept_iff {text? : Option String} {name : String} :
    (truthy text?).filter (fun text => !startsWith name text) = none ↔
      ∀ text, text? = some text → startsWith name text = true := by
  rw [Option.filter_eq_none_iff]
  constructor
  · intro h text htext
    by_cases hempty : text = ""
    · rw [hempty]
      rfl
    · have hkept := h text (truthy_eq_some.mpr ⟨htext, hempty⟩)
      rwa [Bool.not_eq_true, Bool.not_eq_false'] at hkept
  · intro h text htext
    rw [h text (truthy_eq_some.mp htext).1]
    exact Bool.false_ne_true

/-- A rename is queued exactly if it passes the checks. -/
theorem renameArchive_ok {jobId : Nat} {data : ArchiveRenameIn} {job : JobRow} {repository : RepositoryRow}
    (hfind : s.findJob jobId = some (job, repository)) :
    (∃ runId, renameArchive s jobId data = .ok runId) ↔ Admitted s jobId repository data := by
  constructor
  · rintro ⟨runId, h⟩
    obtain ⟨⟨job', repository'⟩, hload, h⟩ := Exceptions.bind_ok h
    obtain ⟨hfound, henabled, hmanaged⟩ := loadJob_ok.mp hload
    rw [hfind] at hfound
    cases hfound
    dsimp only at h
    split at h
    · nomatch h
    next hmounted =>
    obtain ⟨names, hnames, h⟩ := Exceptions.bind_ok h
    split at h
    · nomatch h
    next hlisted =>
    split at h
    · nomatch h
    next hfree =>
    split at h
    · nomatch h
    next hkeeps =>
    split at h
    · nomatch h
    next queued hqueued =>
    exact ⟨henabled, hmanaged, Bool.eq_false_of_not_eq_true hmounted, ⟨names, hnames, not_not.mp hlisted, hfree⟩,
      prefix_kept_iff.mp hkeeps, ⟨queued, hqueued⟩⟩
  · rintro ⟨henabled, hmanaged, hmounted, ⟨names, hnames, hlisted, hfree⟩, hkeeps, ⟨runId, hqueued⟩⟩
    refine ⟨runId, Exceptions.bind_ok_iff.mpr ⟨_, loadJob_ok.mpr ⟨hfind, henabled, hmanaged⟩, ?_⟩⟩
    dsimp only
    rw [if_neg (Bool.eq_false_iff.mp hmounted)]
    refine Exceptions.bind_ok_iff.mpr ⟨names, hnames, ?_⟩
    rw [if_neg (not_not_intro hlisted), if_neg hfree, prefix_kept_iff.mpr hkeeps, hqueued]
    rfl

/-- Whenever a rename is queued, the new name has the owner of the old one. -/
def KeepsSeries (s : Manager) (jobId : Nat) (data : ArchiveRenameIn) : Prop :=
  ∀ runId job repository, renameArchive s jobId data = .ok runId → s.findJob jobId = some (job, repository) →
    (archiveOwnerJob data.newName (s.repositoryJobs repository.id)).map JobRow.id =
      (archiveOwnerJob data.archive (s.repositoryJobs repository.id)).map JobRow.id

/-- The prefixes that the new name starts with leave the archive where it is. -/
def PrefixesAgree (jobs : List JobRow) (data : ArchiveRenameIn) : Prop :=
  match archiveOwnerJob data.archive jobs with
  | none => ∀ entry ∈ entries jobs, startsWith data.newName entry.1 = false
  | some owner => Outdone jobs owner.id data.newName

theorem starts_of_admitted {jobId : Nat} {data : ArchiveRenameIn} {repository : RepositoryRow} {owner : JobRow}
    (h : Admitted s jobId repository data)
    (howner : archiveOwnerJob data.archive (s.repositoryJobs repository.id) = some owner) :
    ∃ entry ∈ entries (s.repositoryJobs repository.id), startsWith data.newName entry.1 = true := by
  obtain ⟨best, hbest, -⟩ := Option.map_eq_some_iff.mp howner
  obtain ⟨hmem, hmatch⟩ := mem_candidates.mp (List.argmax_mem hbest)
  have hsome : ((entries (s.repositoryJobs repository.id)).find?
      (fun entry => startsWith data.archive entry.1)).isSome = true :=
    List.find?_isSome.mpr ⟨best, hmem, hmatch⟩
  obtain ⟨first, hfirst⟩ := Option.isSome_iff_exists.mp hsome
  have hprefix : ownerPrefix data.archive (s.repositoryJobs repository.id) = some first.1 := by
    rw [ownerPrefix, hfirst, Option.map_some]
  exact ⟨first, List.mem_of_find?_eq_some hfirst, h.keepsPrefix first.1 hprefix⟩

/-- A rename keeps the series exactly if it is refused or the prefixes agree. -/
theorem rename_keeps_series_iff (s : Manager) (jobId : Nat) (data : ArchiveRenameIn) : KeepsSeries s jobId data ↔
    ∀ job repository, s.findJob jobId = some (job, repository) → Admitted s jobId repository data →
      PrefixesAgree (s.repositoryJobs repository.id) data := by
  have hagree (repository : RepositoryRow) (hadmitted : Admitted s jobId repository data) :
      (archiveOwnerJob data.newName (s.repositoryJobs repository.id)).map JobRow.id =
        (archiveOwnerJob data.archive (s.repositoryJobs repository.id)).map JobRow.id ↔
          PrefixesAgree (s.repositoryJobs repository.id) data := by
    rw [PrefixesAgree]
    cases howner : archiveOwnerJob data.archive (s.repositoryJobs repository.id) with
    | none => rw [Option.map_none, Option.map_eq_none_iff, archiveOwnerJob_eq_none]
    | some owner => exact owner_iff_outdone (starts_of_admitted hadmitted howner)
  constructor
  · intro hkeeps job repository hfind hadmitted
    obtain ⟨runId, hqueued⟩ := (renameArchive_ok hfind).mpr hadmitted
    exact (hagree repository hadmitted).mp (hkeeps runId job repository hqueued hfind)
  · intro hprefixes runId job repository hqueued hfind
    have hadmitted := (renameArchive_ok hfind).mp ⟨runId, hqueued⟩
    exact (hagree repository hadmitted).mpr (hprefixes job repository hfind hadmitted)

/-- Two jobs with prefixes of an older version, one of which begins with the
other. -/
def exampleJobs : List JobRow :=
  [⟨1, "web", some "bbm-1-", [some "server-web-"], "", fun _ => none, 0⟩,
    ⟨2, "web-db", some "bbm-2-", [some "server-web-db-"], "", fun _ => none, 1⟩]

def exampleRepository : RepositoryRow := ⟨1, true, none, true, true⟩

def exampleManager : Manager where
  findJob id := (exampleJobs.find? (fun job => job.id == id)).map (fun job => (job, exampleRepository))
  repositoryJobs _ := exampleJobs
  mounts := []
  archiveNames _ := .ok ["server-web-2026-01-01"]
  queueJobAction _ _ := .ok 7

def exampleRename : ArchiveRenameIn := ⟨"server-web-2026-01-01", "server-web-db-2026-01-01", by decide⟩

theorem rename_changes_owner : ¬ ∀ s jobId data, KeepsSeries s jobId data := by
  intro hall
  have hfind : exampleManager.findJob 1 = some (exampleJobs[0], exampleRepository) := rfl
  obtain ⟨runId, hqueued⟩ : ∃ runId, renameArchive exampleManager 1 exampleRename = .ok runId := ⟨7, rfl⟩
  have hsame := hall exampleManager 1 exampleRename runId _ exampleRepository hqueued hfind
  exact absurd hsame (by decide)

end BorgManager.ArchiveRename
