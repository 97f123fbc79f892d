import Mathlib.Data.List.Induction
import Mathlib.Data.List.Sort
import BorgManager.KeyedTables
import BorgManager.Records

namespace BorgManager.ScheduleConflicts

open Records KeyedTables

inductive TargetMode
  | hosts
  | repository
  | jobs
  deriving DecidableEq

structure Host where
  id : Nat
  enabled : Bool

structure Job where
  id : Nat
  name : String
  hostId : Nat
  repositoryId : Nat
  enabled : Bool
  deriving DecidableEq

structure BackupSchedule where
  id : Nat
  name : String
  expressions : String
  targetMode : TargetMode
  targetHostIds : List Nat
  targetRepositoryId : Option Nat
  targetJobIds : List Nat
  parallelLimit : Nat
  enabled : Bool
  deriving DecidableEq

/-- The columns of `runs` that the deletion of a job reads and writes. -/
structure JobRun where
  id : Nat
  jobId : Option Nat
  jobNameSnapshot : Option String
  status : Status

structure Database where
  hosts : Table Host Host.id
  repositories : Table Repository Repository.id
  jobs : Table Job Job.id
  jobIdReservations : List Nat
  schedules : Table BackupSchedule BackupSchedule.id
  runs : Table JobRun JobRun.id

/-- The join of `jobs`, `hosts` and `repositories`. -/
def joins (db : Database) (enabledJobsOnly : Bool) (job : Job) : Bool :=
  match db.hosts.find? job.hostId, db.repositories.find? job.repositoryId with
  | some host, some repository => !enabledJobsOnly || (job.enabled && host.enabled && repository.enabled)
  | _, _ => false

def orderedIds (jobs : List Job) : List Nat := (jobs.map Job.id).insertionSort (· ≤ ·)

def scheduleTargetJobIds (db : Database) (schedule : BackupSchedule) (enabledJobsOnly : Bool) : List Nat :=
  let query := db.jobs.rows.filter (joins db enabledJobsOnly)
  match schedule.targetMode with
  | .hosts =>
      if schedule.targetHostIds.isEmpty then []
      else orderedIds (query.filter (fun job => schedule.targetHostIds.contains job.hostId))
  | .repository =>
      match schedule.targetRepositoryId with
      | none | some 0 => []
      | some id => orderedIds (query.filter (fun job => job.repositoryId == id))
  | .jobs =>
      if schedule.targetJobIds.isEmpty then []
      else orderedIds (query.filter (fun job => schedule.targetJobIds.contains job.id))

def enabledSchedules (db : Database) : List BackupSchedule := db.schedules.rows.filter BackupSchedule.enabled

def missingIds (kind : String) (values existing : List Nat) : Except String Unit :=
  match (values.dedup.filter (fun id => !existing.contains id)).insertionSort (· ≤ ·) with
  | [] => .ok ()
  | missing => .error (s!"Unbekannte {kind}: " ++ ", ".intercalate (missing.map toString))

def validateScheduleTargetsExist (db : Database) (schedule : BackupSchedule) : Except String Unit :=
  match schedule.targetMode with
  | .hosts => missingIds "Geräte-ID(s)" schedule.targetHostIds db.hosts.ids
  | .repository =>
      match schedule.targetRepositoryId with
      | none | some 0 => .error "Repository nicht gefunden"
      | some id => if (db.repositories.find? id).isNone then .error "Repository nicht gefunden" else .ok ()
  | .jobs => missingIds "Backup-Job-ID(s)" schedule.targetJobIds db.jobs.ids

/-- The dictionary `conflicts` after its loop over the other schedules: a job
has the name of the last of them that targets it. -/
def collectConflicts (db : Database) (targetIds : List Nat) (schedules : List BackupSchedule) : Nat → Option String :=
  schedules.foldl (fun conflicts schedule jobId =>
    if targetIds.contains jobId && (scheduleTargetJobIds db schedule false).contains jobId then some schedule.name
    else conflicts jobId) (fun _ => none)

def conflictDetail (db : Database) (conflict : Nat × String) : String :=
  let label := match db.jobs.find? conflict.1 with
    | some job => job.name
    | none => toString conflict.1
  s!"{label} → {conflict.2}"

def validateScheduleConflicts (db : Database) (candidate : BackupSchedule) (excludeScheduleId : Nat) :
    Except String Unit :=
  if candidate.enabled = false then .ok ()
  else
    let targetIds := scheduleTargetJobIds db candidate false
    if targetIds.isEmpty then .ok ()
    else
      let others := (enabledSchedules db).filter
        (fun schedule => !(excludeScheduleId != 0 && schedule.id == excludeScheduleId))
      let conflicts := collectConflicts db targetIds others
      match targetIds.filterMap (fun jobId => (conflicts jobId).map (fun name => (jobId, name))) with
      | [] => .ok ()
      | items => .error ("Backup-Jobs dürfen nur einem aktiven Zeitplan zugeordnet sein: " ++
          ", ".intercalate (items.map (conflictDetail db)))

/-- The test of one schedule in `validate_job_schedule_conflicts`. -/
def matchesJob (job : Job) (schedule : BackupSchedule) : Bool :=
  match schedule.targetMode with
  | .hosts => schedule.targetHostIds.contains job.hostId
  | .repository => some job.repositoryId == schedule.targetRepositoryId
  | .jobs => job.id != 0 && schedule.targetJobIds.contains job.id

def validateJobScheduleConflicts (db : Database) (job : Job) : Except String Unit :=
  let names := ((enabledSchedules db).filter (matchesJob job)).map BackupSchedule.name
  if names.length > 1 then
    .error ("Der Backup-Job würde mehreren aktiven Zeitplänen zugeordnet: " ++ ", ".intercalate names)
  else .ok ()

/-- No job is a target of two enabled schedules. -/
def Exclusive (db : Database) : Prop :=
  ∀ s ∈ db.schedules.rows, ∀ t ∈ db.schedules.rows, s.enabled = true → t.enabled = true →
    ∀ jobId ∈ scheduleTargetJobIds db s false, jobId ∈ scheduleTargetJobIds db t false → s = t

instance (db : Database) : Decidable (Exclusive db) :=
  inferInstanceAs (Decidable (∀ s ∈ db.schedules.rows, ∀ t ∈ db.schedules.rows, s.enabled = true → t.enabled = true →
    ∀ jobId ∈ scheduleTargetJobIds db s false, jobId ∈ scheduleTargetJobIds db t false → s = t))

def referencesExist (db : Database) (job : Job) : Prop :=
  (db.hosts.find? job.hostId).isSome = true ∧ (db.repositories.find? job.repositoryId).isSome = true

instance (db : Database) (job : Job) : Decidable (referencesExist db job) :=
  inferInstanceAs (Decidable ((db.hosts.find? job.hostId).isSome = true ∧
    (db.repositories.find? job.repositoryId).isSome = true))

/-- The keys of jobs and repositories are positive, and the foreign keys of
the jobs point to rows. -/
structure Valid (db : Database) : Prop where
  repositoryIds : ∀ repository ∈ db.repositories.rows, 0 < repository.id
  jobIds : ∀ job ∈ db.jobs.rows, 0 < job.id
  references : ∀ job ∈ db.jobs.rows, referencesExist db job

theorem joins_of_references {db : Database} {job : Job} (h : referencesExist db job) : joins db false job = true := by
  obtain ⟨⟨host, hhost⟩, ⟨repository, hrepository⟩⟩ :=
    And.imp Option.isSome_iff_exists.mp Option.isSome_iff_exists.mp h
  rw [joins, hhost, hrepository]
  rfl

theorem mem_orderedIds {jobs : List Job} {id : Nat} : id ∈ orderedIds jobs ↔ ∃ job ∈ jobs, job.id = id := by
  rw [orderedIds, List.mem_insertionSort, List.mem_map]

theorem mem_query {db : Database} (hvalid : Valid db) {p : Job → Bool} {id : Nat} :
    id ∈ orderedIds ((db.jobs.rows.filter (joins db false)).filter p) ↔
      ∃ job ∈ db.jobs.rows, job.id = id ∧ p job = true := by
  rw [mem_orderedIds]
  constructor
  · rintro ⟨job, hmem, hid⟩
    obtain ⟨hmem, hp⟩ := List.mem_filter.mp hmem
    exact ⟨job, List.mem_of_mem_filter hmem, hid, hp⟩
  · rintro ⟨job, hmem, hid, hp⟩
    have hjoins := joins_of_references (hvalid.references job hmem)
    exact ⟨job, List.mem_filter.mpr ⟨List.mem_filter.mpr ⟨hmem, hjoins⟩, hp⟩, hid⟩

theorem repositoryId_pos {db : Database} (hvalid : Valid db) {job : Job} (h : job ∈ db.jobs.rows) :
    0 < job.repositoryId := by
  obtain ⟨repository, hfind⟩ := Option.isSome_iff_exists.mp (hvalid.references job h).2
  obtain ⟨hmem, hid⟩ := Table.mem_of_find? hfind
  exact hid ▸ hvalid.repositoryIds repository hmem

/-- The query for the targets of a schedule and the test for the schedules of
a job agree. -/
theorem mem_targets_iff {db : Database} (hvalid : Valid db) (schedule : BackupSchedule) {id : Nat} :
    id ∈ scheduleTargetJobIds db schedule false ↔ ∃ job ∈ db.jobs.rows, job.id = id ∧
    matchesJob job schedule = true := by
  rw [scheduleTargetJobIds]
  rcases hmode : schedule.targetMode
  · rcases hids : schedule.targetHostIds with _ | ⟨host, hosts⟩
    · simp [matchesJob, hmode, hids]
    · simpa [matchesJob, hmode, hids] using mem_query hvalid (p := fun job => (host :: hosts).contains job.hostId)
  · rcases hid : schedule.targetRepositoryId with _ | repositoryId
    · simp [matchesJob, hmode, hid]
    · rcases repositoryId with _ | n
      · have hne (job : Job) (h : job ∈ db.jobs.rows) : job.repositoryId ≠ 0 :=
          Nat.pos_iff_ne_zero.mp (repositoryId_pos hvalid h)
        simpa [matchesJob, hmode, hid] using fun job h _ => hne job h
      · simpa [matchesJob, hmode, hid] using mem_query hvalid (p := fun job => job.repositoryId == n + 1)
  · have hne (job : Job) (h : job ∈ db.jobs.rows) : job.id ≠ 0 := Nat.pos_iff_ne_zero.mp (hvalid.jobIds job h)
    rcases hids : schedule.targetJobIds with _ | ⟨first, rest⟩
    · simp [matchesJob, hmode, hids]
    · have hquery : id ∈ orderedIds
          ((db.jobs.rows.filter (joins db false)).filter (fun job => (first :: rest).contains job.id)) ↔ _ :=
        mem_query hvalid
      simp only [matchesJob, hmode, hids, List.isEmpty_cons, Bool.false_eq_true, if_false, hquery]
      refine exists_congr (fun job => and_congr_right (fun hmem => and_congr_right (fun _ => ?_)))
      simp [hne job hmem]

theorem mem_targets_of_mem {db : Database} (hvalid : Valid db) (schedule : BackupSchedule) {job : Job}
    (hjob : job ∈ db.jobs.rows) : job.id ∈ scheduleTargetJobIds db schedule false ↔ matchesJob job schedule = true := by
  rw [mem_targets_iff hvalid]
  constructor
  · rintro ⟨other, hother, hid, hmatch⟩
    rw [← db.jobs.eq_of_key hother hjob hid]
    exact hmatch
  · exact fun h => ⟨job, hjob, rfl, h⟩

theorem exclusive_iff {db : Database} (hvalid : Valid db) :
    Exclusive db ↔ ∀ job ∈ db.jobs.rows, ∀ s ∈ enabledSchedules db, ∀ t ∈ enabledSchedules db,
      matchesJob job s = true → matchesJob job t = true → s = t := by
  constructor
  · intro h job hjob s hs t ht hms hmt
    obtain ⟨hs, hse⟩ := List.mem_filter.mp hs
    obtain ⟨ht, hte⟩ := List.mem_filter.mp ht
    exact h s hs t ht hse hte job.id ((mem_targets_of_mem hvalid s hjob).mpr hms)
      ((mem_targets_of_mem hvalid t hjob).mpr hmt)
  · intro h s hs t ht hse hte jobId hjs hjt
    obtain ⟨job, hjob, hid, hms⟩ := (mem_targets_iff hvalid s).mp hjs
    have hmt : matchesJob job t = true := (mem_targets_of_mem hvalid t hjob).mp (hid ▸ hjt)
    exact h job hjob s (List.mem_filter.mpr ⟨hs, hse⟩) t (List.mem_filter.mpr ⟨ht, hte⟩) hms hmt

theorem eq_of_length_le_one {α : Type} {l : List α} (h : l.length ≤ 1) {a b : α} (ha : a ∈ l) (hb : b ∈ l) : a = b := by
  rcases l with _ | ⟨c, _ | ⟨d, l⟩⟩
  · nomatch ha
  · rw [List.mem_singleton.mp ha, List.mem_singleton.mp hb]
  · simp at h

theorem validateJobScheduleConflicts_ok {db : Database} {job : Job}
    (h : validateJobScheduleConflicts db job = .ok ()) :
    ∀ s ∈ enabledSchedules db, ∀ t ∈ enabledSchedules db,
      matchesJob job s = true → matchesJob job t = true → s = t := by
  intro s hs t ht hms hmt
  have hs' := List.mem_filter.mpr ⟨hs, hms⟩
  have ht' := List.mem_filter.mpr ⟨ht, hmt⟩
  have hlength : ((enabledSchedules db).filter (matchesJob job)).length ≤ 1 := by
    by_contra hlt
    rw [validateJobScheduleConflicts, if_pos (by rw [List.length_map]; exact Nat.lt_of_not_le hlt)] at h
    nomatch h
  exact eq_of_length_le_one hlength hs' ht'

theorem collectConflicts_isSome {db : Database} {targetIds : List Nat} {schedules : List BackupSchedule} {jobId : Nat} :
    (collectConflicts db targetIds schedules jobId).isSome = true ↔
      jobId ∈ targetIds ∧ ∃ s ∈ schedules, jobId ∈ scheduleTargetJobIds db s false := by
  induction schedules using List.reverseRec with
  | nil => simp [collectConflicts]
  | append_singleton schedules last ih =>
      have hlast : collectConflicts db targetIds (schedules ++ [last]) jobId =
          if targetIds.contains jobId && (scheduleTargetJobIds db last false).contains jobId then some last.name
          else collectConflicts db targetIds schedules jobId := by
        rw [collectConflicts, List.foldl_append]
        rfl
      rw [hlast]
      split
      · next hboth =>
          obtain ⟨htarget, hin⟩ := Bool.and_eq_true_iff.mp hboth
          simpa using ⟨by simpa using htarget, .inr (by simpa using hin)⟩
      · next hnot =>
          rw [ih]
          simp only [Bool.and_eq_true, List.contains_iff_mem, not_and] at hnot
          simp only [List.mem_append, List.mem_singleton]
          constructor
          · rintro ⟨htarget, s, hs, hin⟩
            exact ⟨htarget, s, .inl hs, hin⟩
          · rintro ⟨htarget, s, hs | rfl, hin⟩
            · exact ⟨htarget, s, hs, hin⟩
            · exact absurd hin (hnot htarget)

theorem validateScheduleConflicts_ok {db : Database} {candidate : BackupSchedule} {excludeScheduleId : Nat}
    (h : validateScheduleConflicts db candidate excludeScheduleId = .ok ()) (henabled : candidate.enabled = true) :
    ∀ s ∈ enabledSchedules db, s.id ≠ excludeScheduleId →
      ∀ jobId ∈ scheduleTargetJobIds db candidate false, jobId ∉ scheduleTargetJobIds db s false := by
  intro s hs hid jobId hcandidate hother
  have hnonempty : (scheduleTargetJobIds db candidate false).isEmpty = false := by
    rw [List.isEmpty_eq_false_iff]
    exact List.ne_nil_of_mem hcandidate
  rw [validateScheduleConflicts, if_neg (by simp [henabled]), if_neg (by simp [hnonempty])] at h
  have hs' : s ∈ (enabledSchedules db).filter
      (fun schedule => !(excludeScheduleId != 0 && schedule.id == excludeScheduleId)) :=
    List.mem_filter.mpr ⟨hs, by simp [hid]⟩
  have hsome := collectConflicts_isSome.mpr ⟨hcandidate, s, hs', hother⟩
  obtain ⟨name, hname⟩ := Option.isSome_iff_exists.mp hsome
  dsimp only at h
  split at h
  · next hnone =>
      have hmem : (jobId, name) ∈ ([] : List (Nat × String)) := by
        rw [← hnone]
        exact List.mem_filterMap.mpr ⟨jobId, hcandidate, by rw [hname]; rfl⟩
      nomatch hmem
  · nomatch h

end BorgManager.ScheduleConflicts
