import Mathlib.Logic.Function.Basic
import BorgManager.Histories
import BorgManager.ScheduleConflicts

namespace BorgManager.ScheduleRequests

open Records KeyedTables ScheduleConflicts Histories

structure HTTPException where
  statusCode : Nat
  detail : String

structure BackupScheduleIn where
  name : String
  expressions : String
  targetMode : TargetMode
  targetHostIds : List Nat
  targetRepositoryId : Option Nat
  targetJobIds : List Nat
  parallelLimit : Nat
  enabled : Bool

structure JobIn where
  name : String
  hostId : Nat
  repositoryId : Nat
  enabled : Bool

/-- The row of a schedule with the values of a request. -/
def scheduleRow (id : Nat) (data : BackupScheduleIn) : BackupSchedule where
  id := id
  name := data.name
  expressions := data.expressions
  targetMode := data.targetMode
  targetHostIds := data.targetHostIds
  targetRepositoryId := if data.targetMode = .repository then data.targetRepositoryId else none
  targetJobIds := data.targetJobIds
  parallelLimit := data.parallelLimit
  enabled := data.enabled

def applyJob (row : Job) (data : JobIn) : Job :=
  { row with name := data.name, hostId := data.hostId, repositoryId := data.repositoryId, enabled := data.enabled }

/-- The row after the `UPDATE` of a schedule that was loaded as `row`. -/
def flushedSchedule (row new current : BackupSchedule) : BackupSchedule where
  id := current.id
  name := column row.name new.name current.name
  expressions := column row.expressions new.expressions current.expressions
  targetMode := column row.targetMode new.targetMode current.targetMode
  targetHostIds := column row.targetHostIds new.targetHostIds current.targetHostIds
  targetRepositoryId := column row.targetRepositoryId new.targetRepositoryId current.targetRepositoryId
  targetJobIds := column row.targetJobIds new.targetJobIds current.targetJobIds
  parallelLimit := column row.parallelLimit new.parallelLimit current.parallelLimit
  enabled := column row.enabled new.enabled current.enabled

/-- The row after the `UPDATE` of a job that was loaded as `row`. -/
def flushedJob (row new current : Job) : Job where
  id := current.id
  name := column row.name new.name current.name
  hostId := column row.hostId new.hostId current.hostId
  repositoryId := column row.repositoryId new.repositoryId current.repositoryId
  enabled := column row.enabled new.enabled current.enabled

/-- The constraints of `backup_schedules` on a written row. -/
def scheduleIntegrity (db : Database) (row : BackupSchedule) : Bool :=
  db.schedules.rows.all (fun other => other.id == row.id || other.name != row.name) &&
    match row.targetRepositoryId with
    | none => true
    | some id => (db.repositories.find? id).isSome

/-- The constraints of `jobs` on a written row. -/
def jobIntegrity (db : Database) (row : Job) : Bool :=
  db.jobs.rows.all (fun other => other.id == row.id || other.name != row.name) && decide (referencesExist db row)

def scheduleNameTaken : HTTPException := ⟨409, "Zeitplanname ist bereits vorhanden"⟩

def jobNameTaken : HTTPException := ⟨409, "Job name already exists"⟩

/-- An `UPDATE` that finds no row, or a foreign key that a `DELETE` leaves
behind: no handler catches the exception. -/
def internalServerError : HTTPException := ⟨500, "Internal Server Error"⟩

/-- The handler of `ValueError`, around the validation of flushed rows. -/
def conflict (db : Database) : Except String Unit → Except HTTPException Database
  | .ok () => .ok db
  | .error detail => .error ⟨409, detail⟩

def validateSchedule (db : Database) (row : BackupSchedule) : Except String Unit := do
  validateScheduleTargetsExist db row
  validateScheduleConflicts db row row.id

def createBackupSchedule (db : Database) (data : BackupScheduleIn) : Except HTTPException Database :=
  let row := scheduleRow (nextId db.schedules.ids) data
  match db.schedules.insert row with
  | none => .error scheduleNameTaken
  | some schedules =>
      if scheduleIntegrity db row then
        let db := { db with schedules := schedules }
        conflict db (validateSchedule db row)
      else .error scheduleNameTaken

/-- The transaction of `update_backup_schedule`. The validation reads the row
of the session, which has the values of the request. -/
def updateBackupSchedule (db : Database) (row : BackupSchedule) (data : BackupScheduleIn) :
    Except HTTPException Database :=
  let new := scheduleRow row.id data
  if new = row then conflict db (validateSchedule db new)
  else
    match db.schedules.find? row.id with
    | none => .error internalServerError
    | some current =>
        let flushed := flushedSchedule row new current
        if scheduleIntegrity db flushed then
          let db := { db with schedules := db.schedules.replace flushed }
          conflict db (validateSchedule db new)
        else .error scheduleNameTaken

def deleteBackupSchedule (db : Database) (row : BackupSchedule) : Database :=
  { db with schedules := db.schedules.delete row.id }

/-- The transaction of `create_job`, with the maximum that `allocate_job_id`
has read. -/
def createJob (db : Database) (highest : Nat) (data : JobIn) : Except HTTPException Database :=
  let row := applyJob ⟨highest + 1, "", 0, 0, true⟩ data
  match db.jobs.insert row with
  | none => .error jobNameTaken
  | some jobs =>
      if db.jobIdReservations.contains row.id || !jobIntegrity db row then .error jobNameTaken
      else
        let db := { db with jobs := jobs, jobIdReservations := db.jobIdReservations ++ [row.id] }
        conflict db (validateJobScheduleConflicts db row)

def updateJob (db : Database) (row : Job) (data : JobIn) : Except HTTPException Database :=
  let new := applyJob row data
  if new = row then conflict db (validateJobScheduleConflicts db new)
  else
    match db.jobs.find? row.id with
    | none => .error internalServerError
    | some current =>
        let flushed := flushedJob row new current
        if jobIntegrity db flushed then
          let db := { db with jobs := db.jobs.replace flushed }
          conflict db (validateJobScheduleConflicts db new)
        else .error jobNameTaken

def setJobEnabled (db : Database) (row : Job) (enabled : Bool) : Except HTTPException Database :=
  if enabled = row.enabled then .ok db
  else
    match db.jobs.find? row.id with
    | none => .error internalServerError
    | some current => .ok { db with jobs := db.jobs.replace { current with enabled := enabled } }

/-- The list of `_drop_job_schedule_references` for one schedule. -/
def remainingJobIds (jobId : Nat) (schedule : BackupSchedule) : List Nat :=
  schedule.targetJobIds.filter (fun id => id != jobId)

/-- What the flush does to a schedule row, if `_drop_job_schedule_references`
loaded the schedules in the list. -/
def dropReference (jobId : Nat) (loaded : List BackupSchedule) (current : BackupSchedule) : Option BackupSchedule :=
  match loaded.find? (fun schedule => schedule.id == current.id) with
  | none => some current
  | some schedule =>
      match remainingJobIds jobId schedule with
      | [] => none
      | ids => some { current with targetJobIds := column schedule.targetJobIds ids current.targetJobIds }

theorem dropReference_id {jobId : Nat} {loaded : List BackupSchedule} (r r' : BackupSchedule)
    (h : dropReference jobId loaded r = some r') : r'.id = r.id := by
  rw [dropReference] at h
  split at h
  · cases h
    rfl
  · split at h
    · nomatch h
    · cases h
      rfl

/-- A loaded schedule whose list the flush updates, but which has no row. -/
def staleReference (db : Database) (jobId : Nat) (schedule : BackupSchedule) : Bool :=
  let ids := remainingJobIds jobId schedule
  !ids.isEmpty && ids != schedule.targetJobIds && (db.schedules.find? schedule.id).isNone

def jobsModeSchedules (db : Database) : List BackupSchedule :=
  db.schedules.rows.filter (fun schedule => schedule.targetMode == .jobs)

/-- `UPDATE runs` for the loaded runs of a deleted job. -/
def releaseRun (row : Job) (loaded : List JobRun) (run : JobRun) : JobRun :=
  if loaded.any (fun r => r.id == run.id) then
    { run with
      jobId := none
      jobNameSnapshot := match run.jobNameSnapshot with
        | none | some "" => some row.name
        | some name => some name }
  else run

theorem releaseRun_id (row : Job) (loaded : List JobRun) (run : JobRun) : (releaseRun row loaded run).id = run.id := by
  rw [releaseRun]
  split <;> rfl

def releaseRuns (row : Job) (loaded : List JobRun) (runs : Table JobRun JobRun.id) : Table JobRun JobRun.id :=
  runs.rewrite (fun run => some (releaseRun row loaded run)) (by
    intro r r' h
    cases h
    exact releaseRun_id row loaded r)

/-- The flush at the end of `delete_job`. -/
def deleteJob (db : Database) (row : Job) (runs : List JobRun) (schedules : List BackupSchedule) :
    Except HTTPException Database :=
  if runs.any (fun run => (db.runs.find? run.id).isNone) || schedules.any (staleReference db row.id) then
    .error internalServerError
  else
    let released := releaseRuns row runs db.runs
    if released.rows.any (fun run => run.jobId == some row.id) then .error internalServerError
    else .ok { db with
      runs := released
      schedules := db.schedules.rewrite (dropReference row.id schedules) dropReference_id
      jobs := db.jobs.delete row.id }

inductive JobChange
  | update (data : JobIn)
  | setEnabled (enabled : Bool)
  | delete

/-- A request after its latest read. It has the rows that it has loaded, and
its next step is another read or its write transaction. -/
inductive Request
  | updateSchedule (row : BackupSchedule) (data : BackupScheduleIn)
  | deleteSchedule (row : BackupSchedule)
  | newJob (data : JobIn) (highest : Nat)
  | reservedJob (data : JobIn) (highest : Nat)
  | createJob (data : JobIn) (highest : Nat)
  | updateJob (row : Job) (data : JobIn)
  | disablingJob (row : Job)
  | setJobEnabled (row : Job) (enabled : Bool)
  | deletingJob (row : Job)
  | countedJob (row : Job)
  | deleteJob (row : Job) (runs : List JobRun)
  | deleteJobReferences (row : Job) (schedules : List BackupSchedule)

structure Manager where
  database : Database
  requests : Nat → Option Request

inductive Event
  | createSchedule (data : BackupScheduleIn)
  | loadSchedule (request id : Nat) (change : Option BackupScheduleIn)
  | newJob (request : Nat) (data : JobIn)
  | loadJob (request id : Nat) (change : JobChange)
  | read (request : Nat)
  | commit (request : Nat)
  | writeRuns (runs : Table JobRun JobRun.id)

def maximum (ids : List Nat) : Nat := ids.max?.getD 0

def loadSchedule (db : Database) (id : Nat) (change : Option BackupScheduleIn) : Except HTTPException Request :=
  match db.schedules.find? id, change with
  | none, _ => .error ⟨404, "Zeitplan nicht gefunden"⟩
  | some row, some data => .ok (.updateSchedule row data)
  | some row, none => .ok (.deleteSchedule row)

def referencesKnown (db : Database) (data : JobIn) : Bool :=
  (db.hosts.find? data.hostId).isSome && (db.repositories.find? data.repositoryId).isSome

def newJob (db : Database) (data : JobIn) : Except HTTPException Request :=
  if referencesKnown db data then .ok (.newJob data (maximum db.jobs.ids))
  else .error ⟨400, "Unknown host or repository"⟩

def loadJob (db : Database) (id : Nat) (change : JobChange) : Except HTTPException Request :=
  match db.jobs.find? id with
  | none => .error ⟨404, "Job not found"⟩
  | some row =>
      match change with
      | .update data =>
          if referencesKnown db data then .ok (.updateJob row data) else .error ⟨400, "Unknown host or repository"⟩
      | .setEnabled true => .ok (.setJobEnabled row true)
      | .setEnabled false => .ok (.disablingJob row)
      | .delete => .ok (.deletingJob row)

def runsOf (db : Database) (jobId : Nat) : List JobRun := db.runs.rows.filter (fun run => run.jobId == some jobId)

def hasActiveRun (db : Database) (jobId : Nat) : Bool := (runsOf db jobId).any (fun run => run.status.active)

/-- The next read of a request outside of its transaction. The deletion of a
job without runs has nothing to flush before it reads the schedules. -/
def readNext (db : Database) : Request → Option (Except HTTPException Request)
  | .newJob data highest => some (.ok (.reservedJob data (max highest (maximum db.jobIdReservations))))
  | .reservedJob data highest =>
      some (.ok (.createJob data (max highest (maximum (db.runs.rows.filterMap JobRun.jobId)))))
  | .disablingJob row =>
      some (if hasActiveRun db row.id then
        .error ⟨409, "Backup-Job kann während einer laufenden oder wartenden Ausführung nicht deaktiviert werden"⟩
      else .ok (.setJobEnabled row false))
  | .deletingJob row =>
      some (if hasActiveRun db row.id then
        .error ⟨409, "Job has a queued or running execution and cannot be deleted yet"⟩
      else .ok (.countedJob row))
  | .countedJob row => some (.ok (.deleteJob row (runsOf db row.id)))
  | .deleteJob row [] => some (.ok (.deleteJobReferences row (jobsModeSchedules db)))
  | _ => none

/-- The write transaction of a request that has nothing more to read before. -/
def commitNext (db : Database) : Request → Option (Except HTTPException Database)
  | .updateSchedule row data => some (updateBackupSchedule db row data)
  | .deleteSchedule row => some (.ok (deleteBackupSchedule db row))
  | .createJob data highest => some (createJob db highest data)
  | .updateJob row data => some (updateJob db row data)
  | .setJobEnabled row enabled => some (setJobEnabled db row enabled)
  | .deleteJob row (run :: runs) => some (deleteJob db row (run :: runs) (jobsModeSchedules db))
  | .deleteJobReferences row schedules => some (deleteJob db row [] schedules)
  | _ => none

/-- A refused request is rolled back and forgotten. -/
def resume (s : Manager) (request : Nat) : Except HTTPException Request → Manager
  | .error _ => { s with requests := Function.update s.requests request none }
  | .ok q => { s with requests := Function.update s.requests request (some q) }

def start (s : Manager) (request : Nat) (result : Except HTTPException Request) : Option Manager :=
  if (s.requests request).isNone then some (resume s request result) else none

def answer (s : Manager) (request : Nat) : Except HTTPException Database → Manager
  | .error _ => { s with requests := Function.update s.requests request none }
  | .ok db => ⟨db, Function.update s.requests request none⟩

/-- The one transaction of `create_backup_schedule`, which reads nothing before. -/
def afterCreate (s : Manager) : Except HTTPException Database → Manager
  | .error _ => s
  | .ok db => { s with database := db }

def scheduleNext (s : Manager) : Event → Option Manager
  | .createSchedule data => some (afterCreate s (createBackupSchedule s.database data))
  | .loadSchedule request id change => start s request (loadSchedule s.database id change)
  | .newJob request data => start s request (newJob s.database data)
  | .loadJob request id change => start s request (loadJob s.database id change)
  | .read request => (s.requests request).bind (fun q => (readNext s.database q).map (resume s request))
  | .commit request => (s.requests request).bind (fun q => (commitNext s.database q).map (answer s request))
  | .writeRuns runs => some { s with database := { s.database with runs := runs } }

/-- The columns that assign a job all stay as they are, or those that the
statement leaves unwritten still hold the loaded values. -/
def JobKept (row new current : Job) : Prop :=
  (Unmoved row.hostId new.hostId current.hostId ∧ Unmoved row.repositoryId new.repositoryId current.repositoryId) ∨
    (Kept row.hostId new.hostId current.hostId ∧ Kept row.repositoryId new.repositoryId current.repositoryId)

instance (row new current : Job) : Decidable (JobKept row new current) :=
  inferInstanceAs (Decidable (_ ∨ _))

/-- The column that the target mode of the request reads. -/
def OwnTargetsKept (row new current : BackupSchedule) : Prop :=
  match new.targetMode with
  | .hosts => Kept row.targetHostIds new.targetHostIds current.targetHostIds
  | .repository => Kept row.targetRepositoryId new.targetRepositoryId current.targetRepositoryId
  | .jobs => Kept row.targetJobIds new.targetJobIds current.targetJobIds

instance (row new current : BackupSchedule) : Decidable (OwnTargetsKept row new current) :=
  match new with
  | ⟨_, _, _, .hosts, _, _, _, _, _⟩ => inferInstanceAs (Decidable (Kept _ _ _))
  | ⟨_, _, _, .repository, _, _, _, _, _⟩ => inferInstanceAs (Decidable (Kept _ _ _))
  | ⟨_, _, _, .jobs, _, _, _, _, _⟩ => inferInstanceAs (Decidable (Kept _ _ _))

/-- Every column that assigns jobs to the schedule stays as it is. -/
def TargetsUnmoved (row new current : BackupSchedule) : Prop :=
  Unmoved row.enabled new.enabled current.enabled ∧ Unmoved row.targetMode new.targetMode current.targetMode ∧
    Unmoved row.targetHostIds new.targetHostIds current.targetHostIds ∧
    Unmoved row.targetRepositoryId new.targetRepositoryId current.targetRepositoryId ∧
    Unmoved row.targetJobIds new.targetJobIds current.targetJobIds

instance (row new current : BackupSchedule) : Decidable (TargetsUnmoved row new current) :=
  inferInstanceAs (Decidable (_ ∧ _ ∧ _ ∧ _ ∧ _))

def ScheduleKept (row new current : BackupSchedule) : Prop :=
  TargetsUnmoved row new current ∨
    (Kept row.enabled new.enabled current.enabled ∧
      (new.enabled = true → Kept row.targetMode new.targetMode current.targetMode ∧ OwnTargetsKept row new current))

instance (row new current : BackupSchedule) : Decidable (ScheduleKept row new current) :=
  inferInstanceAs (Decidable (_ ∨ (_ ∧ (_ → _ ∧ _))))

/-- A list of jobs that the deletion of a job shortens is still the loaded one. -/
def ReferenceKept (jobId : Nat) (loaded current : BackupSchedule) : Prop :=
  remainingJobIds jobId loaded ≠ [] → remainingJobIds jobId loaded ≠ loaded.targetJobIds →
    current.targetJobIds = loaded.targetJobIds

instance (jobId : Nat) (loaded current : BackupSchedule) : Decidable (ReferenceKept jobId loaded current) :=
  inferInstanceAs (Decidable (_ → _ → _))

/-- The transaction of a request commits the assignment that the request has
validated, or leaves the assignment as it is: no other request has changed,
since the row was loaded, what the statement leaves unwritten. -/
def RequestKept (db : Database) : Request → Prop
  | .updateSchedule row data =>
      ∀ current ∈ db.schedules.rows, current.id = row.id → ScheduleKept row (scheduleRow row.id data) current
  | .updateJob row data => ∀ current ∈ db.jobs.rows, current.id = row.id → JobKept row (applyJob row data) current
  | .deleteJobReferences row schedules =>
      ∀ current ∈ db.schedules.rows, ∀ loaded ∈ schedules, loaded.id = current.id → ReferenceKept row.id loaded current
  | _ => True

instance (db : Database) : (q : Request) → Decidable (RequestKept db q)
  | .updateSchedule row data => inferInstanceAs (Decidable
      (∀ current ∈ db.schedules.rows, current.id = row.id → ScheduleKept row (scheduleRow row.id data) current))
  | .updateJob row data => inferInstanceAs (Decidable
      (∀ current ∈ db.jobs.rows, current.id = row.id → JobKept row (applyJob row data) current))
  | .deleteJobReferences row schedules => inferInstanceAs (Decidable
      (∀ current ∈ db.schedules.rows, ∀ loaded ∈ schedules, loaded.id = current.id →
        ReferenceKept row.id loaded current))
  | .deleteSchedule _ | .newJob _ _ | .reservedJob _ _ | .createJob _ _ | .disablingJob _ | .setJobEnabled _ _
  | .deletingJob _ | .countedJob _ | .deleteJob _ _ => .isTrue trivial

def LoadedKept (s : Manager) : Event → Prop
  | .commit request => ∀ q ∈ s.requests request, RequestKept s.database q
  | _ => True

instance (s : Manager) : (e : Event) → Decidable (LoadedKept s e)
  | .commit request => inferInstanceAs (Decidable (∀ q ∈ s.requests request, RequestKept s.database q))
  | .createSchedule _ | .loadSchedule _ _ _ | .newJob _ _ | .loadJob _ _ _ | .read _ | .writeRuns _ => .isTrue trivial

structure Started (s : Manager) : Prop where
  valid : Valid s.database
  exclusive : Exclusive s.database
  idle : ∀ request, s.requests request = none

end BorgManager.ScheduleRequests
