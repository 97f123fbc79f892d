import BorgManager.Histories
import BorgManager.KeyedTables
import BorgManager.Records

namespace BorgManager.LiveRuns

open Histories KeyedTables
open Records (Action Status nextId)

structure Host where
  id : Nat
  enabled : Bool
  deriving DecidableEq

structure Repository where
  id : Nat
  enabled : Bool
  managed : Bool
  initialized : Bool
  deriving DecidableEq

structure Job where
  id : Nat
  hostId : Nat
  repositoryId : Nat
  enabled : Bool
  deriving DecidableEq

/-- A run with the device that its command reaches. -/
structure Run where
  id : Nat
  jobId : Option Nat
  repositoryId : Option Nat
  action : Action
  status : Status
  device : Option Nat
  deriving DecidableEq

/-- The tables, the numbers that jobs have had, and the repositories whose
initialisation the process remembers. -/
structure Database where
  hosts : Table Host Host.id
  repositories : Table Repository Repository.id
  jobs : Table Job Job.id
  runs : Table Run Run.id
  reserved : List Nat
  initializing : List Nat

/-- What a request finds outside of the tables. -/
structure Answers where
  present : Bool
  accessReady : Bool
  guardBlocked : Bool
  built : Bool
  mounted : Bool

def Database.empty : Database := ⟨.empty, .empty, .empty, .empty, [], []⟩

namespace Database

variable (db : Database)

def busyJob (id : Nat) : Prop := ∃ run ∈ db.runs.rows, run.jobId = some id ∧ run.status.active = true

def busyRepository (id : Nat) : Prop := ∃ run ∈ db.runs.rows, run.repositoryId = some id ∧ run.status.active = true

def busyHost (id : Nat) : Prop :=
  ∃ run ∈ db.runs.rows, run.status.active = true ∧ ∃ job ∈ db.jobs.rows, run.jobId = some job.id ∧ job.hostId = id

instance (id : Nat) : Decidable (db.busyJob id) := inferInstanceAs (Decidable (∃ run ∈ _, _))

instance (id : Nat) : Decidable (db.busyRepository id) := inferInstanceAs (Decidable (∃ run ∈ _, _))

instance (id : Nat) : Decidable (db.busyHost id) := inferInstanceAs (Decidable (∃ run ∈ _, _))

def createHost (enabled : Bool) : Option Database :=
  (db.hosts.insert ⟨nextId db.hosts.ids, enabled⟩).map (fun hosts => { db with hosts := hosts })

/-- `_apply_host_enabled_state`: a device that is switched off takes its jobs
with it, and a job that runs keeps it on. -/
def applyHostEnabledState (id : Nat) (enabled : Bool) : Option Database :=
  if id ∉ db.hosts.ids then none
  else if enabled = false ∧ db.busyHost id then none
  else some { db with
    hosts := db.hosts.map (fun host => if host.id = id then { host with enabled := enabled } else host) (by
      intro host
      split <;> rfl)
    jobs := db.jobs.map (fun job => if job.hostId = id ∧ enabled = false then { job with enabled := false }
      else job) (by
      intro job
      split <;> rfl) }

def deleteHost (id : Nat) : Option Database :=
  if id ∉ db.hosts.ids ∨ ∃ job ∈ db.jobs.rows, job.hostId = id then none
  else some { db with hosts := db.hosts.delete id }

/-- A new or an imported repository. -/
def createRepository (enabled managed : Bool) : Option Database :=
  (db.repositories.insert ⟨nextId db.repositories.ids, enabled, managed, false⟩).map
    (fun repositories => { db with repositories := repositories })

def setRepositoryEnabledState (id : Nat) (enabled : Bool) : Option Database :=
  if id ∉ db.repositories.ids then none
  else if ∃ r ∈ db.repositories.rows, r.id = id ∧ r.enabled = enabled then some db
  else if enabled = false ∧ db.busyRepository id then none
  else some { db with
    repositories := db.repositories.map (fun r => if r.id = id then { r with enabled := enabled } else r) (by
      intro r
      split <;> rfl) }

/-- A test, an initialisation, an import, a change of the connection and a
reset write whether a repository counts as initialised. -/
def judgeRepository (id : Nat) (initialized : Bool) : Option Database :=
  some { db with
    repositories := db.repositories.map (fun r => if r.id = id then { r with initialized := initialized } else r) (by
      intro r
      split <;> rfl) }

/-- The history of a repository that goes. -/
def runsWithoutRepository (id : Nat) : Table Run Run.id :=
  db.runs.map (fun run => if run.repositoryId = some id then { run with repositoryId := none } else run) (by
    intro run
    split <;> rfl)

def deleteRepository (id : Nat) (answers : Answers) : Option Database :=
  if id ∉ db.repositories.ids ∨ (∃ job ∈ db.jobs.rows, job.repositoryId = id) ∨ answers.mounted ∨
      db.busyRepository id then none
  else some { db with repositories := db.repositories.delete id, runs := db.runsWithoutRepository id }

/-- An import that failed removes its repository. Foreign keys refuse it as
long as a job or a run refers to it. -/
def withdrawImport (id : Nat) : Option Database :=
  if (∃ job ∈ db.jobs.rows, job.repositoryId = id) ∨ ∃ run ∈ db.runs.rows, run.repositoryId = some id then none
  else some { db with repositories := db.repositories.delete id }

def allocateJobId : Nat := nextId (db.jobs.ids ++ db.reserved ++ db.runs.rows.filterMap Run.jobId)

def createJob (hostId repositoryId : Nat) (enabled : Bool) : Option Database :=
  if hostId ∉ db.hosts.ids ∨ repositoryId ∉ db.repositories.ids then none
  else
    (db.jobs.insert ⟨db.allocateJobId, hostId, repositoryId, enabled⟩).map
      (fun jobs => { db with jobs := jobs, reserved := db.allocateJobId :: db.reserved })

/-- `update_job` asks for no run. -/
def updateJob (id hostId repositoryId : Nat) (enabled : Bool) : Option Database :=
  if id ∉ db.jobs.ids ∨ hostId ∉ db.hosts.ids ∨ repositoryId ∉ db.repositories.ids then none
  else some { db with
    jobs := db.jobs.map
      (fun job => if job.id = id then
        { job with hostId := hostId, repositoryId := repositoryId, enabled := enabled } else job) (by
        intro job
        split <;> rfl) }

def setJobEnabled (id : Nat) (enabled : Bool) : Option Database :=
  if id ∉ db.jobs.ids then none
  else if enabled = false ∧ db.busyJob id then none
  else some { db with
    jobs := db.jobs.map (fun job => if job.id = id then { job with enabled := enabled } else job) (by
      intro job
      split <;> rfl) }

/-- The history of a job that goes. -/
def runsWithoutJob (id : Nat) : Table Run Run.id :=
  db.runs.map (fun run => if run.jobId = some id then { run with jobId := none } else run) (by
    intro run
    split <;> rfl)

def deleteJob (id : Nat) : Option Database :=
  if id ∉ db.jobs.ids ∨ db.busyJob id then none
  else some { db with jobs := db.jobs.delete id, runs := db.runsWithoutJob id }

def enqueue (jobId repositoryId : Option Nat) (action : Action) (device : Option Nat) : Option Database :=
  (db.runs.insert ⟨nextId db.runs.ids, jobId, repositoryId, action, .queued, device⟩).map
    (fun runs => { db with runs := runs })

end Database

/-- The actions whose command goes to the device. -/
def onDevice : Action → Bool
  | .backup | .sourceStats | .version | .probe | .confirmLocation | .restore => true
  | _ => false

def jobActions : List Action :=
  [.backup, .sourceStats, .prune, .list, .listAll, .info, .check, .verify, .compact, .version, .probe,
    .confirmLocation, .restore,
    .deleteArchive, .renameArchive, .diffArchives]

/-- What a managed repository is asked for before an action of a job. -/
def managedReady (repository : Repository) (action : Action) (answers : Answers) : Prop :=
  (action ∉ [.version, .sourceStats] → repository.initialized = true ∧ answers.present = true) ∧
    (action ∈ [.backup, .restore, .probe, .confirmLocation] → answers.accessReady = true) ∧
      (action = .backup → answers.guardBlocked = false)

instance (repository : Repository) (action : Action) (answers : Answers) :
    Decidable (managedReady repository action answers) :=
  inferInstanceAs (Decidable (_ ∧ _))

namespace Database

variable (db : Database)

/-- A confirmation for the same device and repository that is still to come. -/
def confirming (job : Job) : Prop :=
  ∃ run ∈ db.runs.rows, run.action = .confirmLocation ∧ run.repositoryId = some job.repositoryId ∧
    run.status.active = true ∧
    ∃ owner ∈ db.jobs.rows, run.jobId = some owner.id ∧ owner.hostId = job.hostId

instance (job : Job) : Decidable (db.confirming job) := inferInstanceAs (Decidable (∃ run ∈ _, _))

def reachable (job : Job) : Prop := ∃ host ∈ db.hosts.rows, host.id = job.hostId ∧ host.enabled = true

instance (job : Job) : Decidable (db.reachable job) := inferInstanceAs (Decidable (∃ host ∈ _, _))

def queueJobAction (jobId : Nat) (action : Action) (answers : Answers) : Option Database := do
  let job ← db.jobs.find? jobId
  let repository ← db.repositories.find? job.repositoryId
  if repository.enabled = false then none
  else if action = .confirmLocation ∧ db.confirming job then some db
  else if db.busyJob jobId then none
  else if repository.managed = true ∧ ¬managedReady repository action answers then none
  else if action ∉ jobActions ∨ answers.built = false ∨ (onDevice action = true ∧ ¬db.reachable job) then none
  else db.enqueue (some jobId) (some job.repositoryId) action (if onDevice action then some job.hostId else none)

/-- A run for a whole repository, alone among the runs of the repository. -/
def queueRepositoryRun (repositoryId : Nat) (action : Action) (answers : Answers) : Option Database := do
  let repository ← db.repositories.find? repositoryId
  if repository.enabled = false ∨ (action ≠ .repositoryTest ∧ repository.initialized = false) ∨
      (repository.managed = true ∧ answers.present = false) ∨ db.busyRepository repositoryId ∨
        answers.built = false then none
  else db.enqueue none (some repositoryId) action none

def queueRepositoryAction (repositoryId : Nat) (action : Action) (answers : Answers) : Option Database :=
  if action ∈ [.repositoryTest, .compact, .deleteArchive] then
    db.queueRepositoryRun repositoryId action answers else none

def queueRepositoryArchiveRefresh (repositoryId : Nat) (answers : Answers) : Option Database :=
  db.queueRepositoryRun repositoryId .archiveRefresh answers

def queueRepositoryInit (repositoryId : Nat) (answers : Answers) : Option Database := do
  let repository ← db.repositories.find? repositoryId
  if repositoryId ∈ db.initializing ∨ repository.enabled = false ∨
      repository.initialized = true ∨ repository.managed = false ∨
      answers.built = false then none
  else
    Database.enqueue { db with initializing := repositoryId :: db.initializing } none (some repositoryId)
      .repositoryInit none

def queueHostSshAction (hostId : Nat) (answers : Answers) : Option Database := do
  let host ← db.hosts.find? hostId
  if host.enabled = false ∨ answers.built = false then none else db.enqueue none none .sshCommand (some hostId)

def setStatus (id : Nat) (status : Status) : Table Run Run.id :=
  db.runs.map (fun run => if run.id = id then { run with status := status } else run) (by
    intro run
    split <;> rfl)

def claimRun (id : Nat) : Option Database :=
  if ∃ run ∈ db.runs.rows, run.id = id ∧ run.status = .queued then some { db with runs := db.setStatus id .running }
  else none

def finishRun (id : Nat) (status : Status) : Option Database :=
  if status.terminal = true ∧ ∃ run ∈ db.runs.rows, run.id = id ∧ run.status.active = true then
    some { db with runs := db.setStatus id status }
  else none

/-- The last step of an initialisation. It comes in every case, also when the
task was cancelled before its run had ended. -/
def forgetInit (repositoryId : Nat) : Database := { db with initializing := db.initializing.filter (· ≠ repositoryId) }

/-- The deletion of one run and the cleanup of the history. -/
def runsWithout (ids : List Nat) : Table Run Run.id :=
  db.runs.rewrite (fun run => if run.id ∈ ids ∧ run.status.active = false then none else some run) (by
    intro run run' h
    exact congrArg Run.id (Option.some.inj (Option.ite_none_left_eq_some.mp h).2).symm)

def deleteRuns (ids : List Nat) : Database := { db with runs := db.runsWithout ids }

def interruptedRuns : Table Run Run.id :=
  db.runs.map (fun run => if run.status.active = true then { run with status := .failed } else run) (by
    intro run
    split <;> rfl)

/-- `recover_interrupted_runs` in a new process. -/
def recoverInterruptedRuns : Database := { db with runs := db.interruptedRuns, initializing := [] }

end Database

inductive Request
  | createHost (enabled : Bool)
  | applyHostEnabledState (id : Nat) (enabled : Bool)
  | deleteHost (id : Nat)
  | createRepository (enabled managed : Bool)
  | setRepositoryEnabledState (id : Nat) (enabled : Bool)
  | judgeRepository (id : Nat) (initialized : Bool)
  | deleteRepository (id : Nat) (answers : Answers)
  | withdrawImport (id : Nat)
  | createJob (hostId repositoryId : Nat) (enabled : Bool)
  | updateJob (id hostId repositoryId : Nat) (enabled : Bool)
  | setJobEnabled (id : Nat) (enabled : Bool)
  | deleteJob (id : Nat)
  | queueJobAction (jobId : Nat) (action : Action) (answers : Answers)
  | queueRepositoryAction (repositoryId : Nat) (action : Action) (answers : Answers)
  | queueRepositoryArchiveRefresh (repositoryId : Nat) (answers : Answers)
  | queueRepositoryInit (repositoryId : Nat) (answers : Answers)
  | queueHostSshAction (hostId : Nat) (answers : Answers)
  | claimRun (id : Nat)
  | finishRun (id : Nat) (status : Status)
  | forgetInit (repositoryId : Nat)
  | deleteRuns (ids : List Nat)
  | recoverInterruptedRuns

/-- What a request leaves, or nothing where it is refused. -/
def next (db : Database) : Request → Option Database
  | .createHost enabled => db.createHost enabled
  | .applyHostEnabledState id enabled => db.applyHostEnabledState id enabled
  | .deleteHost id => db.deleteHost id
  | .createRepository enabled managed => db.createRepository enabled managed
  | .setRepositoryEnabledState id enabled => db.setRepositoryEnabledState id enabled
  | .judgeRepository id initialized => db.judgeRepository id initialized
  | .deleteRepository id answers => db.deleteRepository id answers
  | .withdrawImport id => db.withdrawImport id
  | .createJob hostId repositoryId enabled => db.createJob hostId repositoryId enabled
  | .updateJob id hostId repositoryId enabled => db.updateJob id hostId repositoryId enabled
  | .setJobEnabled id enabled => db.setJobEnabled id enabled
  | .deleteJob id => db.deleteJob id
  | .queueJobAction jobId action answers => db.queueJobAction jobId action answers
  | .queueRepositoryAction repositoryId action answers => db.queueRepositoryAction repositoryId action answers
  | .queueRepositoryArchiveRefresh repositoryId answers => db.queueRepositoryArchiveRefresh repositoryId answers
  | .queueRepositoryInit repositoryId answers => db.queueRepositoryInit repositoryId answers
  | .queueHostSshAction hostId answers => db.queueHostSshAction hostId answers
  | .claimRun id => db.claimRun id
  | .finishRun id status => db.finishRun id status
  | .forgetInit repositoryId => some (db.forgetInit repositoryId)
  | .deleteRuns ids => some (db.deleteRuns ids)
  | .recoverInterruptedRuns => some db.recoverInterruptedRuns

/-- Two runs of one job, or two for the whole of one repository; an
initialisation only competes with another, and only under the condition. -/
def Competing (strict : Prop) (run other : Run) : Prop :=
  (∃ id, run.jobId = some id ∧ other.jobId = some id) ∨
    (run.jobId = none ∧ other.jobId = none ∧ (∃ id, run.repositoryId = some id ∧ other.repositoryId = some id) ∧
      (run.action = .repositoryInit ↔ other.action = .repositoryInit) ∧ (run.action = .repositoryInit → strict))

theorem Competing.symm {strict : Prop} {run other : Run} (h : Competing strict run other) :
    Competing strict other run := by
  rcases h with ⟨id, hrun, hother⟩ | ⟨hrun, hother, ⟨id, hid, hid'⟩, haction, hstrict⟩
  · exact .inl ⟨id, hother, hrun⟩
  · exact .inr ⟨hother, hrun, ⟨id, hid', hid⟩, haction.symm, fun hinit => hstrict (haction.mpr hinit)⟩

/-- Where a live run works: on a repository that is switched on, or only on a
device. -/
def Placed (db : Database) (run : Run) : Prop :=
  run.action = .sshCommand ∨ ∃ repository ∈ db.repositories.rows, run.repositoryId = some repository.id ∧
    repository.enabled = true

structure Sound (strict : Prop) (db : Database) : Prop where
  jobHost : ∀ job ∈ db.jobs.rows, job.hostId ∈ db.hosts.ids
  jobRepository : ∀ job ∈ db.jobs.rows, job.repositoryId ∈ db.repositories.ids
  runJob : ∀ run ∈ db.runs.rows, ∀ id, run.jobId = some id → id ∈ db.jobs.ids
  runRepository : ∀ run ∈ db.runs.rows, ∀ id, run.repositoryId = some id → id ∈ db.repositories.ids
  placed : ∀ run ∈ db.runs.rows, run.status.active = true → Placed db run
  alone : ∀ run ∈ db.runs.rows, ∀ other ∈ db.runs.rows, run.status.active = true → other.status.active = true →
    Competing strict run other → run = other
  remembered : strict → ∀ run ∈ db.runs.rows, run.status.active = true → run.action = .repositoryInit →
    ∀ id, run.repositoryId = some id → id ∈ db.initializing

/-- What may happen to a run that is not new: it loses a reference, or goes on
with all of them. -/
structure Continues (run' run : Run) : Prop where
  job : ∀ id, run'.jobId = some id → run.jobId = some id
  repository : ∀ id, run'.repositoryId = some id → run.repositoryId = some id
  live : run'.status.active = true →
    run.status.active = true ∧ run'.jobId = run.jobId ∧ run'.repositoryId = run.repositoryId ∧ run'.action = run.action
  device : run'.device = run.device

theorem Continues.refl (run : Run) : Continues run run := ⟨fun _ h => h, fun _ h => h, fun h => ⟨h, rfl, rfl, rfl⟩, rfl⟩

def sampleAnswers : Answers := ⟨true, true, false, true, false⟩

/-- Two devices and a job that is moved to the first of them. Its backup has
begun when it is edited once more. -/
def sampleRequests : List Request :=
  [.createHost true, .createHost true, .createRepository true false, .createJob 2 1 true, .updateJob 1 1 1 true,
    .queueJobAction 1 .backup sampleAnswers, .claimRun 1, .updateJob 1 1 1 false]

def sampleRun : Run := ⟨1, some 1, some 1, .backup, .running, some 1⟩

/-- The last step of an initialisation comes after the end of its run. -/
def InitEnded (db : Database) : Request → Prop
  | .forgetInit repositoryId =>
      ¬∃ run ∈ db.runs.rows, run.action = .repositoryInit ∧ run.repositoryId = some repositoryId ∧
        run.status.active = true
  | _ => True

instance (db : Database) : ∀ request, Decidable (InitEnded db request)
  | .forgetInit .. => inferInstanceAs (Decidable (¬∃ run ∈ _, _))
  | .createHost .. | .applyHostEnabledState .. | .deleteHost .. | .createRepository ..
  | .setRepositoryEnabledState .. | .judgeRepository ..
  | .deleteRepository .. | .withdrawImport .. | .createJob .. | .updateJob .. | .setJobEnabled ..
  | .deleteJob .. | .queueJobAction ..
  | .queueRepositoryAction .. | .queueRepositoryArchiveRefresh .. | .queueRepositoryInit ..
  | .queueHostSshAction .. | .claimRun ..
  | .finishRun .. | .deleteRuns .. | .recoverInterruptedRuns => inferInstanceAs (Decidable True)

section Soundness

variable {strict : Prop} {db db' : Database}

theorem sound_empty : Sound strict .empty where
  jobHost := List.forall_mem_nil _
  jobRepository := List.forall_mem_nil _
  runJob := List.forall_mem_nil _
  runRepository := List.forall_mem_nil _
  placed := List.forall_mem_nil _
  alone := List.forall_mem_nil _
  remembered := fun _ => List.forall_mem_nil _

/-- No run is new. -/
def Continued (db : Database) (runs : Table Run Run.id) : Prop :=
  ∃ f : Run → Run, ∀ run' ∈ runs.rows, ∃ run ∈ db.runs.rows, f run = run' ∧ Continues run' run

theorem continued_map {f : Run → Run} {hf : ∀ run, (f run).id = run.id}
    (h : ∀ run ∈ db.runs.rows, Continues (f run) run) :
    Continued db (db.runs.map f hf) := by
  refine ⟨f, ?_⟩
  intro run' hrun'
  obtain ⟨run, hrun, rfl⟩ := List.mem_map.mp hrun'
  exact ⟨run, hrun, rfl, h run hrun⟩

theorem Sound.continue (h : Sound strict db) {runs : Table Run Run.id} (hruns : Continued db runs) :
    Sound strict { db with runs := runs } := by
  obtain ⟨f, hruns⟩ := hruns
  refine { h with runJob := ?_, runRepository := ?_, placed := ?_, alone := ?_, remembered := ?_ }
  · intro run' hrun' id hid
    obtain ⟨run, hrun, -, hcontinues⟩ := hruns run' hrun'
    exact h.runJob run hrun id (hcontinues.job id hid)
  · intro run' hrun' id hid
    obtain ⟨run, hrun, -, hcontinues⟩ := hruns run' hrun'
    exact h.runRepository run hrun id (hcontinues.repository id hid)
  · intro run' hrun' hlive
    obtain ⟨run, hrun, -, hcontinues⟩ := hruns run' hrun'
    obtain ⟨hactive, -, hrepository, haction⟩ := hcontinues.live hlive
    rw [Placed, haction, hrepository]
    exact h.placed run hrun hactive
  · intro run' hrun' other' hother' hlive hlive' hcompeting
    obtain ⟨run, hrun, rfl, hcontinues⟩ := hruns run' hrun'
    obtain ⟨other, hother, rfl, hcontinues'⟩ := hruns other' hother'
    obtain ⟨hactive, hjob, hrepository, haction⟩ := hcontinues.live hlive
    obtain ⟨hactive', hjob', hrepository', haction'⟩ := hcontinues'.live hlive'
    rw [Competing, hjob, hjob', hrepository, hrepository', haction, haction'] at hcompeting
    rw [h.alone run hrun other hother hactive hactive' hcompeting]
  · intro hstrict run' hrun' hlive hinit id hid
    obtain ⟨run, hrun, -, hcontinues⟩ := hruns run' hrun'
    obtain ⟨hactive, -, hrepository, haction⟩ := hcontinues.live hlive
    rw [haction] at hinit
    rw [hrepository] at hid
    exact h.remembered hstrict run hrun hactive hinit id hid

theorem continued_runsWithoutRepository {id : Nat} (hidle : ¬db.busyRepository id) :
    Continued db (db.runsWithoutRepository id) := by
  refine continued_map ?_
  intro run hrun
  split
  · next hid => exact ⟨fun _ hj => hj, by rintro _ ⟨⟩, fun hlive => absurd ⟨run, hrun, hid, hlive⟩ hidle, rfl⟩
  · exact .refl run

theorem continued_runsWithoutJob {id : Nat} (hidle : ¬db.busyJob id) : Continued db (db.runsWithoutJob id) := by
  refine continued_map ?_
  intro run hrun
  split
  · next hid => exact ⟨by rintro _ ⟨⟩, fun _ hr => hr, fun hlive => absurd ⟨run, hrun, hid, hlive⟩ hidle, rfl⟩
  · exact .refl run

theorem continued_setStatus {id : Nat} {status : Status}
    (hlive : status.active = true → ∀ run ∈ db.runs.rows, run.id = id → run.status.active = true) :
    Continued db (db.setStatus id status) := by
  refine continued_map ?_
  intro run hrun
  split
  · next hid => exact ⟨fun _ hj => hj, fun _ hr => hr, fun hactive => ⟨hlive hactive run hrun hid, rfl, rfl, rfl⟩, rfl⟩
  · exact .refl run

theorem continued_claimRun {id : Nat} (hnext : db.claimRun id = some db') :
    ∃ runs, Continued db runs ∧ db' = { db with runs := runs } := by
  rw [Database.claimRun] at hnext
  split at hnext
  · next hfound =>
      cases hnext
      obtain ⟨run, hrun, hid, hqueued⟩ := hfound
      refine ⟨_, continued_setStatus ?_, rfl⟩
      intro _ other hother hother'
      rw [db.runs.eq_of_key hother hrun (hother'.trans hid.symm), hqueued]
      rfl
  · cases hnext

theorem continued_finishRun {id : Nat} {status : Status} (hnext : db.finishRun id status = some db') :
    ∃ runs, Continued db runs ∧ db' = { db with runs := runs } := by
  rw [Database.finishRun] at hnext
  split at hnext
  · next hfound =>
      cases hnext
      refine ⟨_, continued_setStatus ?_, rfl⟩
      intro hactive
      have hended := hfound.1
      rw [Records.Status.terminal_eq_not_active, hactive] at hended
      cases hended
  · cases hnext

theorem continued_runsWithout (ids : List Nat) : Continued db (db.runsWithout ids) := by
  refine ⟨id, ?_⟩
  intro run' hrun'
  obtain ⟨run, hrun, hkept⟩ := Table.mem_rewrite.mp hrun'
  have heq : run = run' := Option.some.inj (Option.ite_none_left_eq_some.mp hkept).2
  subst heq
  exact ⟨run, hrun, rfl, .refl run⟩

/-- A new process finds no live run. -/
theorem ended_interruptedRuns : ∀ run ∈ db.interruptedRuns.rows, run.status.active = false := by
  intro run' hrun'
  obtain ⟨run, hrun, rfl⟩ := List.mem_map.mp hrun'
  split
  · rfl
  · next hended => exact eq_false_of_ne_true hended

theorem Sound.enqueue (h : Sound strict db) {jobId repositoryId : Option Nat} {action : Action} {device : Option Nat}
    (hjob : ∀ id, jobId = some id → id ∈ db.jobs.ids)
    (hrepository : ∀ id, repositoryId = some id → id ∈ db.repositories.ids)
    (hplaced : ∀ id status, Placed db ⟨id, jobId, repositoryId, action, status, device⟩)
    (halone : ∀ other ∈ db.runs.rows, other.status.active = true → ∀ id status,
      ¬Competing strict ⟨id, jobId, repositoryId, action, status, device⟩ other) (hremembered :
    strict → action = .repositoryInit → ∀ id, repositoryId = some id → id ∈ db.initializing) (hnext :
    db.enqueue jobId repositoryId action device = some db') : Sound strict db' := by
  rw [Database.enqueue, Option.map_eq_some_iff] at hnext
  obtain ⟨runs, hinsert, rfl⟩ := hnext
  have hmem := Table.mem_insert hinsert
  refine { h with runJob := ?_, runRepository := ?_, placed := ?_, alone := ?_, remembered := ?_ }
  · intro run hrun id hid
    rcases (hmem run).mp hrun with hrun | rfl
    · exact h.runJob run hrun id hid
    · exact hjob id hid
  · intro run hrun id hid
    rcases (hmem run).mp hrun with hrun | rfl
    · exact h.runRepository run hrun id hid
    · exact hrepository id hid
  · intro run hrun hlive
    rcases (hmem run).mp hrun with hrun | rfl
    · exact h.placed run hrun hlive
    · exact hplaced _ _
  · intro run hrun other hother hlive hlive' hcompeting
    rcases (hmem run).mp hrun with hrun | rfl
    · rcases (hmem other).mp hother with hother | rfl
      · exact h.alone run hrun other hother hlive hlive' hcompeting
      · exact absurd hcompeting.symm (halone run hrun hlive _ _)
    · rcases (hmem other).mp hother with hother | rfl
      · exact absurd hcompeting (halone other hother hlive' _ _)
      · rfl
  · intro hstrict run hrun hlive hinit id hid
    rcases (hmem run).mp hrun with hrun | rfl
    · exact h.remembered hstrict run hrun hlive hinit id hid
    · exact hremembered hstrict hinit id hid

/-- The other tables change: what runs and jobs refer to stays, and so does
what a live run works on. -/
theorem Sound.tables (h : Sound strict db) {hosts : Table Host Host.id}
    {repositories : Table Repository Repository.id} {jobs : Table Job Job.id} {reserved : List Nat}
    (hjobs : ∀ job ∈ jobs.rows, job.hostId ∈ hosts.ids ∧ job.repositoryId ∈ repositories.ids)
    (hrunJob : ∀ run ∈ db.runs.rows, ∀ id, run.jobId = some id → id ∈ jobs.ids)
    (hrunRepository : ∀ run ∈ db.runs.rows, ∀ id, run.repositoryId = some id → id ∈ repositories.ids)
    (hplaced : ∀ repository ∈ db.repositories.rows, repository.enabled = true → db.busyRepository repository.id →
      ∃ repository' ∈ repositories.rows, repository'.id = repository.id ∧ repository'.enabled = true) :
    Sound strict { db with hosts := hosts, repositories := repositories, jobs := jobs, reserved := reserved } where
  jobHost := fun job hjob => (hjobs job hjob).1
  jobRepository := fun job hjob => (hjobs job hjob).2
  runJob := hrunJob
  runRepository := hrunRepository
  placed := by
    intro run hrun hlive
    rcases h.placed run hrun hlive with hssh | ⟨repository, hmem, hid, henabled⟩
    · exact .inl hssh
    · obtain ⟨repository', hmem', hid', henabled'⟩ := hplaced repository hmem henabled ⟨run, hrun, hid, hlive⟩
      exact .inr ⟨repository', hmem', by rw [hid, hid'], henabled'⟩
  alone := h.alone
  remembered := h.remembered

theorem Sound.jobs (h : Sound strict db) :
    ∀ job ∈ db.jobs.rows, job.hostId ∈ db.hosts.ids ∧ job.repositoryId ∈ db.repositories.ids :=
  fun job hjob => ⟨h.jobHost job hjob, h.jobRepository job hjob⟩

theorem keeps_repositories :
    ∀ repository ∈ db.repositories.rows, repository.enabled = true → db.busyRepository repository.id →
    ∃ repository' ∈ db.repositories.rows, repository'.id = repository.id ∧ repository'.enabled = true :=
  fun repository hmem henabled _ => ⟨repository, hmem, rfl, henabled⟩

theorem ids_insert {Row : Type} {key : Row → Nat} {t u : Table Row key} {row : Row}
    (h : t.insert row = some u) {id : Nat} (hid : id ∈ t.ids) : id ∈ u.ids := by
  obtain ⟨r, hr, rfl⟩ := Table.mem_ids.mp hid
  exact Table.mem_ids.mpr ⟨r, (Table.mem_insert h r).mpr (.inl hr), rfl⟩

theorem ids_delete {Row : Type} {key : Row → Nat} {t : Table Row key} {id other : Nat} (hid : other ∈ t.ids)
    (hne : other ≠ id) :
    other ∈ (t.delete id).ids := by
  obtain ⟨r, hr, rfl⟩ := Table.mem_ids.mp hid
  exact Table.mem_ids.mpr ⟨r, Table.mem_delete.mpr ⟨hr, hne⟩, rfl⟩

theorem sound_createHost (h : Sound strict db) {enabled : Bool} (hnext : db.createHost enabled = some db') :
    Sound strict db' := by
  rw [Database.createHost, Option.map_eq_some_iff] at hnext
  obtain ⟨hosts, hinsert, rfl⟩ := hnext
  exact h.tables (fun job hjob => ⟨ids_insert hinsert (h.jobHost job hjob), h.jobRepository job hjob⟩) h.runJob
    h.runRepository
    keeps_repositories

theorem sound_applyHostEnabledState (h : Sound strict db) {id : Nat} {enabled : Bool}
    (hnext : db.applyHostEnabledState id enabled = some db') : Sound strict db' := by
  rw [Database.applyHostEnabledState] at hnext
  split at hnext
  · cases hnext
  · split at hnext
    · cases hnext
    · cases hnext
      refine h.tables ?_ ?_ h.runRepository keeps_repositories
      · intro job' hjob'
        obtain ⟨job, hjob, rfl⟩ := List.mem_map.mp hjob'
        rw [Table.ids_map]
        split
        · exact h.jobs job hjob
        · exact h.jobs job hjob
      · intro run hrun j hj
        rw [Table.ids_map]
        exact h.runJob run hrun j hj

theorem sound_deleteHost (h : Sound strict db) {id : Nat} (hnext : db.deleteHost id = some db') : Sound strict db' := by
  rw [Database.deleteHost] at hnext
  split at hnext
  · cases hnext
  next hfree =>
    cases hnext
    rw [not_or] at hfree
    refine h.tables ?_ h.runJob h.runRepository keeps_repositories
    intro job hjob
    exact ⟨ids_delete (h.jobHost job hjob) (fun heq => hfree.2 ⟨job, hjob, heq⟩), h.jobRepository job hjob⟩

theorem sound_createRepository (h : Sound strict db) {enabled managed : Bool}
    (hnext : db.createRepository enabled managed = some db') :
    Sound strict db' := by
  rw [Database.createRepository, Option.map_eq_some_iff] at hnext
  obtain ⟨repositories, hinsert, rfl⟩ := hnext
  refine h.tables (fun job hjob => ⟨h.jobHost job hjob, ids_insert hinsert (h.jobRepository job hjob)⟩) h.runJob ?_ ?_
  · exact fun run hrun id hid => ids_insert hinsert (h.runRepository run hrun id hid)
  · exact fun repository hmem henabled _ => ⟨repository, (Table.mem_insert hinsert _).mpr (.inl hmem), rfl, henabled⟩

/-- A change of repositories that leaves on what a live run works on. -/
theorem Sound.repositories (h : Sound strict db) {f : Repository → Repository} {hf : ∀ r, (f r).id = r.id}
    (henabled : ∀ r ∈ db.repositories.rows, r.enabled = true → db.busyRepository r.id → (f r).enabled = true) :
    Sound strict { db with repositories := db.repositories.map f hf } := by
  refine h.tables ?_ h.runJob ?_ ?_
  · intro job hjob
    rw [Table.ids_map]
    exact h.jobs job hjob
  · intro run hrun id hid
    rw [Table.ids_map]
    exact h.runRepository run hrun id hid
  · intro r hr hon hbusy
    exact ⟨f r, List.mem_map.mpr ⟨r, hr, rfl⟩, hf r, henabled r hr hon hbusy⟩

theorem sound_setRepositoryEnabledState (h : Sound strict db) {id : Nat} {enabled : Bool}
    (hnext : db.setRepositoryEnabledState id enabled = some db') : Sound strict db' := by
  rw [Database.setRepositoryEnabledState] at hnext
  split at hnext
  · cases hnext
  · split at hnext
    · cases hnext
      exact h
    · split at hnext
      · cases hnext
      next hfree =>
        cases hnext
        refine h.repositories ?_
        intro r hr hon hbusy
        split
        · next hid =>
            rw [hid] at hbusy
            cases enabled with
            | true => rfl
            | false => exact absurd ⟨rfl, hbusy⟩ hfree
        · exact hon

theorem sound_judgeRepository (h : Sound strict db) {id : Nat} {initialized : Bool}
    (hnext : db.judgeRepository id initialized = some db') : Sound strict db' := by
  rw [Database.judgeRepository] at hnext
  cases hnext
  refine h.repositories ?_
  intro r hr hon hbusy
  split
  · exact hon
  · exact hon

/-- A repository that nothing refers to any more. -/
theorem Sound.dropRepository (h : Sound strict db) {id : Nat} (hjobs : ¬∃ job ∈ db.jobs.rows, job.repositoryId = id)
    (hruns : ∀ run ∈ db.runs.rows, run.repositoryId ≠ some id) :
    Sound strict { db with repositories := db.repositories.delete id } := by
  refine h.tables ?_ h.runJob ?_ ?_
  · intro job hjob
    exact ⟨h.jobHost job hjob, ids_delete (h.jobRepository job hjob) (fun heq => hjobs ⟨job, hjob, heq⟩)⟩
  · intro run hrun other hother
    refine ids_delete (h.runRepository run hrun other hother) ?_
    rintro rfl
    exact hruns run hrun hother
  · rintro r hr hon ⟨run, hrun, hid, -⟩
    refine ⟨r, Table.mem_delete.mpr ⟨hr, ?_⟩, rfl, hon⟩
    rintro rfl
    exact hruns run hrun hid

theorem sound_deleteRepository (h : Sound strict db) {id : Nat} {answers : Answers}
    (hnext : db.deleteRepository id answers = some db') :
    Sound strict db' := by
  rw [Database.deleteRepository] at hnext
  split at hnext
  · cases hnext
  next hfree =>
    cases hnext
    simp only [not_or] at hfree
    obtain ⟨-, hjobs, -, hidle⟩ := hfree
    have hcut := h.continue (continued_runsWithoutRepository hidle)
    refine hcut.dropRepository hjobs ?_
    intro run' hrun'
    obtain ⟨run, hrun, rfl⟩ := List.mem_map.mp hrun'
    split
    · rintro ⟨⟩
    · next hid => exact hid

theorem sound_withdrawImport (h : Sound strict db) {id : Nat} (hnext : db.withdrawImport id = some db') :
    Sound strict db' := by
  rw [Database.withdrawImport] at hnext
  split at hnext
  · cases hnext
  next hfree =>
    cases hnext
    rw [not_or] at hfree
    exact h.dropRepository hfree.1 (fun run hrun hid => hfree.2 ⟨run, hrun, hid⟩)

theorem sound_createJob (h : Sound strict db) {hostId repositoryId : Nat} {enabled : Bool}
    (hnext : db.createJob hostId repositoryId enabled = some db') : Sound strict db' := by
  rw [Database.createJob] at hnext
  split at hnext
  · cases hnext
  next hknown =>
    rw [not_or, not_not, not_not] at hknown
    rw [Option.map_eq_some_iff] at hnext
    obtain ⟨jobs, hinsert, rfl⟩ := hnext
    refine h.tables ?_ (fun run hrun id hid => ids_insert hinsert (h.runJob run hrun id hid)) h.runRepository
      keeps_repositories
    intro job hjob
    rcases (Table.mem_insert hinsert job).mp hjob with hjob | rfl
    · exact h.jobs job hjob
    · exact hknown

/-- A change of jobs that keeps their references valid. -/
theorem Sound.changeJobs (h : Sound strict db) {f : Job → Job} {hf : ∀ job, (f job).id = job.id}
    (hrefs : ∀ job ∈ db.jobs.rows, (f job).hostId ∈ db.hosts.ids ∧ (f job).repositoryId ∈ db.repositories.ids) :
    Sound strict { db with jobs := db.jobs.map f hf } := by
  refine h.tables ?_ ?_ h.runRepository keeps_repositories
  · intro job' hjob'
    obtain ⟨job, hjob, rfl⟩ := List.mem_map.mp hjob'
    exact hrefs job hjob
  · intro run hrun id hid
    rw [Table.ids_map]
    exact h.runJob run hrun id hid

theorem sound_updateJob (h : Sound strict db) {id hostId repositoryId : Nat} {enabled : Bool}
    (hnext : db.updateJob id hostId repositoryId enabled = some db') : Sound strict db' := by
  rw [Database.updateJob] at hnext
  split at hnext
  · cases hnext
  next hknown =>
    cases hnext
    simp only [not_or, not_not] at hknown
    refine h.changeJobs ?_
    intro job hjob
    split
    · exact hknown.2
    · exact h.jobs job hjob

theorem sound_setJobEnabled (h : Sound strict db) {id : Nat} {enabled : Bool}
    (hnext : db.setJobEnabled id enabled = some db') : Sound strict db' := by
  rw [Database.setJobEnabled] at hnext
  split at hnext
  · cases hnext
  · split at hnext
    · cases hnext
    · cases hnext
      refine h.changeJobs ?_
      intro job hjob
      split
      · exact h.jobs job hjob
      · exact h.jobs job hjob

theorem sound_deleteJob (h : Sound strict db) {id : Nat} (hnext : db.deleteJob id = some db') : Sound strict db' := by
  rw [Database.deleteJob] at hnext
  split at hnext
  · cases hnext
  next hfree =>
    cases hnext
    rw [not_or] at hfree
    have hcut := h.continue (continued_runsWithoutJob hfree.2)
    refine hcut.tables ?_ ?_ hcut.runRepository keeps_repositories
    · intro job hjob
      exact h.jobs job (Table.mem_delete.mp hjob).1
    · intro run' hrun' other hother
      refine ids_delete (hcut.runJob run' hrun' other hother) ?_
      rintro rfl
      obtain ⟨run, hrun, rfl⟩ := List.mem_map.mp hrun'
      split at hother
      · cases hother
      · next hid => exact hid hother

theorem placed_of_find {repositoryId : Nat} {repository : Repository}
    (hfind : db.repositories.find? repositoryId = some repository) (hon : repository.enabled ≠ false)
    (run : Run) (hrun : run.repositoryId = some repositoryId) : Placed db run := by
  obtain ⟨hmem, hid⟩ := Table.mem_of_find? hfind
  exact .inr ⟨repository, hmem, by rw [hrun, hid], eq_true_of_ne_false hon⟩

theorem id_of_find {repositoryId : Nat} {repository : Repository}
    (hfind : db.repositories.find? repositoryId = some repository) :
    repositoryId ∈ db.repositories.ids := by
  obtain ⟨hmem, hid⟩ := Table.mem_of_find? hfind
  exact Table.mem_ids.mpr ⟨repository, hmem, hid⟩

theorem sound_queueJobAction (h : Sound strict db) {jobId : Nat} {action : Action} {answers : Answers}
    (hnext : db.queueJobAction jobId action answers = some db') : Sound strict db' := by
  rw [Database.queueJobAction, Option.bind_eq_bind, Option.bind_eq_some_iff] at hnext
  obtain ⟨job, hjob, hnext⟩ := hnext
  rw [Option.bind_eq_bind, Option.bind_eq_some_iff] at hnext
  obtain ⟨repository, hrepository, hnext⟩ := hnext
  obtain ⟨hmem, hid⟩ := Table.mem_of_find? hjob
  split at hnext
  · cases hnext
  next hon =>
    split at hnext
    · cases hnext
      exact h
    · split at hnext
      · cases hnext
      next hidle =>
        split at hnext
        · cases hnext
        · split at hnext
          · cases hnext
          next hsupported =>
            refine h.enqueue ?_ ?_ ?_ ?_ ?_ hnext
            · rintro _ ⟨⟩
              exact Table.mem_ids.mpr ⟨job, hmem, hid⟩
            · rintro _ ⟨⟩
              exact id_of_find hrepository
            · exact fun id status => placed_of_find hrepository hon _ rfl
            · rintro other hother hlive _ _ (⟨j, hj, hother'⟩ | ⟨hnone, -⟩)
              · cases hj
                exact hidle ⟨other, hother, hother', hlive⟩
              · cases hnone
            · rintro - rfl
              simp [jobActions] at hsupported

theorem sound_queueRepositoryRun (h : Sound strict db) {repositoryId : Nat} {action : Action}
    {answers : Answers} (haction : action ≠ .repositoryInit)
    (hnext : db.queueRepositoryRun repositoryId action answers = some db') : Sound strict db' := by
  rw [Database.queueRepositoryRun, Option.bind_eq_bind, Option.bind_eq_some_iff] at hnext
  obtain ⟨repository, hrepository, hnext⟩ := hnext
  split at hnext
  · cases hnext
  next hready =>
    simp only [not_or] at hready
    obtain ⟨hon, -, -, hidle, -⟩ := hready
    refine h.enqueue ?_ ?_ ?_ ?_ ?_ hnext
    · rintro _ ⟨⟩
    · rintro _ ⟨⟩
      exact id_of_find hrepository
    · exact fun id status => placed_of_find hrepository hon _ rfl
    · rintro other hother hlive _ _ (⟨j, hj, -⟩ | ⟨-, -, ⟨id, hrun, hother'⟩, -⟩)
      · cases hj
      · cases hrun
        exact hidle ⟨other, hother, hother', hlive⟩
    · exact fun _ hinit => absurd hinit haction

theorem sound_queueRepositoryAction (h : Sound strict db) {repositoryId : Nat} {action : Action} {answers : Answers}
    (hnext : db.queueRepositoryAction repositoryId action answers = some db') : Sound strict db' := by
  rw [Database.queueRepositoryAction] at hnext
  split at hnext
  · next hsupported =>
      refine sound_queueRepositoryRun h ?_ hnext
      rintro rfl
      revert hsupported
      decide
  · cases hnext

theorem sound_queueRepositoryInit (h : Sound strict db) {repositoryId : Nat} {answers : Answers}
    (hnext : db.queueRepositoryInit repositoryId answers = some db') : Sound strict db' := by
  rw [Database.queueRepositoryInit, Option.bind_eq_bind, Option.bind_eq_some_iff] at hnext
  obtain ⟨repository, hrepository, hnext⟩ := hnext
  split at hnext
  · cases hnext
  next hready =>
    simp only [not_or] at hready
    obtain ⟨hnew, hon, -⟩ := hready
    have hmore : Sound strict { db with initializing := repositoryId :: db.initializing } :=
      { h with remembered := fun hs run hrun hlive hinit id hid =>
        List.mem_cons_of_mem _ (h.remembered hs run hrun hlive hinit id hid) }
    refine hmore.enqueue ?_ ?_ ?_ ?_ ?_ hnext
    · rintro _ ⟨⟩
    · rintro _ ⟨⟩
      exact id_of_find hrepository
    · exact fun id status => placed_of_find hrepository hon _ rfl
    · rintro other hother hlive _ _ (⟨j, hj, -⟩ | ⟨-, -, ⟨id, hrun, hother'⟩, haction, hstrict⟩)
      · cases hj
      · cases hrun
        exact hnew (h.remembered (hstrict rfl) other hother hlive (haction.mp rfl) _ hother')
    · rintro - - _ ⟨⟩
      exact List.mem_cons_self ..

theorem sound_queueHostSshAction (h : Sound strict db) {hostId : Nat} {answers : Answers}
    (hnext : db.queueHostSshAction hostId answers = some db') : Sound strict db' := by
  rw [Database.queueHostSshAction, Option.bind_eq_bind, Option.bind_eq_some_iff] at hnext
  obtain ⟨host, hhost, hnext⟩ := hnext
  split at hnext
  · cases hnext
  · refine h.enqueue ?_ ?_ (fun _ _ => .inl rfl) ?_ ?_ hnext
    · rintro _ ⟨⟩
    · rintro _ ⟨⟩
    · rintro other hother hlive _ _ (⟨j, hj, -⟩ | ⟨-, -, ⟨id, hrun, -⟩, -⟩)
      · cases hj
      · cases hrun
    · rintro - ⟨⟩

theorem sound_forgetInit (h : Sound strict db) {repositoryId : Nat}
    (hended : strict → ∀ run ∈ db.runs.rows, run.action = .repositoryInit → run.repositoryId = some repositoryId →
      run.status.active = false) : Sound strict (db.forgetInit repositoryId) := by
  refine { h with remembered := ?_ }
  intro hstrict run hrun hlive hinit id hid
  refine List.mem_filter.mpr ⟨h.remembered hstrict run hrun hlive hinit id hid, decide_eq_true ?_⟩
  rintro rfl
  have hdead := hended hstrict run hrun hinit hid
  rw [hlive] at hdead
  cases hdead

theorem continued_interruptedRuns : Continued db db.interruptedRuns := by
  refine continued_map ?_
  intro run hrun
  split
  · exact ⟨fun _ hj => hj, fun _ hr => hr, by rintro ⟨⟩, rfl⟩
  · exact .refl run

theorem sound_recoverInterruptedRuns (h : Sound strict db) : Sound strict db.recoverInterruptedRuns := by
  refine { h.continue continued_interruptedRuns with remembered := ?_ }
  intro _ run hrun hlive
  have hended := ended_interruptedRuns run hrun
  rw [hlive] at hended
  cases hended

theorem sound_next (h : Sound strict db) {request : Request} (hended : strict → InitEnded db request)
    (hnext : next db request = some db') : Sound strict db' := by
  cases request with
  | createHost enabled => exact sound_createHost h hnext
  | applyHostEnabledState id enabled => exact sound_applyHostEnabledState h hnext
  | deleteHost id => exact sound_deleteHost h hnext
  | createRepository enabled managed => exact sound_createRepository h hnext
  | setRepositoryEnabledState id enabled => exact sound_setRepositoryEnabledState h hnext
  | judgeRepository id initialized => exact sound_judgeRepository h hnext
  | deleteRepository id answers => exact sound_deleteRepository h hnext
  | withdrawImport id => exact sound_withdrawImport h hnext
  | createJob hostId repositoryId enabled => exact sound_createJob h hnext
  | updateJob id hostId repositoryId enabled => exact sound_updateJob h hnext
  | setJobEnabled id enabled => exact sound_setJobEnabled h hnext
  | deleteJob id => exact sound_deleteJob h hnext
  | queueJobAction jobId action answers => exact sound_queueJobAction h hnext
  | queueRepositoryAction repositoryId action answers => exact sound_queueRepositoryAction h hnext
  | queueRepositoryArchiveRefresh repositoryId answers => exact sound_queueRepositoryRun h (by decide) hnext
  | queueRepositoryInit repositoryId answers => exact sound_queueRepositoryInit h hnext
  | queueHostSshAction hostId answers => exact sound_queueHostSshAction h hnext
  | claimRun id =>
      obtain ⟨runs, hruns, rfl⟩ := continued_claimRun hnext
      exact h.continue hruns
  | finishRun id status =>
      obtain ⟨runs, hruns, rfl⟩ := continued_finishRun hnext
      exact h.continue hruns
  | forgetInit repositoryId =>
      cases hnext
      refine sound_forgetInit h ?_
      intro hstrict run hrun hinit hid
      exact eq_false_of_ne_true (fun hlive => hended hstrict ⟨run, hrun, hinit, hid, hlive⟩)
  | deleteRuns ids =>
      cases hnext
      exact h.continue (continued_runsWithout ids)
  | recoverInterruptedRuns =>
      cases hnext
      exact sound_recoverInterruptedRuns h

theorem sound_run {requests : List Request} {start : Database} (h : Sound strict start)
    (hended : strict → Along next InitEnded start requests) (hrun : exec next start requests = some db) :
    Sound strict db := by
  induction requests generalizing start with
  | nil =>
      cases hrun
      exact h
  | cons request requests ih =>
      obtain ⟨db', hnext, hrest⟩ := Option.bind_eq_some_iff.mp hrun
      exact ih (sound_next h (fun hstrict => (hended hstrict).1) hnext)
        (fun hstrict => (hended hstrict).2 db' hnext) hrest

/-- Whatever is asked for and in whatever order: a live run belongs to a job
that is there and works on a repository that is there and switched on, no
other live run has its job, and none that is for the whole repository like it
has its repository. For two initialisations that is so as long as none is
forgotten before its run has ended. -/
theorem live_runs_sound {requests : List Request} (h : exec next .empty requests = some db) :
    ∀ run ∈ db.runs.rows, run.status.active = true →
      (∀ id, run.jobId = some id → id ∈ db.jobs.ids) ∧
        (run.action = .sshCommand ∨
          ∃ repository ∈ db.repositories.rows, run.repositoryId = some repository.id ∧ repository.enabled = true) ∧
        ∀ other ∈ db.runs.rows, other.status.active = true → Competing
          (Along next InitEnded .empty requests) run other → run = other := by
  have hsound : Sound (Along next InitEnded .empty requests) db := sound_run sound_empty id h
  intro run hrun hlive
  exact ⟨hsound.runJob run hrun, hsound.placed run hrun hlive, fun other hother hlive' =>
    hsound.alone run hrun other hother hlive hlive'⟩

/-- A repository is initialised anew when the run before has failed. -/
def sampleInits : List Request :=
  sampleRequests ++ [.createRepository true true, .queueRepositoryInit 2 sampleAnswers, .claimRun 2,
    .finishRun 2 .failed, .forgetInit 2,
    .queueRepositoryInit 2 sampleAnswers]

def sampleInit : Run := ⟨3, none, some 2, .repositoryInit, .queued, none⟩

theorem live_runs_sound_sample : ∃ db, exec next .empty sampleInits = some db ∧
    (∃ repository ∈ db.repositories.rows, sampleInit.repositoryId = some repository.id ∧ repository.enabled = true) ∧
    ∀ other ∈ db.runs.rows, other.status.active = true → other.jobId = none → other.repositoryId = some 2 →
      other.action = .repositoryInit → sampleInit = other := by
  obtain ⟨db, hdb⟩ := Option.isSome_iff_exists.mp (show (exec next .empty sampleInits).isSome = true by decide)
  have hrun : ∀ db ∈ exec next .empty sampleInits, sampleInit ∈ db.runs.rows := by decide
  have hended : Along next InitEnded .empty sampleInits := by decide
  obtain ⟨-, hplace, halone⟩ := live_runs_sound hdb sampleInit (hrun db hdb) rfl
  refine ⟨db, hdb, hplace.resolve_left (by decide), ?_⟩
  intro other hother hlive hjob hrepository haction
  exact halone other hother hlive
    (.inr ⟨rfl, hjob, ⟨2, rfl, hrepository⟩, by simp [haction, sampleInit], fun _ => hended⟩)

/-- An initialisation that is forgotten while its run still goes on lets a
second one in. -/
theorem forgotten_init_competes :
    ∃ db, exec next .empty [.createRepository true true, .queueRepositoryInit 1 sampleAnswers, .claimRun 1,
      .forgetInit 1,
        .queueRepositoryInit 1 sampleAnswers] = some db ∧
      (db.runs.rows.filter (fun run => run.action = .repositoryInit ∧ run.status.active = true)).length = 2 := by
  obtain ⟨db, hdb⟩ := Option.isSome_iff_exists.mp (show (exec next .empty [.createRepository true true,
    .queueRepositoryInit 1 sampleAnswers,
      .claimRun 1, .forgetInit 1, .queueRepositoryInit 1 sampleAnswers]).isSome = true by decide)
  have htwo : ∀ db ∈ exec next .empty [.createRepository true true, .queueRepositoryInit 1
    sampleAnswers, .claimRun 1, .forgetInit 1,
      .queueRepositoryInit 1 sampleAnswers],
      (db.runs.rows.filter (fun run => run.action = .repositoryInit ∧ run.status.active = true)).length = 2 := by decide
  exact ⟨db, hdb, htwo db hdb⟩

end Soundness

/-- No request moves a job to another device while it has a live run. -/
def Settled (db : Database) : Request → Prop
  | .updateJob id hostId _ _ => db.busyJob id → ∀ job ∈ db.jobs.rows, job.id = id → job.hostId = hostId
  | _ => True

instance (db : Database) : ∀ request, Decidable (Settled db request)
  | .updateJob .. => inferInstanceAs (Decidable (_ → _))
  | .createHost .. | .applyHostEnabledState .. | .deleteHost .. | .createRepository ..
  | .setRepositoryEnabledState .. | .judgeRepository ..
  | .deleteRepository .. | .withdrawImport .. | .createJob .. | .setJobEnabled .. | .deleteJob .. | .queueJobAction ..
  | .queueRepositoryAction .. | .queueRepositoryArchiveRefresh .. | .queueRepositoryInit ..
  | .queueHostSshAction .. | .claimRun ..
  | .finishRun .. | .forgetInit .. | .deleteRuns .. | .recoverInterruptedRuns => inferInstanceAs (Decidable True)

/-- The device of a live run is the one of its job, there and switched on. -/
def Attached (db : Database) : Prop :=
  ∀ run ∈ db.runs.rows, run.status.active = true → ∀ id d, run.jobId = some id → run.device = some d →
    (∃ job ∈ db.jobs.rows, job.id = id ∧ job.hostId = d) ∧ ∃ host ∈ db.hosts.rows, host.id = d ∧ host.enabled = true

section Devices

variable {db db' : Database}

theorem attached_empty : Attached .empty := List.forall_mem_nil _

/-- What live runs hold on to stays. -/
theorem Attached.keep (h : Attached db) (hruns : Continued db db'.runs)
    (hjobs : ∀ job ∈ db.jobs.rows, db.busyJob job.id → ∃ job' ∈ db'.jobs.rows, job'.id = job.id ∧
      job'.hostId = job.hostId) (hhosts : ∀ host ∈ db.hosts.rows, host.enabled = true → db.busyHost host.id →
      ∃ host' ∈ db'.hosts.rows, host'.id = host.id ∧ host'.enabled = true) : Attached db' := by
  obtain ⟨f, hruns⟩ := hruns
  intro run' hrun' hlive id d hid hd
  obtain ⟨run, hrun, -, hcontinues⟩ := hruns run' hrun'
  obtain ⟨hactive, hjob, -, -⟩ := hcontinues.live hlive
  rw [hjob] at hid
  rw [hcontinues.device] at hd
  obtain ⟨⟨job, hmem, rfl, rfl⟩, host, hhost, hdevice, hon⟩ := h run hrun hactive id d hid hd
  obtain ⟨job', hjob', hsame, hplace⟩ := hjobs job hmem ⟨run, hrun, hid, hactive⟩
  obtain ⟨host', hhost', hsame', hon'⟩ := hhosts host hhost hon ⟨run, hrun, hactive, job, hmem, hid, hdevice.symm⟩
  exact ⟨⟨job', hjob', hsame, hplace⟩, host', hhost', hsame'.trans hdevice, hon'⟩

theorem continued_refl : Continued db db.runs := ⟨id, fun run hrun => ⟨run, hrun, rfl, .refl run⟩⟩

theorem keeps_jobs :
    ∀ job ∈ db.jobs.rows, db.busyJob job.id → ∃ job' ∈ db.jobs.rows, job'.id = job.id ∧ job'.hostId = job.hostId :=
  fun job hjob _ => ⟨job, hjob, rfl, rfl⟩

theorem keeps_hosts : ∀ host ∈ db.hosts.rows, host.enabled = true → db.busyHost host.id →
    ∃ host' ∈ db.hosts.rows, host'.id = host.id ∧ host'.enabled = true :=
  fun host hhost hon _ => ⟨host, hhost, rfl, hon⟩

/-- Only runs end, and tables change that no device depends on. -/
theorem Attached.continue (h : Attached db) {repositories : Table Repository Repository.id} {runs : Table Run Run.id}
    {initializing : List Nat} (hruns : Continued db runs) :
    Attached { db with repositories := repositories, runs := runs, initializing := initializing } :=
  h.keep hruns keeps_jobs keeps_hosts

theorem Attached.enqueue (h : Attached db) {jobId repositoryId : Option Nat} {action : Action} {device : Option Nat}
    (hnew : ∀ id d, jobId = some id → device = some d →
      (∃ job ∈ db.jobs.rows, job.id = id ∧ job.hostId = d) ∧ ∃ host ∈ db.hosts.rows, host.id = d ∧ host.enabled = true)
    (hnext : db.enqueue jobId repositoryId action device = some db') : Attached db' := by
  rw [Database.enqueue, Option.map_eq_some_iff] at hnext
  obtain ⟨runs, hinsert, rfl⟩ := hnext
  intro run hrun hlive id d hid hd
  rcases (Table.mem_insert hinsert run).mp hrun with hrun | rfl
  · exact h run hrun hlive id d hid hd
  · exact hnew id d hid hd

theorem attached_applyHostEnabledState (h : Attached db) {id : Nat} {enabled : Bool}
    (hnext : db.applyHostEnabledState id enabled = some db') : Attached db' := by
  rw [Database.applyHostEnabledState] at hnext
  split at hnext
  · cases hnext
  · split at hnext
    · cases hnext
    next hfree =>
      cases hnext
      refine h.keep continued_refl ?_ ?_
      · intro job hjob _
        refine ⟨_, List.mem_map.mpr ⟨job, hjob, rfl⟩, ?_⟩
        split
        · exact ⟨rfl, rfl⟩
        · exact ⟨rfl, rfl⟩
      · intro host hhost hon hbusy
        refine ⟨_, List.mem_map.mpr ⟨host, hhost, rfl⟩, ?_⟩
        split
        · next hid =>
            rw [hid] at hbusy
            cases enabled with
            | true => exact ⟨rfl, rfl⟩
            | false => exact absurd ⟨rfl, hbusy⟩ hfree
        · exact ⟨rfl, hon⟩

theorem attached_deleteHost (h : Attached db) {id : Nat} (hnext : db.deleteHost id = some db') : Attached db' := by
  rw [Database.deleteHost] at hnext
  split at hnext
  · cases hnext
  next hfree =>
    cases hnext
    rw [not_or] at hfree
    refine h.keep continued_refl keeps_jobs ?_
    rintro host hhost hon ⟨run, hrun, hlive, job, hjob, hid, hplace⟩
    refine ⟨host, Table.mem_delete.mpr ⟨hhost, ?_⟩, rfl, hon⟩
    rintro rfl
    exact hfree.2 ⟨job, hjob, hplace⟩

theorem attached_updateJob (h : Attached db) {id hostId repositoryId : Nat} {enabled : Bool}
    (hsettled : Settled db (.updateJob id hostId repositoryId enabled))
    (hnext : db.updateJob id hostId repositoryId enabled = some db') : Attached db' := by
  rw [Database.updateJob] at hnext
  split at hnext
  · cases hnext
  · cases hnext
    refine h.keep continued_refl ?_ keeps_hosts
    intro job hjob hbusy
    refine ⟨_, List.mem_map.mpr ⟨job, hjob, rfl⟩, ?_⟩
    split
    · next hid =>
        rw [hid] at hbusy
        exact ⟨rfl, (hsettled hbusy job hjob hid).symm⟩
    · exact ⟨rfl, rfl⟩

theorem attached_setJobEnabled (h : Attached db) {id : Nat} {enabled : Bool}
    (hnext : db.setJobEnabled id enabled = some db') :
    Attached db' := by
  rw [Database.setJobEnabled] at hnext
  split at hnext
  · cases hnext
  · split at hnext
    · cases hnext
    · cases hnext
      refine h.keep continued_refl ?_ keeps_hosts
      intro job hjob _
      refine ⟨_, List.mem_map.mpr ⟨job, hjob, rfl⟩, ?_⟩
      split
      · exact ⟨rfl, rfl⟩
      · exact ⟨rfl, rfl⟩

theorem attached_deleteJob (h : Attached db) {id : Nat} (hnext : db.deleteJob id = some db') : Attached db' := by
  rw [Database.deleteJob] at hnext
  split at hnext
  · cases hnext
  next hfree =>
    cases hnext
    rw [not_or] at hfree
    refine h.keep (continued_runsWithoutJob hfree.2) ?_ keeps_hosts
    intro job hjob hbusy
    refine ⟨job, Table.mem_delete.mpr ⟨hjob, ?_⟩, rfl, rfl⟩
    rintro rfl
    exact hfree.2 hbusy

theorem attached_queueJobAction (h : Attached db) {jobId : Nat} {action : Action} {answers : Answers}
    (hnext : db.queueJobAction jobId action answers = some db') : Attached db' := by
  rw [Database.queueJobAction, Option.bind_eq_bind, Option.bind_eq_some_iff] at hnext
  obtain ⟨job, hjob, hnext⟩ := hnext
  rw [Option.bind_eq_bind, Option.bind_eq_some_iff] at hnext
  obtain ⟨repository, -, hnext⟩ := hnext
  obtain ⟨hmem, hid⟩ := Table.mem_of_find? hjob
  split at hnext
  · cases hnext
  · split at hnext
    · cases hnext
      exact h
    · split at hnext
      · cases hnext
      · split at hnext
        · cases hnext
        · split at hnext
          · cases hnext
          next hsupported =>
            simp only [not_or, not_and, not_not] at hsupported
            refine h.enqueue ?_ hnext
            rintro _ d ⟨⟩ hd
            split at hd
            · next hdevice =>
                cases hd
                exact ⟨⟨job, hmem, hid, rfl⟩, hsupported.2.2 hdevice⟩
            · cases hd

theorem attached_queueRepositoryRun (h : Attached db) {repositoryId : Nat} {action : Action} {answers : Answers}
    (hnext : db.queueRepositoryRun repositoryId action answers = some db') : Attached db' := by
  rw [Database.queueRepositoryRun, Option.bind_eq_bind, Option.bind_eq_some_iff] at hnext
  obtain ⟨repository, -, hnext⟩ := hnext
  split at hnext
  · cases hnext
  · refine h.enqueue ?_ hnext
    rintro id d ⟨⟩

theorem attached_next (h : Attached db) {request : Request} (hsettled : Settled db request)
    (hnext : next db request = some db') :
    Attached db' := by
  cases request with
  | createHost enabled =>
      obtain ⟨hosts, hinsert, rfl⟩ := Option.map_eq_some_iff.mp hnext
      exact h.keep continued_refl keeps_jobs (fun host hhost hon _ =>
        ⟨host, (Table.mem_insert hinsert _).mpr (.inl hhost), rfl, hon⟩)
  | applyHostEnabledState id enabled => exact attached_applyHostEnabledState h hnext
  | deleteHost id => exact attached_deleteHost h hnext
  | createRepository enabled managed =>
      obtain ⟨repositories, -, rfl⟩ := Option.map_eq_some_iff.mp hnext
      exact h.continue continued_refl
  | setRepositoryEnabledState id enabled =>
      obtain ⟨repositories, rfl⟩ : ∃ repositories, db' = { db with repositories := repositories } := by
        rw [next, Database.setRepositoryEnabledState] at hnext
        split at hnext
        · cases hnext
        · split at hnext
          · exact ⟨_, (Option.some.inj hnext).symm⟩
          · split at hnext
            · cases hnext
            · exact ⟨_, (Option.some.inj hnext).symm⟩
      exact h.continue continued_refl
  | judgeRepository id initialized =>
      cases hnext
      exact h.continue continued_refl
  | deleteRepository id answers =>
      rw [next, Database.deleteRepository] at hnext
      split at hnext
      · cases hnext
      next hfree =>
        cases hnext
        simp only [not_or] at hfree
        exact h.continue (continued_runsWithoutRepository hfree.2.2.2)
  | withdrawImport id =>
      rw [next, Database.withdrawImport] at hnext
      split at hnext
      · cases hnext
      · cases hnext
        exact h.continue continued_refl
  | createJob hostId repositoryId enabled =>
      rw [next, Database.createJob] at hnext
      split at hnext
      · cases hnext
      · obtain ⟨jobs, hinsert, rfl⟩ := Option.map_eq_some_iff.mp hnext
        exact h.keep continued_refl
          (fun job hjob _ => ⟨job, (Table.mem_insert hinsert _).mpr (.inl hjob), rfl, rfl⟩) keeps_hosts
  | updateJob id hostId repositoryId enabled => exact attached_updateJob h hsettled hnext
  | setJobEnabled id enabled => exact attached_setJobEnabled h hnext
  | deleteJob id => exact attached_deleteJob h hnext
  | queueJobAction jobId action answers => exact attached_queueJobAction h hnext
  | queueRepositoryAction repositoryId action answers =>
      rw [next, Database.queueRepositoryAction] at hnext
      split at hnext
      · exact attached_queueRepositoryRun h hnext
      · cases hnext
  | queueRepositoryArchiveRefresh repositoryId answers => exact attached_queueRepositoryRun h hnext
  | queueRepositoryInit repositoryId answers =>
      rw [next, Database.queueRepositoryInit, Option.bind_eq_bind, Option.bind_eq_some_iff] at hnext
      obtain ⟨repository, -, hnext⟩ := hnext
      split at hnext
      · cases hnext
      · refine (h.continue continued_refl).enqueue ?_ hnext
        rintro id d ⟨⟩
  | queueHostSshAction hostId answers =>
      rw [next, Database.queueHostSshAction, Option.bind_eq_bind, Option.bind_eq_some_iff] at hnext
      obtain ⟨host, -, hnext⟩ := hnext
      split at hnext
      · cases hnext
      · refine h.enqueue ?_ hnext
        rintro id d ⟨⟩
  | claimRun id =>
      obtain ⟨runs, hruns, rfl⟩ := continued_claimRun hnext
      exact h.continue hruns
  | finishRun id status =>
      obtain ⟨runs, hruns, rfl⟩ := continued_finishRun hnext
      exact h.continue hruns
  | forgetInit repositoryId =>
      cases hnext
      exact h.continue continued_refl
  | deleteRuns ids =>
      cases hnext
      exact h.continue (continued_runsWithout ids)
  | recoverInterruptedRuns =>
      cases hnext
      exact h.continue continued_interruptedRuns

/-- As long as no job with a live run is moved to another device, the device
of every live run of a job is there, is switched on and is still the one of
the job. -/
theorem device_stays {requests : List Request} (h : exec next .empty requests = some db)
    (hsettled : Along next Settled .empty requests) :
    ∀ run ∈ db.runs.rows, run.status.active = true → ∀ id d, run.jobId = some id → run.device = some d →
      (∃ job ∈ db.jobs.rows, job.id = id ∧ job.hostId = d) ∧ ∃ host ∈ db.hosts.rows, host.id = d ∧
      host.enabled = true :=
  (history_of_along h hsettled).invariant Attached attached_empty
    (fun _ _ _ ha hstep => attached_next ha hstep.2 hstep.1)

theorem device_stays_sample : ∃ db, exec next .empty sampleRequests = some db ∧
    (∃ job ∈ db.jobs.rows, job.id = 1 ∧ job.hostId = 1) ∧ ∃ host ∈ db.hosts.rows, host.id = 1 ∧
    host.enabled = true := by
  obtain ⟨db, hdb⟩ := Option.isSome_iff_exists.mp (show (exec next .empty sampleRequests).isSome = true by decide)
  have hrun : ∀ db ∈ exec next .empty sampleRequests, sampleRun ∈ db.runs.rows := by decide
  exact ⟨db, hdb, device_stays hdb (by decide) sampleRun (hrun db hdb) rfl 1 1 rfl rfl⟩

/-- A job that is moved while it runs lets its old device go: the backup is
still running there when the device is deleted. -/
theorem moved_device_vanishes :
    ∃ db, exec next .empty (sampleRequests ++ [.updateJob 1 2 1 true, .deleteHost 1]) = some db ∧
    sampleRun ∈ db.runs.rows ∧ 1 ∉ db.hosts.ids := by
  obtain ⟨db, hdb⟩ := Option.isSome_iff_exists.mp
    (show (exec next .empty (sampleRequests ++ [.updateJob 1 2 1 true, .deleteHost 1])).isSome = true by decide)
  have hvanished : ∀ db ∈ exec next .empty (sampleRequests ++ [.updateJob 1 2 1 true, .deleteHost 1]),
      sampleRun ∈ db.runs.rows ∧ 1 ∉ db.hosts.ids := by decide
  exact ⟨db, hdb, hvanished db hdb⟩

end Devices

end BorgManager.LiveRuns
