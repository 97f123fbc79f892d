import BorgManager.RunStatus

namespace BorgManager.ArchiveCache

open Records ExecutionKeys RunQueue ExecutionPlan QueueSystem QueueCapacity RefreshAdmission Histories

structure Archive where
  name : String
  checkpoint : Bool

/-- An archive list with the instant at which its scan began. -/
structure Dataset where
  archives : List Archive
  scannedAt : Nat

structure Payload where
  version : Nat
  repositoryId : Nat
  considerCheckpoints : Bool
  data : Dataset

/-- A Borg process that may change the archives of its repository. -/
structure BorgCommand where
  startedAt : Nat
  endedAt : Option Nat

/-- The state of a running archive refresh between its commands. -/
structure Scan where
  startedAt : Nat
  considerCheckpoints : Bool

/-- The queue with the cache files, the commands of the runs so far and the
scans of the archive refreshes. -/
structure Caching where
  queue : Queue
  clock : Nat
  commands : Nat → Option BorgCommand
  scans : Nat → Option Scan
  files : Nat → Bool → Option Payload

inductive CacheEvent
  | admission (event : AdmissionEvent)
  | commandStart (runId : Nat)
  | commandEnd (runId : Nat)
  | scanStart (runId : Nat) (considerCheckpoints : Bool)
  | store (runId : Nat) (archives : List Archive)
  | runEnd (runId : Nat) (status : Status)
  | dropCaches (repositoryId : Nat)
  | restart

def cacheVersion : Nat := 1

def loadArchiveCache (s : Caching) (repositoryId : Nat) (considerCheckpoints : Bool) : Option Dataset :=
  match s.files repositoryId considerCheckpoints with
  | none => none
  | some payload =>
      if payload.version = cacheVersion ∧ payload.repositoryId = repositoryId ∧
          payload.considerCheckpoints = considerCheckpoints then some payload.data
      else none

def storeArchiveCache (repositoryId : Nat) (considerCheckpoints : Bool) (data : Dataset)
    (files : Nat → Bool → Option Payload) : Nat → Bool → Option Payload :=
  Function.update files repositoryId
    (Function.update (files repositoryId) considerCheckpoints
      (some ⟨cacheVersion, repositoryId, considerCheckpoints, data⟩))

def invalidateArchiveCache (repositoryId : Nat) (files : Nat → Bool → Option Payload) : Nat → Bool → Option Payload :=
  Function.update files repositoryId (fun _ => none)

/-- The actions whose command changes the list of archives. -/
def modifies : Action → Bool
  | .backup | .prune | .deleteArchive | .renameArchive => true
  | _ => false

/-- The runs whose end drops the cached lists of their record. -/
def invalidates (action : Action) (status : Status) : Bool :=
  ((status == .success || status == .warning) &&
    (action == .repositoryInit || action == .backup || action == .prune || action == .deleteArchive ||
      action == .renameArchive)) ||
    action == .deleteArchive

def closed (clock : Nat) (command : BorgCommand) : BorgCommand :=
  { command with endedAt := command.endedAt.or (some clock) }

def endCommand (s : Caching) (runId : Nat) : Nat → Option BorgCommand :=
  Function.update s.commands runId ((s.commands runId).map (closed s.clock))

variable (t : Topology)

/-- The end of a run has its own event. -/
def isFinish : AdmissionEvent → Bool
  | .queue (.finish _ _) => true
  | _ => false

def queueEvent (s : Caching) (event : AdmissionEvent) : Option Caching :=
  if isFinish event then none
  else (admissionNext t s.queue event).map (fun queue => { s with queue := queue })

def commandStart (s : Caching) (runId : Nat) : Option Caching :=
  match s.queue.runs.get runId with
  | none => none
  | some run =>
      if run.status = .running ∧ modifies run.action = true ∧ (s.commands runId).isNone = true then
        some { s with clock := s.clock + 1, commands := Function.update s.commands runId (some ⟨s.clock, none⟩) }
      else none

def commandEnd (s : Caching) (runId : Nat) : Option Caching :=
  if (s.commands runId).any (fun command => command.endedAt.isNone) then
    some { s with clock := s.clock + 1, commands := endCommand s runId }
  else none

def scanStart (s : Caching) (runId : Nat) (considerCheckpoints : Bool) : Option Caching :=
  match s.queue.runs.get runId with
  | none => none
  | some run =>
      if run.status = .running ∧ run.action = .archiveRefresh then
        some { s with
          clock := s.clock + 1
          scans := Function.update s.scans runId (some ⟨s.clock, considerCheckpoints⟩) }
      else none

/-- The end of a scan. A list without checkpoints asked for that has some is
stored for both variants. -/
def store (s : Caching) (runId : Nat) (archives : List Archive) : Option Caching :=
  match s.queue.runs.get runId, s.scans runId with
  | some run, some scan =>
      match run.repositoryId with
      | none => none
      | some repositoryId =>
          let dataset : Dataset := ⟨archives, scan.startedAt⟩
          let files := storeArchiveCache repositoryId scan.considerCheckpoints dataset s.files
          if scan.considerCheckpoints = false ∧ archives.any Archive.checkpoint = true then
            some { s with files := storeArchiveCache repositoryId true dataset files }
          else some { s with files := files }
  | _, _ => none

/-- The end of `_execute_run_inner` or of the refresh: the command is over, the
lists are dropped if the outcome asks for it, and then the status is written. -/
def runEnd (s : Caching) (runId : Nat) (status : Status) : Option Caching :=
  match s.queue.runs.get runId, finish s.queue runId status with
  | some run, some queue =>
      some
        { queue := queue
          clock := s.clock + 1
          commands := endCommand s runId
          scans := Function.update s.scans runId none
          files := match run.repositoryId with
            | none => s.files
            | some repositoryId =>
                if invalidates run.action status then invalidateArchiveCache repositoryId s.files else s.files }
  | _, _ => none

/-- A restart of the manager ends the processes of the old one, and
`recover_interrupted_runs` closes their runs. -/
def restart (s : Caching) : Caching where
  queue := { s.queue with
    runs := RunStatus.recoverRuns s.queue.runs, activeRunTasks := [], executingRunIds := [], chains := .empty }
  clock := s.clock + 1
  commands := fun runId => (s.commands runId).map (closed s.clock)
  scans := fun _ => none
  files := s.files

def cacheNext (s : Caching) : CacheEvent → Option Caching
  | .admission event => queueEvent t s event
  | .commandStart runId => commandStart s runId
  | .commandEnd runId => commandEnd s runId
  | .scanStart runId considerCheckpoints => scanStart s runId considerCheckpoints
  | .store runId archives => store s runId archives
  | .runEnd runId status => runEnd s runId status
  | .dropCaches repositoryId =>
      some { s with clock := s.clock + 1, files := invalidateArchiveCache repositoryId s.files }
  | .restart => some (restart s)

abbrev cacheStep : Transition Caching CacheEvent := graph (cacheNext t)

/-- Every command that was started on a physical repository ended before an
instant. -/
def ScannedAfter (s : Caching) (key : ExecutionKey) (instant : Nat) : Prop :=
  ∀ run ∈ s.queue.runs.rows, physicalKey t run = some key →
    ∀ command ∈ s.commands run.id, ∃ ended ∈ command.endedAt, ended < instant

instance (s : Caching) (key : ExecutionKey) (instant : Nat) : Decidable (ScannedAfter t s key instant) :=
  inferInstanceAs (Decidable (∀ run ∈ s.queue.runs.rows, physicalKey t run = some key →
    ∀ command ∈ s.commands run.id, ∃ ended ∈ command.endedAt, ended < instant))

def Idle (s : Caching) (key : ExecutionKey) : Prop :=
  ∀ run ∈ s.queue.runs.rows, physicalKey t run = some key → run.status.active = false

instance (s : Caching) (key : ExecutionKey) : Decidable (Idle t s key) :=
  inferInstanceAs (Decidable (∀ run ∈ s.queue.runs.rows, physicalKey t run = some key → run.status.active = false))

/-- Whatever is loaded for a record whose repository has no queued or running
run was scanned after all commands on the repository. -/
def CacheFresh (s : Caching) : Prop :=
  ∀ repository ∈ t.repositories, Idle t s (repositoryExecutionKeyById t repository.id) →
    ∀ considerCheckpoints, ∀ data ∈ loadArchiveCache s repository.id considerCheckpoints,
      ScannedAfter t s (repositoryExecutionKeyById t repository.id) data.scannedAt

instance (s : Caching) : Decidable (CacheFresh t s) :=
  inferInstanceAs (Decidable (∀ repository ∈ t.repositories, Idle t s (repositoryExecutionKeyById t repository.id) →
    ∀ considerCheckpoints, ∀ data ∈ loadArchiveCache s repository.id considerCheckpoints,
      ScannedAfter t s (repositoryExecutionKeyById t repository.id) data.scannedAt))

/-- No record of a repository has a cached list, except for one record. -/
def OnlyCachedFor (s : Caching) (key : ExecutionKey) (cached : Nat → Prop) : Prop :=
  ∀ repository ∈ t.repositories, repositoryExecutionKeyById t repository.id = key →
    ∀ considerCheckpoints, (loadArchiveCache s repository.id considerCheckpoints).isSome = true → cached repository.id

instance (s : Caching) (key : ExecutionKey) (cached : Nat → Prop) [∀ id, Decidable (cached id)] :
    Decidable (OnlyCachedFor t s key cached) :=
  inferInstanceAs (Decidable (∀ repository ∈ t.repositories, repositoryExecutionKeyById t repository.id = key →
    ∀ considerCheckpoints, (loadArchiveCache s repository.id considerCheckpoints).isSome = true → cached repository.id))

/-- A run that ends after its command has started leaves no cached list of its
repository behind, and a restart finds none for the runs that it closes. -/
def Invalidated (s : Caching) : CacheEvent → Prop
  | .runEnd runId status => ∀ run ∈ s.queue.runs.rows, run.id = runId → (s.commands runId).isSome = true →
      ∀ key ∈ physicalKey t run, OnlyCachedFor t s key
        (fun id => run.repositoryId = some id ∧ invalidates run.action status = true)
  | .restart => ∀ run ∈ s.queue.runs.rows, run.status = .running → (s.commands run.id).isSome = true →
      ∀ key ∈ physicalKey t run, OnlyCachedFor t s key (fun _ => False)
  | _ => True

instance (s : Caching) : (e : CacheEvent) → Decidable (Invalidated t s e)
  | .runEnd runId status => inferInstanceAs (Decidable (∀ run ∈ s.queue.runs.rows, run.id = runId →
      (s.commands runId).isSome = true → ∀ key ∈ physicalKey t run, OnlyCachedFor t s key
        (fun id => run.repositoryId = some id ∧ invalidates run.action status = true)))
  | .restart => inferInstanceAs (Decidable (∀ run ∈ s.queue.runs.rows, run.status = .running →
      (s.commands run.id).isSome = true → ∀ key ∈ physicalKey t run, OnlyCachedFor t s key (fun _ => False)))
  | .admission _ | .commandStart _ | .commandEnd _ | .scanStart _ _ | .store _ _ | .dropCaches _ => .isTrue trivial

/-- The start of the manager, with cached lists of any age. -/
structure Started (s : Caching) : Prop where
  queue : QueueSystem.Started s.queue
  commands : ∀ runId, s.commands runId = none
  scans : ∀ runId, s.scans runId = none
  files : ∀ repositoryId considerCheckpoints, ∀ payload ∈ s.files repositoryId considerCheckpoints,
    payload.data.scannedAt < s.clock

end BorgManager.ArchiveCache
