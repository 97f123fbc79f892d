import BorgManager.RunQueue

namespace BorgManager.ExecutionPlan

open Records ExecutionKeys ChainReservations RunQueue

/-- The repository records and the mount topology behind the row keys. -/
structure Topology where
  platform : Platform
  repositories : List Repository

inductive Blocker
  | archiveMount (repository : String)
  | maintenanceChain (blockerId : Nat) (repository : String)
  | repository (blockerId : Nat) (repository : String)
  | mount (blockerId limit : Nat) (mount : MountKey)
  | schedule (blockerId limit : Nat) (schedule : String)
  | sourceStats (blockerId limit : Nat)
  | global (blockerId limit : Nat)
  deriving DecidableEq

/-- The occupants of every limited resource, as the pass extends them. -/
structure Occupancy where
  repository : ExecutionKey → List Nat
  mount : MountKey → List Nat
  schedule : ScheduleKey → List Nat
  sourceStats : List Nat
  global : List Nat

def Occupancy.empty : Occupancy := ⟨fun _ => [], fun _ => [], fun _ => [], [], []⟩

structure PlanContext where
  archiveMountRepositories : List Nat
  chains : ExecutionKey → Option Reservation
  tokens : Nat → Option String
  mountLimits : MountKey → Nat
  scheduleLimits : ScheduleKey → Nat
  sourceStatsLimit : Nat
  globalLimit : Nat

structure Plan where
  selected : List Nat
  blockers : List (Nat × Blocker)

def push {κ : Type} [DecidableEq κ] (occupants : κ → List Nat) (key : Option κ) (id : Nat) : κ → List Nat :=
  match key with
  | none => occupants
  | some k => Function.update occupants k (occupants k ++ [id])

variable (t : Topology)

def repositoryOf (run : Run) : Option Repository :=
  run.repositoryId.bind (fun id => t.repositories.find? (fun r => r.id == id))

def repositoryName (run : Run) : String :=
  match repositoryOf t run with
  | some r => r.name
  | none => "Repository"

/-- The physical target of a run, whatever its action. -/
def physicalKey (run : Run) : Option ExecutionKey :=
  run.repositoryId.map (fun id => repositoryExecutionKey t.platform (repositoryOf t run) (some id))

def mountGroup (run : Run) : Option MountKey := repositoryMountKey t.platform (repositoryOf t run)

/-- Source statistics scan the client and occupy no repository. -/
def rowRepositoryKey (run : Run) : Option ExecutionKey :=
  if run.action = .sourceStats then none else physicalKey t run

def rowMountKey (run : Run) : Option MountKey :=
  if run.action = .sourceStats then none else mountGroup t run

def noteMountLimit (settings : Settings) (limits : MountKey → Nat) (row : Run) : MountKey → Nat :=
  match rowMountKey t row with
  | none => limits
  | some key =>
      let limit := mountParallelLimit settings key
      if 0 < limit then Function.update limits key limit else limits

def mountLimitTable (settings : Settings) (rows : List Run) : MountKey → Nat :=
  rows.foldl (noteMountLimit t settings) (fun _ => 0)

/-- A schedule keeps the smallest positive snapshot among its live runs. -/
def noteScheduleLimit (limits : ScheduleKey → Nat) (row : Run) : ScheduleKey → Nat :=
  match runScheduleKey t.platform row with
  | none => limits
  | some key =>
      let limit := row.scheduleParallelLimitSnapshot
      if 0 < limit then Function.update limits key (if limits key = 0 then limit else min (limits key) limit)
      else limits

def scheduleLimitTable (rows : List Run) : ScheduleKey → Nat :=
  rows.foldl (noteScheduleLimit t) (fun _ => 0)

/-- A mount that is starting, or whose filesystem is active. -/
def holdsRepository (s : Queue) (m : ManagerArchiveMount) : Bool :=
  m.status == .mounting || archiveMountIsActive s m.mountPath

def activeArchiveMountRepositories (s : Queue) : List Nat :=
  (s.archiveMounts.filter (holdsRepository s)).map (fun m => m.repositoryId)

/-- The planner marks every row that is neither starting nor active. -/
def markStaleMounts (s : Queue) : List ManagerArchiveMount :=
  s.archiveMounts.map (fun m => if holdsRepository s m then m else { m with status := .stale })

def planContext (s : Queue) (rows : List Run) : PlanContext where
  archiveMountRepositories := activeArchiveMountRepositories s
  chains := repositoryChainSnapshot s.chains
  tokens := s.chains.runTokens
  mountLimits := mountLimitTable t s.settings rows
  scheduleLimits := scheduleLimitTable t rows
  sourceStatsLimit := ExecutionKeys.sourceStatsLimit s.settings
  globalLimit := s.settings.maxParallelRuns

variable (ctx : PlanContext)

def occupy (occ : Occupancy) (row : Run) : Occupancy where
  repository := push occ.repository (rowRepositoryKey t row) row.id
  mount := push occ.mount ((rowMountKey t row).filter (fun k => decide (0 < ctx.mountLimits k))) row.id
  schedule := push occ.schedule (runScheduleKey t.platform row) row.id
  sourceStats := if row.action = .sourceStats then occ.sourceStats ++ [row.id] else occ.sourceStats
  global := occ.global ++ [row.id]

def heldByArchiveMount (row : Run) : Bool :=
  match row.repositoryId with
  | none => false
  | some id => ctx.archiveMountRepositories.contains id && row.action != .sourceStats

/-- The chain at the head of the row's repository, unless the row belongs to
it or is older than a root that still waits. -/
def foreignChain (row : Run) : Option Reservation :=
  match rowRepositoryKey t row with
  | none => none
  | some key => (ctx.chains key).filter (fun chain =>
      decide (ctx.tokens row.id ≠ some chain.token) && (chain.started || decide (chain.rootRunId < row.id)))

/-- The smallest occupant of a full resource; a limit of zero is no limit. -/
def full (limit : Nat) (occupants : List Nat) : Option Nat :=
  if 0 < limit ∧ limit ≤ occupants.length then some (occupants.min?.getD 0) else none

def archiveMountBlocker (row : Run) : Option Blocker :=
  if heldByArchiveMount ctx row then some (.archiveMount (repositoryName t row)) else none

def chainBlocker (row : Run) : Option Blocker :=
  (foreignChain t ctx row).map (fun chain => .maintenanceChain chain.rootRunId (repositoryName t row))

def repositoryBlocker (occ : Occupancy) (row : Run) : Option Blocker :=
  (rowRepositoryKey t row).bind (fun key =>
    (full 1 (occ.repository key)).map (fun id => .repository id (repositoryName t row)))

def mountBlocker (occ : Occupancy) (row : Run) : Option Blocker :=
  (rowMountKey t row).bind (fun key =>
    (full (ctx.mountLimits key) (occ.mount key)).map (fun id => .mount id (ctx.mountLimits key) key))

def scheduleBlocker (occ : Occupancy) (row : Run) : Option Blocker :=
  (runScheduleKey t.platform row).bind (fun key =>
    (full (ctx.scheduleLimits key) (occ.schedule key)).map (fun id =>
      .schedule id (ctx.scheduleLimits key) ((PythonText.truthy row.scheduleNameSnapshot).getD "Zeitplan")))

def sourceStatsBlocker (occ : Occupancy) (row : Run) : Option Blocker :=
  if row.action = .sourceStats then
    (full ctx.sourceStatsLimit occ.sourceStats).map (fun id => .sourceStats id ctx.sourceStatsLimit)
  else none

def globalBlocker (occ : Occupancy) : Option Blocker :=
  (full ctx.globalLimit occ.global).map (fun id => .global id ctx.globalLimit)

/-- The first layer that keeps a queued row back. -/
def blocker (occ : Occupancy) (row : Run) : Option Blocker :=
  (archiveMountBlocker t ctx row).or ((chainBlocker t ctx row).or ((repositoryBlocker t occ row).or
    ((mountBlocker t ctx occ row).or ((scheduleBlocker t ctx occ row).or
      ((sourceStatsBlocker ctx occ row).or (globalBlocker ctx occ))))))

def planQueue : Occupancy → List Run → Plan
  | _, [] => ⟨[], []⟩
  | occ, row :: rows =>
      match blocker t ctx occ row with
      | some reason =>
          let rest := planQueue occ rows
          { rest with blockers := (row.id, reason) :: rest.blockers }
      | none =>
          let rest := planQueue (occupy t ctx occ row) rows
          { rest with selected := row.id :: rest.selected }

/-- Capacity is evaluated in run-id order: the running rows occupy their
resources first, then every queued row that fits occupies its own. -/
def executionPlan (s : Queue) (current : Option Nat) : Plan :=
  let rows := liveRows s current
  let ctx := planContext t s rows
  planQueue t ctx ((running rows).foldl (occupy t ctx) .empty) (queued rows)

/-- The state that a successful claim commits. -/
def grantTurn (s : Queue) (runId : Nat) : Queue :=
  { s with
    runs := s.runs.setStatus runId .running
    archiveMounts := markStaleMounts s
    chains := markRepositoryChainStarted s.chains runId }

theorem mem_activeArchiveMountRepositories {s : Queue} {id : Nat} :
    id ∈ activeArchiveMountRepositories s ↔
      ∃ m ∈ s.archiveMounts, holdsRepository s m = true ∧ m.repositoryId = id := by
  simp [activeArchiveMountRepositories, and_assoc]

theorem holdsRepository_stale {s : Queue} {m : ManagerArchiveMount} (h : holdsRepository s m = false) :
    holdsRepository s { m with status := .stale } = false := by
  simp only [holdsRepository, Bool.or_eq_false_iff] at h ⊢
  exact ⟨rfl, h.2⟩

/-- `Except.error` carries the reason that the waiting task reports. -/
def claimExecutionTurn (s : Queue) (runId : Nat) : Except (Option Blocker) Queue :=
  match s.runs.get runId with
  | none => .error none
  | some current =>
      if current.status ≠ .queued then .error none
      else
        let plan := executionPlan t s (some runId)
        if runId ∈ plan.selected then .ok (grantTurn s runId) else .error (plan.blockers.lookup runId)

variable {t} in
theorem claimExecutionTurn_of_selected {s : Queue} (run : Run) (hm : run ∈ s.runs.rows)
    (hq : run.status = .queued) (hsel : run.id ∈ (executionPlan t s (some run.id)).selected) :
    claimExecutionTurn t s run.id = .ok (grantTurn s run.id) := by
  have hg : s.runs.get run.id = some run := RunTable.get_eq_some.mpr ⟨hm, rfl⟩
  simp only [claimExecutionTurn, hg, hq, ne_eq, not_true_eq_false, if_false, if_pos hsel]

variable {t} in
theorem claimExecutionTurn_ok {s s' : Queue} {runId : Nat} (h : claimExecutionTurn t s runId = .ok s') :
    (∃ run ∈ s.runs.rows, run.id = runId ∧ run.status = .queued) ∧
      runId ∈ (executionPlan t s (some runId)).selected ∧ s' = grantTurn s runId := by
  rw [claimExecutionTurn] at h
  cases hg : s.runs.get runId with
  | none => simp [hg] at h
  | some run =>
      obtain ⟨hm, hid⟩ := RunTable.get_eq_some.mp hg
      simp only [hg] at h
      split at h
      · cases h
      · next hq =>
          split at h
          · next hsel =>
              cases h
              exact ⟨⟨run, hm, hid, by simpa using hq⟩, hsel, rfl⟩
          · cases h

end BorgManager.ExecutionPlan
