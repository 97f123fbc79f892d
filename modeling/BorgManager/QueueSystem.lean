import BorgManager.PlanAdmission
import BorgManager.Histories

namespace BorgManager.QueueSystem

open Records ExecutionKeys ChainReservations RunQueue ExecutionPlan PlanAdmission Histories

/-- What happens to the execution queue between two looks at it. Everything
runs on one event loop, so each event is one uninterrupted step. -/
inductive QueueEvent
  | enqueue (run : Run)
  | enqueueChainRoot (run : Run) (token : String)
  | enqueueChainRun (run : Run) (token : String)
  | beginExecution (runId : Nat)
  | claim (runId : Nat)
  | finish (runId : Nat) (status : Status)
  | endExecution (runId : Nat)
  | configure (settings : Settings)
  | releaseChain (token : String)
  | remount (archiveMounts : List ManagerArchiveMount) (fuseMounts : List String)

/-- A new row gets an id above all earlier ones, and its task at once. -/
def enqueue (s : Queue) (run : Run) : Option Queue :=
  if h : (∀ r ∈ s.runs.rows, r.id < run.id) ∧ run.status = .queued then
    some { s with runs := s.runs.insert run h.1, activeRunTasks := s.activeRunTasks ++ [run.id] }
  else none

/-- The tokens of manual chains contain clock and random digits; no token is
drawn twice. -/
def freshToken (s : Queue) (token : String) : Bool :=
  token != "" && s.runs.rows.all (fun r => s.chains.runTokens r.id != some token)

variable (t : Topology)

/-- Only a manual backup reserves its repository. -/
def enqueueChainRoot (s : Queue) (run : Run) (token : String) : Option Queue :=
  match physicalKey t run with
  | none => none
  | some key =>
      if run.action = .backup ∧ freshToken s token = true then
        (enqueue s run).map (fun s' =>
          { s' with chains := registerRepositoryChain s'.chains key run.id token })
      else none

def enqueueChainRun (s : Queue) (run : Run) (token : String) : Option Queue :=
  (enqueue s run).map (fun s' => { s' with chains := registerChainRun s'.chains run.id token })

def isActive (s : Queue) (runId : Nat) : Bool := (s.runs.get runId).any (fun r => r.status.active)

def finish (s : Queue) (runId : Nat) (status : Status) : Option Queue :=
  if status.terminal = true ∧ isActive s runId = true then
    some { s with runs := s.runs.setStatus runId status }
  else none

/-- A task leaves the registries after its row has become terminal. -/
def endExecution (s : Queue) (runId : Nat) : Option Queue :=
  if isActive s runId = true then none
  else some { s with
    activeRunTasks := s.activeRunTasks.filter (· != runId)
    executingRunIds := s.executingRunIds.filter (· != runId) }

def claim (s : Queue) (runId : Nat) : Option Queue := (claimExecutionTurn t s runId).toOption

def next (s : Queue) : QueueEvent → Option Queue
  | .enqueue run => enqueue s run
  | .enqueueChainRoot run token => enqueueChainRoot t s run token
  | .enqueueChainRun run token => enqueueChainRun s run token
  | .beginExecution runId => some { s with executingRunIds := s.executingRunIds ++ [runId] }
  | .claim runId => claim t s runId
  | .finish runId status => finish s runId status
  | .endExecution runId => endExecution s runId
  | .configure settings => some { s with settings := settings }
  | .releaseChain token => some { s with chains := releaseRepositoryChain s.chains token }
  | .remount archiveMounts fuseMounts =>
      some { s with archiveMounts := archiveMounts, fuseMounts := fuseMounts }

abbrev queueStep : Transition Queue QueueEvent := graph (next t)

/-- The queue after a start of the manager: recovery has closed every active
row, and the registries of the process are empty. -/
structure Started (s : Queue) : Prop where
  inactive : ∀ r ∈ s.runs.rows, r.status.active = false
  tasks : s.activeRunTasks = []
  executing : s.executingRunIds = []
  chains : s.chains = .empty

def Reachable (s : Queue) : Prop := ∃ s₀ es, Started s₀ ∧ History (queueStep t) s₀ es s

variable {t} {s s' : Queue}

theorem enqueue_eq_some {run : Run} (h : enqueue s run = some s') :
    ∃ hid : ∀ r ∈ s.runs.rows, r.id < run.id, run.status = .queued ∧
      s' = { s with runs := s.runs.insert run hid, activeRunTasks := s.activeRunTasks ++ [run.id] } := by
  rw [enqueue] at h
  split at h
  · next hid => exact ⟨hid.1, hid.2, (Option.some.inj h).symm⟩
  · cases h

theorem claim_eq_some {runId : Nat} (h : claim t s runId = some s') :
    claimExecutionTurn t s runId = .ok s' := by
  rw [claim] at h
  cases hc : claimExecutionTurn t s runId with
  | error e => simp [hc, Except.toOption] at h
  | ok u => simpa [hc, Except.toOption] using h

theorem isActive_iff {runId : Nat} :
    isActive s runId = true ↔ ∃ r ∈ s.runs.rows, r.id = runId ∧ r.status.active = true := by
  rw [isActive]
  rw [Option.any_eq_true]
  constructor
  · rintro ⟨r, hg, ha⟩
    obtain ⟨hm, hid⟩ := RunTable.get_eq_some.mp hg
    exact ⟨r, hm, hid, ha⟩
  · rintro ⟨r, hm, hid, ha⟩
    exact ⟨r, RunTable.get_eq_some.mpr ⟨hm, hid⟩, ha⟩

theorem finish_eq_some {runId : Nat} {status : Status} (h : finish s runId status = some s') :
    status.terminal = true ∧ isActive s runId = true ∧
      s' = { s with runs := s.runs.setStatus runId status } := by
  rw [finish] at h
  split at h
  · next hf => exact ⟨hf.1, hf.2, (Option.some.inj h).symm⟩
  · cases h

theorem endExecution_eq_some {runId : Nat} (h : endExecution s runId = some s') :
    isActive s runId = false ∧ s' = { s with
      activeRunTasks := s.activeRunTasks.filter (· != runId)
      executingRunIds := s.executingRunIds.filter (· != runId) } := by
  rw [endExecution] at h
  split at h
  · cases h
  · next ha => exact ⟨by simpa using ha, (Option.some.inj h).symm⟩

theorem enqueueChainRoot_eq_some {run : Run} {token : String}
    (h : enqueueChainRoot t s run token = some s') :
    ∃ key u, physicalKey t run = some key ∧ run.action = .backup ∧ freshToken s token = true ∧
      enqueue s run = some u ∧ s' = { u with chains := registerRepositoryChain u.chains key run.id token } := by
  rw [enqueueChainRoot] at h
  split at h
  · cases h
  · next key hkey =>
      split at h
      · next hg =>
          obtain ⟨u, hu, rfl⟩ := Option.map_eq_some_iff.mp h
          exact ⟨key, u, hkey, hg.1, hg.2, hu, rfl⟩
      · cases h

theorem enqueueChainRun_eq_some {run : Run} {token : String} (h : enqueueChainRun s run token = some s') :
    ∃ u, enqueue s run = some u ∧ s' = { u with chains := registerChainRun u.chains run.id token } := by
  obtain ⟨u, hu, rfl⟩ := Option.map_eq_some_iff.mp h
  exact ⟨u, hu, rfl⟩

/-- What one event may do to the rows and to their tasks. -/
inductive RowChange (s s' : Queue) : Prop
  | unchanged (rows : s'.runs.rows = s.runs.rows)
      (tracked : ∀ id, isActive s id = true → id ∈ liveRunIds s none → id ∈ liveRunIds s' none)
  | queued (run : Run) (younger : ∀ r ∈ s.runs.rows, r.id < run.id) (status : run.status = .queued)
      (rows : s'.runs.rows = s.runs.rows ++ [run]) (tasks : s'.activeRunTasks = s.activeRunTasks ++ [run.id])
      (executing : s'.executingRunIds = s.executingRunIds)
  | status (id : Nat) (status : Status) (active : isActive s id = true) (runs : s'.runs = s.runs.setStatus id status)
      (tasks : s'.activeRunTasks = s.activeRunTasks) (executing : s'.executingRunIds = s.executingRunIds)

/-- What one event may do to the chain registries. -/
inductive ChainChange (t : Topology) (s s' : Queue) : QueueEvent → Prop
  | unchanged {e} (same : s'.chains = s.chains) : ChainChange t s s' e
  | root {run token} (key : ExecutionKey) (target : physicalKey t run = some key)
      (action : run.action = .backup) (fresh : freshToken s token = true)
      (younger : ∀ r ∈ s.runs.rows, r.id < run.id) (row : run ∈ s'.runs.rows)
      (registered : s'.chains = registerRepositoryChain s.chains key run.id token) :
      ChainChange t s s' (.enqueueChainRoot run token)
  | member {run token} (younger : ∀ r ∈ s.runs.rows, r.id < run.id) (row : run ∈ s'.runs.rows)
      (registered : s'.chains = registerChainRun s.chains run.id token) :
      ChainChange t s s' (.enqueueChainRun run token)
  | started {runId} (marked : s'.chains = markRepositoryChainStarted s.chains runId) :
      ChainChange t s s' (.claim runId)
  | released {token} (removed : s'.chains = releaseRepositoryChain s.chains token) :
      ChainChange t s s' (.releaseChain token)

theorem rowChange_of_enqueue {u : Queue} {run : Run} (h : enqueue s run = some u) (g : Registry) :
    RowChange s { u with chains := g } := by
  obtain ⟨hid, hq, rfl⟩ := enqueue_eq_some h
  exact .queued run hid hq rfl rfl rfl

theorem rowChange_of_step {e : QueueEvent} (h : queueStep t s e s') : RowChange s s' := by
  cases e with
  | enqueue run =>
      obtain ⟨hid, hq, rfl⟩ := enqueue_eq_some h
      exact .queued run hid hq rfl rfl rfl
  | enqueueChainRoot run token =>
      obtain ⟨key, u, _, _, _, hu, rfl⟩ := enqueueChainRoot_eq_some h
      exact rowChange_of_enqueue hu _
  | enqueueChainRun run token =>
      obtain ⟨u, hu, rfl⟩ := enqueueChainRun_eq_some h
      exact rowChange_of_enqueue hu _
  | beginExecution runId =>
      cases h
      refine .unchanged rfl ?_
      intro id _ hid
      simp only [liveRunIds, List.mem_append] at hid ⊢
      tauto
  | claim runId =>
      obtain ⟨⟨run, hm, hid, hq⟩, _, rfl⟩ := claimExecutionTurn_ok (claim_eq_some h)
      exact .status runId .running (isActive_iff.mpr ⟨run, hm, hid, by rw [hq]; rfl⟩) rfl rfl rfl
  | finish runId status =>
      obtain ⟨_, ha, rfl⟩ := finish_eq_some h
      exact .status runId status ha rfl rfl rfl
  | endExecution runId =>
      obtain ⟨ha, rfl⟩ := endExecution_eq_some h
      refine .unchanged rfl ?_
      intro id hact hid
      have hne : id ≠ runId := by
        rintro rfl
        rw [ha] at hact
        cases hact
      simpa [liveRunIds, hne] using hid
  | configure settings => cases h; exact .unchanged rfl (fun _ _ h => h)
  | releaseChain token => cases h; exact .unchanged rfl (fun _ _ h => h)
  | remount archiveMounts fuseMounts => cases h; exact .unchanged rfl (fun _ _ h => h)

theorem chainChange_of_step {e : QueueEvent} (h : queueStep t s e s') : ChainChange t s s' e := by
  cases e with
  | enqueue run =>
      obtain ⟨_, _, rfl⟩ := enqueue_eq_some h
      exact .unchanged rfl
  | enqueueChainRoot run token =>
      obtain ⟨key, u, hkey, ha, hf, hu, rfl⟩ := enqueueChainRoot_eq_some h
      obtain ⟨hid, _, rfl⟩ := enqueue_eq_some hu
      exact .root key hkey ha hf hid (by simp) rfl
  | enqueueChainRun run token =>
      obtain ⟨u, hu, rfl⟩ := enqueueChainRun_eq_some h
      obtain ⟨hid, _, rfl⟩ := enqueue_eq_some hu
      exact .member hid (by simp) rfl
  | beginExecution runId => cases h; exact .unchanged rfl
  | claim runId =>
      obtain ⟨_, _, rfl⟩ := claimExecutionTurn_ok (claim_eq_some h)
      exact .started rfl
  | finish runId status =>
      obtain ⟨_, _, rfl⟩ := finish_eq_some h
      exact .unchanged rfl
  | endExecution runId =>
      obtain ⟨_, rfl⟩ := endExecution_eq_some h
      exact .unchanged rfl
  | configure settings => cases h; exact .unchanged rfl
  | releaseChain token => cases h; exact .released rfl
  | remount archiveMounts fuseMounts => cases h; exact .unchanged rfl

theorem RowChange.tracked (h : RowChange s s') (ht : Tracked s) : Tracked s' := by
  cases h with
  | unchanged rows tracked =>
      intro r hr ha
      rw [rows] at hr
      exact tracked r.id (isActive_iff.mpr ⟨r, hr, rfl, ha⟩) (ht r hr ha)
  | queued run younger status rows tasks executing =>
      intro r hr ha
      rw [rows, List.mem_append, List.mem_singleton] at hr
      simp only [liveRunIds, tasks, executing, List.mem_append]
      rcases hr with hr | rfl
      · have := ht r hr ha
        simp only [liveRunIds, List.mem_append] at this
        tauto
      · simp
  | status id st active runs tasks executing =>
      intro r hr ha
      rw [runs] at hr
      obtain ⟨old, ho, rfl⟩ := RunTable.mem_setStatus.mp hr
      simp only [liveRunIds, tasks, executing, writeStatus_id]
      by_cases hid : old.id = id
      · obtain ⟨r', hr', hid', ha'⟩ := isActive_iff.mp active
        have := ht r' hr' ha'
        rwa [hid', ← hid] at this
      · rw [writeStatus_of_ne hid] at ha
        exact ht old ho ha

theorem RowChange.persists (h : RowChange s s') {run : Run} (hr : run ∈ s.runs.rows) :
    ∃ status, setStatus run status ∈ s'.runs.rows := by
  cases h with
  | unchanged rows _ => exact ⟨run.status, by rw [rows]; exact hr⟩
  | queued new _ _ rows _ _ => exact ⟨run.status, by rw [rows]; exact List.mem_append_left _ hr⟩
  | status id st _ runs _ _ =>
      rw [runs]
      by_cases hid : run.id = id
      · exact ⟨st, RunTable.mem_setStatus.mpr ⟨run, hr, writeStatus_of_eq hid st⟩⟩
      · exact ⟨run.status, RunTable.mem_setStatus.mpr ⟨run, hr, writeStatus_of_ne hid st⟩⟩

theorem Started.tracked (h : Started s) : Tracked s := by
  intro r hr ha
  rw [h.inactive r hr] at ha
  cases ha

theorem Reachable.of_exec {s₀ : Queue} {es : List QueueEvent} (h₀ : Started s₀)
    (h : exec (next t) s₀ es = some s) : Reachable t s :=
  ⟨s₀, es, h₀, history_of_exec h⟩

theorem Reachable.step {e : QueueEvent} (h : Reachable t s) (hs : queueStep t s e s') : Reachable t s' := by
  obtain ⟨s₀, es, h₀, hh⟩ := h
  exact ⟨s₀, es ++ [e], h₀, hh.snoc hs⟩

theorem Reachable.history {es : List QueueEvent} (h : Reachable t s) (hs : History (queueStep t) s es s') :
    Reachable t s' := by
  obtain ⟨s₀, fs, h₀, hh⟩ := h
  exact ⟨s₀, fs ++ es, h₀, hh.append hs⟩

theorem Reachable.invariant {Inv : Queue → Prop} (h : Reachable t s) (hstart : ∀ a, Started a → Inv a)
    (hstep : ∀ a e b, Inv a → queueStep t a e b → Inv b) : Inv s := by
  obtain ⟨s₀, es, h₀, hh⟩ := h
  exact hh.invariant Inv (hstart s₀ h₀) hstep

/-- Every active run of a reachable queue has a live task, so the planner
sees all of them. -/
theorem Reachable.tracked (h : Reachable t s) : Tracked s :=
  h.invariant (fun _ => Started.tracked) (fun _ _ _ ha hs => (rowChange_of_step hs).tracked ha)

/-- A manager with two repositories on one disk and the default settings, for
runs of the system on small inputs. -/
def samplePath (path : String) : Path :=
  ((path.toList.splitOn '/').filter (fun part => part != [])).map String.ofList

def sampleTopology : Topology where
  platform :=
    { resolve := fun path => some (samplePath path)
      purePath := samplePath
      mounts := [["repositories"]]
      casefold := id
      urlsplit := fun _ => ⟨"", none, none, none⟩
      unquote := id }
  repositories :=
    [⟨1, "first", true, "/repositories/first", some "/repositories/first", true, none⟩,
      ⟨2, "second", true, "/repositories/second", some "/repositories/second", true, none⟩]

def sampleSettings : Settings where
  maxParallelRuns := 0
  sourceStatsParallelLimit := 1
  mountParallelLimits := fun _ => 0
  externalStorageParallelLimits := fun _ => 0
  compactAfterPrune := true
  sourceStats_pos := Nat.one_pos
  sourceStats_le := by decide
  mount_le := by simp
  external_le := by simp

def sampleRun (id repositoryId : Nat) (action : Action) : Run :=
  ⟨id, some repositoryId, action, .queued, .manual, none, none, 0⟩

def emptyQueue (settings : Settings) : Queue := ⟨.empty, [], [], settings, [], [], .empty⟩

theorem emptyQueue_started (settings : Settings) : Started (emptyQueue settings) :=
  ⟨by simp [emptyQueue, RunTable.empty], rfl, rfl, rfl⟩

end BorgManager.QueueSystem
