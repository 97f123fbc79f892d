import BorgManager.RefreshAdmission

namespace BorgManager.RunStatus

open Records ExecutionKeys RunQueue ExecutionPlan QueueSystem RefreshAdmission Histories

variable (t : Topology)

/-- How far the coroutine that owns a run has come. A run of another process,
or of a coroutine that is over, has no owner. -/
inductive Owner
  | waiting | executing | finalizing | none
  deriving DecidableEq

/-- The queue with the owners of its runs, and the statuses that waiters and
completion notifications have read as final. -/
structure Executions where
  queue : Queue
  owner : Nat → Owner
  observed : List (Nat × Status)

def actionOf (s : Queue) (runId : Nat) : Option Action := (s.runs.get runId).map Run.action

def writeRunStatus (s : Queue) (runId : Nat) (status : Status) : Queue :=
  { s with runs := s.runs.setStatus runId status }

/-- The outcomes of the effects that follow the initialisation of a repository.
`repository` is the encryption mode of its row, if it still exists. -/
structure InitOutcome where
  rowsReadable : Bool
  repository : Option String
  keyfilePresent : Bool
  keyfileReadable : Bool
  secretStored : Bool
  committed : Bool
  keyfileRemoved : Bool

def require (outcome : Bool) (message : String) : Except String Unit :=
  if outcome then .ok () else .error message

def isKeyfileMode (mode : String) : Bool := "keyfile".toList.isPrefixOf mode.toList

/-- The follow-up of `execute_repository_init` after its run has ended. -/
def finalizeInit (o : InitOutcome) (status : Option Status) : Except String Unit := do
  require o.rowsReadable "database is not readable"
  match o.repository with
  | none => pure ()
  | some mode =>
      if status = some .success then do
        if isKeyfileMode mode then do
          require o.keyfilePresent "Borg did not create the expected repository keyfile"
          require o.keyfileReadable "keyfile is not readable"
          require o.secretStored "secret store is not writable"
        require o.committed "database is not writable"
        if isKeyfileMode mode then require o.keyfileRemoved "keyfile is not removable"

def statusOf (s : Queue) (runId : Nat) : Option Status := (s.runs.get runId).map Run.status

inductive StatusEvent
  | queue (event : QueueEvent)
  | record (run : Run)
  | refreshStart (runId : Nat) (present : Bool)
  | executeEnd (runId : Nat) (status : Status)
  | refreshEnd (runId : Nat) (status : Status)
  | initEnd (runId : Nat) (outcome : InitOutcome)
  | escape (runId : Nat)
  | cancel (runId : Nat)
  | observe (runId : Nat)
  | recover

/-- The queue events that an owner takes part in: `_execute_run_inner` claims
for itself, and the planner side writes no terminal status. -/
def admits (m : Executions) : QueueEvent → Bool
  | .claim runId => m.owner runId == .waiting && actionOf m.queue runId != some .archiveRefresh
  | .finish .. => false
  | _ => true

def ownerAfter (owner : Nat → Owner) : QueueEvent → Nat → Owner
  | .enqueue run | .enqueueChainRoot run _ | .enqueueChainRun run _ => Function.update owner run.id .waiting
  | .claim runId => Function.update owner runId .executing
  | _ => owner

def owned (m : Executions) (runId : Nat) : Bool :=
  m.owner runId == .waiting || m.owner runId == .executing

/-- A row that is written once, with its final status: a reset, a cleared
cache, an error of a schedule. -/
def record (m : Executions) (run : Run) : Option Executions :=
  if h : (∀ r ∈ m.queue.runs.rows, r.id < run.id) ∧ run.status.terminal = true then
    some { m with
      queue := { m.queue with runs := m.queue.runs.insert run h.1 }
      owner := Function.update m.owner run.id .none }
  else none

/-- The final status block of `_execute_run_inner` writes the status of its
run without a look at the old one. -/
def executeEnd (m : Executions) (runId : Nat) (status : Status) : Option Executions :=
  if owned m runId = true ∧ actionOf m.queue runId ≠ some .archiveRefresh ∧ status.terminal = true then
    some { m with
      queue := writeRunStatus m.queue runId status
      owner := Function.update m.owner runId
        (if actionOf m.queue runId = some .repositoryInit then .finalizing else .none) }
  else none

def refreshEnd (m : Executions) (runId : Nat) (status : Status) : Option Executions :=
  if owned m runId = true ∧ actionOf m.queue runId = some .archiveRefresh ∧ status.terminal = true then
    some { m with
      queue := if isActive m.queue runId = true then writeRunStatus m.queue runId status else m.queue
      owner := Function.update m.owner runId .none }
  else none

/-- An exception of the follow-up marks the run as failed, whatever its
status is by then. -/
def initEnd (m : Executions) (runId : Nat) (o : InitOutcome) : Option Executions :=
  if m.owner runId = .finalizing then
    some { m with
      queue :=
        match finalizeInit o (statusOf m.queue runId) with
        | .ok _ => m.queue
        | .error _ => writeRunStatus m.queue runId .failed
      owner := Function.update m.owner runId .none }
  else none

/-- An exception that leaves the coroutine of a run: its task is gone, and its
row stays as it is. -/
def escape (m : Executions) (runId : Nat) : Executions :=
  { m with
    queue := { m.queue with
      activeRunTasks := m.queue.activeRunTasks.filter (· != runId)
      executingRunIds := m.queue.executingRunIds.filter (· != runId) }
    owner := Function.update m.owner runId .none }

/-- `cancel_run` looks at the row and cancels the task. The row is left to
the owner of the run. -/
def cancel (m : Executions) (runId : Nat) : Option Executions :=
  if isActive m.queue runId = true ∧ runId ∈ m.queue.activeRunTasks then some m else none

/-- One look of `_wait_for_run` or of the completion notification. -/
def observe (m : Executions) (runId : Nat) : Option Executions :=
  match statusOf m.queue runId with
  | none => none
  | some status =>
      if status.terminal then some { m with observed := (runId, status) :: m.observed } else none

def recoverRow (run : Run) : Run := if run.status.active then setStatus run .failed else run

@[simp] theorem recoverRow_id (run : Run) : (recoverRow run).id = run.id := by
  rw [recoverRow]
  split <;> rfl

def recoverRuns (runs : RunTable) : RunTable where
  rows := runs.rows.map recoverRow
  ordered := by
    rw [List.pairwise_map]
    simpa only [recoverRow_id] using runs.ordered

/-- A restart of the manager: the coroutines and the registries of the old
process are gone, and `recover_interrupted_runs` closes what they left. -/
def recover (m : Executions) : Executions :=
  { m with
    queue := { m.queue with
      runs := recoverRuns m.queue.runs, activeRunTasks := [], executingRunIds := [], chains := .empty }
    owner := fun _ => .none }

def statusNext (m : Executions) : StatusEvent → Option Executions
  | .queue event =>
      if admits m event then
        (next t m.queue event).map (fun s => { m with queue := s, owner := ownerAfter m.owner event })
      else none
  | .record run => record m run
  | .refreshStart runId present =>
      if m.owner runId = .waiting then
        (RefreshAdmission.refreshStart t m.queue runId present).map (fun s =>
          { m with queue := s, owner := Function.update m.owner runId .executing })
      else none
  | .executeEnd runId status => executeEnd m runId status
  | .refreshEnd runId status => refreshEnd m runId status
  | .initEnd runId outcome => initEnd m runId outcome
  | .escape runId => some (escape m runId)
  | .cancel runId => cancel m runId
  | .observe runId => observe m runId
  | .recover => some (recover m)

abbrev statusStep : Transition Executions StatusEvent := graph (statusNext t)

/-- The moves in the life of a run: it is started at most once, and it ends at
most once. -/
inductive Advances : Status → Status → Prop
  | same (st) : Advances st st
  | start : Advances .queued .running
  | finish {st st'} (active : st.active = true) (terminal : st'.terminal = true) : Advances st st'

/-- Every run keeps its row, and its status only moves forward. -/
def StatusesAdvance (m m' : Executions) : Prop :=
  ∀ r ∈ m.queue.runs.rows, ∃ r' ∈ m'.queue.runs.rows, r'.id = r.id ∧ Advances r.status r'.status

/-- What has been read as the final status of a run is its status. -/
def ObservedFinal (m : Executions) : Prop :=
  ∀ runId status, (runId, status) ∈ m.observed →
    ∃ r ∈ m.queue.runs.rows, r.id = runId ∧ r.status = status ∧ status.terminal = true

/-- An effect of the follow-up fails: the rows cannot be read, or the run was
successful and its repository cannot be completed. -/
def followUpFails (o : InitOutcome) (status : Option Status) : Bool :=
  !o.rowsReadable || (status == some .success && o.repository.any (fun mode =>
    !o.committed || (isKeyfileMode mode &&
      !(o.keyfilePresent && o.keyfileReadable && o.secretStored && o.keyfileRemoved))))

/-- No effect of the follow-up of a repository initialisation fails, unless its
run has failed already. -/
def FollowUpKeeps (m : Executions) (e : StatusEvent) : Prop :=
  ∀ runId o, e = .initEnd runId o → followUpFails o (statusOf m.queue runId) = true →
    ∀ r ∈ m.queue.runs.rows, r.id = runId → r.status = .failed

structure Started (m : Executions) : Prop where
  queue : QueueSystem.Started m.queue
  owner : ∀ runId, m.owner runId = .none
  observed : m.observed = []

/-- The status that an owner relies on. -/
def Fits : Owner → Status → Prop
  | .waiting, status => status = .queued
  | .executing, status => status = .running
  | .finalizing, status => status.terminal = true
  | .none, _ => True

def Owned (m : Executions) : Prop := ∀ r ∈ m.queue.runs.rows, Fits (m.owner r.id) r.status

/-- What one event may do to the rows and to their owners. -/
inductive RowWrite (m m' : Executions) : Prop
  | kept (rows : m'.queue.runs.rows = m.queue.runs.rows)
      (owner : ∀ id, m'.owner id = m.owner id ∨ m'.owner id = .none)
  | inserted (run : Run) (o : Owner) (younger : ∀ r ∈ m.queue.runs.rows, r.id < run.id)
      (rows : m'.queue.runs.rows = m.queue.runs.rows ++ [run])
      (owner : m'.owner = Function.update m.owner run.id o) (fits : Fits o run.status)
  | written (id : Nat) (status : Status) (o : Owner) (runs : m'.queue.runs = m.queue.runs.setStatus id status)
      (owner : m'.owner = Function.update m.owner id o) (fits : Fits o status)
  | recovered (rows : m'.queue.runs.rows = m.queue.runs.rows.map recoverRow) (owner : ∀ id, m'.owner id = .none)

variable {t} {m m' m'' : Executions}

theorem update_none (owner : Nat → Owner) (id j : Nat) :
    Function.update owner id .none j = owner j ∨ Function.update owner id .none j = .none := by
  by_cases h : j = id
  · exact .inr (by rw [h, Function.update_self])
  · exact .inl (Function.update_of_ne h _ _)

theorem executeEnd_eq_some {runId : Nat} {status : Status} (h : executeEnd m runId status = some m') :
    owned m runId = true ∧ status.terminal = true ∧ m' = { m with
      queue := writeRunStatus m.queue runId status
      owner := Function.update m.owner runId
        (if actionOf m.queue runId = some .repositoryInit then .finalizing else .none) } := by
  rw [executeEnd] at h
  split at h
  · next hc => exact ⟨hc.1, hc.2.2, (Option.some.inj h).symm⟩
  · cases h

theorem refreshEnd_eq_some {runId : Nat} {status : Status} (h : refreshEnd m runId status = some m') :
    status.terminal = true ∧ m' = { m with
      queue := if isActive m.queue runId = true then writeRunStatus m.queue runId status else m.queue
      owner := Function.update m.owner runId .none } := by
  rw [refreshEnd] at h
  split at h
  · next hc => exact ⟨hc.2.2, (Option.some.inj h).symm⟩
  · cases h

theorem initEnd_eq_some {runId : Nat} {o : InitOutcome} (h : initEnd m runId o = some m') :
    m.owner runId = .finalizing ∧ m'.owner = Function.update m.owner runId .none ∧
      m'.observed = m.observed ∧
      ((finalizeInit o (statusOf m.queue runId) = .ok () ∧ m'.queue = m.queue) ∨
        ∃ message, finalizeInit o (statusOf m.queue runId) = .error message ∧
          m'.queue = writeRunStatus m.queue runId .failed) := by
  rw [initEnd] at h
  split at h
  · next hc =>
      cases h
      refine ⟨hc, rfl, rfl, ?_⟩
      cases hf : finalizeInit o (statusOf m.queue runId) with
      | ok u => exact .inl ⟨rfl, rfl⟩
      | error message => exact .inr ⟨message, rfl, rfl⟩
  · cases h

theorem record_eq_some {run : Run} (h : record m run = some m') :
    ∃ hid : ∀ r ∈ m.queue.runs.rows, r.id < run.id, run.status.terminal = true ∧ m' = { m with
      queue := { m.queue with runs := m.queue.runs.insert run hid }
      owner := Function.update m.owner run.id .none } := by
  rw [record] at h
  split at h
  · next hc => exact ⟨hc.1, hc.2, (Option.some.inj h).symm⟩
  · cases h

theorem observe_eq_some {runId : Nat} (h : observe m runId = some m') :
    ∃ status, statusOf m.queue runId = some status ∧ status.terminal = true ∧
      m' = { m with observed := (runId, status) :: m.observed } := by
  rw [observe] at h
  cases hs : statusOf m.queue runId with
  | none => simp [hs] at h
  | some status =>
      simp only [hs] at h
      split at h
      · next hc => exact ⟨status, rfl, hc, (Option.some.inj h).symm⟩
      · cases h

theorem cancel_eq_some {runId : Nat} (h : cancel m runId = some m') : m' = m := by
  rw [cancel] at h
  split at h
  · exact (Option.some.inj h).symm
  · cases h

theorem statusOf_eq_some {s : Queue} {runId : Nat} {status : Status} :
    statusOf s runId = some status ↔ ∃ r ∈ s.runs.rows, r.id = runId ∧ r.status = status := by
  simp only [statusOf, Option.map_eq_some_iff, RunTable.get_eq_some, and_assoc]

theorem inserted_of_enqueue {s u : Queue} {run : Run} (h : enqueue m.queue run = some u) (hs : s.runs = u.runs) :
    RowWrite m { m with queue := s, owner := Function.update m.owner run.id .waiting } := by
  obtain ⟨hid, hq, rfl⟩ := enqueue_eq_some h
  exact .inserted run .waiting hid (by rw [hs]; rfl) rfl hq

theorem rowWrite_of_queue {e : QueueEvent} {s : Queue} (ha : admits m e = true) (h : next t m.queue e = some s) :
    RowWrite m { m with queue := s, owner := ownerAfter m.owner e } := by
  cases e with
  | enqueue run => exact inserted_of_enqueue h rfl
  | enqueueChainRoot run token =>
      obtain ⟨key, u, _, _, _, hu, rfl⟩ := enqueueChainRoot_eq_some h
      exact inserted_of_enqueue hu rfl
  | enqueueChainRun run token =>
      obtain ⟨u, hu, rfl⟩ := enqueueChainRun_eq_some h
      exact inserted_of_enqueue hu rfl
  | claim runId =>
      obtain ⟨_, _, rfl⟩ := claimExecutionTurn_ok (claim_eq_some h)
      exact .written runId .running .executing rfl rfl rfl
  | finish runId status => cases ha
  | endExecution runId =>
      obtain ⟨_, rfl⟩ := endExecution_eq_some h
      exact .kept rfl (fun _ => .inl rfl)
  | beginExecution | configure | releaseChain | remount => cases h; exact .kept rfl (fun _ => .inl rfl)

theorem rowWrite_of_step {e : StatusEvent} (h : statusStep t m e m') : RowWrite m m' := by
  cases e with
  | queue event =>
      simp only [graph, statusNext] at h
      split at h
      · next ha =>
          obtain ⟨s, hs, rfl⟩ := Option.map_eq_some_iff.mp h
          exact rowWrite_of_queue ha hs
      · cases h
  | record run =>
      obtain ⟨hid, _, rfl⟩ := record_eq_some h
      exact .inserted run .none hid rfl rfl trivial
  | refreshStart runId present =>
      simp only [graph, statusNext] at h
      split at h
      · obtain ⟨s, hs, rfl⟩ := Option.map_eq_some_iff.mp h
        obtain ⟨_, _, _, _, _, _, _, _, _, rfl⟩ := refreshStart_eq_some hs
        exact .written runId .running .executing rfl rfl rfl
      · cases h
  | executeEnd runId status =>
      obtain ⟨_, ht, rfl⟩ := executeEnd_eq_some h
      refine .written runId status _ rfl rfl ?_
      split
      · exact ht
      · trivial
  | refreshEnd runId status =>
      obtain ⟨_, rfl⟩ := refreshEnd_eq_some h
      by_cases ha : isActive m.queue runId = true
      · exact .written runId status .none (by rw [if_pos ha]; rfl) rfl trivial
      · exact .kept (by rw [if_neg ha]) (update_none m.owner runId)
  | initEnd runId o =>
      obtain ⟨_, howner, _, ⟨_, hq⟩ | ⟨_, _, hq⟩⟩ := initEnd_eq_some h
      · exact .kept (by rw [hq]) (by rw [howner]; exact update_none m.owner runId)
      · exact .written runId .failed .none (by rw [hq]; rfl) howner trivial
  | escape runId => cases h; exact .kept rfl (update_none m.owner runId)
  | cancel runId =>
      cases cancel_eq_some h
      exact .kept rfl (fun _ => .inl rfl)
  | observe runId =>
      obtain ⟨_, _, _, rfl⟩ := observe_eq_some h
      exact .kept rfl (fun _ => .inl rfl)
  | recover => cases h; exact .recovered rfl (fun _ => rfl)

theorem fits_of_owner_none {o : Owner} (h : o = .none) (status : Status) : Fits o status := h ▸ trivial

/-- Every owner finds the status that it relies on: each write of the status
of a run also decides on the owner of the run. -/
theorem RowWrite.owned (h : RowWrite m m') (ho : Owned m) : Owned m' := by
  cases h with
  | kept rows owner =>
      intro r hr
      rw [rows] at hr
      rcases owner r.id with he | he
      · rw [he]
        exact ho r hr
      · exact fits_of_owner_none he _
  | inserted run o younger rows owner fits =>
      intro r hr
      rw [rows, List.mem_append, List.mem_singleton] at hr
      rw [owner]
      rcases hr with hr | rfl
      · rw [Function.update_of_ne (Nat.ne_of_lt (younger r hr))]
        exact ho r hr
      · rw [Function.update_self]
        exact fits
  | written id status o runs owner fits =>
      intro r hr
      rw [runs] at hr
      obtain ⟨old, hold, rfl⟩ := RunTable.mem_setStatus.mp hr
      rw [owner, writeStatus_id]
      by_cases hid : old.id = id
      · rw [hid, Function.update_self, writeStatus_of_eq hid]
        exact fits
      · rw [Function.update_of_ne hid, writeStatus_of_ne hid]
        exact ho old hold
  | recovered rows owner =>
      intro r _
      exact fits_of_owner_none (owner r.id) _

theorem Started.owned (h : Started m) : Owned m :=
  fun r _ => fits_of_owner_none (h.owner r.id) _

theorem owned_of_history {m₀ : Executions} {es : List StatusEvent} (h₀ : Started m₀)
    (h : History (statusStep t) m₀ es m) : Owned m :=
  h.invariant Owned h₀.owned (fun _ _ _ ho hs => (rowWrite_of_step hs).owned ho)

theorem Advances.trans {a b c : Status} (h : Advances a b) (k : Advances b c) : Advances a c := by
  cases h with
  | same => exact k
  | start =>
      cases k with
      | same => exact .start
      | finish active terminal => exact .finish rfl terminal
  | finish active terminal =>
      cases k with
      | same => exact .finish active terminal
      | start => cases terminal
      | finish active' terminal' => exact .finish active terminal'

theorem Advances.eq_of_terminal {a b : Status} (h : Advances a b) (ha : a.terminal = true) : b = a := by
  cases h with
  | same => rfl
  | start => cases ha
  | finish active _ => simp [active] at ha

theorem StatusesAdvance.refl (m : Executions) : StatusesAdvance m m :=
  fun r hr => ⟨r, hr, rfl, .same _⟩

theorem StatusesAdvance.trans (h : StatusesAdvance m m') (k : StatusesAdvance m' m'') : StatusesAdvance m m'' := by
  intro r hr
  obtain ⟨r', hr', hid, ha⟩ := h r hr
  obtain ⟨r'', hr'', hid', ha'⟩ := k r' hr'
  exact ⟨r'', hr'', hid'.trans hid, ha.trans ha'⟩

theorem advance_of_subset (h : ∀ r ∈ m.queue.runs.rows, r ∈ m'.queue.runs.rows) : StatusesAdvance m m' :=
  fun r hr => ⟨r, h r hr, rfl, .same _⟩

theorem advance_of_write {id : Nat} {status : Status} (hruns : m'.queue.runs = m.queue.runs.setStatus id status)
    (h : ∀ r ∈ m.queue.runs.rows, r.id = id → Advances r.status status) : StatusesAdvance m m' := by
  intro r hr
  refine ⟨writeStatus id status r, ?_, writeStatus_id .., ?_⟩
  · rw [hruns]
    exact RunTable.mem_setStatus.mpr ⟨r, hr, rfl⟩
  · by_cases hid : r.id = id
    · rw [writeStatus_of_eq hid]
      exact h r hr hid
    · rw [writeStatus_of_ne hid]
      exact .same _

theorem advance_of_recover (m : Executions) : StatusesAdvance m (recover m) := by
  intro r hr
  refine ⟨recoverRow r, List.mem_map_of_mem hr, recoverRow_id r, ?_⟩
  cases ha : r.status.active with
  | true => simpa [recoverRow, ha] using Advances.finish ha rfl
  | false => simpa [recoverRow, ha] using Advances.same r.status

theorem active_of_owned {runId : Nat} (ho : Owned m) (h : owned m runId = true) {r : Run}
    (hr : r ∈ m.queue.runs.rows) (hid : r.id = runId) : r.status.active = true := by
  have hfits := ho r hr
  rw [hid] at hfits
  simp only [owned, Bool.or_eq_true, beq_iff_eq] at h
  rcases h with h | h
  · rw [h] at hfits
    rw [show r.status = .queued from hfits]
    rfl
  · rw [h] at hfits
    rw [show r.status = .running from hfits]
    rfl

theorem finalizeInit_error_iff (o : InitOutcome) (status : Option Status) :
    (∃ message, finalizeInit o status = .error message) ↔ followUpFails o status = true := by
  rcases o with ⟨rows, repository, present, readable, stored, committed, removed⟩
  cases rows with
  | false => simp [finalizeInit, followUpFails, require, Bind.bind, Except.bind]
  | true =>
      cases repository with
      | none => simp [finalizeInit, followUpFails, require, Bind.bind, Except.bind, Pure.pure, Except.pure]
      | some mode =>
          by_cases hs : status = some .success
          · cases hm : isKeyfileMode mode <;> cases present <;> cases readable <;> cases stored <;>
              cases committed <;> cases removed <;>
              simp [finalizeInit, followUpFails, require, Bind.bind, Except.bind, Pure.pure, Except.pure, hs, hm]
          · simp [finalizeInit, followUpFails, require, Bind.bind, Except.bind, Pure.pure, Except.pure, hs]

theorem advance_of_queue {e : QueueEvent} {s : Queue} {owner : Nat → Owner} (h : next t m.queue e = some s)
    (ha : admits m e = true) : StatusesAdvance m { m with queue := s, owner := owner } := by
  have hnew {u : Queue} {run : Run} (hu : enqueue m.queue run = some u) {r : Run}
      (hr : r ∈ m.queue.runs.rows) : r ∈ u.runs.rows := by
    obtain ⟨_, _, rfl⟩ := enqueue_eq_some hu
    exact List.mem_append_left _ hr
  cases e with
  | enqueue run => exact advance_of_subset (fun r => hnew h)
  | enqueueChainRoot run token =>
      obtain ⟨key, u, _, _, _, hu, rfl⟩ := enqueueChainRoot_eq_some h
      exact advance_of_subset (fun r => hnew hu)
  | enqueueChainRun run token =>
      obtain ⟨u, hu, rfl⟩ := enqueueChainRun_eq_some h
      exact advance_of_subset (fun r => hnew hu)
  | claim runId =>
      obtain ⟨⟨run, hm, hid, hq⟩, _, rfl⟩ := claimExecutionTurn_ok (claim_eq_some h)
      apply advance_of_write rfl
      intro r hr hrid
      rw [m.queue.runs.eq_of_id_eq hr hm (hrid.trans hid.symm), hq]
      exact .start
  | finish runId status => cases ha
  | endExecution runId =>
      obtain ⟨_, rfl⟩ := endExecution_eq_some h
      exact advance_of_subset (fun _ hr => hr)
  | beginExecution | configure | releaseChain | remount => cases h; exact advance_of_subset (fun _ hr => hr)

/-- One event moves the statuses forward if it is no failing follow-up. -/
theorem advance_of_step {e : StatusEvent} (ho : Owned m) (h : statusStep t m e m') (hk : FollowUpKeeps m e) :
    StatusesAdvance m m' := by
  cases e with
  | queue event =>
      simp only [graph, statusNext] at h
      split at h
      · next ha =>
          obtain ⟨s, hs, rfl⟩ := Option.map_eq_some_iff.mp h
          exact advance_of_queue hs ha
      · cases h
  | record run =>
      obtain ⟨hid, _, rfl⟩ := record_eq_some h
      exact advance_of_subset (fun _ hr => List.mem_append_left _ hr)
  | refreshStart runId present =>
      simp only [graph, statusNext] at h
      split at h
      · obtain ⟨s, hs, rfl⟩ := Option.map_eq_some_iff.mp h
        obtain ⟨run, _, hm, hid, hq, _, _, _, _, rfl⟩ := refreshStart_eq_some hs
        apply advance_of_write rfl
        intro r hr hrid
        rw [m.queue.runs.eq_of_id_eq hr hm (hrid.trans hid.symm), hq]
        exact .start
      · cases h
  | executeEnd runId status =>
      obtain ⟨hown, ht, rfl⟩ := executeEnd_eq_some h
      apply advance_of_write rfl
      intro r hr hid
      exact .finish (active_of_owned ho hown hr hid) ht
  | refreshEnd runId status =>
      obtain ⟨ht, rfl⟩ := refreshEnd_eq_some h
      by_cases ha : isActive m.queue runId = true
      · apply advance_of_write (by rw [if_pos ha]; rfl)
        intro r hr hid
        obtain ⟨r', hr', hid', ha'⟩ := isActive_iff.mp ha
        rw [m.queue.runs.eq_of_id_eq hr hr' (hid.trans hid'.symm)]
        exact .finish ha' ht
      · apply advance_of_subset
        intro r hr
        rw [if_neg ha]
        exact hr
  | initEnd runId o =>
      obtain ⟨_, _, _, ⟨_, hq⟩ | ⟨message, hf, hq⟩⟩ := initEnd_eq_some h
      · exact advance_of_subset (fun r hr => hq ▸ hr)
      · apply advance_of_write (congrArg Queue.runs hq)
        intro r hr hid
        rw [hk runId o rfl ((finalizeInit_error_iff ..).mp ⟨message, hf⟩) r hr hid]
        exact .same _
  | escape runId => cases h; exact advance_of_subset (fun _ hr => hr)
  | cancel runId => cases cancel_eq_some h; exact .refl m
  | observe runId =>
      obtain ⟨_, _, _, rfl⟩ := observe_eq_some h
      exact advance_of_subset (fun _ hr => hr)
  | recover => cases h; exact advance_of_recover m

/-- A failing follow-up that keeps the statuses has found a failed run. -/
theorem keeps_of_advance {e : StatusEvent} (ho : Owned m) (h : statusStep t m e m') (ha : StatusesAdvance m m') :
    FollowUpKeeps m e := by
  rintro runId o rfl hf r hr rfl
  obtain ⟨howner, _, _, ⟨hok, _⟩ | ⟨_, _, hq⟩⟩ := initEnd_eq_some h
  · obtain ⟨message, he⟩ := (finalizeInit_error_iff ..).mpr hf
    rw [hok] at he
    cases he
  · have hfits := ho r hr
    rw [howner] at hfits
    obtain ⟨r', hr', hid, hadv⟩ := ha r hr
    rw [hq] at hr'
    obtain ⟨old, _, rfl⟩ := RunTable.mem_setStatus.mp hr'
    rw [writeStatus_id] at hid
    rw [writeStatus_of_eq hid] at hadv
    exact (hadv.eq_of_terminal hfits).symm

theorem ObservedFinal.of_advance (h : ObservedFinal m) (ha : StatusesAdvance m m')
    (hobs : m'.observed = m.observed) : ObservedFinal m' := by
  intro runId status hmem
  rw [hobs] at hmem
  obtain ⟨r, hr, hid, hst, ht⟩ := h runId status hmem
  obtain ⟨r', hr', hid', hadv⟩ := ha r hr
  refine ⟨r', hr', hid'.trans hid, ?_, ht⟩
  rw [hadv.eq_of_terminal (by rw [hst]; exact ht), hst]

theorem observed_of_step {e : StatusEvent} (h : statusStep t m e m') :
    m'.observed = m.observed ∨
      ∃ runId status, statusOf m.queue runId = some status ∧ status.terminal = true ∧
        m' = { m with observed := (runId, status) :: m.observed } := by
  cases e with
  | queue event =>
      simp only [graph, statusNext] at h
      split at h
      · obtain ⟨s, _, rfl⟩ := Option.map_eq_some_iff.mp h
        exact .inl rfl
      · cases h
  | record run =>
      obtain ⟨_, _, rfl⟩ := record_eq_some h
      exact .inl rfl
  | refreshStart runId present =>
      simp only [graph, statusNext] at h
      split at h
      · obtain ⟨s, _, rfl⟩ := Option.map_eq_some_iff.mp h
        exact .inl rfl
      · cases h
  | executeEnd runId status =>
      obtain ⟨_, _, rfl⟩ := executeEnd_eq_some h
      exact .inl rfl
  | refreshEnd runId status =>
      obtain ⟨_, rfl⟩ := refreshEnd_eq_some h
      exact .inl rfl
  | initEnd runId o => exact .inl (initEnd_eq_some h).2.2.1
  | escape runId => cases h; exact .inl rfl
  | cancel runId => cases cancel_eq_some h; exact .inl rfl
  | observe runId =>
      obtain ⟨status, hs, ht, rfl⟩ := observe_eq_some h
      exact .inr ⟨runId, status, hs, ht, rfl⟩
  | recover => cases h; exact .inl rfl

theorem observedFinal_of_step {e : StatusEvent} (hf : ObservedFinal m) (h : statusStep t m e m')
    (ha : StatusesAdvance m m') : ObservedFinal m' := by
  rcases observed_of_step h with hobs | ⟨runId, status, hs, ht, rfl⟩
  · exact hf.of_advance ha hobs
  · intro id st hmem
    rcases List.mem_cons.mp hmem with he | hmem
    · cases he
      obtain ⟨r, hr, hid, hst⟩ := statusOf_eq_some.mp hs
      exact ⟨r, hr, hid, hst, ht⟩
    · exact hf id st hmem

theorem Started.observedFinal (h : Started m) : ObservedFinal m := by
  intro runId status hmem
  rw [h.observed] at hmem
  cases hmem

abbrev keepingStep (t : Topology) : Transition Executions StatusEvent := meeting (statusStep t) FollowUpKeeps

theorem run_invariants {m₀ : Executions} {es : List StatusEvent} (h₀ : Started m₀)
    (h : History (keepingStep t) m₀ es m) : Owned m ∧ ObservedFinal m := by
  apply h.invariant (fun a => Owned a ∧ ObservedFinal a) ⟨h₀.owned, h₀.observedFinal⟩
  rintro a e b ⟨ho, hf⟩ ⟨hs, hk⟩
  exact ⟨(rowWrite_of_step hs).owned ho, observedFinal_of_step hf hs (advance_of_step ho hs hk)⟩

theorem advance_of_history {es : List StatusEvent} (ho : Owned m) (h : History (keepingStep t) m es m') :
    StatusesAdvance m m' := by
  induction h with
  | nil => exact .refl _
  | cons head _ ih =>
      exact (advance_of_step ho head.1 head.2).trans (ih ((rowWrite_of_step head.1).owned ho))

/-- The status of a run is a one-way state machine exactly as long as no
follow-up of a repository initialisation fails after its run has ended
otherwise than by a failure. -/
theorem status_one_way {m₀ : Executions} (h₀ : Started m₀) :
    (∀ es m e m', History (statusStep t) m₀ es m → statusStep t m e m' →
      (StatusesAdvance m m' ↔ FollowUpKeeps m e)) ∧
    ∀ es m fs m', History (keepingStep t) m₀ es m → History (keepingStep t) m fs m' →
      StatusesAdvance m m' ∧ ObservedFinal m' := by
  constructor
  · intro es m e m' h hs
    have ho := owned_of_history h₀ h
    exact ⟨keeps_of_advance ho hs, advance_of_step ho hs⟩
  · intro es m fs m' h k
    exact ⟨advance_of_history (run_invariants h₀ h).1 k, (run_invariants h₀ (h.append k)).2⟩

/-- The sample disk with a keyfile repository that is not initialised yet. -/
def initTopology : Topology :=
  { sampleTopology with
    repositories := [⟨1, "first", true, "/repositories/first", some "/repositories/first", false, none⟩] }

def startedExecutions : Executions := ⟨emptyQueue sampleSettings, fun _ => .none, []⟩

theorem startedExecutions_started : Started startedExecutions :=
  ⟨emptyQueue_started sampleSettings, fun _ => rfl, rfl⟩

def successfulInit : List StatusEvent :=
  [.queue (.enqueue (sampleRun 1 1 .repositoryInit)), .queue (.beginExecution 1), .queue (.claim 1),
    .executeEnd 1 .success, .observe 1]

def initialized : Executions := (exec (statusNext initTopology) startedExecutions successfulInit).get (by decide)

def missingKeyfile : InitOutcome := ⟨true, some "keyfile-blake2", false, false, true, true, true⟩

def storedKeyfile : InitOutcome := ⟨true, some "keyfile-blake2", true, true, true, true, true⟩

def afterInit (o : InitOutcome) : Executions :=
  (initEnd initialized 1 o).getD initialized

theorem status_one_way_init :
    (StatusesAdvance initialized (afterInit storedKeyfile) ↔
      FollowUpKeeps initialized (.initEnd 1 storedKeyfile)) ∧
    StatusesAdvance initialized (afterInit storedKeyfile) ∧ ObservedFinal (afterInit storedKeyfile) := by
  have h := status_one_way (t := initTopology) startedExecutions_started
  refine ⟨h.1 successfulInit initialized _ _ (history_of_exec (Option.some_get _).symm) rfl, ?_⟩
  have hkeeping : History (keepingStep initTopology) startedExecutions successfulInit initialized := by
    refine .cons ⟨rfl, nofun⟩ (.cons ⟨rfl, nofun⟩ (.cons ⟨rfl, nofun⟩ (.cons ⟨rfl, nofun⟩ (.cons ⟨rfl, nofun⟩ ?_))))
    exact .nil _
  apply h.2 successfulInit initialized [.initEnd 1 storedKeyfile] _ hkeeping (.single ⟨rfl, ?_⟩)
  rintro runId o he hf
  cases he
  exact absurd hf (by decide)

/-- The initialisation has succeeded and its success has been reported, when
the missing keyfile turns the run into a failed one. -/
theorem successful_init_fails :
    ¬ ∀ es m e m', History (statusStep initTopology) startedExecutions es m →
      statusStep initTopology m e m' → StatusesAdvance m m' ∧ ObservedFinal m' := by
  intro h
  obtain ⟨_, hf⟩ := h successfulInit initialized (.initEnd 1 missingKeyfile) (afterInit missingKeyfile)
    (history_of_exec (Option.some_get _).symm) rfl
  obtain ⟨r, hr, _, hst, _⟩ := hf 1 .success (by decide)
  revert r
  decide

end BorgManager.RunStatus
