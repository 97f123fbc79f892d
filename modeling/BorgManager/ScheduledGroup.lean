import BorgManager.Records
import Mathlib.Data.List.Sort
import Mathlib.Data.List.Dedup

namespace BorgManager.ScheduledGroup

open Records

/-- `pruneOptions` is `none` when the stored text is not JSON. -/
structure Job where
  repositoryId : Nat
  pruneOptions : Option (List (String × RetentionValue))

def hasRetention : Option Job → Bool
  | none => false
  | some job =>
      match job.pruneOptions with
      | none => false
      | some options => options.any (fun option => option.2.positive)

/-- The jobs of one schedule, as the target query returns them. -/
structure ScheduleGroup where
  jobIds : List Nat
  nodup : jobIds.Nodup

/-- Everything that the group meets while it runs: the job records at the
moments they are read, the outcome of each queueing, and the final status of
each run. A queueing that raises gives the text that is recorded. The group
itself reads a job before its backup and before its prune; the third reading is
the one of `queue_job_action`, which gives the compact its repository. The
repositories are assigned for the whole group: a job whose compact is queued
still has the repository of its prune. -/
structure GroupWorld where
  jobAtBackup : Nat → Option Job
  jobAtPrune : Nat → Option Job
  jobAtCompact : Nat → Option Job
  queueJobAction : Action → Nat → Except String Nat
  assigned : ∀ jobId runId, queueJobAction .compact jobId = .ok runId →
    (jobAtCompact jobId).map Job.repositoryId = (jobAtPrune jobId).map Job.repositoryId
  waitForRun : Nat → Status
  terminal : ∀ runId, (waitForRun runId).terminal = true
  compactAfterPrune : Bool
  repositorySizeAfterRun : Bool

inductive GroupEvent
  | queued (action : Action) (jobId runId : Nat)
  | scheduleError (action : Action) (jobId : Nat) (message : String)
  | terminal (runId : Nat) (status : Status)
  | refreshed (repositoryId : Nat)
  deriving DecidableEq

def scheduleErrorText (action : Action) (detail : String) : String :=
  match action with
  | .prune => s!"Archivbereinigung konnte nicht gestartet werden: {detail}"
  | .compact => s!"Compact konnte nicht gestartet werden: {detail}"
  | _ => detail

variable (w : GroupWorld)

def attempt (action : Action) (jobId : Nat) : GroupEvent :=
  match w.queueJobAction action jobId with
  | .ok runId => .queued action jobId runId
  | .error detail => .scheduleError action jobId (scheduleErrorText action detail)

/-- The dictionary from jobs to the runs that could be queued. -/
def queuedRuns (action : Action) (jobIds : List Nat) : List (Nat × Nat) :=
  jobIds.filterMap (fun jobId =>
    match w.queueJobAction action jobId with
    | .ok runId => some (jobId, runId)
    | .error _ => none)

def waitForRuns (runs : List (Nat × Nat)) : List GroupEvent :=
  runs.map (fun entry => .terminal entry.2 (w.waitForRun entry.2))

def completed (status : Status) : Bool := status == .success || status == .warning

def changedRepositories (backupRuns : List (Nat × Nat)) : List Nat :=
  ((backupRuns.filter (fun entry => completed (w.waitForRun entry.2))).filterMap (fun entry =>
    (w.jobAtBackup entry.1).map Job.repositoryId)).dedup

def duePrunes (backupRuns : List (Nat × Nat)) : List Nat :=
  (backupRuns.filter (fun entry =>
    completed (w.waitForRun entry.2) && hasRetention (w.jobAtPrune entry.1))).map Prod.fst

def repositoryOf (jobId : Nat) : Option Nat := (w.jobAtPrune jobId).map Job.repositoryId

/-- The repository that a queued compact works on. -/
def compactRepository (jobId : Nat) : Option Nat := (w.jobAtCompact jobId).map Job.repositoryId

/-- The prunes of one repository that could be queued. -/
def repositoryPrunes (pruneRuns : List (Nat × Nat)) (repositoryId : Nat) : List (Nat × Nat) :=
  pruneRuns.filter (fun entry => repositoryOf w entry.1 == some repositoryId)

def prunedRepositories (pruneRuns : List (Nat × Nat)) : List Nat :=
  (pruneRuns.filterMap (fun entry => repositoryOf w entry.1)).dedup.insertionSort (· ≤ ·)

/-- The representative of a repository: its smallest pruned job, if no queued
prune of the repository ended otherwise than with success. -/
def compactJob (pruneRuns : List (Nat × Nat)) (repositoryId : Nat) : Option Nat :=
  let prunes := repositoryPrunes w pruneRuns repositoryId
  if prunes.any (fun entry => w.waitForRun entry.2 != .success) then none
  else (prunes.map Prod.fst).min?

def compactJobs (pruneRuns : List (Nat × Nat)) : List Nat :=
  if w.compactAfterPrune then (prunedRepositories w pruneRuns).filterMap (compactJob w pruneRuns) else []

def refreshChangedRepositories (repositoryIds : List Nat) : List GroupEvent :=
  if w.repositorySizeAfterRun then (repositoryIds.insertionSort (· ≤ ·)).map .refreshed else []

def backupPhase (g : ScheduleGroup) : List GroupEvent :=
  g.jobIds.map (attempt w .backup) ++ waitForRuns w (queuedRuns w .backup g.jobIds)

def dueJobs (g : ScheduleGroup) : List Nat := duePrunes w (queuedRuns w .backup g.jobIds)

def prunePhase (g : ScheduleGroup) : List GroupEvent :=
  (dueJobs w g).map (attempt w .prune) ++ waitForRuns w (queuedRuns w .prune (dueJobs w g))

def representatives (g : ScheduleGroup) : List Nat := compactJobs w (queuedRuns w .prune (dueJobs w g))

def compactPhase (g : ScheduleGroup) : List GroupEvent :=
  (representatives w g).map (attempt w .compact) ++ waitForRuns w (queuedRuns w .compact (representatives w g))

def scheduledBackupGroup (g : ScheduleGroup) : List GroupEvent :=
  backupPhase w g ++ (prunePhase w g ++ (compactPhase w g ++
    refreshChangedRepositories w (changedRepositories w (queuedRuns w .backup g.jobIds))))

/-- A prune is due on a job whose backup completed and that keeps archives. -/
def Due (g : ScheduleGroup) (jobId : Nat) : Prop :=
  jobId ∈ g.jobIds ∧ hasRetention (w.jobAtPrune jobId) = true ∧
    ∃ runId, w.queueJobAction .backup jobId = .ok runId ∧ completed (w.waitForRun runId) = true

def IsAttempt (action : Action) (jobId : Nat) (event : GroupEvent) : Prop :=
  (∃ runId, event = .queued action jobId runId) ∨ ∃ message, event = .scheduleError action jobId message

def compactedRepository : GroupEvent → Option Nat
  | .queued .compact jobId _ => compactRepository w jobId
  | _ => none

/-- The phases of a scheduled group as its documentation describes them. -/
structure PhasesRespected (g : ScheduleGroup) : Prop where
  pruneAfterBackups : ∀ before event after jobId, scheduledBackupGroup w g = before ++ event :: after →
    IsAttempt .prune jobId event → ∀ job runId, .queued .backup job runId ∈ scheduledBackupGroup w g →
      .terminal runId (w.waitForRun runId) ∈ before
  pruneWhenDue : ∀ jobId, (∃ event ∈ scheduledBackupGroup w g, IsAttempt .prune jobId event) ↔ Due w g jobId
  oneCompact : ((scheduledBackupGroup w g).filterMap (compactedRepository w)).Nodup
  compactAfterPrunes : ∀ before event after jobId, scheduledBackupGroup w g = before ++ event :: after →
    IsAttempt .compact jobId event → ∀ job runId, .queued .prune job runId ∈ scheduledBackupGroup w g →
      .terminal runId (w.waitForRun runId) ∈ before
  compactAfterSuccess : ∀ jobId runId repositoryId, .queued .compact jobId runId ∈ scheduledBackupGroup w g →
    compactRepository w jobId = some repositoryId → ∀ job, Due w g job → repositoryOf w job = some repositoryId →
      ∃ pruneId, w.queueJobAction .prune job = .ok pruneId ∧ w.waitForRun pruneId = .success

def QueuedPrune (g : ScheduleGroup) (repositoryId jobId : Nat) : Prop :=
  Due w g jobId ∧ repositoryOf w jobId = some repositoryId ∧ ∃ runId, w.queueJobAction .prune jobId = .ok runId

/-- A due prune that could not be queued leaves no trace in the bookkeeping of
its repository, and the compact is queued on the strength of the others. -/
def LostPrune (g : ScheduleGroup) : Prop :=
  w.compactAfterPrune = true ∧ ∃ repositoryId first, QueuedPrune w g repositoryId first ∧
    (∀ jobId, QueuedPrune w g repositoryId jobId → first ≤ jobId) ∧
    (∀ jobId runId, QueuedPrune w g repositoryId jobId → w.queueJobAction .prune jobId = .ok runId →
      w.waitForRun runId = .success) ∧
    (∃ runId, w.queueJobAction .compact first = .ok runId) ∧
    ∃ jobId message, Due w g jobId ∧ repositoryOf w jobId = some repositoryId ∧
      w.queueJobAction .prune jobId = .error message

variable {w} {g : ScheduleGroup}

theorem compactRepository_queued {jobId runId : Nat} (h : w.queueJobAction .compact jobId = .ok runId) :
    compactRepository w jobId = repositoryOf w jobId :=
  w.assigned jobId runId h

theorem mem_queuedRuns {action : Action} {jobIds : List Nat} {jobId runId : Nat} :
    (jobId, runId) ∈ queuedRuns w action jobIds ↔ jobId ∈ jobIds ∧ w.queueJobAction action jobId = .ok runId := by
  simp only [queuedRuns, List.mem_filterMap]
  constructor
  · rintro ⟨id, hid, h⟩
    cases hq : w.queueJobAction action id with
    | error detail => simp [hq] at h
    | ok run =>
        simp only [hq, Option.some.injEq, Prod.mk.injEq] at h
        obtain ⟨rfl, rfl⟩ := h
        exact ⟨hid, hq⟩
  · rintro ⟨hid, hq⟩
    exact ⟨jobId, hid, by rw [hq]⟩

theorem mem_dueJobs {jobId : Nat} : jobId ∈ dueJobs w g ↔ Due w g jobId := by
  simp only [dueJobs, duePrunes, List.mem_map, List.mem_filter, Bool.and_eq_true]
  constructor
  · rintro ⟨⟨id, runId⟩, ⟨hm, hc, hr⟩, rfl⟩
    obtain ⟨hid, hq⟩ := mem_queuedRuns.mp hm
    exact ⟨hid, hr, runId, hq, hc⟩
  · rintro ⟨hid, hr, runId, hq, hc⟩
    exact ⟨(jobId, runId), ⟨mem_queuedRuns.mpr ⟨hid, hq⟩, hc, hr⟩, rfl⟩

theorem mem_queuedPrunes {jobId runId : Nat} :
    (jobId, runId) ∈ queuedRuns w .prune (dueJobs w g) ↔
      Due w g jobId ∧ w.queueJobAction .prune jobId = .ok runId := by
  rw [mem_queuedRuns, mem_dueJobs]

theorem attempt_isAttempt (action : Action) (jobId : Nat) : IsAttempt action jobId (attempt w action jobId) := by
  rw [attempt]
  cases w.queueJobAction action jobId with
  | ok runId => exact .inl ⟨runId, rfl⟩
  | error detail => exact .inr ⟨_, rfl⟩

theorem isAttempt_unique {action action' : Action} {jobId jobId' : Nat} {event : GroupEvent}
    (h : IsAttempt action jobId event) (h' : IsAttempt action' jobId' event) :
    action = action' ∧ jobId = jobId' := by
  rcases h with ⟨_, rfl⟩ | ⟨_, rfl⟩ <;> rcases h' with ⟨_, he⟩ | ⟨_, he⟩ <;> cases he <;> exact ⟨rfl, rfl⟩

theorem queued_eq_attempt {action : Action} {jobId runId : Nat} :
    attempt w action jobId = .queued action jobId runId ↔ w.queueJobAction action jobId = .ok runId := by
  rw [attempt]
  cases w.queueJobAction action jobId <;> simp

theorem not_isAttempt_wait {runs : List (Nat × Nat)} {event : GroupEvent} (h : event ∈ waitForRuns w runs)
    (action : Action) (jobId : Nat) : ¬ IsAttempt action jobId event := by
  obtain ⟨entry, _, rfl⟩ := List.mem_map.mp h
  rintro (⟨_, he⟩ | ⟨_, he⟩) <;> cases he

theorem terminal_mem_wait {action : Action} {jobIds : List Nat} {jobId runId : Nat} (hid : jobId ∈ jobIds)
    (hq : w.queueJobAction action jobId = .ok runId) :
    .terminal runId (w.waitForRun runId) ∈ waitForRuns w (queuedRuns w action jobIds) :=
  List.mem_map.mpr ⟨(jobId, runId), mem_queuedRuns.mpr ⟨hid, hq⟩, rfl⟩

theorem mem_attempts {action : Action} {jobIds : List Nat} {kind : Action} {jobId : Nat} {event : GroupEvent}
    (h : event ∈ jobIds.map (attempt w action)) (ha : IsAttempt kind jobId event) :
    kind = action ∧ jobId ∈ jobIds ∧ event = attempt w action jobId := by
  obtain ⟨id, hid, rfl⟩ := List.mem_map.mp h
  obtain ⟨rfl, rfl⟩ := isAttempt_unique ha (attempt_isAttempt action id)
  exact ⟨rfl, hid, rfl⟩

theorem not_isAttempt_refresh {repositoryIds : List Nat} {event : GroupEvent}
    (h : event ∈ refreshChangedRepositories w repositoryIds) (action : Action) (jobId : Nat) :
    ¬ IsAttempt action jobId event := by
  rw [refreshChangedRepositories] at h
  split at h
  · obtain ⟨id, _, rfl⟩ := List.mem_map.mp h
    rintro (⟨_, he⟩ | ⟨_, he⟩) <;> cases he
  · cases h

theorem attempt_cases {event : GroupEvent} {action : Action} {jobId : Nat} (h : event ∈ scheduledBackupGroup w g)
    (ha : IsAttempt action jobId event) :
    event = attempt w action jobId ∧ ((action = .backup ∧ jobId ∈ g.jobIds) ∨
      (action = .prune ∧ jobId ∈ dueJobs w g) ∨ (action = .compact ∧ jobId ∈ representatives w g)) := by
  simp only [scheduledBackupGroup, backupPhase, prunePhase, compactPhase, List.mem_append] at h
  rcases h with (h | h) | (h | h) | (h | h) | h
  · obtain ⟨rfl, hid, he⟩ := mem_attempts h ha
    exact ⟨he, .inl ⟨rfl, hid⟩⟩
  · exact absurd ha (not_isAttempt_wait h _ _)
  · obtain ⟨rfl, hid, he⟩ := mem_attempts h ha
    exact ⟨he, .inr (.inl ⟨rfl, hid⟩)⟩
  · exact absurd ha (not_isAttempt_wait h _ _)
  · obtain ⟨rfl, hid, he⟩ := mem_attempts h ha
    exact ⟨he, .inr (.inr ⟨rfl, hid⟩)⟩
  · exact absurd ha (not_isAttempt_wait h _ _)
  · exact absurd ha (not_isAttempt_refresh h _ _)

theorem queued_cases {action : Action} {jobId runId : Nat} (h : .queued action jobId runId ∈ scheduledBackupGroup w g) :
    w.queueJobAction action jobId = .ok runId ∧ ((action = .backup ∧ jobId ∈ g.jobIds) ∨
      (action = .prune ∧ jobId ∈ dueJobs w g) ∨ (action = .compact ∧ jobId ∈ representatives w g)) := by
  obtain ⟨he, hcases⟩ := attempt_cases h (.inl ⟨runId, rfl⟩)
  exact ⟨queued_eq_attempt.mp he.symm, hcases⟩

/-- An event that does not occur in the first part of a list has the whole
first part before it. -/
theorem part_before {xs ys before after : List GroupEvent} {event : GroupEvent}
    (h : xs ++ ys = before ++ event :: after) (he : event ∉ xs) : ∃ rest, before = xs ++ rest := by
  rcases List.append_eq_append_iff.mp h with ⟨rest, hbefore, _⟩ | ⟨rest, hxs, htail⟩
  · exact ⟨rest, hbefore⟩
  · cases rest with
    | nil => exact ⟨[], by rw [hxs]; simp⟩
    | cons first rest =>
        obtain ⟨rfl, _⟩ := List.cons.inj htail
        exact absurd (by rw [hxs]; simp) he

theorem prune_after_backups {before after : List GroupEvent} {event : GroupEvent} {jobId : Nat}
    (h : scheduledBackupGroup w g = before ++ event :: after) (ha : IsAttempt .prune jobId event)
    {job runId : Nat} (hq : .queued .backup job runId ∈ scheduledBackupGroup w g) :
    .terminal runId (w.waitForRun runId) ∈ before := by
  have hnot : event ∉ backupPhase w g := by
    intro hm
    rcases List.mem_append.mp hm with hm | hm
    · exact nomatch (mem_attempts hm ha).1
    · exact not_isAttempt_wait hm _ _ ha
  obtain ⟨rest, rfl⟩ := part_before h hnot
  obtain ⟨hok, hcases⟩ := queued_cases hq
  have hjob : job ∈ g.jobIds := by
    rcases hcases with ⟨_, hj⟩ | ⟨hc, _⟩ | ⟨hc, _⟩
    · exact hj
    · cases hc
    · cases hc
  exact List.mem_append_left _ (List.mem_append_right _ (terminal_mem_wait hjob hok))

theorem compact_after_prunes {before after : List GroupEvent} {event : GroupEvent} {jobId : Nat}
    (h : scheduledBackupGroup w g = before ++ event :: after) (ha : IsAttempt .compact jobId event)
    {job runId : Nat} (hq : .queued .prune job runId ∈ scheduledBackupGroup w g) :
    .terminal runId (w.waitForRun runId) ∈ before := by
  have hnot : event ∉ backupPhase w g ++ prunePhase w g := by
    simp only [backupPhase, prunePhase, List.mem_append]
    rintro ((hm | hm) | (hm | hm))
    · exact nomatch (mem_attempts hm ha).1
    · exact not_isAttempt_wait hm _ _ ha
    · exact nomatch (mem_attempts hm ha).1
    · exact not_isAttempt_wait hm _ _ ha
  rw [scheduledBackupGroup, ← List.append_assoc] at h
  obtain ⟨rest, rfl⟩ := part_before h hnot
  obtain ⟨hok, hcases⟩ := queued_cases hq
  have hjob : job ∈ dueJobs w g := by
    rcases hcases with ⟨hc, _⟩ | ⟨_, hj⟩ | ⟨hc, _⟩
    · cases hc
    · exact hj
    · cases hc
  exact List.mem_append_left _ (List.mem_append_right _ (List.mem_append_right _ (terminal_mem_wait hjob hok)))

theorem prune_when_due (jobId : Nat) :
    (∃ event ∈ scheduledBackupGroup w g, IsAttempt .prune jobId event) ↔ Due w g jobId := by
  constructor
  · rintro ⟨event, hm, ha⟩
    rcases (attempt_cases hm ha).2 with ⟨hc, _⟩ | ⟨_, hj⟩ | ⟨hc, _⟩
    · cases hc
    · exact mem_dueJobs.mp hj
    · cases hc
  · intro hdue
    refine ⟨attempt w .prune jobId, ?_, attempt_isAttempt _ _⟩
    simp only [scheduledBackupGroup, prunePhase, List.mem_append]
    exact .inr (.inl (.inl (List.mem_map_of_mem (mem_dueJobs.mpr hdue))))

theorem mem_repositoryPrunes {repositoryId jobId runId : Nat} :
    (jobId, runId) ∈ repositoryPrunes w (queuedRuns w .prune (dueJobs w g)) repositoryId ↔
      QueuedPrune w g repositoryId jobId ∧ w.queueJobAction .prune jobId = .ok runId := by
  simp only [repositoryPrunes, List.mem_filter, mem_queuedPrunes, beq_iff_eq, QueuedPrune]
  constructor
  · rintro ⟨⟨hd, hq⟩, hr⟩
    exact ⟨⟨hd, hr, runId, hq⟩, hq⟩
  · rintro ⟨⟨hd, hr, _⟩, hq⟩
    exact ⟨⟨hd, hq⟩, hr⟩

theorem mem_prune_jobs {repositoryId jobId : Nat} :
    jobId ∈ (repositoryPrunes w (queuedRuns w .prune (dueJobs w g)) repositoryId).map Prod.fst ↔
      QueuedPrune w g repositoryId jobId := by
  rw [List.mem_map]
  constructor
  · rintro ⟨⟨id, runId⟩, hm, rfl⟩
    exact (mem_repositoryPrunes.mp hm).1
  · intro hprune
    obtain ⟨_, _, runId, hq⟩ := id hprune
    exact ⟨(jobId, runId), mem_repositoryPrunes.mpr ⟨hprune, hq⟩, rfl⟩

/-- The representative of a repository is its smallest queued prune job, when
all its queued prunes ended with success. -/
theorem compactJob_eq_some {repositoryId first : Nat} :
    compactJob w (queuedRuns w .prune (dueJobs w g)) repositoryId = some first ↔
      QueuedPrune w g repositoryId first ∧ (∀ jobId, QueuedPrune w g repositoryId jobId → first ≤ jobId) ∧
      ∀ jobId runId, QueuedPrune w g repositoryId jobId → w.queueJobAction .prune jobId = .ok runId →
        w.waitForRun runId = .success := by
  simp only [compactJob]
  split
  · next hany =>
      obtain ⟨⟨jobId, runId⟩, hm, hne⟩ := List.any_eq_true.mp hany
      obtain ⟨hp, hq⟩ := mem_repositoryPrunes.mp hm
      refine ⟨nofun, ?_⟩
      rintro ⟨_, _, hall⟩
      simp [hall jobId runId hp hq] at hne
  · next hany =>
      have hall : ∀ jobId runId, QueuedPrune w g repositoryId jobId → w.queueJobAction .prune jobId = .ok runId →
          w.waitForRun runId = .success := by
        intro jobId runId hp hq
        by_contra hne
        exact hany (List.any_eq_true.mpr ⟨(jobId, runId), mem_repositoryPrunes.mpr ⟨hp, hq⟩, by simpa using hne⟩)
      rw [List.min?_eq_some_iff]
      simp only [mem_prune_jobs]
      exact ⟨fun h => ⟨h.1, h.2, hall⟩, fun h => ⟨h.1, h.2.1⟩⟩

theorem mem_prunedRepositories {repositoryId : Nat} :
    repositoryId ∈ prunedRepositories w (queuedRuns w .prune (dueJobs w g)) ↔
      ∃ jobId, QueuedPrune w g repositoryId jobId := by
  simp only [prunedRepositories, List.mem_insertionSort, List.mem_dedup, List.mem_filterMap]
  constructor
  · rintro ⟨⟨jobId, runId⟩, hm, hr⟩
    obtain ⟨hd, hq⟩ := mem_queuedPrunes.mp hm
    exact ⟨jobId, hd, hr, runId, hq⟩
  · rintro ⟨jobId, hd, hr, runId, hq⟩
    exact ⟨(jobId, runId), mem_queuedPrunes.mpr ⟨hd, hq⟩, hr⟩

theorem mem_representatives {first : Nat} :
    first ∈ representatives w g ↔ w.compactAfterPrune = true ∧
      ∃ repositoryId, compactJob w (queuedRuns w .prune (dueJobs w g)) repositoryId = some first := by
  simp only [representatives, compactJobs]
  split
  · next hc =>
      rw [List.mem_filterMap]
      constructor
      · rintro ⟨repositoryId, _, hj⟩
        exact ⟨hc, repositoryId, hj⟩
      · rintro ⟨_, repositoryId, hj⟩
        exact ⟨repositoryId, mem_prunedRepositories.mpr ⟨first, (compactJob_eq_some.mp hj).1⟩, hj⟩
  · next hc => simp [hc]

theorem representatives_repositories :
    ((representatives w g).filterMap (repositoryOf w)).Nodup := by
  simp only [representatives, compactJobs]
  split
  · rw [List.filterMap_filterMap]
    have hnodup : (prunedRepositories w (queuedRuns w .prune (dueJobs w g))).Nodup := by
      rw [prunedRepositories, (List.perm_insertionSort _ _).nodup_iff]
      exact List.nodup_dedup _
    -- The representative of a repository belongs to it.
    refine List.Nodup.filterMap ?_ hnodup
    intro a b c ha hb
    obtain ⟨ja, hja, hra⟩ := Option.bind_eq_some_iff.mp ha
    obtain ⟨jb, hjb, hrb⟩ := Option.bind_eq_some_iff.mp hb
    have hca := (compactJob_eq_some.mp hja).1.2.1
    have hcb := (compactJob_eq_some.mp hjb).1.2.1
    rw [hca] at hra
    rw [hcb] at hrb
    exact (Option.some.inj hra).trans (Option.some.inj hrb).symm
  · exact .nil

theorem compactedRepository_eq_some {event : GroupEvent} {repositoryId : Nat}
    (h : compactedRepository w event = some repositoryId) :
    ∃ jobId runId, event = .queued .compact jobId runId ∧ compactRepository w jobId = some repositoryId := by
  cases event with
  | queued action jobId runId =>
      cases action with
      | compact => exact ⟨jobId, runId, rfl, h⟩
      | _ => cases h
  | _ => cases h

theorem filterMap_sublist {f g : Nat → Option Nat} (hfg : ∀ jobId r, f jobId = some r → g jobId = some r)
    (jobIds : List Nat) : (jobIds.filterMap f).Sublist (jobIds.filterMap g) := by
  induction jobIds with
  | nil => exact .slnil
  | cons jobId jobIds ih =>
      rw [List.filterMap_cons, List.filterMap_cons]
      cases hf : f jobId with
      | some r =>
          rw [hfg jobId r hf]
          exact ih.cons_cons r
      | none =>
          cases g jobId with
          | none => exact ih
          | some r => exact ih.cons r

theorem no_compact {events : List GroupEvent} (h : ∀ event ∈ events, ∀ jobId, ¬ IsAttempt .compact jobId event) :
    events.filterMap (compactedRepository w) = [] := by
  rw [List.filterMap_eq_nil_iff]
  intro event he
  by_contra hne
  obtain ⟨repositoryId, hr⟩ := Option.ne_none_iff_exists'.mp hne
  obtain ⟨jobId, runId, rfl, _⟩ := compactedRepository_eq_some hr
  exact h _ he jobId (.inl ⟨runId, rfl⟩)

theorem one_compact : ((scheduledBackupGroup w g).filterMap (compactedRepository w)).Nodup := by
  have hattempts (action : Action) (hne : action ≠ .compact) (jobIds : List Nat) :
      (jobIds.map (attempt w action)).filterMap (compactedRepository w) = [] :=
    no_compact (fun event he jobId ha => hne (mem_attempts he ha).1.symm)
  have hwaits (runs : List (Nat × Nat)) : (waitForRuns w runs).filterMap (compactedRepository w) = [] :=
    no_compact (fun event he jobId => not_isAttempt_wait he _ _)
  have hrefresh (ids : List Nat) : (refreshChangedRepositories w ids).filterMap (compactedRepository w) = [] :=
    no_compact (fun event he jobId => not_isAttempt_refresh he _ _)
  simp only [scheduledBackupGroup, backupPhase, prunePhase, compactPhase, List.filterMap_append,
    hattempts .backup (by decide), hattempts .prune (by decide), hwaits, hrefresh, List.nil_append, List.append_nil]
  rw [List.filterMap_map]
  refine representatives_repositories.sublist (filterMap_sublist ?_ _)
  intro jobId r hr
  obtain ⟨id, runId, he, hrepo⟩ := compactedRepository_eq_some hr
  obtain ⟨_, rfl⟩ := isAttempt_unique (attempt_isAttempt .compact jobId) (.inl ⟨runId, he⟩)
  rw [compactRepository_queued (queued_eq_attempt.mp he)] at hrepo
  exact hrepo

/-- A compact goes wrong exactly when a due prune of its repository could not
be queued. -/
theorem compact_after_success_iff :
    (∀ jobId runId repositoryId, .queued .compact jobId runId ∈ scheduledBackupGroup w g →
      compactRepository w jobId = some repositoryId → ∀ job, Due w g job → repositoryOf w job = some repositoryId →
        ∃ pruneId, w.queueJobAction .prune job = .ok pruneId ∧ w.waitForRun pruneId = .success) ↔
      ¬ LostPrune w g := by
  constructor
  · rintro hall ⟨hset, repositoryId, first, hfirst, hmin, hsuccess, ⟨runId, hok⟩, job, message, hdue, hrepo, herr⟩
    have hrep : first ∈ representatives w g :=
      mem_representatives.mpr ⟨hset, repositoryId, compactJob_eq_some.mpr ⟨hfirst, hmin, hsuccess⟩⟩
    have hqueued : .queued .compact first runId ∈ scheduledBackupGroup w g := by
      rw [← queued_eq_attempt.mpr hok]
      simp only [scheduledBackupGroup, compactPhase, List.mem_append]
      exact .inr (.inr (.inl (.inl (List.mem_map_of_mem hrep))))
    have hcompact : compactRepository w first = some repositoryId := by
      rw [compactRepository_queued hok]
      exact hfirst.2.1
    obtain ⟨pruneId, hprune, _⟩ := hall first runId repositoryId hqueued hcompact job hdue hrepo
    rw [herr] at hprune
    cases hprune
  · intro hlost jobId runId repositoryId hqueued hrepo job hdue hjob
    obtain ⟨hok, hcases⟩ := queued_cases hqueued
    rw [compactRepository_queued hok] at hrepo
    have hrep : jobId ∈ representatives w g := by
      rcases hcases with ⟨hc, _⟩ | ⟨hc, _⟩ | ⟨_, hr⟩
      · cases hc
      · cases hc
      · exact hr
    obtain ⟨hset, other, hcompact⟩ := mem_representatives.mp hrep
    obtain ⟨hfirst, hmin, hsuccess⟩ := compactJob_eq_some.mp hcompact
    obtain rfl : repositoryId = other := Option.some.inj (hrepo.symm.trans hfirst.2.1)
    cases hprune : w.queueJobAction .prune job with
    | ok pruneId => exact ⟨pruneId, rfl, hsuccess job pruneId ⟨hdue, hjob, pruneId, hprune⟩ hprune⟩
    | error message =>
        exact absurd ⟨hset, repositoryId, jobId, hfirst, hmin, hsuccess, ⟨runId, hok⟩, job, message, hdue, hjob,
          hprune⟩ hlost

/-- The documented phases hold for every world and every group, except that a
due prune that could not be queued does not stop the compact. -/
theorem phases_respected_iff (w : GroupWorld) (g : ScheduleGroup) : PhasesRespected w g ↔ ¬ LostPrune w g := by
  constructor
  · intro h
    exact compact_after_success_iff.mp h.compactAfterSuccess
  · intro h
    refine ⟨?_, prune_when_due, one_compact, ?_, compact_after_success_iff.mpr h⟩
    · intro before event after jobId hsplit ha job runId hq
      exact prune_after_backups hsplit ha hq
    · intro before event after jobId hsplit ha job runId hq
      exact compact_after_prunes hsplit ha hq

def keepDaily : Job := ⟨1, some [("daily", .int 7)]⟩

/-- Two jobs of one repository; between the phases someone starts a check of
the second job, so its prune cannot be queued. -/
def busyJob : GroupWorld where
  jobAtBackup := fun _ => some keepDaily
  jobAtPrune := fun _ => some keepDaily
  jobAtCompact := fun _ => some keepDaily
  assigned := fun _ _ _ => rfl
  queueJobAction := fun action jobId =>
    match action, jobId with
    | .backup, n => .ok (10 + n)
    | .prune, 1 => .ok 21
    | .prune, _ => .error "A run for this job is already queued or running"
    | _, n => .ok (30 + n)
  waitForRun := fun _ => .success
  terminal := fun _ => rfl
  compactAfterPrune := true
  repositorySizeAfterRun := false

theorem compact_without_prune : ¬ PhasesRespected busyJob ⟨[1, 2], by decide⟩ := by
  intro h
  have hqueued : GroupEvent.queued .compact 1 31 ∈ scheduledBackupGroup busyJob ⟨[1, 2], by decide⟩ := by decide
  have hdue : Due busyJob ⟨[1, 2], by decide⟩ 2 := ⟨by decide, by decide, 12, rfl, by decide⟩
  obtain ⟨_, hq, _⟩ := h.compactAfterSuccess 1 31 1 hqueued rfl 2 hdue rfl
  cases hq

end BorgManager.ScheduledGroup
