import BorgManager.Blocks
import BorgManager.ChainReservations
import BorgManager.ScheduledGroup

namespace BorgManager.ManualChain

open Records ExecutionKeys ChainReservations Blocks

inductive Raised
  | cancelled
  | error (detail : String)

abbrev Outcome (α : Type) := Except Raised α

/-- The outcome of every await and of every queueing of a chain. -/
structure World where
  token : String
  compactAfter : Bool
  backupWaited : Outcome Status
  pruneQueued : Outcome Nat
  pruneWaited : Outcome Status
  compactQueued : Outcome Nat
  compactWaited : Outcome Status
  noted : Outcome Unit
  refreshed : Outcome Unit

inductive Step
  | queued (action : Action) (runId : Nat)
  | noted (detail : String)
  | released
  | refreshed
  deriving DecidableEq

/-- The registries, whether the repository has changed, and what has been done. -/
structure State where
  registry : Registry
  changed : Bool
  log : List Step

abbrev ChainBlock := Block Raised State

variable (w : World)

def write (step : Step) : ChainBlock Unit := update (fun s => { s with log := s.log ++ [step] })

/-- `queue_job_action` with the token of the chain. -/
def queueJobAction (action : Action) (queued : Outcome Nat) : ChainBlock Unit := do
  let runId ← effect queued
  update (fun s => { s with registry := registerChainRun s.registry runId w.token })
  write (.queued action runId)

def completed (status : Status) : Bool := status == .success || status == .warning

def compactMaintenance (pruneStatus : Status) : ChainBlock Unit :=
  when (pruneStatus == .success && w.compactAfter) (do
    queueJobAction w .compact w.compactQueued
    let _ ← effect w.compactWaited
    return ())

def maintain : ChainBlock Unit := do
  let backupStatus ← effect w.backupWaited
  when (completed backupStatus) (do
    update (fun s => { s with changed := true })
    queueJobAction w .prune w.pruneQueued
    let pruneStatus ← effect w.pruneWaited
    compactMaintenance w pruneStatus)

def handle (e : Raised) : ChainBlock Unit :=
  match e with
  | .error detail => do
      effect w.noted
      write (.noted detail)
  | .cancelled => raise .cancelled

def cleanup : ChainBlock Unit := do
  update (fun s => { s with registry := releaseRepositoryChain s.registry w.token })
  write .released
  let changed ← Blocks.read State.changed
  when changed (do
    effect w.refreshed
    write .refreshed)

def finishManualBackupChain : ChainBlock Unit := tryFinally (tryExcept (maintain w) (handle w)) (cleanup w)

def begun (g : Registry) : State := ⟨g, false, []⟩

/-- The backup of the chain has ended with archives. -/
def BackupDone : Prop := ∃ status, w.backupWaited = .ok status ∧ completed status = true

/-- The runs that a chain queues, each with what has to go before it. -/
structure Maintains (runs : List (Action × Nat)) : Prop where
  order : runs.map Prod.fst <+: [.prune, .compact]
  prune : ∀ runId, (.prune, runId) ∈ runs ↔ BackupDone w ∧ w.pruneQueued = .ok runId
  compact : ∀ runId, (.compact, runId) ∈ runs ↔ BackupDone w ∧ (∃ pruneRun, w.pruneQueued = .ok pruneRun) ∧
    w.pruneWaited = .ok .success ∧ w.compactAfter = true ∧ w.compactQueued = .ok runId

variable {w} {s : State}

/-- What queueing runs does to the state. -/
structure Queued (s t : State) (runs : List (Action × Nat)) : Prop where
  queues : t.registry.queues = s.registry.queues
  log : t.log = s.log ++ runs.map (fun run => .queued run.1 run.2)
  runTokens : ∀ runId, runId ∉ runs.map Prod.snd → t.registry.runTokens runId = s.registry.runTokens runId

theorem Queued.none (s : State) : Queued s s [] := ⟨rfl, (List.append_nil _).symm, fun _ _ => rfl⟩

theorem Queued.append {t u : State} {runs more : List (Action × Nat)} (h : Queued s t runs) (k : Queued t u more) :
    Queued s u (runs ++ more) where
  queues := k.queues.trans h.queues
  log := by rw [k.log, h.log, List.map_append, List.append_assoc]
  runTokens := by
    intro runId hnot
    rw [List.map_append, List.mem_append, not_or] at hnot
    exact (k.runTokens runId hnot.2).trans (h.runTokens runId hnot.1)

theorem queueJobAction_ends (action : Action) (queued : Outcome Nat) :
    Ends (queueJobAction w action queued) s (fun outcome t => t.changed = s.changed ∧
      ((∃ runId, queued = .ok runId ∧ outcome = .ok () ∧ Queued s t [(action, runId)]) ∨
      ∃ e, queued = .error e ∧ outcome = .error e ∧ t = s)) := by
  rw [queueJobAction, ends_bind, ends_effect]
  cases queued with
  | error e => exact ⟨rfl, .inr ⟨e, rfl, rfl, rfl⟩⟩
  | ok runId =>
      dsimp only
      rw [ends_bind, ends_update]
      refine ⟨rfl, .inl ⟨runId, rfl, rfl, ⟨?_, rfl, ?_⟩⟩⟩
      · rw [registerChainRun]
        split <;> rfl
      · intro other hnot
        rw [registerChainRun]
        split
        · rfl
        · exact Function.update_of_ne (by simpa using hnot) ..

theorem compactMaintenance_ends (pruneStatus : Status) :
    Ends (compactMaintenance w pruneStatus) s (fun _ t => t.changed = s.changed ∧ ∃ runs, Queued s t runs ∧
      runs.map Prod.fst <+: [.compact] ∧ ∀ runId, (Action.compact, runId) ∈ runs ↔
        pruneStatus = .success ∧ w.compactAfter = true ∧ w.compactQueued = .ok runId) := by
  rw [compactMaintenance, ends_when]
  refine ⟨fun hcond => ?_, fun hcond => ⟨rfl, [], .none s, List.nil_prefix, fun runId => ?_⟩⟩
  · rw [Bool.and_eq_true, beq_iff_eq] at hcond
    rw [ends_bind]
    apply ends_mono (queueJobAction_ends .compact w.compactQueued)
    rintro outcome t ⟨hchanged, ⟨runId, hqueued, rfl, hrun⟩ | ⟨e, hqueued, rfl, rfl⟩⟩
    · dsimp only
      have hall : ∃ runs, Queued s t runs ∧ runs.map Prod.fst <+: [.compact] ∧ ∀ other, (Action.compact, other) ∈ runs ↔
          pruneStatus = .success ∧ w.compactAfter = true ∧ w.compactQueued = .ok other := by
        refine ⟨[(.compact, runId)], hrun, List.prefix_refl _, fun other => ?_⟩
        rw [hqueued]
        simp [hcond, eq_comm]
      rw [ends_bind, ends_effect]
      cases w.compactWaited with
      | error e => exact ⟨hchanged, hall⟩
      | ok status => exact ⟨hchanged, hall⟩
    · refine ⟨rfl, [], .none t, List.nil_prefix, fun runId => ?_⟩
      rw [hqueued]
      simp
  · rw [Bool.and_eq_false_iff] at hcond
    rcases hcond with hcond | hcond <;> simp_all

theorem maintain_ends :
    Ends (maintain w) s (fun _ t => (t.changed = true ↔ s.changed = true ∨ BackupDone w) ∧
      ∃ runs, Queued s t runs ∧ Maintains w runs) := by
  have hundone : ¬BackupDone w → Maintains w [] := fun hnot =>
    ⟨List.nil_prefix, fun runId => by simp [hnot], fun runId => by simp [hnot]⟩
  rw [maintain, ends_bind, ends_effect]
  cases hbackup : w.backupWaited with
  | error e =>
      have hnot : ¬BackupDone w := by
        rintro ⟨status, hstatus, -⟩
        rw [hbackup] at hstatus
        cases hstatus
      exact ⟨by simp [hnot], [], .none s, hundone hnot⟩
  | ok status =>
      dsimp only
      rw [ends_when]
      refine ⟨fun hdone => ?_, fun hundone' => ?_⟩
      · have hbackupDone : BackupDone w := ⟨status, hbackup, hdone⟩
        rw [ends_bind, ends_update]
        dsimp only
        rw [ends_bind]
        apply ends_mono (queueJobAction_ends .prune w.pruneQueued)
        rintro outcome t ⟨hchanged, ⟨pruneRun, hqueued, rfl, hrun⟩ | ⟨e, hqueued, rfl, rfl⟩⟩
        · dsimp only
          have hrun' : Queued s t [(.prune, pruneRun)] := ⟨hrun.queues, hrun.log, hrun.runTokens⟩
          rw [ends_bind, ends_effect]
          cases hprune : w.pruneWaited with
          | error e =>
              refine ⟨by
                simp [hchanged, hbackupDone], _, hrun',
                  ⟨(List.prefix_append [Action.prune] [Action.compact]), fun runId => ?_, fun runId => ?_⟩⟩
              · rw [hqueued]
                simp [hbackupDone, eq_comm]
              · rw [hprune]
                simp
          | ok pruneStatus =>
              apply ends_mono (compactMaintenance_ends pruneStatus)
              rintro outcome u ⟨hchanged', runs, hruns, horder, hcompact⟩
              have hkept : u.changed = true := hchanged'.trans hchanged
              have hfst : ∀ run ∈ runs, run.1 = .compact := by
                intro run hrun
                have hmem := horder.subset (List.mem_map_of_mem hrun)
                exact List.mem_singleton.mp hmem
              refine ⟨by simp [hkept, hbackupDone], _, hrun'.append hruns, ⟨?_, fun runId => ?_, fun runId => ?_⟩⟩
              · rw [List.map_append]
                exact (List.prefix_append_right_inj _).mpr horder
              · rw [List.mem_append, List.mem_singleton, hqueued]
                constructor
                · rintro (heq | hmem)
                  · cases heq
                    exact ⟨hbackupDone, rfl⟩
                  · cases hfst _ hmem
                · rintro ⟨-, heq⟩
                  cases heq
                  exact .inl rfl
              · rw [List.mem_append, List.mem_singleton, hcompact, hprune, Except.ok.injEq]
                constructor
                · rintro (heq | hmem)
                  · cases heq
                  · exact ⟨hbackupDone, ⟨pruneRun, hqueued⟩, hmem⟩
                · rintro ⟨-, -, hmem⟩
                  exact .inr hmem
        · refine
            ⟨by
              simp [hbackupDone], [], ⟨rfl, (List.append_nil _).symm, fun _ _ => rfl⟩,
                ⟨List.nil_prefix, fun runId => ?_, fun runId => ?_⟩⟩
          · rw [hqueued]
            simp
          · rw [hqueued]
            simp
      · have hnot : ¬BackupDone w := by
          rintro ⟨other, hother, hdone⟩
          rw [hbackup] at hother
          cases hother
          rw [hundone'] at hdone
          cases hdone
        exact ⟨by simp [hnot], [], .none s, hundone hnot⟩

theorem handle_ends (e : Raised) :
    Ends (handle w e) s (fun _ t => t.changed = s.changed ∧ t.registry = s.registry ∧
      ∃ notes, t.log = s.log ++ notes ∧ ∀ step ∈ notes, ∃ detail, step = .noted detail) := by
  cases e with
  | cancelled => exact ⟨rfl, rfl, [], (List.append_nil _).symm, by simp⟩
  | error detail =>
      rw [handle, ends_bind, ends_effect]
      cases w.noted with
      | error e => exact ⟨rfl, rfl, [], (List.append_nil _).symm, by simp⟩
      | ok value => exact ⟨rfl, rfl, [.noted detail], rfl, by simp⟩

/-- What is left of a chain: a log in which the reservation is given back once,
behind everything that the chain has queued, and registries without it that
are otherwise as they were. -/
structure Finished (w : World) (g : Registry) (t : State) : Prop where
  log : ∃ runs notes after, t.log = runs.map (fun run => .queued run.1 run.2) ++ notes ++ .released :: after ∧
    Maintains w runs ∧
    (∀ step ∈ notes, ∃ detail, step = .noted detail) ∧ (after = [] ∨ after = [.refreshed] ∧ BackupDone w) ∧
    ∀ runId, runId ∉ runs.map Prod.snd →
      t.registry.runTokens runId = if g.runTokens runId = some w.token then none else g.runTokens runId
  queues : ∀ key, t.registry.queues key = (g.queues key).filter (fun item => decide (item.token ≠ w.token))
  runTokens : ∀ runId, t.registry.runTokens runId ≠ some w.token

theorem cleanup_ends {g : Registry} {runs : List (Action × Nat)} {notes : List Step}
    (hqueues : s.registry.queues = g.queues) (hlog : s.log = runs.map (fun run => .queued run.1 run.2) ++ notes)
    (htokens : ∀ runId, runId ∉ runs.map Prod.snd → s.registry.runTokens runId = g.runTokens runId)
    (hruns : Maintains w runs) (hnotes : ∀ step ∈ notes, ∃ detail, step = .noted detail)
    (hchanged : s.changed = true → BackupDone w) :
    Ends (cleanup w) s (fun _ t => Finished w g t) := by
  have htokens' : ∀ runId, runId ∉ runs.map Prod.snd → (releaseRepositoryChain s.registry w.token).runTokens runId =
      if g.runTokens runId = some w.token then none else g.runTokens runId := by
    intro runId hnot
    dsimp only [releaseRepositoryChain]
    rw [htokens runId hnot]
  have hqueues' : ∀ key, (releaseRepositoryChain s.registry w.token).queues key =
      (g.queues key).filter (fun item => decide (item.token ≠ w.token)) := by
    intro key
    rw [released_queue, hqueues]
  have hgone : ∀ runId, (releaseRepositoryChain s.registry w.token).runTokens runId ≠ some w.token := by
    intro runId
    rw [releaseRepositoryChain]
    dsimp only
    split
    · rintro ⟨⟩
    · next hne => exact hne
  rw [cleanup, ends_bind, ends_update]
  dsimp only
  rw [ends_bind, write, ends_update]
  dsimp only
  rw [ends_bind, ends_read]
  dsimp only
  rw [ends_when]
  have hreleased : ∀ after, (after = [] ∨ after = [.refreshed] ∧ BackupDone w) → Finished w g
      { registry := releaseRepositoryChain s.registry w.token, changed := s.changed,
        log := s.log ++ [.released] ++ after } := by
    intro after hafter
    refine ⟨⟨runs, notes, after, ?_, hruns, hnotes, hafter, htokens'⟩, hqueues', hgone⟩
    dsimp only
    rw [hlog, List.append_assoc, List.singleton_append]
  refine ⟨fun hc => ?_, fun _ => ?_⟩
  · rw [ends_bind, ends_effect]
    cases w.refreshed with
    | error e => simpa using hreleased [] (.inl rfl)
    | ok value => exact hreleased [.refreshed] (.inr ⟨rfl, hchanged hc⟩)
  · simpa using hreleased [] (.inl rfl)

/-- Whatever is raised, and wherever the chain is cancelled: its reservation is
given back, and no other one is touched. -/
theorem chain_finished (w : World) (g : Registry) :
    Ends (finishManualBackupChain w) (begun g) (fun _ t => Finished w g t) := by
  have hbody : Ends (tryExcept (maintain w) (handle w)) (begun g) (fun _ t => (t.changed = true → BackupDone w) ∧
      ∃ runs notes, t.registry.queues = g.queues ∧ t.log = runs.map (fun run => .queued run.1 run.2) ++ notes ∧
        (∀ runId, runId ∉ runs.map Prod.snd → t.registry.runTokens runId = g.runTokens runId) ∧ Maintains w runs ∧
        ∀ step ∈ notes, ∃ detail, step = .noted detail) := by
    rw [ends_tryExcept]
    apply ends_mono maintain_ends
    rintro outcome t ⟨hchanged, runs, hqueued, hruns⟩
    have hdone : t.changed = true → BackupDone w := fun hc => (hchanged.mp hc).resolve_left Bool.false_ne_true
    cases outcome with
    | ok value => exact ⟨hdone, runs, [], hqueued.queues,
      by rw [hqueued.log, List.append_nil]; rfl, hqueued.runTokens, hruns, by simp⟩
    | error e =>
        apply ends_mono (handle_ends e)
        rintro outcome u ⟨hchanged', hregistry, notes, hlog, hnotes⟩
        refine ⟨fun hc => hdone (hchanged' ▸ hc), runs, notes, ?_, ?_, ?_, hruns, hnotes⟩
        · rw [hregistry]
          exact hqueued.queues
        · rw [hlog, hqueued.log]
          rfl
        · rw [hregistry]
          exact hqueued.runTokens
  rw [finishManualBackupChain, ends_tryFinally]
  apply ends_mono hbody
  rintro outcome t ⟨hdone, runs, notes, hqueues, hlog, htokens, hruns, hnotes⟩
  apply ends_mono (cleanup_ends hqueues hlog htokens hruns hnotes hdone)
  intro ended u hfinished
  cases ended with
  | ok value => exact hfinished
  | error e => exact hfinished

end BorgManager.ManualChain
