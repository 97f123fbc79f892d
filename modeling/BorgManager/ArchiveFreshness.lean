import BorgManager.ArchiveCommands

namespace BorgManager.ArchiveFreshness

open Records ExecutionKeys RunQueue ExecutionPlan QueueSystem RefreshAdmission Histories ArchiveCache ArchiveCommands

variable {t : Topology} {s s' : Caching}

/-- One event: the invariant is unconditional, and the lists stay settled if a
run that ends leaves no old list behind. -/
theorem cacheStep_keeps {e : CacheEvent} (hs : Consistent t s) (h : cacheStep t s e s') :
    Consistent t s' ∧ (Invalidated t s e → Settled t s → Settled t s') := by
  cases e with
  | admission event =>
      obtain ⟨hconsistent, hsettled⟩ := queueEvent_keeps hs h
      exact ⟨hconsistent, fun _ => hsettled⟩
  | commandStart runId =>
      obtain ⟨run, hstarts⟩ := commandStart_eq_some h
      exact ⟨hstarts.consistent hs, fun _ => hstarts.settled⟩
  | commandEnd runId =>
      obtain ⟨hqueue, hends⟩ := commandEnd_ends (t := t) h
      refine ⟨hends.consistent hs, fun _ hsettled => hends.settled hsettled ?_⟩
      intro row hrow _ _ hended
      exact absurd (hqueue ▸ hrow) hended
  | scanStart runId considerCheckpoints =>
      obtain ⟨run, hstarts⟩ := scanStart_eq_some h
      exact ⟨hstarts.consistent hs, fun _ => hstarts.settled⟩
  | store runId archives =>
      obtain ⟨run, scan, hstores⟩ := store_eq_some h
      exact ⟨hstores.consistent hs, fun _ => hstores.settled hs⟩
  | runEnd runId status =>
      obtain ⟨run, rfl, hends⟩ := runEnd_eq_some h
      refine ⟨hends.ends.consistent hs, fun hinvalidated hsettled => hends.ends.settled hsettled ?_⟩
      intro row hrow _ hcommand hended repository hrepository hkey considerCheckpoints
      have heq := hends.eq_of_ended hrow hended
      subst heq
      rcases hload : loadArchiveCache s' repository.id considerCheckpoints with _ | data
      · rfl
      · have hcached := hends.loads _ _ data hload
        obtain ⟨hown, hdrops⟩ :=
          hinvalidated row hrow rfl hcommand _ hkey repository hrepository rfl considerCheckpoints
          (by rw [hcached]; rfl)
        exact absurd rfl (load_invalidated (hends.invalidated hdrops _ hown) hload).1
  | dropCaches repositoryId =>
      cases h
      have hends := dropCaches_ends (t := t) s repositoryId
      refine ⟨hends.consistent hs, fun _ hsettled => hends.settled hsettled ?_⟩
      intro row hrow _ _ hended
      exact absurd hrow hended
  | restart =>
      cases h
      have hends := restart_ends (t := t) s
      refine ⟨hends.consistent hs, fun hinvalidated hsettled => hends.settled hsettled ?_⟩
      intro row hrow hrunning hcommand _ repository hrepository hkey considerCheckpoints
      rcases hload : loadArchiveCache (restart s) repository.id considerCheckpoints with _ | data
      · rfl
      · exact (hinvalidated row hrow hrunning hcommand _ hkey repository hrepository rfl considerCheckpoints
          (by rw [hends.loads _ _ data hload]; rfl)).elim

theorem restart_idle (s : Caching) (key : ExecutionKey) : Idle t (restart s) key := by
  intro row hrow _
  obtain ⟨old, _, rfl⟩ := mem_restart.mp hrow
  exact recoverRow_inactive old

/-- A list that is older than the end of a command is served after a restart. -/
theorem stale_after_restart {repository : Repository} (hrepository : repository ∈ t.repositories)
    {considerCheckpoints : Bool} {data : Dataset} (hdata : data ∈ loadArchiveCache s repository.id considerCheckpoints)
    (hended : EndedSince t s (repositoryExecutionKeyById t repository.id) data.scannedAt) :
    ¬ CacheFresh t (restart s) := by
  intro hfresh
  have hends := restart_ends (t := t) s
  exact (hends.endedSince hended).not_scannedAfter
    (hfresh repository hrepository (restart_idle s _) considerCheckpoints data hdata)

/-- An event that breaks the condition leaves a list that is served after a
restart. -/
theorem stale_of_not_invalidated {e : CacheEvent} (hs : Consistent t s) (h : cacheStep t s e s')
    (hbreaks : ¬ Invalidated t s e) : ¬ CacheFresh t (restart s') := by
  cases e with
  | runEnd runId status =>
      obtain ⟨run, rfl, hends⟩ := runEnd_eq_some h
      simp only [Invalidated, OnlyCachedFor, not_forall, Option.isSome_iff_exists] at hbreaks
      obtain ⟨row, hrow, hid, ⟨command, hcommand⟩, key, hkey, repository, hrepository, rfl, considerCheckpoints,
        ⟨data, hdata⟩, hkept⟩ := hbreaks
      have heq := s.queue.runs.eq_of_id_eq hrow hends.mem hid
      subst heq
      obtain ⟨other, hother, hoid, hof⟩ := hs.commands row.id command hcommand
      rw [s.queue.runs.eq_of_id_eq hother hrow hoid] at hof
      have hrunning : row.status = .running := by
        have hactive := hends.active
        have hbegun := hof.begun
        cases hstatus : row.status with
        | running => rfl
        | queued => exact absurd hstatus hbegun
        | success | warning | failed | cancelled =>
            rw [hstatus] at hactive
            cases hactive
      have hended : row ∉ s'.queue.runs.rows := by
        intro hmem
        rw [hends.queue] at hmem
        obtain ⟨old, hold, hwrite⟩ := RunTable.mem_setStatus.mp hmem
        have hterminal := hends.terminal
        rw [writeStatus_of_eq (by rw [← hwrite, writeStatus_id])] at hwrite
        rw [← hwrite, setStatus_status] at hrunning
        rw [hrunning] at hterminal
        cases hterminal
      have hload : data ∈ loadArchiveCache s' repository.id considerCheckpoints := by
        by_cases hinvalidates : invalidates row.action status = true
        · rcases hrepositoryId : row.repositoryId with _ | repositoryId
          · rw [physicalKey, hrepositoryId] at hkey
            cases hkey
          · have hne : repository.id ≠ repositoryId := by
              intro heq
              exact hkept ⟨by rw [hrepositoryId, heq], hinvalidates⟩
            rw [load_other (hends.invalidated hinvalidates repositoryId hrepositoryId) hne]
            exact hdata
        · rw [load_congr (hends.preserved (by simpa using hinvalidates))]
          exact hdata
      exact stale_after_restart hrepository hload
        (hends.ends.stale hs hrow hrunning hended hcommand hrepository hkey hdata)
  | restart =>
      cases h
      simp only [Invalidated, OnlyCachedFor, not_forall, Option.isSome_iff_exists] at hbreaks
      obtain ⟨row, hrow, hrunning, ⟨command, hcommand⟩, key, hkey, repository, hrepository, rfl, considerCheckpoints,
        ⟨data, hdata⟩, _⟩ := hbreaks
      have hended : row ∉ (restart s).queue.runs.rows := by
        intro hmem
        obtain ⟨old, _, heq⟩ := mem_restart.mp hmem
        have hinactive := recoverRow_inactive old
        rw [heq, hrunning] at hinactive
        cases hinactive
      exact stale_after_restart hrepository (s := restart s) hdata
        ((restart_ends s).stale hs hrow hrunning hended hcommand hrepository hkey hdata)
  | admission _ | commandStart _ | commandEnd _ | scanStart _ _ | store _ _ | dropCaches _ =>
      exact absurd trivial hbreaks

theorem consistent_of_started (h : Started s) : Consistent t s where
  tracked := h.queue.tracked
  alone := by
    intro a ha b _ har
    have hinactive := h.queue.inactive a ha
    rw [har] at hinactive
    cases hinactive
  commands := by
    intro id command hcommand
    rw [h.commands id] at hcommand
    cases hcommand
  scans := by
    intro id scan hscan
    rw [h.scans id] at hscan
    cases hscan
  files := by
    intro repositoryId considerCheckpoints data hdata
    rw [loadArchiveCache] at hdata
    split at hdata
    · cases hdata
    · next payload hpayload =>
        split at hdata
        · cases hdata
          exact h.files repositoryId considerCheckpoints payload hpayload
        · cases hdata
  older := by
    intro row hrow hrunning
    have hinactive := h.queue.inactive row hrow
    rw [hrunning] at hinactive
    cases hinactive

theorem settled_of_started (h : Started s) : Settled t s := by
  intro repository _ considerCheckpoints data _
  right
  intro row _ _ command hcommand
  rw [h.commands row.id] at hcommand
  nomatch hcommand

/-- Served archive lists are never stale in the histories in which no run ends
with an old list of its repository left behind, and the first event that
leaves one makes the list stale after a restart at the latest. -/
theorem archive_cache_fresh {s₀ : Caching} (h₀ : Started s₀) :
    (∀ es s, History (meeting (cacheStep t) (Invalidated t)) s₀ es s → CacheFresh t s) ∧
    (∀ es s e s', History (meeting (cacheStep t) (Invalidated t)) s₀ es s → cacheStep t s e s' →
      ¬ Invalidated t s e → ¬ CacheFresh t (restart s')) := by
  have hinvariant : ∀ es s, History (meeting (cacheStep t) (Invalidated t)) s₀ es s → Consistent t s ∧ Settled t s := by
    intro es s h
    refine h.invariant (fun s => Consistent t s ∧ Settled t s) ⟨consistent_of_started h₀, settled_of_started h₀⟩ ?_
    rintro a e b ⟨hconsistent, hsettled⟩ ⟨hstep, hinvalidated⟩
    obtain ⟨hconsistent', hsettled'⟩ := cacheStep_keeps hconsistent hstep
    exact ⟨hconsistent', hsettled' hinvalidated hsettled⟩
  constructor
  · intro es s h
    exact (hinvariant es s h).2.fresh
  · intro es s e s' h hstep hbreaks
    exact stale_of_not_invalidated (hinvariant es s h).1 hstep hbreaks

def startedCaching : Caching := ⟨emptyQueue sampleSettings, 0, fun _ => none, fun _ => none, fun _ _ => none⟩

theorem startedCaching_started : Started startedCaching :=
  ⟨emptyQueue_started sampleSettings, fun _ => rfl, fun _ => rfl, fun _ _ _ h => nomatch h⟩

/-- An archive refresh stores the list of the first repository, and a backup
of the repository runs after it. -/
def refreshThenBackup : List CacheEvent :=
  [.admission (.queue (.enqueue (sampleRun 1 1 .archiveRefresh))), .admission (.refreshStart 1 true),
    .scanStart 1 false,
    .store 1 [⟨"first", false⟩], .runEnd 1 .success, .admission (.queue (.endExecution 1)),
    .admission (.queue (.enqueue (sampleRun 2 1 .backup))), .admission (.queue (.claim 2)), .commandStart 2,
      .commandEnd 2]

def backupOver : Caching := (exec (cacheNext sampleTopology) startedCaching refreshThenBackup).get (by decide)

def backupSucceeded : Caching := (cacheNext sampleTopology backupOver (.runEnd 2 .success)).get (by decide)

def backupFailed : Caching := (cacheNext sampleTopology backupOver (.runEnd 2 .failed)).get (by decide)

theorem archive_cache_fresh_backup :
    History (meeting (cacheStep sampleTopology) (Invalidated sampleTopology)) startedCaching
      (refreshThenBackup ++ [.runEnd 2 .success]) backupSucceeded ∧ CacheFresh sampleTopology backupSucceeded := by
  have h : History (meeting (cacheStep sampleTopology) (Invalidated sampleTopology)) startedCaching
      (refreshThenBackup ++ [.runEnd 2 .success]) backupSucceeded :=
    (history_of_along (Option.some_get _).symm (by decide)).snoc ⟨(Option.some_get _).symm, by decide⟩
  exact ⟨h, (archive_cache_fresh startedCaching_started).1 _ _ h⟩

theorem archive_cache_stale_after_failure :
    ¬ ∀ (t : Topology) (s₀ : Caching) es s, Started s₀ → History (cacheStep t) s₀ es s → CacheFresh t s := by
  intro hclaim
  have h : History (cacheStep sampleTopology) startedCaching (refreshThenBackup ++ [.runEnd 2 .failed]) backupFailed :=
    (history_of_exec (Option.some_get _).symm).snoc (Option.some_get _).symm
  have hstale : ¬ CacheFresh sampleTopology backupFailed := by decide
  exact hstale (hclaim _ _ _ _ startedCaching_started h)

end BorgManager.ArchiveFreshness
