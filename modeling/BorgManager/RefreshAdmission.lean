import BorgManager.PlanStability

namespace BorgManager.RefreshAdmission

open Records ExecutionKeys ChainReservations RunQueue ExecutionPlan PlanAdmission GreedyAdmission
open QueueSystem QueueCapacity ChainExclusivity PlanStability Histories

variable (t : Topology)

def rowExecutionKey (row : Run) : ExecutionKey :=
  repositoryExecutionKey t.platform (repositoryOf t row) row.repositoryId

def repositoryExecutionKeyById (repositoryId : Nat) : ExecutionKey :=
  repositoryExecutionKey t.platform (t.repositories.find? (fun r => r.id == repositoryId)) (some repositoryId)

/-- The earliest other run that owns the repository's single slot. This second
admission path looks at nothing else. -/
def repositoryRunBlocker (s : Queue) (runId repositoryId : Nat) : Option Nat :=
  ((s.runs.rows.filter (fun row =>
    row.status.active && row.id != runId && rowExecutionKey t row == repositoryExecutionKeyById t repositoryId &&
      (row.status == .running || decide (row.id < runId)))).map Run.id).min?

/-- The checks of the record before the scan starts; `present` is the answer
of the file system for a managed repository. -/
def refreshable (repository : Option Repository) (present : Bool) : Bool :=
  match repository with
  | none => false
  | some r => r.enabled && r.initialized && ((PythonText.truthy r.storagePath).isNone || present)

/-- A queued archive refresh that finds no blocker starts by itself, without
a look at the plan. -/
def refreshStart (s : Queue) (runId : Nat) (present : Bool) : Option Queue :=
  match s.runs.get runId with
  | none => none
  | some run =>
      match run.repositoryId with
      | none => none
      | some repositoryId =>
          if run.status = .queued ∧ run.action = .archiveRefresh ∧ run.triggerType = .manual ∧
              repositoryRunBlocker t s runId repositoryId = none ∧
              refreshable (t.repositories.find? (fun r => r.id == repositoryId)) present = true then
            some { s with runs := s.runs.setStatus runId .running }
          else none

inductive AdmissionEvent
  | queue (event : QueueEvent)
  | refreshStart (runId : Nat) (present : Bool)

def admissionNext (s : Queue) : AdmissionEvent → Option Queue
  | .queue event => next t s event
  | .refreshStart runId present => refreshStart t s runId present

abbrev admissionStep : Transition Queue AdmissionEvent := graph (admissionNext t)

/-- The reasons that the claim of an archive refresh could be refused for. -/
def isCapacityReason : Blocker → Bool
  | .maintenanceChain .. | .repository .. | .mount .. | .global .. => true
  | .archiveMount .. | .schedule .. | .sourceStats .. => false

def inGroup (key : MountKey) (row : Run) : Bool := decide (rowMountKey t row = some key)

/-- The plan would let the run start as well, as far as chains and capacity
are concerned, and nothing it needs is used up. -/
structure RefreshAgrees (s : Queue) (run : Run) : Prop where
  unblocked : ∀ reason, (executionPlan t s none).blockers.lookup run.id = some reason →
    isCapacityReason reason = false
  chain : ∀ key chain, physicalKey t run = some key → repositoryChainSnapshot s.chains key = some chain →
    chain.started = true → s.chains.runTokens run.id = some chain.token
  mount : ∀ key, mountGroup t run = some key → 0 < s.settings.configuredLimit key →
    (liveRunning s).countP (inGroup t key) < s.settings.configuredLimit key
  global : 0 < s.settings.maxParallelRuns → (liveRunning s).length < s.settings.maxParallelRuns

def mounted (s : Queue) (run : Run) : Bool := heldByArchiveMount (planContext t s (liveRows s none)) run

/-- The queued runs before this one that the plan would start. -/
def ahead (s : Queue) (run : Run) : List Run :=
  (selectedRows t s none).filter (fun r => decide (r.id < run.id))

/-- No foreign chain has a claim on the repository, and the mount group and
the manager have a slot left. A run that an archive mount holds back anyway
has no place in the order of the queue. -/
structure RefreshFits (s : Queue) (run : Run) : Prop where
  chain : ∀ key chain, physicalKey t run = some key → repositoryChainSnapshot s.chains key = some chain →
    s.chains.runTokens run.id ≠ some chain.token →
    chain.started = false ∧ (chain.rootRunId < run.id → mounted t s run = true)
  mount : ∀ key, mountGroup t run = some key → 0 < s.settings.configuredLimit key →
    (liveRunning s).countP (inGroup t key) < s.settings.configuredLimit key ∧
    (mounted t s run = true ∨
      (liveRunning s ++ ahead t s run).countP (inGroup t key) < s.settings.configuredLimit key)
  global : 0 < s.settings.maxParallelRuns →
    (liveRunning s).length < s.settings.maxParallelRuns ∧
    (mounted t s run = true ∨ (liveRunning s ++ ahead t s run).length < s.settings.maxParallelRuns)

variable {t} {s s' : Queue} {run : Run}

/-- What a start of the refresh path says about its run. -/
theorem refreshStart_eq_some {runId : Nat} {present : Bool} (h : refreshStart t s runId present = some s') :
    ∃ run repositoryId, run ∈ s.runs.rows ∧ run.id = runId ∧ run.status = .queued ∧
      run.action = .archiveRefresh ∧ run.triggerType = .manual ∧ run.repositoryId = some repositoryId ∧
      repositoryRunBlocker t s runId repositoryId = none ∧
      s' = { s with runs := s.runs.setStatus runId .running } := by
  rw [refreshStart] at h
  cases hg : s.runs.get runId with
  | none => simp [hg] at h
  | some run =>
      obtain ⟨hm, hid⟩ := RunTable.get_eq_some.mp hg
      simp only [hg] at h
      cases hr : run.repositoryId with
      | none => simp [hr] at h
      | some repositoryId =>
          simp only [hr] at h
          split at h
          · next hc => exact ⟨run, repositoryId, hm, hid, hc.1, hc.2.1, hc.2.2.1, hr, hc.2.2.2.1,
              (Option.some.inj h).symm⟩
          · cases h

theorem physicalKey_eq_some {key : ExecutionKey} :
    physicalKey t run = some key ↔ run.repositoryId ≠ none ∧ rowExecutionKey t run = key := by
  rw [physicalKey, rowExecutionKey]
  cases run.repositoryId <;> simp

/-- The guard of the refresh path is the repository layer of the plan. -/
theorem other_repository_of_no_blocker {repositoryId : Nat} (hr : run.repositoryId = some repositoryId)
    (hb : repositoryRunBlocker t s run.id repositoryId = none) {o : Run} (ho : o ∈ s.runs.rows)
    (ha : o.status = .running ∨ (o.status = .queued ∧ o.id < run.id)) (hne : o.id ≠ run.id) :
    physicalKey t o ≠ physicalKey t run := by
  intro hk
  have hkey : rowExecutionKey t o = repositoryExecutionKeyById t repositoryId := by
    have hrun : physicalKey t run = some (rowExecutionKey t run) :=
      physicalKey_eq_some.mpr ⟨by rw [hr]; simp, rfl⟩
    rw [(physicalKey_eq_some.mp (hk.trans hrun)).2]
    simp [rowExecutionKey, repositoryExecutionKeyById, repositoryOf, hr]
  have hmem : o.id ∈ ((s.runs.rows.filter (fun row =>
      row.status.active && row.id != run.id &&
        rowExecutionKey t row == repositoryExecutionKeyById t repositoryId &&
        (row.status == .running || decide (row.id < run.id)))).map Run.id) := by
    refine List.mem_map_of_mem (List.mem_filter.mpr ⟨ho, ?_⟩)
    rcases ha with ha | ⟨ha, hlt⟩
    · simp [ha, hne, hkey, Status.active]
    · simp [ha, hne, hkey, hlt, Status.active]
  rw [repositoryRunBlocker, List.min?_eq_none_iff] at hb
  rw [hb] at hmem
  cases hmem

/-- The run of a refresh start, as the guard of the path leaves it. -/
structure Startable (t : Topology) (s : Queue) (run : Run) : Prop where
  row : run ∈ s.runs.rows
  waiting : run.status = .queued
  action : run.action = .archiveRefresh
  manual : run.triggerType = .manual
  free : ∀ o ∈ s.runs.rows, o.status = .running ∨ (o.status = .queued ∧ o.id < run.id) → o.id ≠ run.id →
    physicalKey t o ≠ physicalKey t run

theorem startable_of_refreshStart {runId : Nat} {present : Bool} (hm : run ∈ s.runs.rows) (hid : run.id = runId)
    (h : refreshStart t s runId present = some s') : Startable t s run := by
  obtain ⟨r, repositoryId, hr, hrid, hq, ha, hman, hrepo, hb, _⟩ := refreshStart_eq_some h
  obtain rfl := s.runs.eq_of_id_eq hr hm (hrid.trans hid.symm)
  subst hid
  exact ⟨hm, hq, ha, hman, fun o ho hact hne => other_repository_of_no_blocker hrepo hb ho hact hne⟩

theorem Startable.rowRepositoryKey (h : Startable t s run) : rowRepositoryKey t run = physicalKey t run := by
  rw [ExecutionPlan.rowRepositoryKey, h.action]
  rfl

theorem Startable.rowMountKey (h : Startable t s run) : rowMountKey t run = mountGroup t run := by
  rw [ExecutionPlan.rowMountKey, h.action]
  rfl

theorem Startable.live (h : Startable t s run) (htr : Tracked s) : run ∈ liveRows s none :=
  mem_liveRows.mpr ⟨h.row, by rw [h.waiting]; rfl, htr run h.row (by rw [h.waiting]; rfl)⟩

theorem Startable.queue_split (h : Startable t s run) (htr : Tracked s) :
    ∃ before after, queued (liveRows s none) = before ++ run :: after ∧
      (∀ r ∈ before, r.id < run.id) ∧ (∀ r ∈ after, run.id < r.id) := by
  obtain ⟨before, after, hq⟩ := List.append_of_mem (mem_queued.mpr ⟨h.live htr, h.waiting⟩)
  have hord : (queued (liveRows s none)).Pairwise (fun a b => a.id < b.id) := (liveRows_ordered s none).filter _
  rw [hq, List.pairwise_append, List.pairwise_cons] at hord
  exact ⟨before, after, hq, fun r hr => hord.2.2 r hr run (List.mem_cons_self ..), hord.2.1.1⟩

theorem ahead_perm {before after : List Run} (hq : queued (liveRows s none) = before ++ run :: after)
    (hbefore : ∀ r ∈ before, r.id < run.id) (hafter : ∀ r ∈ after, run.id < r.id) :
    (ahead t s run).Perm (select (planPolicy t s none) (running (liveRows s none)) before) := by
  have hadm : (admitted t s none).filter (fun r => decide (r.id < run.id)) =
      select (planPolicy t s none) (running (liveRows s none)) before := by
    rw [admitted, hq, select_append, List.filter_append, List.filter_eq_self.mpr, List.filter_eq_nil_iff.mpr,
      List.append_nil]
    · intro r hr
      rcases List.mem_cons.mp (mem_of_mem_select hr) with rfl | hr
      · simp
      · simpa using Nat.le_of_lt (hafter r hr)
    · intro r hr
      simpa using hbefore r (mem_of_mem_select hr)
  rw [← hadm]
  exact (selectedRows_perm t s none).filter _

theorem chainBlocker_reason {ctx : PlanContext} {row : Run} {reason : Blocker}
    (h : chainBlocker t ctx row = some reason) : isCapacityReason reason = true := by
  obtain ⟨chain, _, rfl⟩ := Option.map_eq_some_iff.mp h
  rfl

theorem mountBlocker_reason {ctx : PlanContext} {occ : Occupancy} {row : Run} {reason : Blocker}
    (h : mountBlocker t ctx occ row = some reason) : isCapacityReason reason = true := by
  obtain ⟨key, _, h⟩ := Option.bind_eq_some_iff.mp h
  obtain ⟨id, _, rfl⟩ := Option.map_eq_some_iff.mp h
  rfl

theorem globalBlocker_reason {ctx : PlanContext} {occ : Occupancy} {reason : Blocker}
    (h : globalBlocker ctx occ = some reason) : isCapacityReason reason = true := by
  obtain ⟨id, _, rfl⟩ := Option.map_eq_some_iff.mp h
  rfl

/-- The reasons of the plan, once the repository, schedule and statistics
layers are known to be open. -/
theorem unblocked_iff {ctx : PlanContext} {occ : Occupancy} {row : Run} (hrepo : repositoryBlocker t occ row = none)
    (hsched : scheduleBlocker t ctx occ row = none) (hstats : sourceStatsBlocker ctx occ row = none) :
    (∀ reason, blocker t ctx occ row = some reason → isCapacityReason reason = false) ↔
      heldByArchiveMount ctx row = true ∨
        (chainBlocker t ctx row = none ∧ mountBlocker t ctx occ row = none ∧ globalBlocker ctx occ = none) := by
  rw [blocker]
  rw [hrepo, hsched, hstats, Option.none_or, Option.none_or, Option.none_or]
  cases hheld : heldByArchiveMount ctx row with
  | true => simp [archiveMountBlocker, hheld, isCapacityReason]
  | false =>
      have harch : archiveMountBlocker t ctx row = none := archiveMountBlocker_eq_none.mpr hheld
      rw [harch, Option.none_or]
      constructor
      · intro hreason
        right
        -- Whatever one of the three layers reports is a capacity reason.
        rw [← Option.or_eq_none_iff, ← Option.or_eq_none_iff]
        by_contra hne
        obtain ⟨reason, hr⟩ := Option.ne_none_iff_exists'.mp hne
        have hcap : isCapacityReason reason = true := by
          rcases Option.or_eq_some_iff.mp hr with h | ⟨_, h⟩
          · exact chainBlocker_reason h
          · rcases Option.or_eq_some_iff.mp h with h | ⟨_, h⟩
            · exact mountBlocker_reason h
            · exact globalBlocker_reason h
        rw [hreason reason hr] at hcap
        cases hcap
      · rintro (h | ⟨hc, hm, hg⟩) reason hr
        · cases h
        · rw [hc, hm, hg] at hr
          cases hr

theorem chainBlocker_none_iff (h : Startable t s run) :
    chainBlocker t (planContext t s (liveRows s none)) run = none ↔
      ∀ key chain, physicalKey t run = some key → repositoryChainSnapshot s.chains key = some chain →
        s.chains.runTokens run.id ≠ some chain.token → chain.started = false ∧ ¬ chain.rootRunId < run.id := by
  rw [chainBlocker_eq_none, ← Bool.not_eq_true, foreignChain_isSome, h.rowRepositoryKey]
  constructor
  · intro hnone key chain hkey hchain htok
    refine ⟨?_, fun hlt => hnone ⟨key, chain, hkey, hchain, htok, .inr hlt⟩⟩
    by_contra hst
    exact hnone ⟨key, chain, hkey, hchain, htok, .inl (by simpa using hst)⟩
  · rintro hall ⟨key, chain, hkey, hchain, htok, hblock⟩
    obtain ⟨hst, hlt⟩ := hall key chain hkey hchain htok
    rcases hblock with hb | hb
    · rw [hst] at hb
      cases hb
    · exact hlt hb

variable {occ : Occupancy} {rows : List Run}

theorem mountBlocker_none_iff (h : Startable t s run) (htr : Tracked s)
    (hrep : Represents t (planContext t s (liveRows s none)) occ rows) :
    mountBlocker t (planContext t s (liveRows s none)) occ run = none ↔
      ∀ key, mountGroup t run = some key → 0 < s.settings.configuredLimit key →
        rows.countP (inGroup t key) < s.settings.configuredLimit key := by
  rw [mountBlocker_eq_none hrep, h.rowMountKey]
  refine forall_congr' (fun key => imp_congr_right (fun hkey => ?_))
  have hlimit : mountLimitTable t s.settings (liveRows s none) key = s.settings.configuredLimit key := by
    rw [mountLimitTable_eq (h.live htr) (h.rowMountKey.trans hkey), mountParallelLimit_eq]
  have hcap : (policy t (planContext t s (liveRows s none))).capacity (.mount key) =
      positive (s.settings.configuredLimit key) := by
    rw [← hlimit]
    rfl
  have hocc : occupancy (policy t (planContext t s (liveRows s none))) rows (.mount key) =
      rows.countP (inGroup t key) := by
    refine List.countP_congr (fun r _ => ?_)
    simp [inGroup, policy]
  rw [exhausted_eq_false, hcap, hocc]
  by_cases hpos : 0 < s.settings.configuredLimit key <;> simp [positive, hpos]

theorem globalBlocker_none_iff (hrep : Represents t (planContext t s (liveRows s none)) occ rows) :
    globalBlocker (planContext t s (liveRows s none)) occ = none ↔
      (0 < s.settings.maxParallelRuns → rows.length < s.settings.maxParallelRuns) := by
  have hcap : (policy t (planContext t s (liveRows s none))).capacity .global =
      positive s.settings.maxParallelRuns := rfl
  have hocc : occupancy (policy t (planContext t s (liveRows s none))) rows .global = rows.length := by
    simp [occupancy, policy]
  rw [globalBlocker_eq_none hrep, exhausted_eq_false, hcap, hocc]
  by_cases hpos : 0 < s.settings.maxParallelRuns <;> simp [positive, hpos]

theorem repositoryBlocker_none (h : Startable t s run)
    (hrep : Represents t (planContext t s (liveRows s none)) occ rows)
    (hrows : ∀ o ∈ rows, o ∈ s.runs.rows ∧ (o.status = .running ∨ (o.status = .queued ∧ o.id < run.id)) ∧
      o.id ≠ run.id) : repositoryBlocker t occ run = none := by
  rw [repositoryBlocker_eq_none hrep, h.rowRepositoryKey]
  intro key hkey
  rw [exhausted_eq_false]
  intro c hc
  cases hc
  rw [Nat.lt_one_iff, occupancy, List.countP_eq_zero]
  intro o ho hlayer
  obtain ⟨hm, hact, hne⟩ := hrows o ho
  have hko : rowRepositoryKey t o = some key := (repository_mem_layers t).mp (of_decide_eq_true hlayer)
  refine h.free o hm hact hne ?_
  rw [ExecutionPlan.rowRepositoryKey] at hko
  split at hko
  · cases hko
  · rw [hko, hkey]

/-- The plan lets the run start exactly when an archive mount holds it back
first, or the chain, mount and global layers have room for it. -/
theorem plan_unblocked_iff (h : Startable t s run) (htr : Tracked s) :
    (∀ reason, (executionPlan t s none).blockers.lookup run.id = some reason → isCapacityReason reason = false) ↔
      mounted t s run = true ∨
        ((∀ key chain, physicalKey t run = some key → repositoryChainSnapshot s.chains key = some chain →
          s.chains.runTokens run.id ≠ some chain.token → chain.started = false ∧ ¬ chain.rootRunId < run.id) ∧
        (∀ key, mountGroup t run = some key → 0 < s.settings.configuredLimit key →
          (liveRunning s ++ ahead t s run).countP (inGroup t key) < s.settings.configuredLimit key) ∧
        (0 < s.settings.maxParallelRuns →
          (liveRunning s ++ ahead t s run).length < s.settings.maxParallelRuns)) := by
  obtain ⟨before, after, hq, hbefore, hafter⟩ := h.queue_split htr
  have hperm := List.Perm.append_left (liveRunning s) (ahead_perm (t := t) hq hbefore hafter)
  have hrunning : Represents t (planContext t s (liveRows s none)) _ (running (liveRows s none)) :=
    represents_running _
  obtain ⟨occ, hrep, hlookup⟩ := planQueue_lookup hrunning (fun r hr => Nat.ne_of_lt (hbefore r hr))
    (fun r hr => (Nat.ne_of_lt (hafter r hr)).symm)
  have hplan : (executionPlan t s none).blockers.lookup run.id =
      blocker t (planContext t s (liveRows s none)) occ run := by
    rw [← hlookup, ← hq]
    rfl
  have hrows : ∀ o ∈ running (liveRows s none) ++ select (planPolicy t s none) (running (liveRows s none)) before,
      o ∈ s.runs.rows ∧ (o.status = .running ∨ (o.status = .queued ∧ o.id < run.id)) ∧ o.id ≠ run.id := by
    intro o ho
    rcases List.mem_append.mp ho with ho | ho
    · obtain ⟨hlive, hst⟩ := mem_running.mp ho
      refine ⟨(mem_liveRows.mp hlive).1, .inl hst, ?_⟩
      intro hid
      have := s.runs.eq_of_id_eq (mem_liveRows.mp hlive).1 h.row hid
      rw [this, h.waiting] at hst
      cases hst
    · have hb := mem_of_mem_select ho
      obtain ⟨hlive, hst⟩ := mem_queued.mp (hq ▸ List.mem_append_left _ hb)
      exact ⟨(mem_liveRows.mp hlive).1, .inr ⟨hst, hbefore o hb⟩, Nat.ne_of_lt (hbefore o hb)⟩
  have hsched : scheduleBlocker t (planContext t s (liveRows s none)) occ run = none := by
    simp [scheduleBlocker, runScheduleKey, h.manual]
  have hstats : sourceStatsBlocker (planContext t s (liveRows s none)) occ run = none := by
    simp [sourceStatsBlocker, h.action]
  rw [hplan, unblocked_iff (repositoryBlocker_none h hrep hrows) hsched hstats, chainBlocker_none_iff h,
    mountBlocker_none_iff h htr hrep, globalBlocker_none_iff hrep, hperm.length_eq]
  simp only [fun key => hperm.countP_eq (inGroup t key)]
  rfl

theorem refreshAgrees_iff (h : Startable t s run) (htr : Tracked s) :
    RefreshAgrees t s run ↔ RefreshFits t s run := by
  constructor
  · intro ha
    refine ⟨?_, ?_, ?_⟩
    · intro key chain hkey hchain htok
      refine ⟨?_, ?_⟩
      · by_contra hst
        exact htok (ha.chain key chain hkey hchain (by simpa using hst))
      · intro hlt
        refine ((plan_unblocked_iff h htr).mp ha.unblocked).resolve_right ?_
        rintro ⟨hfree, _⟩
        exact (hfree key chain hkey hchain htok).2 hlt
    · intro key hkey hpos
      exact ⟨ha.mount key hkey hpos, ((plan_unblocked_iff h htr).mp ha.unblocked).imp_right
        (fun hroom => hroom.2.1 key hkey hpos)⟩
    · intro hpos
      exact ⟨ha.global hpos, ((plan_unblocked_iff h htr).mp ha.unblocked).imp_right
        (fun hroom => hroom.2.2 hpos)⟩
  · intro hf
    refine ⟨(plan_unblocked_iff h htr).mpr ?_, ?_, fun key hkey hpos => (hf.mount key hkey hpos).1,
      fun hpos => (hf.global hpos).1⟩
    · by_cases hm : mounted t s run = true
      · exact .inl hm
      · refine .inr ⟨?_, ?_, ?_⟩
        · intro key chain hkey hchain htok
          obtain ⟨hst, hlt⟩ := hf.chain key chain hkey hchain htok
          exact ⟨hst, fun h => hm (hlt h)⟩
        · exact fun key hkey hpos => (hf.mount key hkey hpos).2.resolve_left hm
        · exact fun hpos => (hf.global hpos).2.resolve_left hm
    · intro key chain hkey hchain hst
      by_contra htok
      rw [(hf.chain key chain hkey hchain htok).1] at hst
      cases hst

theorem admission_cases {e : AdmissionEvent} (h : admissionStep t s e s') :
    (∃ event, e = .queue event ∧ queueStep t s event s') ∨
      (∃ runId present, e = .refreshStart runId present ∧ isActive s runId = true ∧
        s' = { s with runs := s.runs.setStatus runId .running }) := by
  cases e with
  | queue event => exact .inl ⟨event, rfl, h⟩
  | refreshStart runId present =>
      obtain ⟨run, _, hm, hid, hq, _, _, _, _, hs⟩ := refreshStart_eq_some h
      exact .inr ⟨runId, present, rfl, isActive_iff.mpr ⟨run, hm, hid, by rw [hq]; rfl⟩, hs⟩

theorem rowChange_of_admission {e : AdmissionEvent} (h : admissionStep t s e s') : RowChange s s' := by
  rcases admission_cases h with ⟨event, _, hs⟩ | ⟨runId, _, _, ha, rfl⟩
  · exact rowChange_of_step hs
  · exact .status runId .running ha rfl rfl rfl

theorem chainsConsistent_of_admission {e : AdmissionEvent} (h : admissionStep t s e s')
    (hc : ChainsConsistent t s) : ChainsConsistent t s' := by
  have hrows := rowChange_of_admission h
  rcases admission_cases h with ⟨event, _, hs⟩ | ⟨runId, _, _, _, rfl⟩
  · exact hc.step hs
  · exact hc.of_same hrows rfl

theorem admission_invariants {s₀ : Queue} {es : List AdmissionEvent} (h₀ : Started s₀)
    (h : History (admissionStep t) s₀ es s) : Tracked s ∧ ChainsConsistent t s := by
  refine h.invariant (fun u => Tracked u ∧ ChainsConsistent t u) ⟨h₀.tracked, chainsConsistent_of_started h₀⟩ ?_
  rintro a e b ⟨htr, hc⟩ hab
  exact ⟨(rowChange_of_admission hab).tracked htr, chainsConsistent_of_admission hab hc⟩

theorem owns_of_admission {es : List AdmissionEvent} {key : ExecutionKey} {token : String}
    (hc : ChainsConsistent t s) (ho : Owns s key token) (h : History (admissionStep t) s es s')
    (hes : .queue (.releaseChain token) ∉ es) : Owns s' key token := by
  have hinv : ChainsConsistent t s' ∧ Owns s' key token := by
    refine h.invariant_of_mem (fun u => ChainsConsistent t u ∧ Owns u key token) ⟨hc, ho⟩ ?_
    rintro a e b he ⟨hca, hoa⟩ hab
    refine ⟨chainsConsistent_of_admission hab hca, ?_⟩
    rcases admission_cases hab with ⟨event, rfl, hs⟩ | ⟨_, _, _, _, rfl⟩
    · exact hoa.step hca (fun heq => hes (heq ▸ he)) hs
    · exact hoa
  exact hinv.2

/-- What the planner guarantees for the runs it starts, for a run that the
refresh path has started. -/
structure RefreshKeepsCapacity (t : Topology) (s : Queue) (run : Run) : Prop where
  repository : ∀ o ∈ liveRunning s, o.id ≠ run.id → physicalKey t o ≠ physicalKey t run
  mount : ∀ key, mountGroup t run = some key → 0 < s.settings.configuredLimit key →
    (liveRunning s).countP (inGroup t key) ≤ s.settings.configuredLimit key
  global : 0 < s.settings.maxParallelRuns → (liveRunning s).length ≤ s.settings.maxParallelRuns

theorem liveRunning_refreshed (h : Startable t s run) (htr : Tracked s)
    (hs : s' = { s with runs := s.runs.setStatus run.id .running }) :
    (liveRunning s').Perm (liveRunning s ++ [setStatus run .running]) := by
  have hsplit : ∃ xs ys, liveRows s none = xs ++ run :: ys ∧
      liveRows s' none = xs ++ setStatus run .running :: ys :=
    liveRows_started (h.live htr) (by rw [hs]) (fun _ _ _ => by rw [hs]; rfl)
  obtain ⟨xs, ys, hbefore, hafter⟩ := hsplit
  rw [liveRunning, liveRunning, hbefore, hafter]
  exact running_started xs ys h.waiting

theorem refreshKeepsCapacity (h : Startable t s run) (htr : Tracked s) (ha : RefreshAgrees t s run)
    (hs : s' = { s with runs := s.runs.setStatus run.id .running }) : RefreshKeepsCapacity t s' run := by
  have hperm := liveRunning_refreshed h htr hs
  have hsettings : s'.settings = s.settings := by rw [hs]
  refine ⟨?_, ?_, ?_⟩
  · intro o ho hne
    rcases List.mem_append.mp (hperm.mem_iff.mp ho) with ho | ho
    · obtain ⟨hlive, hst⟩ := mem_running.mp ho
      exact h.free o (mem_liveRows.mp hlive).1 (.inl hst) hne
    · rw [List.mem_singleton.mp ho] at hne
      exact absurd rfl hne
  · intro key hkey hpos
    rw [hsettings] at hpos ⊢
    have hroom := ha.mount key hkey hpos
    rw [hperm.countP_eq, List.countP_append, List.countP_singleton]
    split <;> omega
  · intro hpos
    rw [hsettings] at hpos ⊢
    have hroom := ha.global hpos
    rw [hperm.length_eq, List.length_append, List.length_singleton]
    omega

/-- Over every history of both admission paths, a refresh start agrees with
the plan exactly when the run fits, and then keeps what the planner keeps. -/
theorem refresh_admission {s₀ : Queue} {es : List AdmissionEvent} {present : Bool} (h₀ : Started s₀)
    (h : History (admissionStep t) s₀ es s) (hm : run ∈ s.runs.rows)
    (hs : refreshStart t s run.id present = some s') :
    (RefreshAgrees t s run ↔ RefreshFits t s run) ∧
    (RefreshFits t s run → RefreshKeepsCapacity t s' run) ∧
    (RefreshFits t s run → ∀ sa sb fs gs key root token, History (admissionStep t) s₀ fs sa →
      Reserved sa key root token → claimExecutionTurn t sa root = .ok sb →
      History (admissionStep t) sb gs s → .queue (.releaseChain token) ∉ gs →
      physicalKey t run = some key → s.chains.runTokens run.id = some token) := by
  have hstart := startable_of_refreshStart hm rfl hs
  obtain ⟨htr, _⟩ := admission_invariants h₀ h
  have hiff := refreshAgrees_iff hstart htr
  refine ⟨hiff, ?_, ?_⟩
  · intro hf
    obtain ⟨_, _, _, _, _, _, _, _, _, hs'⟩ := refreshStart_eq_some hs
    exact refreshKeepsCapacity hstart htr (hiff.mpr hf) hs'
  · intro hf sa sb fs gs key root token hfs hres hclaim hgs hrel hkey
    have hca := (admission_invariants h₀ hfs).2
    have hstep : admissionStep t sa (.queue (.claim root)) sb := by
      simp [graph, admissionNext, next, claim, hclaim, Except.toOption]
    obtain ⟨head, hhead, htok, hst⟩ :=
      owns_of_admission (chainsConsistent_of_admission hstep hca) (owns_of_claim hca hres hclaim) hgs hrel
    rw [(hiff.mpr hf).chain key head hkey hhead hst, htok]

/-- A started chain on the second repository, a younger chain that waits for
the first one, and a source scan; one slot of the disk is used. -/
def refreshBesideChains : List AdmissionEvent :=
  [.queue (.enqueueChainRoot (sampleRun 1 2 .backup) "manual-1"), .queue (.claim 1),
    .queue (.enqueue (sampleRun 2 1 .archiveRefresh)), .queue (.beginExecution 2),
    .queue (.enqueueChainRoot (sampleRun 3 1 .backup) "manual-3"),
    .queue (.enqueue (sampleRun 4 2 .sourceStats)), .queue (.claim 4)]

def refreshWaits : Queue :=
  (exec (admissionNext sampleTopology) (emptyQueue busySettings) refreshBesideChains).get (by decide)

def refreshRuns : Queue := { refreshWaits with runs := refreshWaits.runs.setStatus 2 .running }

theorem refreshWaits_fits : RefreshFits sampleTopology refreshWaits (sampleRun 2 1 .archiveRefresh) := by
  have hphysical : physicalKey sampleTopology (sampleRun 2 1 .archiveRefresh) =
      some (.managed "/repositories/first") := by decide
  have hchain : repositoryChainSnapshot refreshWaits.chains (.managed "/repositories/first") =
      some ⟨"manual-3", 3, false⟩ := by decide
  have hgroup : mountGroup sampleTopology (sampleRun 2 1 .archiveRefresh) =
      some (.filesystem "/repositories") := by decide
  refine ⟨?_, ?_, fun _ => ⟨by decide, .inr (by decide)⟩⟩
  · intro key chain hkey hsnap _
    cases hphysical.symm.trans hkey
    cases hchain.symm.trans hsnap
    exact ⟨rfl, fun hlt => absurd hlt (by decide)⟩
  · intro key hkey _
    cases hgroup.symm.trans hkey
    exact ⟨by decide, .inr (by decide)⟩

theorem refresh_admission_beside_chains :
    (repositoryChainSnapshot refreshWaits.chains (.managed "/repositories/second") = some ⟨"manual-1", 1, true⟩ ∧
      repositoryChainSnapshot refreshWaits.chains (.managed "/repositories/first") = some ⟨"manual-3", 3, false⟩ ∧
      (liveRunning refreshWaits).countP (inGroup sampleTopology (.filesystem "/repositories")) = 1 ∧
      refreshWaits.settings.configuredLimit (.filesystem "/repositories") = 2) ∧
    RefreshAgrees sampleTopology refreshWaits (sampleRun 2 1 .archiveRefresh) ∧
    RefreshKeepsCapacity sampleTopology refreshRuns (sampleRun 2 1 .archiveRefresh) ∧
    (∀ sa sb fs gs key root token,
      History (admissionStep sampleTopology) (emptyQueue busySettings) fs sa →
      Reserved sa key root token → claimExecutionTurn sampleTopology sa root = .ok sb →
      History (admissionStep sampleTopology) sb gs refreshWaits → .queue (.releaseChain token) ∉ gs →
      physicalKey sampleTopology (sampleRun 2 1 .archiveRefresh) = some key →
      refreshWaits.chains.runTokens 2 = some token) := by
  obtain ⟨hagrees, hkeeps, hchains⟩ :=
    @refresh_admission _ refreshWaits refreshRuns (sampleRun 2 1 .archiveRefresh) _ _ true
      (emptyQueue_started busySettings) (history_of_exec (Option.some_get _).symm) (by decide) rfl
  exact ⟨⟨by decide, by decide, by decide, by decide⟩, hagrees.mpr refreshWaits_fits, hkeeps refreshWaits_fits,
    hchains refreshWaits_fits⟩

def chainThenRefresh : List AdmissionEvent :=
  [.queue (.enqueueChainRoot (sampleRun 1 1 .backup) "manual-1"), .queue (.claim 1), .queue (.finish 1 .success),
    .queue (.endExecution 1), .queue (.enqueue (sampleRun 2 1 .archiveRefresh)), .queue (.beginExecution 2)]

def refreshIntoChain : Queue :=
  (exec (admissionNext sampleTopology) (emptyQueue sampleSettings) chainThenRefresh).get (by decide)

/-- Between the backup and the prune of a manual chain, an archive refresh of
the same repository starts although the chain owns the repository. -/
theorem refresh_starts_inside_chain :
    History (admissionStep sampleTopology) (emptyQueue sampleSettings) chainThenRefresh refreshIntoChain ∧
    (refreshStart sampleTopology refreshIntoChain 2 true).isSome = true ∧
    (executionPlan sampleTopology refreshIntoChain none).blockers.lookup 2 = some (.maintenanceChain 1 "first") ∧
    repositoryChainSnapshot refreshIntoChain.chains (.managed "/repositories/first") =
      some ⟨"manual-1", 1, true⟩ ∧
    refreshIntoChain.chains.runTokens 2 = none :=
  ⟨history_of_exec (Option.some_get _).symm, by decide, by decide, by decide, by decide⟩

end BorgManager.RefreshAdmission
