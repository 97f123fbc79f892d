import BorgManager.ChainExclusivity

namespace BorgManager.PlanStability

open Records ExecutionKeys ChainReservations RunQueue ExecutionPlan PlanAdmission GreedyAdmission
open QueueSystem QueueCapacity ChainExclusivity Histories

variable {t : Topology} {s s' : Queue} {run : Run} {current : Option Nat}

/-- Starting the run on top of the occupants would break one of the limits. -/
inductive BreaksLimit (t : Topology) (s : Queue) (live occupants : List Run) (run : Run) : Prop
  | repository (key : ExecutionKey) (target : rowRepositoryKey t run = some key)
      (full : ∃ o ∈ occupants, rowRepositoryKey t o = some key)
  | mount (key : MountKey) (group : rowMountKey t run = some key) (limited : 0 < s.settings.configuredLimit key)
      (full : s.settings.configuredLimit key <
        (occupants ++ [run]).countP (fun o => decide (rowMountKey t o = some key)))
  | schedule (key : ScheduleKey) (group : runScheduleKey t.platform run = some key)
      (full : ∃ o ∈ live, runScheduleKey t.platform o = some key ∧ 0 < o.scheduleParallelLimitSnapshot ∧
        o.scheduleParallelLimitSnapshot <
          (occupants ++ [run]).countP (fun r => decide (runScheduleKey t.platform r = some key)))
  | sourceStats (action : run.action = .sourceStats)
      (full : s.settings.sourceStatsParallelLimit <
        (occupants ++ [run]).countP (fun o => decide (o.action = .sourceStats)))
  | global (limited : 0 < s.settings.maxParallelRuns)
      (full : s.settings.maxParallelRuns < (occupants ++ [run]).length)

theorem noteScheduleLimit_attained (limits : ScheduleKey → Nat) (row : Run) (key : ScheduleKey) :
    noteScheduleLimit t limits row key = limits key ∨
      (runScheduleKey t.platform row = some key ∧
        noteScheduleLimit t limits row key = row.scheduleParallelLimitSnapshot) := by
  by_cases hk : runScheduleKey t.platform row = some key
  · by_cases hp : 0 < row.scheduleParallelLimitSnapshot
    · rw [noteScheduleLimit_of_pos hk hp]
      split
      · exact .inr ⟨hk, rfl⟩
      · rcases Nat.le_total (limits key) row.scheduleParallelLimitSnapshot with h | h
        · exact .inl (Nat.min_eq_left h)
        · exact .inr ⟨hk, Nat.min_eq_right h⟩
    · rw [noteScheduleLimit_of_zero hp]
      exact .inl rfl
  · exact .inl (noteScheduleLimit_of_ne hk)

theorem scheduleLimitTable_attained {rows : List Run} {key : ScheduleKey}
    (hpos : 0 < scheduleLimitTable t rows key) :
    ∃ o ∈ rows, runScheduleKey t.platform o = some key ∧
      scheduleLimitTable t rows key = o.scheduleParallelLimitSnapshot := by
  suffices hgen : ∀ limits : ScheduleKey → Nat, 0 < rows.foldl (noteScheduleLimit t) limits key →
      rows.foldl (noteScheduleLimit t) limits key = limits key ∨
      ∃ o ∈ rows, runScheduleKey t.platform o = some key ∧
        rows.foldl (noteScheduleLimit t) limits key = o.scheduleParallelLimitSnapshot by
    refine (hgen _ hpos).resolve_left ?_
    intro h
    exact absurd (h ▸ hpos) (Nat.lt_irrefl 0)
  clear hpos
  induction rows with
  | nil => exact fun limits _ => .inl rfl
  | cons r rows ih =>
      intro limits hpos
      rw [List.foldl_cons] at hpos ⊢
      rcases ih _ hpos with h | ⟨o, ho, hk, h⟩
      · rw [h] at hpos ⊢
        rcases noteScheduleLimit_attained limits r key with h | ⟨hk, h⟩
        · exact .inl h
        · exact .inr ⟨r, List.mem_cons_self .., hk, h⟩
      · exact .inr ⟨o, List.mem_cons_of_mem r ho, hk, h⟩

theorem breaksLimit_of_exhausted {occupants : List Run} (hlive : run ∈ liveRows s current) {i : Layer}
    (hi : i ∈ layers t run) (hx : exhausted (planPolicy t s current) occupants i = true) :
    BreaksLimit t s (liveRows s current) occupants run := by
  obtain ⟨c, hcap, hle⟩ := exhausted_iff.mp hx
  have hcount : c < (occupants ++ [run]).countP (fun o => decide (i ∈ layers t o)) := by
    rw [List.countP_append, List.countP_singleton, if_pos (decide_eq_true hi)]
    exact Nat.lt_succ_of_le hle
  have hpositive {limit : Nat} (h : positive limit = some c) : 0 < limit ∧ limit = c := by
    rw [positive] at h
    split at h
    · next hp => exact ⟨hp, Option.some.inj h⟩
    · cases h
  cases i with
  | repository key =>
      cases hcap
      obtain ⟨o, ho, hok⟩ := List.countP_pos_iff.mp (Nat.lt_of_lt_of_le Nat.one_pos hle)
      exact .repository key ((repository_mem_layers t).mp hi)
        ⟨o, ho, (repository_mem_layers t).mp (of_decide_eq_true hok)⟩
  | mount key =>
      have hkey := (mount_mem_layers t).mp hi
      obtain ⟨hp, hc⟩ := hpositive hcap
      have hlimit : s.settings.configuredLimit key = (planContext t s (liveRows s current)).mountLimits key := by
        rw [← mountParallelLimit_eq]
        exact (mountLimitTable_eq hlive hkey).symm
      simp only [mount_mem_layers] at hcount
      exact .mount key hkey (by omega) (by omega)
  | schedule key =>
      obtain ⟨hp, hc⟩ := hpositive hcap
      obtain ⟨o, ho, hok, hsnap⟩ := scheduleLimitTable_attained (t := t) hp
      simp only [schedule_mem_layers] at hcount
      have hc' : scheduleLimitTable t (liveRows s current) key = c := hc
      exact .schedule key ((schedule_mem_layers t).mp hi) ⟨o, ho, hok, by omega, by omega⟩
  | sourceStats =>
      obtain ⟨hp, hc⟩ := hpositive hcap
      have hc' : ExecutionKeys.sourceStatsLimit s.settings = c := hc
      rw [sourceStatsLimit_eq] at hc'
      simp only [sourceStats_mem_layers] at hcount
      exact .sourceStats ((sourceStats_mem_layers t).mp hi) (by omega)
  | global =>
      obtain ⟨hp, hc⟩ := hpositive hcap
      have hc' : s.settings.maxParallelRuns = c := hc
      simp only [global_mem_layers, decide_true, List.countP_true] at hcount
      exact .global (by omega) (by omega)

def selectedRows (t : Topology) (s : Queue) (current : Option Nat) : List Run :=
  (liveRows s current).filter (fun r => (executionPlan t s current).selected.contains r.id)

theorem mem_selected_iff (hlive : run ∈ liveRows s current) :
    run.id ∈ (executionPlan t s current).selected ↔ run ∈ admitted t s current := by
  rw [executionPlan_selected, List.mem_map]
  constructor
  · rintro ⟨r, hr, hid⟩
    have hrows := (mem_liveRows.mp (mem_admitted t hr).1).1
    rwa [s.runs.eq_of_id_eq hrows (mem_liveRows.mp hlive).1 hid] at hr
  · intro h
    exact ⟨run, h, rfl⟩

theorem liveRows_nodup (s : Queue) (current : Option Nat) : (liveRows s current).Nodup := s.runs.nodup.filter _

theorem admitted_nodup (t : Topology) (s : Queue) (current : Option Nat) : (admitted t s current).Nodup :=
  ((liveRows_nodup s current).filter _).sublist (select_sublist ..)

theorem selectedRows_perm (t : Topology) (s : Queue) (current : Option Nat) :
    (selectedRows t s current).Perm (admitted t s current) := by
  rw [selectedRows]
  rw [List.perm_ext_iff_of_nodup ((liveRows_nodup s current).filter _) (admitted_nodup t s current)]
  intro r
  rw [List.mem_filter, List.contains_iff_mem]
  constructor
  · rintro ⟨hlive, hsel⟩
    exact (mem_selected_iff hlive).mp hsel
  · intro hr
    have hlive := (mem_admitted t hr).1
    exact ⟨hlive, (mem_selected_iff hlive).mpr hr⟩

/-- A row that the plan leaves out without holding it back would break a
limit beside the running rows and the selected ones. -/
theorem work_conservation (hrun : run ∈ queued (liveRows s current))
    (hout : run.id ∉ (executionPlan t s current).selected)
    (hmount : heldByArchiveMount (planContext t s (liveRows s current)) run = false)
    (hchain : foreignChain t (planContext t s (liveRows s current)) run = none) :
    BreaksLimit t s (liveRows s current) (running (liveRows s current) ++ selectedRows t s current) run := by
  have hlive := (mem_queued.mp hrun).1
  have hheld : (planPolicy t s current).held run = false := by
    change (_ || _) = false
    rw [hmount, hchain]
    rfl
  obtain ⟨i, hi, hx⟩ := exhausted_of_not_mem_select hrun (fun h => hout ((mem_selected_iff hlive).mpr h)) hheld
  refine breaksLimit_of_exhausted hlive hi ?_
  have hperm := List.Perm.append_left (running (liveRows s current)) (selectedRows_perm t s current)
  rw [exhausted, occupancy_perm _ hperm]
  exact hx

/-- Exactly one row has been claimed. Its own chain may have been marked as
started, and rows of vanished archive mounts as stale. -/
structure ClaimedAlone (t : Topology) (s s' : Queue) (run : Run) : Prop where
  runs : s'.runs = s.runs.setStatus run.id .running
  activeRunTasks : s'.activeRunTasks = s.activeRunTasks
  executingRunIds : s'.executingRunIds = s.executingRunIds
  settings : s'.settings = s.settings
  fuseMounts : s'.fuseMounts = s.fuseMounts
  archiveMounts : s'.archiveMounts = s.archiveMounts ∨ s'.archiveMounts = markStaleMounts s
  runTokens : s'.chains.runTokens = s.chains.runTokens
  ownChain : ∀ key, repositoryChainSnapshot s'.chains key = repositoryChainSnapshot s.chains key ∨
    (rowRepositoryKey t run = some key ∧ ∃ item, repositoryChainSnapshot s.chains key = some item ∧
      repositoryChainSnapshot s'.chains key = some { item with started := true })

theorem ClaimedAlone.live_ids (h : ClaimedAlone t s s' run) : liveRunIds s' current = liveRunIds s current := by
  rw [liveRunIds, liveRunIds, h.activeRunTasks, h.executingRunIds]

theorem ClaimedAlone.live_split (h : ClaimedAlone t s s' run) (hlive : run ∈ liveRows s current) :
    ∃ xs ys, liveRows s current = xs ++ run :: ys ∧ liveRows s' current = xs ++ setStatus run .running :: ys :=
  liveRows_started hlive h.runs (fun r _ _ => by rw [h.live_ids])

theorem ClaimedAlone.holds (h : ClaimedAlone t s s' run) : holdsRepository s' = holdsRepository s := by
  funext m
  simp only [holdsRepository, archiveMountIsActive, h.fuseMounts]

/-- Marking vanished mounts as stale does not change which repositories are
held back. -/
theorem ClaimedAlone.mem_active (h : ClaimedAlone t s s' run) {id : Nat} :
    id ∈ activeArchiveMountRepositories s' ↔ id ∈ activeArchiveMountRepositories s := by
  rw [mem_activeArchiveMountRepositories, mem_activeArchiveMountRepositories, h.holds]
  rcases h.archiveMounts with hsame | hstale
  · rw [hsame]
  · rw [hstale]
    constructor
    · rintro ⟨m, hm, ha, hid⟩
      obtain ⟨old, ho, rfl⟩ := List.mem_map.mp hm
      by_cases hold : holdsRepository s old = true
      · rw [if_pos hold] at hid
        exact ⟨old, ho, hold, hid⟩
      · rw [if_neg hold, holdsRepository_stale (by simpa using hold)] at ha
        cases ha
    · rintro ⟨m, hm, ha, hid⟩
      exact ⟨m, List.mem_map.mpr ⟨m, hm, if_pos ha⟩, ha, hid⟩

theorem ClaimedAlone.archive_held (h : ClaimedAlone t s s' run) (rows rows' : List Run) (row : Run) :
    heldByArchiveMount (planContext t s' rows') row = heldByArchiveMount (planContext t s rows) row := by
  simp only [heldByArchiveMount]
  cases row.repositoryId with
  | none => rfl
  | some id =>
      have hcontains : (activeArchiveMountRepositories s').contains id =
          (activeArchiveMountRepositories s).contains id := by
        rw [Bool.eq_iff_iff]
        simpa using h.mem_active
      simp only [planContext, hcontains]

theorem foreignChain_isSome {ctx : PlanContext} {row : Run} :
    (foreignChain t ctx row).isSome = true ↔
      ∃ key chain, rowRepositoryKey t row = some key ∧ ctx.chains key = some chain ∧
        ctx.tokens row.id ≠ some chain.token ∧ (chain.started = true ∨ chain.rootRunId < row.id) := by
  rw [foreignChain]
  cases hk : rowRepositoryKey t row with
  | none => simp
  | some key =>
      cases hc : ctx.chains key with
      | none => simp [hc]
      | some chain => simp [hc, Option.isSome_filter]

theorem ClaimedAlone.foreign_of_foreign (h : ClaimedAlone t s s' run) {rows rows' : List Run} {row : Run}
    (hf : (foreignChain t (planContext t s rows) row).isSome = true) :
    (foreignChain t (planContext t s' rows') row).isSome = true := by
  obtain ⟨key, chain, hkey, hchain, htok, hblock⟩ := foreignChain_isSome.mp hf
  have htok' : s'.chains.runTokens row.id ≠ some chain.token := by
    rw [h.runTokens]
    exact htok
  rcases h.ownChain key with hsame | ⟨_, item, hitem, hstarted⟩
  · exact foreignChain_isSome.mpr ⟨key, chain, hkey, hsame.trans hchain, htok', hblock⟩
  · obtain rfl : item = chain := Option.some.inj (hitem.symm.trans hchain)
    exact foreignChain_isSome.mpr ⟨key, { item with started := true }, hkey, hstarted, htok', .inl rfl⟩

theorem ClaimedAlone.foreign_elsewhere (h : ClaimedAlone t s s' run) (rows : List Run) {rows' : List Run} {row : Run}
    (hne : ∀ key, rowRepositoryKey t row = some key → rowRepositoryKey t run ≠ some key)
    (hf : (foreignChain t (planContext t s' rows') row).isSome = true) :
    (foreignChain t (planContext t s rows) row).isSome = true := by
  obtain ⟨key, chain, hkey, hchain, htok, hblock⟩ := foreignChain_isSome.mp hf
  rcases h.ownChain key with hsame | ⟨hrun, _⟩
  · refine foreignChain_isSome.mpr ⟨key, chain, hkey, hsame.symm.trans hchain, ?_, hblock⟩
    change s.chains.runTokens row.id ≠ some chain.token
    rw [← h.runTokens]
    exact htok
  · exact absurd hrun (hne key hkey)

theorem ClaimedAlone.same_capacity (h : ClaimedAlone t s s' run) (hlive : run ∈ liveRows s current) :
    (planPolicy t s' current).capacity = (planPolicy t s current).capacity := by
  obtain ⟨xs, ys, hbefore, hafter⟩ := h.live_split hlive
  -- A row keeps its keys and its snapshot when it starts.
  have hmount : mountLimitTable t s.settings (liveRows s' current) =
      mountLimitTable t s.settings (liveRows s current) := by
    rw [hbefore, hafter, mountLimitTable, mountLimitTable, List.foldl_append, List.foldl_append]
    rfl
  have hschedule : scheduleLimitTable t (liveRows s' current) =
      scheduleLimitTable t (liveRows s current) := by
    rw [hbefore, hafter, scheduleLimitTable, scheduleLimitTable, List.foldl_append, List.foldl_append]
    rfl
  funext i
  cases i <;> simp only [planPolicy, policy, capacity, planContext, h.settings, hmount, hschedule]

/-- The plan after one of its rows has been claimed is the rest of the plan. -/
theorem replan_after_claim (hrun : run ∈ admitted t s current) (h : ClaimedAlone t s s' run) :
    admitted t s' current = (admitted t s current).erase run := by
  obtain ⟨hlive, hq⟩ := mem_admitted t hrun
  obtain ⟨xs, ys, hbefore, hafter⟩ := h.live_split hlive
  have hnodup := liveRows_nodup s current
  have hqueue : queued (liveRows s' current) = (queued (liveRows s current)).erase run := by
    have hfirst : run ∉ queued xs := by
      intro hx
      rw [hbefore, List.nodup_append] at hnodup
      exact hnodup.2.2 run (mem_queued.mp hx).1 run (List.mem_cons_self ..) rfl
    have hold : queued (xs ++ run :: ys) = queued xs ++ run :: queued ys := by simp [queued, hq]
    have hnew : queued (xs ++ setStatus run .running :: ys) = queued xs ++ queued ys := by simp [queued]
    rw [hbefore, hafter, hold, hnew, List.erase_append_right _ hfirst, List.erase_cons_head]
  have hocc (i : Layer) : occupancy (planPolicy t s' current) (running (liveRows s' current)) i =
      occupancy (planPolicy t s' current) (running (liveRows s current) ++ [run]) i := by
    rw [hbefore, hafter, occupancy_perm _ (running_started xs ys hq), occupancy_append, occupancy_append]
    rfl
  have hlayers : (planPolicy t s' current).layers = (planPolicy t s current).layers := rfl
  have hcap := h.same_capacity hlive
  rw [admitted]
  rw [select_congr hocc, hqueue]
  refine select_erase hlayers hcap (hnodup.filter _) hrun ?_ ?_
  · intro b _ _ hb
    rcases Bool.or_eq_true_iff.mp hb with hb | hb
    · exact Bool.or_eq_true_iff.mpr (.inl (by rw [h.archive_held]; exact hb))
    · exact Bool.or_eq_true_iff.mpr (.inr (h.foreign_of_foreign hb))
  · intro b hb hne
    obtain ⟨hmount, hchain⟩ := Bool.or_eq_false_iff.mp (held_eq_false_of_mem_select hb)
    refine Bool.or_eq_false_iff.mpr ⟨by rw [h.archive_held]; exact hmount, ?_⟩
    by_contra hf
    have hone (key : ExecutionKey) (hkb : rowRepositoryKey t b = some key) : rowRepositoryKey t run ≠ some key :=
      fun hkr => hne (eq_of_mem_select_of_unit hb hrun ((repository_mem_layers t).mpr hkb)
        ((repository_mem_layers t).mpr hkr) rfl)
    have := h.foreign_elsewhere (liveRows s current) hone ((Bool.not_eq_false _).mp hf)
    rw [hchain] at this
    cases this

theorem map_id_erase {rows : List Run} (hids : (rows.map Run.id).Nodup) (hrun : run ∈ rows) :
    (rows.erase run).map Run.id = (rows.map Run.id).erase run.id := by
  induction rows with
  | nil => cases hrun
  | cons r rows ih =>
      by_cases hr : r = run
      · subst r
        simp
      · obtain ⟨hfirst, hrest⟩ := List.nodup_cons.mp hids
        have hm := (List.mem_cons.mp hrun).resolve_left (Ne.symm hr)
        have hid : r.id ≠ run.id := fun he => hfirst (he ▸ List.mem_map_of_mem hm)
        rw [List.erase_cons_tail (by simpa using hr), List.map_cons, List.map_cons,
          List.erase_cons_tail (by simpa using hid), ih hrest hm]

theorem replan_selected (hrun : run ∈ admitted t s current) (h : ClaimedAlone t s s' run) :
    (executionPlan t s' current).selected = (executionPlan t s current).selected.erase run.id := by
  have hids : ((admitted t s current).map Run.id).Nodup :=
    s.runs.nodup_ids.sublist (((select_sublist ..).trans List.filter_sublist).trans List.filter_sublist |>.map Run.id)
  rw [executionPlan_selected, executionPlan_selected, replan_after_claim hrun h, map_id_erase hids hrun]

/-- Reservations are registered under the repository of their root. -/
def ReservationsKeyed (t : Topology) (s : Queue) : Prop :=
  ∀ key, ∀ item ∈ s.chains.queues key, ∀ run ∈ s.runs.rows, run.id = item.rootRunId →
    rowRepositoryKey t run = some key

theorem reservationsKeyed_of_reachable (h : Reachable t s) : ReservationsKeyed t s := by
  intro key item hi run hm hid
  obtain ⟨root, hr, hroot, hns, hkey⟩ := (chainsConsistent_of_reachable h).root key item hi
  obtain rfl := s.runs.eq_of_id_eq hr hm (hroot.trans hid.symm)
  rw [rowRepositoryKey, if_neg hns, hkey]

theorem grantTurn_claimedAlone (hkeyed : ReservationsKeyed t s) (hm : run ∈ s.runs.rows) :
    ClaimedAlone t s (grantTurn s run.id) run where
  runs := rfl
  activeRunTasks := rfl
  executingRunIds := rfl
  settings := rfl
  fuseMounts := rfl
  archiveMounts := .inr rfl
  runTokens := marked_runTokens ..
  ownChain key := by
    rcases marked_snapshot s.chains run.id key with hsame | ⟨item, hitem, hroot, _, hstarted⟩
    · exact .inl hsame
    · exact .inr ⟨hkeyed key item (List.mem_of_head? hitem) run hm hroot.symm, item, hitem, hstarted⟩

theorem grantTurn_keyed (hkeyed : ReservationsKeyed t s) (runId : Nat) :
    ReservationsKeyed t (grantTurn s runId) := by
  intro key item hi r hr hid
  obtain ⟨f, hf, hspec⟩ := marked_queue s.chains runId key
  change item ∈ (markRepositoryChainStarted s.chains runId).queues key at hi
  rw [hf] at hi
  obtain ⟨old, ho, rfl⟩ := List.mem_map.mp hi
  obtain ⟨before, hb, rfl⟩ := RunTable.mem_setStatus.mp hr
  have := hkeyed key old ho before hb (by rw [← (hspec old).2.1, ← hid, writeStatus_id])
  simpa [rowRepositoryKey, physicalKey, repositoryOf] using this

theorem liveRows_of_live {id : Nat} (h : id ∈ liveRunIds s none) : liveRows s (some id) = liveRows s none := by
  have hids (r : Run) : r.id ∈ liveRunIds s (some id) ↔ r.id ∈ liveRunIds s none := by
    simp only [liveRunIds, Option.toList_none, Option.toList_some, List.append_nil, List.mem_append,
      List.mem_singleton] at h ⊢
    constructor
    · rintro (hr | rfl)
      · exact hr
      · exact h
    · exact .inl
  apply List.filter_congr
  intro r _
  rw [Bool.eq_iff_iff]
  simp [isLive, hids]

theorem claim_of_admitted (hrun : run ∈ admitted t s none) : claim t s run.id = some (grantTurn s run.id) := by
  obtain ⟨hlive, hq⟩ := mem_admitted t hrun
  obtain ⟨hm, _, hid⟩ := mem_liveRows.mp hlive
  have hsel : run.id ∈ (executionPlan t s (some run.id)).selected := by
    rw [executionPlan_selected, admitted, planPolicy, liveRows_of_live hid]
    exact List.mem_map_of_mem hrun
  rw [claim, claimExecutionTurn_of_selected run hm hq hsel]
  rfl

theorem claims_in_any_order {order : List Nat} (hkeyed : ReservationsKeyed t s)
    (horder : order.Perm (executionPlan t s none).selected) :
    ∃ s', exec (claim t) s order = some s' ∧ (executionPlan t s' none).selected = [] ∧
      ((running (liveRows s' none)).map Run.id).Perm ((running (liveRows s none)).map Run.id ++ order) := by
  induction order generalizing s with
  | nil => exact ⟨s, rfl, horder.nil_eq.symm, by simp⟩
  | cons id order ih =>
      have hmem : id ∈ (executionPlan t s none).selected := horder.mem_iff.mp (List.mem_cons_self ..)
      rw [executionPlan_selected] at hmem
      obtain ⟨run, hrun, rfl⟩ := List.mem_map.mp hmem
      obtain ⟨hlive, hq⟩ := mem_admitted t hrun
      have halone := grantTurn_claimedAlone hkeyed (mem_liveRows.mp hlive).1
      have hrest : order.Perm (executionPlan t (grantTurn s run.id) none).selected := by
        rw [replan_selected hrun halone]
        simpa using horder.erase run.id
      obtain ⟨s', hexec, hdone, hrunning⟩ := ih (grantTurn_keyed hkeyed run.id) hrest
      refine ⟨s', ?_, hdone, hrunning.trans ?_⟩
      · simp only [exec, claim_of_admitted hrun, Option.bind_some, hexec]
      · obtain ⟨xs, ys, hbefore, hafter⟩ := halone.live_split hlive
        have hone := ((running_started xs ys hq).map Run.id).append_right order
        rw [hbefore, hafter]
        simpa using hone

/-- Plan stability and work conservation, for any rows, limits, reservations
and archive mounts. The claims of a whole plan only need each reservation to
stand under the key of its root, as in every reachable state. -/
theorem plan_stability (t : Topology) (s : Queue) :
    (∀ run ∈ queued (liveRows s none), run.id ∉ (executionPlan t s none).selected →
      heldByArchiveMount (planContext t s (liveRows s none)) run = false →
      foreignChain t (planContext t s (liveRows s none)) run = none →
      BreaksLimit t s (liveRows s none) (running (liveRows s none) ++ selectedRows t s none) run) ∧
    (∀ run ∈ liveRows s none, run.id ∈ (executionPlan t s none).selected →
      ∀ s', ClaimedAlone t s s' run →
        (executionPlan t s' none).selected = (executionPlan t s none).selected.erase run.id) ∧
    (ReservationsKeyed t s → ∀ order : List Nat, order.Perm (executionPlan t s none).selected →
      ∃ s', exec (claim t) s order = some s' ∧ (executionPlan t s' none).selected = [] ∧
        ((running (liveRows s' none)).map Run.id).Perm
          ((running (liveRows s none)).map Run.id ++ (executionPlan t s none).selected)) ∧
    (Reachable t s → ReservationsKeyed t s) := by
  refine ⟨?_, ?_, ?_, reservationsKeyed_of_reachable⟩
  · intro run hrun hout hmount hchain
    exact work_conservation hrun hout hmount hchain
  · intro run hlive hsel s' h
    exact replan_selected ((mem_selected_iff hlive).mp hsel) h
  · intro hkeyed order horder
    obtain ⟨s', hexec, hdone, hrunning⟩ := claims_in_any_order hkeyed horder
    exact ⟨s', hexec, hdone, hrunning.trans (List.Perm.append_left _ horder)⟩

end BorgManager.PlanStability
