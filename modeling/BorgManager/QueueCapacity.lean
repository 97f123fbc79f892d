import BorgManager.QueueSystem

namespace BorgManager.QueueCapacity

open Records ExecutionKeys RunQueue ExecutionPlan PlanAdmission GreedyAdmission QueueSystem Histories

variable {t : Topology} {s s' : Queue} {run : Run}

theorem noteMountLimit_apply (settings : Settings) (limits : MountKey → Nat) (row : Run) (key : MountKey) :
    noteMountLimit t settings limits row key =
      if rowMountKey t row = some key ∧ 0 < mountParallelLimit settings key
      then mountParallelLimit settings key else limits key := by
  rw [noteMountLimit]
  cases hk : rowMountKey t row with
  | none => simp
  | some k =>
      by_cases hkk : key = k
      · subst key
        by_cases hp : 0 < mountParallelLimit settings k <;> simp [hp]
      · by_cases hp : 0 < mountParallelLimit settings k <;> simp [hp, hkk, Ne.symm hkk]

theorem noteScheduleLimit_of_ne {limits : ScheduleKey → Nat} {row : Run} {key : ScheduleKey}
    (h : runScheduleKey t.platform row ≠ some key) : noteScheduleLimit t limits row key = limits key := by
  rw [noteScheduleLimit]
  cases hk : runScheduleKey t.platform row with
  | none => rfl
  | some k =>
      have hkk : key ≠ k := fun he => h (by rw [hk, he])
      by_cases hp : 0 < row.scheduleParallelLimitSnapshot <;> simp [hp, hkk]

theorem noteScheduleLimit_of_pos {limits : ScheduleKey → Nat} {row : Run} {key : ScheduleKey}
    (hkey : runScheduleKey t.platform row = some key) (hpos : 0 < row.scheduleParallelLimitSnapshot) :
    noteScheduleLimit t limits row key =
      if limits key = 0 then row.scheduleParallelLimitSnapshot
      else min (limits key) row.scheduleParallelLimitSnapshot := by
  simp [noteScheduleLimit, hkey, hpos]

theorem noteScheduleLimit_of_zero {limits : ScheduleKey → Nat} {row : Run}
    (h : ¬ 0 < row.scheduleParallelLimitSnapshot) : noteScheduleLimit t limits row = limits := by
  rw [noteScheduleLimit]
  cases runScheduleKey t.platform row with
  | none => rfl
  | some k => simp only [if_neg h]

theorem mountLimitTable_eq {settings : Settings} {rows : List Run} {row : Run} {key : MountKey}
    (hrow : row ∈ rows) (hkey : rowMountKey t row = some key) :
    mountLimitTable t settings rows key = mountParallelLimit settings key := by
  suffices hgen : ∀ limits : MountKey → Nat, limits key = 0 ∨ limits key = mountParallelLimit settings key →
      limits key = mountParallelLimit settings key ∨ row ∈ rows →
      rows.foldl (noteMountLimit t settings) limits key = mountParallelLimit settings key from
    hgen _ (.inl rfl) (.inr hrow)
  clear hrow
  induction rows with
  | nil =>
      rintro limits _ (h | h)
      · exact h
      · cases h
  | cons r rows ih =>
      intro limits hvalue hreach
      have hstep := noteMountLimit_apply (t := t) settings limits r key
      rw [List.foldl_cons]
      by_cases hr : rowMountKey t r = some key
      · have heq : noteMountLimit t settings limits r key = mountParallelLimit settings key := by
          by_cases hp : 0 < mountParallelLimit settings key
          · rw [hstep, if_pos ⟨hr, hp⟩]
          · rw [hstep, if_neg (fun h => hp h.2)]
            omega
        exact ih _ (.inr heq) (.inl heq)
      · rw [if_neg (fun h => hr h.1)] at hstep
        refine ih _ (by rw [hstep]; exact hvalue) ?_
        rw [hstep]
        refine hreach.imp_right (fun hm => (List.mem_cons.mp hm).resolve_left ?_)
        rintro rfl
        exact hr hkey

theorem scheduleLimitTable_le {rows : List Run} {row : Run} {key : ScheduleKey} (hrow : row ∈ rows)
    (hkey : runScheduleKey t.platform row = some key) (hpos : 0 < row.scheduleParallelLimitSnapshot) :
    0 < scheduleLimitTable t rows key ∧
      scheduleLimitTable t rows key ≤ row.scheduleParallelLimitSnapshot := by
  suffices hgen : ∀ limits : ScheduleKey → Nat,
      (0 < limits key ∧ limits key ≤ row.scheduleParallelLimitSnapshot) ∨ row ∈ rows →
      0 < rows.foldl (noteScheduleLimit t) limits key ∧
        rows.foldl (noteScheduleLimit t) limits key ≤ row.scheduleParallelLimitSnapshot from
    hgen _ (.inr hrow)
  clear hrow
  induction rows with
  | nil =>
      rintro limits (h | h)
      · exact h
      · cases h
  | cons r rows ih =>
      intro limits hreach
      rw [List.foldl_cons]
      apply ih
      rcases hreach with hl | hm
      · left
        by_cases hr : runScheduleKey t.platform r = some key
        · by_cases hp : 0 < r.scheduleParallelLimitSnapshot
          · rw [noteScheduleLimit_of_pos hr hp]
            split <;> omega
          · rwa [noteScheduleLimit_of_zero hp]
        · rwa [noteScheduleLimit_of_ne hr]
      · rcases List.mem_cons.mp hm with rfl | hm
        · left
          rw [noteScheduleLimit_of_pos hkey hpos]
          split <;> omega
        · exact .inr hm

def liveRunning (s : Queue) : List Run := running (liveRows s none)

/-- The state that a claim of a run leaves behind. Source statistics are
exempt from the repository and mount layers. -/
structure WithinCapacity (t : Topology) (s : Queue) (run : Run) : Prop where
  repository : run.action ≠ .sourceStats → ∀ key, physicalKey t run = some key →
    ∀ o ∈ liveRunning s, o.id ≠ run.id → o.action ≠ .sourceStats → physicalKey t o ≠ some key
  mount : run.action ≠ .sourceStats → ∀ key, mountGroup t run = some key → 0 < s.settings.configuredLimit key →
    (liveRunning s).countP (fun o => decide (o.action ≠ .sourceStats ∧ mountGroup t o = some key)) ≤
      s.settings.configuredLimit key
  schedule : ∀ key, runScheduleKey t.platform run = some key →
    ∀ o ∈ liveRows s none, runScheduleKey t.platform o = some key → 0 < o.scheduleParallelLimitSnapshot →
      (liveRunning s).countP (fun r => decide (runScheduleKey t.platform r = some key)) ≤
        o.scheduleParallelLimitSnapshot
  sourceStats : run.action = .sourceStats →
    (liveRunning s).countP (fun o => decide (o.action = .sourceStats)) ≤ s.settings.sourceStatsParallelLimit
  global : 0 < s.settings.maxParallelRuns → (liveRunning s).length ≤ s.settings.maxParallelRuns
  archiveMount : run.action ≠ .sourceStats → ∀ id, run.repositoryId = some id →
    ∀ m ∈ s.archiveMounts, m.repositoryId = id →
      m.status ≠ .mounting ∧ archiveMountIsActive s m.mountPath = false

theorem liveRows_claimed (htr : Tracked s) (hm : run ∈ s.runs.rows) (hq : run.status = .queued)
    (hc : claimExecutionTurn t s run.id = .ok s') :
    ∃ xs ys, liveRows s (some run.id) = xs ++ run :: ys ∧
      liveRows s' none = xs ++ setStatus run .running :: ys := by
  obtain ⟨_, _, rfl⟩ := claimExecutionTurn_ok hc
  have hlive : run ∈ liveRows s (some run.id) :=
    mem_liveRows.mpr ⟨hm, by rw [hq]; rfl, by simp [liveRunIds]⟩
  refine liveRows_started hlive rfl ?_
  intro r hr ha
  have hid := htr r hr ha
  exact ⟨fun _ => mem_liveRunIds_of_none hid _, fun _ => hid⟩

/-- With every active run tracked, a claim adds exactly its own row to the
running rows. -/
theorem liveRunning_claimed (htr : Tracked s) (hm : run ∈ s.runs.rows) (hq : run.status = .queued)
    (hc : claimExecutionTurn t s run.id = .ok s') :
    (liveRunning s').Perm (running (liveRows s (some run.id)) ++ [setStatus run .running]) := by
  obtain ⟨xs, ys, hbefore, hafter⟩ := liveRows_claimed htr hm hq hc
  rw [liveRunning, hbefore, hafter]
  exact running_started xs ys hq

theorem claimed_mem_admitted (hm : run ∈ s.runs.rows) (hc : claimExecutionTurn t s run.id = .ok s') :
    run ∈ admitted t s (some run.id) := by
  obtain ⟨r, hr, hid⟩ := claimed_admitted t hc
  obtain ⟨hlive, _⟩ := mem_admitted t hr
  rwa [s.runs.eq_of_id_eq (mem_liveRows.mp hlive).1 hm hid] at hr

/-- After a claim each limited layer of the claimed row is within its
capacity. -/
theorem claimed_layer (htr : Tracked s) (hm : run ∈ s.runs.rows)
    (hc : claimExecutionTurn t s run.id = .ok s') {i : Layer} (hi : i ∈ layers t run) {c : Nat}
    (hcap : (planPolicy t s (some run.id)).capacity i = some c) :
    (liveRunning s').countP (fun o => decide (i ∈ layers t o)) ≤ c := by
  have hadm := claimed_mem_admitted hm hc
  have hq := (mem_admitted t hadm).2
  have hle := occupancy_le_of_mem_select hadm hi hcap
  rw [occupancy, List.countP_append, List.countP_singleton] at hle
  rw [(liveRunning_claimed htr hm hq hc).countP_eq, List.countP_append, List.countP_singleton, layers_setStatus]
  exact hle

theorem claimed_repository (htr : Tracked s) (hm : run ∈ s.runs.rows)
    (hc : claimExecutionTurn t s run.id = .ok s') (hne : run.action ≠ .sourceStats) {key : ExecutionKey}
    (hkey : physicalKey t run = some key) {o : Run} (ho : o ∈ liveRunning s') (hid : o.id ≠ run.id)
    (hoa : o.action ≠ .sourceStats) : physicalKey t o ≠ some key := by
  intro hok
  have hadm := claimed_mem_admitted hm hc
  have hq := (mem_admitted t hadm).2
  have hmem := (liveRunning_claimed htr hm hq hc).mem_iff.mp ho
  rw [List.mem_append, List.mem_singleton] at hmem
  have hold := hmem.resolve_right (fun he => hid (by rw [he]; rfl))
  have hlayer : Layer.repository key ∈ layers t run := by
    rw [repository_mem_layers, rowRepositoryKey, if_neg hne, hkey]
  have hopen := open_of_mem_select hadm hlayer
  have hfull : exhausted (planPolicy t s (some run.id)) (running (liveRows s (some run.id)))
      (.repository key) = true := by
    refine exhausted_iff.mpr ⟨1, rfl, ?_⟩
    refine List.countP_pos_iff.mpr ⟨o, hold, ?_⟩
    have : Layer.repository key ∈ layers t o := by
      rw [repository_mem_layers, rowRepositoryKey, if_neg hoa, hok]
    simpa [planPolicy, policy] using this
  rw [hfull] at hopen
  cases hopen

theorem claimed_settings (hc : claimExecutionTurn t s run.id = .ok s') : s'.settings = s.settings := by
  obtain ⟨_, _, rfl⟩ := claimExecutionTurn_ok hc
  rfl

theorem claimed_mount (htr : Tracked s) (hm : run ∈ s.runs.rows)
    (hc : claimExecutionTurn t s run.id = .ok s') (hne : run.action ≠ .sourceStats) {key : MountKey}
    (hkey : mountGroup t run = some key) (hpos : 0 < s.settings.configuredLimit key) :
    (liveRunning s').countP (fun o => decide (o.action ≠ .sourceStats ∧ mountGroup t o = some key)) ≤
      s.settings.configuredLimit key := by
  have hrow : rowMountKey t run = some key := by rw [rowMountKey, if_neg hne, hkey]
  have hlive := (mem_admitted t (claimed_mem_admitted hm hc)).1
  have hcap : (planPolicy t s (some run.id)).capacity (.mount key) = some (s.settings.configuredLimit key) := by
    change positive (mountLimitTable t s.settings (liveRows s (some run.id)) key) = _
    rw [mountLimitTable_eq hlive hrow, mountParallelLimit_eq, positive, if_pos hpos]
  refine le_trans (List.countP_mono_left ?_) (claimed_layer htr hm hc ((mount_mem_layers t).mpr hrow) hcap)
  intro o _ ho
  obtain ⟨ha, hg⟩ := of_decide_eq_true ho
  exact decide_eq_true ((mount_mem_layers t).mpr (by rw [rowMountKey, if_neg ha, hg]))

theorem claimed_schedule (htr : Tracked s) (hm : run ∈ s.runs.rows)
    (hc : claimExecutionTurn t s run.id = .ok s') {key : ScheduleKey}
    (hkey : runScheduleKey t.platform run = some key) {o : Run} (ho : o ∈ liveRows s' none)
    (hok : runScheduleKey t.platform o = some key) (hpos : 0 < o.scheduleParallelLimitSnapshot) :
    (liveRunning s').countP (fun r => decide (runScheduleKey t.platform r = some key)) ≤
      o.scheduleParallelLimitSnapshot := by
  have hq := (mem_admitted t (claimed_mem_admitted hm hc)).2
  obtain ⟨xs, ys, hbefore, hafter⟩ := liveRows_claimed htr hm hq hc
  -- The snapshot of the started row is the one it carried while it waited.
  have hsnap : ∃ r ∈ liveRows s (some run.id), runScheduleKey t.platform r = some key ∧
      r.scheduleParallelLimitSnapshot = o.scheduleParallelLimitSnapshot := by
    rw [hafter, List.mem_append, List.mem_cons] at ho
    rw [hbefore]
    rcases ho with ho | rfl | ho
    · exact ⟨o, by simp [ho], hok, rfl⟩
    · exact ⟨run, by simp, hkey, rfl⟩
    · exact ⟨o, by simp [ho], hok, rfl⟩
  obtain ⟨r, hr, hrk, hrs⟩ := hsnap
  obtain ⟨hlpos, hle⟩ := scheduleLimitTable_le hr hrk (by omega)
  have hcap : (planPolicy t s (some run.id)).capacity (.schedule key) =
      some (scheduleLimitTable t (liveRows s (some run.id)) key) := if_pos hlpos
  have hlayer := claimed_layer htr hm hc ((schedule_mem_layers t).mpr hkey) hcap
  simp only [schedule_mem_layers] at hlayer
  omega

theorem claimed_sourceStats (htr : Tracked s) (hm : run ∈ s.runs.rows)
    (hc : claimExecutionTurn t s run.id = .ok s') (ha : run.action = .sourceStats) :
    (liveRunning s').countP (fun o => decide (o.action = .sourceStats)) ≤
      s.settings.sourceStatsParallelLimit := by
  have hcap : (planPolicy t s (some run.id)).capacity .sourceStats = some s.settings.sourceStatsParallelLimit := by
    change positive (ExecutionKeys.sourceStatsLimit s.settings) = _
    rw [sourceStatsLimit_eq, positive, if_pos s.settings.sourceStats_pos]
  have hlayer := claimed_layer htr hm hc ((sourceStats_mem_layers t).mpr ha) hcap
  simpa only [sourceStats_mem_layers] using hlayer

theorem claimed_global (htr : Tracked s) (hm : run ∈ s.runs.rows)
    (hc : claimExecutionTurn t s run.id = .ok s') (hpos : 0 < s.settings.maxParallelRuns) :
    (liveRunning s').length ≤ s.settings.maxParallelRuns := by
  have hcap : (planPolicy t s (some run.id)).capacity .global = some s.settings.maxParallelRuns := if_pos hpos
  have hlayer := claimed_layer htr hm hc (global_mem_layers t) hcap
  simpa only [global_mem_layers, decide_true, List.countP_true] using hlayer

theorem unheld_of_claim (hm : run ∈ s.runs.rows) (hc : claimExecutionTurn t s run.id = .ok s')
    (hne : run.action ≠ .sourceStats) {id : Nat} (hrepo : run.repositoryId = some id)
    {m : ManagerArchiveMount} (hmount : m ∈ s.archiveMounts) (hid : m.repositoryId = id) :
    holdsRepository s m = false := by
  have hheld := held_eq_false_of_mem_select (claimed_mem_admitted hm hc)
  by_contra hactive
  have hrepos : id ∈ activeArchiveMountRepositories s :=
    mem_activeArchiveMountRepositories.mpr ⟨m, hmount, by simpa using hactive, hid⟩
  have hmem : heldByArchiveMount (planContext t s (liveRows s (some run.id))) run = true := by
    simp [heldByArchiveMount, hrepo, planContext, hrepos, hne]
  simp [planPolicy, policy, held, hmem] at hheld

theorem claimed_archiveMount (hm : run ∈ s.runs.rows) (hc : claimExecutionTurn t s run.id = .ok s')
    (hne : run.action ≠ .sourceStats) {id : Nat} (hrepo : run.repositoryId = some id)
    {m : ManagerArchiveMount} (hmount : m ∈ s'.archiveMounts) (hid : m.repositoryId = id) :
    m.status ≠ .mounting ∧ archiveMountIsActive s' m.mountPath = false := by
  have hfree (old : ManagerArchiveMount) (hold : old ∈ s.archiveMounts) (ho : old.repositoryId = id) :=
    unheld_of_claim hm hc hne hrepo hold ho
  obtain ⟨_, _, rfl⟩ := claimExecutionTurn_ok hc
  obtain ⟨old, hold, rfl⟩ := List.mem_map.mp hmount
  by_cases hactive : holdsRepository s old = true
  · rw [if_pos hactive] at hid
    rw [hfree old hold hid] at hactive
    cases hactive
  · rw [if_neg hactive]
    have hstale := holdsRepository_stale (by simpa using hactive)
    simp only [holdsRepository, Bool.or_eq_false_iff, beq_eq_false_iff_ne] at hstale
    exact hstale

/-- Queue capacity safety over every history of the queue: each claim leaves
all layers of the claimed run within their capacities. -/
theorem claim_within_capacity (h : Reachable t s) (hm : run ∈ s.runs.rows)
    (hc : claimExecutionTurn t s run.id = .ok s') : WithinCapacity t s' run where
  repository hne _ hkey _ ho hid hoa := claimed_repository h.tracked hm hc hne hkey ho hid hoa
  mount hne _ hkey hpos := by
    rw [claimed_settings hc] at hpos ⊢
    exact claimed_mount h.tracked hm hc hne hkey hpos
  schedule _ hkey _ ho hok hpos := claimed_schedule h.tracked hm hc hkey ho hok hpos
  sourceStats ha := by
    rw [claimed_settings hc]
    exact claimed_sourceStats h.tracked hm hc ha
  global hpos := by
    rw [claimed_settings hc] at hpos ⊢
    exact claimed_global h.tracked hm hc hpos
  archiveMount hne _ hrepo _ hmount hid := claimed_archiveMount hm hc hne hrepo hmount hid

/-- The third record is the first repository again, under another spelling
of its path. -/
def aliasTopology : Topology :=
  { sampleTopology with
    repositories := sampleTopology.repositories ++
      [⟨3, "again", true, "/repositories//first", some "/repositories//first", true, none⟩] }

def busySettings : Settings :=
  { sampleSettings with
    maxParallelRuns := 3
    mountParallelLimits := fun path => if path = "/repositories" then 2 else 0
    mount_le := fun path => by split <;> decide }

def scheduledRun (id repositoryId : Nat) (limit : Nat) : Run :=
  ⟨id, some repositoryId, .backup, .queued, .schedule, some 7, some "nightly", limit⟩

/-- A backup under the other name of a repository that is in use, another
backup of the same schedule, and a source scan. -/
def busyQueue : List QueueEvent :=
  [.enqueue (scheduledRun 1 1 2), .claim 1, .enqueue (scheduledRun 2 3 2), .enqueue (scheduledRun 3 2 3), .claim 3,
    .enqueue (sampleRun 4 2 .sourceStats), .claim 4]

def aliasBlocked : Queue := (exec (next aliasTopology) (emptyQueue busySettings) busyQueue).get (by decide)

def aliasWaits : Queue :=
  (exec (next aliasTopology) (emptyQueue busySettings) (busyQueue ++ [.finish 1 .success])).get (by decide)

theorem claim_within_capacity_busy :
    (claim aliasTopology aliasBlocked 2 = none ∧
      physicalKey aliasTopology (scheduledRun 2 3 2) = physicalKey aliasTopology (scheduledRun 1 1 2)) ∧
    WithinCapacity aliasTopology (grantTurn aliasWaits 2) (scheduledRun 2 3 2) ∧
    (liveRunning (grantTurn aliasWaits 2)).map Run.id = [2, 3, 4] :=
  ⟨⟨by decide, by decide⟩,
    claim_within_capacity (.of_exec (emptyQueue_started busySettings) (Option.some_get _).symm) (by decide)
      (claimExecutionTurn_of_selected (scheduledRun 2 3 2) (by decide) rfl (by decide)),
    by decide⟩

def oneOnDisk : Settings :=
  { sampleSettings with
    mountParallelLimits := fun path => if path = "/repositories" then 1 else 0
    mount_le := fun path => by split <;> decide }

def twoBackupsThenStats : List QueueEvent :=
  [.enqueue (sampleRun 1 1 .backup), .claim 1, .enqueue (sampleRun 2 2 .backup), .claim 2,
    .configure oneOnDisk, .enqueue (sampleRun 3 1 .sourceStats)]

def statsWait : Queue :=
  (exec (next sampleTopology) (emptyQueue sampleSettings) twoBackupsThenStats).get (by decide)

/-- Source statistics start beside a backup of the same repository, and on a
disk that a lowered limit has left overfull. -/
theorem sourceStats_exceed_layers :
    Reachable sampleTopology statsWait ∧
    claimExecutionTurn sampleTopology statsWait 3 = .ok (grantTurn statsWait 3) ∧
    (∃ o ∈ liveRunning (grantTurn statsWait 3), o.id ≠ 3 ∧ o.action ≠ .sourceStats ∧
      physicalKey sampleTopology o = physicalKey sampleTopology (sampleRun 3 1 .sourceStats)) ∧
    mountGroup sampleTopology (sampleRun 3 1 .sourceStats) = some (.filesystem "/repositories") ∧
    statsWait.settings.configuredLimit (.filesystem "/repositories") = 1 ∧
    (liveRunning (grantTurn statsWait 3)).countP (fun o =>
      decide (o.action ≠ .sourceStats ∧ mountGroup sampleTopology o = some (.filesystem "/repositories"))) = 2 := by
  refine ⟨.of_exec (emptyQueue_started sampleSettings) (Option.some_get _).symm, ?_, ?_, by decide, by decide,
    by decide⟩
  · exact claimExecutionTurn_of_selected (sampleRun 3 1 .sourceStats) (by decide) rfl (by decide)
  · decide

end BorgManager.QueueCapacity
