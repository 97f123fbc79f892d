import BorgManager.ScheduleRequests

namespace BorgManager.ScheduleExclusivity

open Records KeyedTables ScheduleConflicts Histories ScheduleRequests

variable {db db' : Database}

theorem valid_of_jobs (hvalid : Valid db) (hhosts : db'.hosts = db.hosts)
    (hrepositories : db'.repositories = db.repositories)
    (hjobs : ∀ job ∈ db'.jobs.rows, job ∈ db.jobs.rows ∨ (0 < job.id ∧ referencesExist db job)) : Valid db' where
  repositoryIds := by
    rw [hrepositories]
    exact hvalid.repositoryIds
  jobIds := by
    intro job hjob
    rcases hjobs job hjob with h | h
    · exact hvalid.jobIds job h
    · exact h.1
  references := by
    intro job hjob
    rw [referencesExist, hhosts, hrepositories]
    rcases hjobs job hjob with h | h
    · exact hvalid.references job h
    · exact h.2

/-- The target columns of an enabled schedule of one database allow at most
the jobs of an enabled schedule of another database with the same key. -/
def Narrows (db db' : Database) : Prop :=
  ∀ s ∈ enabledSchedules db', ∃ t ∈ enabledSchedules db, t.id = s.id ∧
    ∀ job, matchesJob job s = true → matchesJob job t = true

theorem narrows_of_eq (h : db'.schedules = db.schedules) : Narrows db db' := by
  intro s hs
  rw [enabledSchedules, h] at hs
  exact ⟨s, hs, rfl, fun _ hm => hm⟩

theorem eq_of_schedule_id {s t : BackupSchedule} (hs : s ∈ enabledSchedules db) (ht : t ∈ enabledSchedules db)
    (h : s.id = t.id) : s = t :=
  db.schedules.eq_of_key (List.mem_of_mem_filter hs) (List.mem_of_mem_filter ht) h

/-- The assignments stay unique if the schedules narrow and every job is an
earlier one or a validated one. -/
theorem exclusive_of_narrows (hvalid : Valid db) (hvalid' : Valid db') (h : Exclusive db) (hnarrows : Narrows db db')
    (hjobs : ∀ job' ∈ db'.jobs.rows, (∃ job ∈ db.jobs.rows, ∀ s, matchesJob job' s = matchesJob job s) ∨
      (∀ s ∈ enabledSchedules db', ∀ t ∈ enabledSchedules db',
        matchesJob job' s = true → matchesJob job' t = true → s = t)) : Exclusive db' := by
  rw [exclusive_iff hvalid']
  intro job' hjob' s hs t ht hms hmt
  rcases hjobs job' hjob' with ⟨job, hjob, hsame⟩ | hsingle
  · obtain ⟨s₀, hs₀, hsid, hsn⟩ := hnarrows s hs
    obtain ⟨t₀, ht₀, htid, htn⟩ := hnarrows t ht
    have heq : s₀ = t₀ := (exclusive_iff hvalid).mp h job hjob s₀ hs₀ t₀ ht₀
      (hsn job (by rw [← hsame]; exact hms)) (htn job (by rw [← hsame]; exact hmt))
    exact eq_of_schedule_id hs ht (by rw [← hsid, ← htid, heq])
  · exact hsingle s hs t ht hms hmt

/-- The assignments stay unique if one schedule is written that has the
targets of a validated candidate. -/
theorem exclusive_of_candidate (hvalid : Valid db) (hvalid' : Valid db') (h : Exclusive db) (hjobs : db'.jobs = db.jobs)
    {candidate : BackupSchedule} (hok : validateScheduleConflicts db' candidate candidate.id = .ok ())
    (hother : ∀ s ∈ enabledSchedules db', s.id ≠ candidate.id → s ∈ enabledSchedules db)
    (hself : ∀ s ∈ enabledSchedules db', s.id = candidate.id →
      candidate.enabled = true ∧ ∀ job, matchesJob job s = matchesJob job candidate) : Exclusive db' := by
  rw [exclusive_iff hvalid']
  intro job hjob s hs t ht hms hmt
  have hdisjoint (s t : BackupSchedule) (hs : s ∈ enabledSchedules db') (ht : t ∈ enabledSchedules db')
      (hms : matchesJob job s = true) (hmt : matchesJob job t = true) (hsid : s.id = candidate.id)
      (htid : t.id ≠ candidate.id) : False := by
    obtain ⟨henabled, hsame⟩ := hself s hs hsid
    have hin := (mem_targets_of_mem hvalid' candidate hjob).mpr (by rw [← hsame]; exact hms)
    exact validateScheduleConflicts_ok hok henabled t ht htid job.id hin ((mem_targets_of_mem hvalid' t hjob).mpr hmt)
  by_cases hsid : s.id = candidate.id
  · by_cases htid : t.id = candidate.id
    · exact eq_of_schedule_id hs ht (by rw [hsid, htid])
    · exact (hdisjoint s t hs ht hms hmt hsid htid).elim
  · by_cases htid : t.id = candidate.id
    · exact (hdisjoint t s ht hs hmt hms htid hsid).elim
    · exact (exclusive_iff hvalid).mp h job (by rw [← hjobs]; exact hjob) s (hother s hs hsid) t (hother t ht htid)
        hms hmt

theorem conflict_ok {result : Except String Unit} (h : conflict db result = .ok db') : result = .ok () ∧ db' = db := by
  rcases result with detail | ⟨⟩
  · nomatch h
  · cases h
    exact ⟨rfl, rfl⟩

theorem validateSchedule_ok {row : BackupSchedule} (h : validateSchedule db row = .ok ()) :
    validateScheduleConflicts db row row.id = .ok () := by
  rw [validateSchedule] at h
  rcases hexist : validateScheduleTargetsExist db row with detail | ⟨⟩
  · rw [hexist] at h
    nomatch h
  · rw [hexist] at h
    exact h

/-- The columns of a job that the schedules read. -/
theorem matchesJob_congr {job job' : Job} (hid : job'.id = job.id) (hhost : job'.hostId = job.hostId)
    (hrepository : job'.repositoryId = job.repositoryId) (s : BackupSchedule) :
    matchesJob job' s = matchesJob job s := by
  rw [matchesJob, matchesJob, hid, hhost, hrepository]

theorem createBackupSchedule_preserves {data : BackupScheduleIn} (hvalid : Valid db)
    (hok : createBackupSchedule db data = .ok db') : Valid db' ∧ (Exclusive db → Exclusive db') := by
  rw [createBackupSchedule] at hok
  dsimp only at hok
  split at hok
  · nomatch hok
  · next schedules hinsert =>
      split at hok
      · obtain ⟨hvalidated, rfl⟩ := conflict_ok hok
        have hvalid' : Valid { db with schedules := schedules } :=
          valid_of_jobs hvalid rfl rfl (fun job hjob => .inl hjob)
        have hmem := Table.mem_insert hinsert
        refine ⟨hvalid', fun h => exclusive_of_candidate hvalid hvalid' h rfl (validateSchedule_ok hvalidated) ?_ ?_⟩
        · intro s hs hne
          obtain ⟨hs, henabled⟩ := List.mem_filter.mp hs
          rcases (hmem s).mp hs with hold | hnew
          · exact List.mem_filter.mpr ⟨hold, henabled⟩
          · exact absurd (congrArg BackupSchedule.id hnew) hne
        · intro s hs heq
          obtain ⟨hs, henabled⟩ := List.mem_filter.mp hs
          rcases (hmem s).mp hs with hold | hnew
          · exact absurd heq (Table.insert_fresh hinsert s hold)
          · subst hnew
            exact ⟨henabled, fun _ => rfl⟩
      · nomatch hok

/-- An `UPDATE` that moves no target column leaves the targets as they are. -/
theorem flushedSchedule_unmoved {row new current : BackupSchedule} (h : TargetsUnmoved row new current) :
    (flushedSchedule row new current).enabled = current.enabled ∧
      ∀ job, matchesJob job (flushedSchedule row new current) = matchesJob job current := by
  obtain ⟨henabled, hmode, hhosts, hrepository, hjobs⟩ := h
  refine ⟨column_eq_current_iff.mpr henabled, fun job => ?_⟩
  simp only [matchesJob, flushedSchedule, column_eq_current_iff.mpr hmode, column_eq_current_iff.mpr hhosts,
    column_eq_current_iff.mpr hrepository, column_eq_current_iff.mpr hjobs]

/-- An `UPDATE` whose unwritten columns are as loaded writes the targets of
the request. -/
theorem flushedSchedule_kept {row new current : BackupSchedule}
    (hmode : Kept row.targetMode new.targetMode current.targetMode) (hown : OwnTargetsKept row new current)
    (job : Job) :
    matchesJob job (flushedSchedule row new current) = matchesJob job new := by
  rw [OwnTargetsKept] at hown
  simp only [matchesJob, flushedSchedule, column_eq_new_iff.mpr hmode]
  rcases hcase : new.targetMode
  · rw [hcase] at hown
    simp only [column_eq_new_iff.mpr hown]
  · rw [hcase] at hown
    simp only [column_eq_new_iff.mpr hown]
  · rw [hcase] at hown
    simp only [column_eq_new_iff.mpr hown]

theorem mem_enabled_replace {flushed s : BackupSchedule}
    (hs : s ∈ enabledSchedules { db with schedules := db.schedules.replace flushed }) :
    (s = flushed ∧ flushed.enabled = true) ∨ (s ∈ enabledSchedules db ∧ s.id ≠ flushed.id) := by
  obtain ⟨hmem, henabled⟩ := List.mem_filter.mp hs
  rcases Table.mem_replace hmem with rfl | ⟨hold, hne⟩
  · exact .inl ⟨rfl, henabled⟩
  · exact .inr ⟨List.mem_filter.mpr ⟨hold, henabled⟩, hne⟩

theorem updateBackupSchedule_preserves {row : BackupSchedule} {data : BackupScheduleIn} (hvalid : Valid db)
    (hok : updateBackupSchedule db row data = .ok db') :
    Valid db' ∧ (RequestKept db (.updateSchedule row data) → Exclusive db → Exclusive db') := by
  rw [updateBackupSchedule] at hok
  dsimp only at hok
  split at hok
  · obtain ⟨_, rfl⟩ := conflict_ok hok
    exact ⟨hvalid, fun _ h => h⟩
  · split at hok
    · nomatch hok
    · next current hfind =>
        obtain ⟨hcurrent, hid⟩ := Table.mem_of_find? hfind
        split at hok
        · obtain ⟨hvalidated, rfl⟩ := conflict_ok hok
          have hvalid' : Valid { db with
              schedules := db.schedules.replace (flushedSchedule row (scheduleRow row.id data) current) } :=
            valid_of_jobs hvalid rfl rfl (fun job hjob => .inl hjob)
          refine ⟨hvalid', fun hkept h => ?_⟩
          rcases hkept current hcurrent hid with hunmoved | ⟨henabled, htargets⟩
          · obtain ⟨hen, hmatch⟩ := flushedSchedule_unmoved hunmoved
            refine exclusive_of_narrows hvalid hvalid' h ?_ (fun job hjob => .inl ⟨job, hjob, fun _ => rfl⟩)
            intro s hs
            rcases mem_enabled_replace hs with ⟨rfl, hflushed⟩ | ⟨hold, _⟩
            · exact ⟨current, List.mem_filter.mpr ⟨hcurrent, by rw [← hen]; exact hflushed⟩, rfl,
                fun job hm => by rw [← hmatch]; exact hm⟩
            · exact ⟨s, hold, rfl, fun _ hm => hm⟩
          · refine exclusive_of_candidate hvalid hvalid' h rfl (validateSchedule_ok hvalidated) ?_ ?_
            · intro s hs hne
              rcases mem_enabled_replace hs with ⟨rfl, _⟩ | ⟨hold, _⟩
              · exact absurd hid hne
              · exact hold
            · intro s hs heq
              rcases mem_enabled_replace hs with ⟨rfl, hflushed⟩ | ⟨_, hne⟩
              · have hnew : (scheduleRow row.id data).enabled = true := by
                  rw [← column_eq_new_iff.mpr henabled]
                  exact hflushed
                obtain ⟨hmode, hown⟩ := htargets hnew
                exact ⟨hnew, flushedSchedule_kept hmode hown⟩
              · exact absurd (heq.trans hid.symm) hne
        · nomatch hok

theorem deleteBackupSchedule_preserves (row : BackupSchedule) (hvalid : Valid db) :
    Valid (deleteBackupSchedule db row) ∧ (Exclusive db → Exclusive (deleteBackupSchedule db row)) := by
  have hvalid' : Valid (deleteBackupSchedule db row) := valid_of_jobs hvalid rfl rfl (fun job hjob => .inl hjob)
  refine ⟨hvalid', fun h => exclusive_of_narrows hvalid hvalid' h ?_ (fun job hjob => .inl ⟨job, hjob, fun _ => rfl⟩)⟩
  intro s hs
  obtain ⟨hmem, henabled⟩ := List.mem_filter.mp hs
  exact ⟨s, List.mem_filter.mpr ⟨(Table.mem_delete.mp hmem).1, henabled⟩, rfl, fun _ hm => hm⟩

theorem jobIntegrity_references {job : Job} (h : jobIntegrity db job = true) : referencesExist db job :=
  of_decide_eq_true (Bool.and_eq_true_iff.mp h).2

theorem createJob_preserves {highest : Nat} {data : JobIn} (hvalid : Valid db)
    (hok : createJob db highest data = .ok db') : Valid db' ∧ (Exclusive db → Exclusive db') := by
  rw [createJob] at hok
  dsimp only at hok
  split at hok
  · nomatch hok
  · next jobs hinsert =>
      split at hok
      · nomatch hok
      · next hintegrity =>
          obtain ⟨hvalidated, rfl⟩ := conflict_ok hok
          have hreferences : referencesExist db (applyJob ⟨highest + 1, "", 0, 0, true⟩ data) :=
            jobIntegrity_references (by
            rw [Bool.or_eq_true, not_or] at hintegrity
            simpa using hintegrity.2)
          have hmem := Table.mem_insert hinsert
          have hvalid' : Valid { db with
              jobs := jobs
              jobIdReservations := db.jobIdReservations ++ [(applyJob ⟨highest + 1, "", 0, 0, true⟩ data).id] } :=
            valid_of_jobs hvalid rfl rfl (by
              intro job hjob
              rcases (hmem job).mp hjob with hold | rfl
              · exact .inl hold
              · exact .inr ⟨Nat.succ_pos _, hreferences⟩)
          refine ⟨hvalid', fun h => exclusive_of_narrows hvalid hvalid' h (narrows_of_eq rfl) ?_⟩
          intro job hjob
          rcases (hmem job).mp hjob with hold | rfl
          · exact .inl ⟨job, hold, fun _ => rfl⟩
          · exact .inr (validateJobScheduleConflicts_ok hvalidated)

theorem updateJob_preserves {row : Job} {data : JobIn} (hvalid : Valid db) (hok : updateJob db row data = .ok db') :
    Valid db' ∧ (RequestKept db (.updateJob row data) → Exclusive db → Exclusive db') := by
  rw [updateJob] at hok
  dsimp only at hok
  split at hok
  · obtain ⟨_, rfl⟩ := conflict_ok hok
    exact ⟨hvalid, fun _ h => h⟩
  · split at hok
    · nomatch hok
    · next current hfind =>
        obtain ⟨hcurrent, hid⟩ := Table.mem_of_find? hfind
        split at hok
        · next hintegrity =>
            obtain ⟨hvalidated, rfl⟩ := conflict_ok hok
            have hvalid' : Valid { db with jobs := db.jobs.replace (flushedJob row (applyJob row data) current) } :=
              valid_of_jobs hvalid rfl rfl (by
                intro job hjob
                rcases Table.mem_replace hjob with rfl | ⟨hold, _⟩
                · exact .inr ⟨hvalid.jobIds current hcurrent, jobIntegrity_references hintegrity⟩
                · exact .inl hold)
            refine ⟨hvalid', fun hkept h => exclusive_of_narrows hvalid hvalid' h (narrows_of_eq rfl) ?_⟩
            intro job hjob
            rcases Table.mem_replace hjob with rfl | ⟨hold, _⟩
            · rcases hkept current hcurrent hid with ⟨hhost, hrepository⟩ | ⟨hhost, hrepository⟩
              · exact .inl ⟨current, hcurrent, matchesJob_congr rfl
                (column_eq_current_iff.mpr hhost) (column_eq_current_iff.mpr hrepository)⟩
              · right
                intro s hs t ht hms hmt
                have hflushed : (flushedJob row (applyJob row data) current).id = (applyJob row data).id := hid
                have hsame := matchesJob_congr hflushed (column_eq_new_iff.mpr hhost)
                  (column_eq_new_iff.mpr hrepository)
                exact validateJobScheduleConflicts_ok hvalidated s hs t ht (by rw [← hsame]; exact hms)
                  (by rw [← hsame]; exact hmt)
            · exact .inl ⟨job, hold, fun _ => rfl⟩
        · nomatch hok

theorem setJobEnabled_preserves {row : Job} {enabled : Bool} (hvalid : Valid db)
    (hok : setJobEnabled db row enabled = .ok db') : Valid db' ∧ (Exclusive db → Exclusive db') := by
  rw [setJobEnabled] at hok
  split at hok
  · cases hok
    exact ⟨hvalid, id⟩
  · split at hok
    · nomatch hok
    · next current hfind =>
        obtain ⟨hcurrent, _⟩ := Table.mem_of_find? hfind
        cases hok
        have hvalid' : Valid { db with jobs := db.jobs.replace { current with enabled := enabled } } :=
          valid_of_jobs hvalid rfl rfl (by
            intro job hjob
            rcases Table.mem_replace hjob with rfl | ⟨hold, _⟩
            · exact .inr ⟨hvalid.jobIds current hcurrent, hvalid.references current hcurrent⟩
            · exact .inl hold)
        refine ⟨hvalid', fun h => exclusive_of_narrows hvalid hvalid' h (narrows_of_eq rfl) ?_⟩
        intro job hjob
        rcases Table.mem_replace hjob with rfl | ⟨hold, _⟩
        · exact .inl ⟨current, hcurrent, matchesJob_congr rfl rfl rfl⟩
        · exact .inl ⟨job, hold, fun _ => rfl⟩

theorem matchesJob_of_subset {s t : BackupSchedule} {job : Job} (h : matchesJob job s = true)
    (hmode : s.targetMode = t.targetMode) (hhosts : s.targetHostIds = t.targetHostIds)
    (hrepository : s.targetRepositoryId = t.targetRepositoryId) (hjobs : s.targetJobIds ⊆ t.targetJobIds) :
    matchesJob job t = true := by
  rw [matchesJob, hmode] at h
  rw [matchesJob]
  rcases hcase : t.targetMode
  · rw [hcase] at h
    simpa only [hhosts] using h
  · rw [hcase] at h
    simpa only [hrepository] using h
  · simp only [hcase, Bool.and_eq_true, List.contains_iff_mem] at h ⊢
    exact ⟨h.1, hjobs h.2⟩

/-- The flush of a deleted job shortens the lists of jobs. -/
theorem dropReference_narrows {jobId : Nat} {loaded : List BackupSchedule} {r r' : BackupSchedule}
    (hkept : ∀ schedule ∈ loaded, schedule.id = r.id → ReferenceKept jobId schedule r)
    (h : dropReference jobId loaded r = some r') :
    r'.enabled = r.enabled ∧ ∀ job, matchesJob job r' = true → matchesJob job r = true := by
  rw [dropReference] at h
  split at h
  · cases h
    exact ⟨rfl, fun _ hm => hm⟩
  · next schedule hfind =>
      split at h
      · cases h
      · next ids hnonempty =>
          cases h
          have hsubset : column schedule.targetJobIds (remainingJobIds jobId schedule) r.targetJobIds ⊆
              r.targetJobIds := by
            by_cases hsame : remainingJobIds jobId schedule = schedule.targetJobIds
            · rw [column, if_pos hsame]
              exact List.Subset.refl _
            · have hid : schedule.id = r.id := by simpa using List.find?_some hfind
              have hcurrent := hkept schedule (List.mem_of_find?_eq_some hfind) hid hnonempty hsame
              rw [column, if_neg hsame, hcurrent]
              exact List.filter_subset_self ..
          exact ⟨rfl, fun job hm => matchesJob_of_subset hm rfl rfl rfl hsubset⟩

theorem deleteJob_preserves {row : Job} {runs : List JobRun} {schedules : List BackupSchedule} (hvalid : Valid db)
    (hok : deleteJob db row runs schedules = .ok db') :
    Valid db' ∧ (RequestKept db (.deleteJobReferences row schedules) → Exclusive db → Exclusive db') := by
  rw [deleteJob] at hok
  split at hok
  · nomatch hok
  · dsimp only at hok
    split at hok
    · nomatch hok
    · cases hok
      have hjobs (job : Job) (hjob : job ∈ (db.jobs.delete row.id).rows) : job ∈ db.jobs.rows :=
        (Table.mem_delete.mp hjob).1
      have hvalid' : Valid { db with
          runs := releaseRuns row runs db.runs
          schedules := db.schedules.rewrite (dropReference row.id schedules) dropReference_id
          jobs := db.jobs.delete row.id } := valid_of_jobs hvalid rfl rfl (fun job hjob => .inl (hjobs job hjob))
      refine ⟨hvalid', fun hkept h => exclusive_of_narrows hvalid hvalid' h ?_
        (fun job hjob => .inl ⟨job, hjobs job hjob, fun _ => rfl⟩)⟩
      intro s hs
      obtain ⟨hmem, henabled⟩ := List.mem_filter.mp hs
      have hrewritten : s ∈ db.schedules.rows.filterMap (dropReference row.id schedules) := hmem
      obtain ⟨r, hr, hdrop⟩ := List.mem_filterMap.mp hrewritten
      obtain ⟨hen, hnarrow⟩ := dropReference_narrows (hkept r hr) hdrop
      exact ⟨r, List.mem_filter.mpr ⟨hr, by rw [← hen]; exact henabled⟩, (dropReference_id r s hdrop).symm, hnarrow⟩

/-- Schedules that the transaction itself has read are as loaded. -/
theorem requestKept_inside (row : Job) : RequestKept db (.deleteJobReferences row (jobsModeSchedules db)) := by
  intro current hcurrent loaded hloaded hid _ _
  rw [db.schedules.eq_of_key (List.mem_of_mem_filter hloaded) hcurrent hid]

/-- One lemma for every write transaction. -/
theorem commitNext_preserves {q : Request} (hvalid : Valid db) (hok : commitNext db q = some (.ok db')) :
    Valid db' ∧ (RequestKept db q → Exclusive db → Exclusive db') := by
  rcases q with ⟨row, data⟩ | row | ⟨data, highest⟩ | ⟨data, highest⟩ | ⟨data, highest⟩ | ⟨row, data⟩ | row |
    ⟨row, enabled⟩ | row | row | ⟨row, _ | ⟨run, runs⟩⟩ | ⟨row, schedules⟩
  case updateSchedule => exact updateBackupSchedule_preserves hvalid (Option.some.inj hok)
  case deleteSchedule =>
    cases hok
    obtain ⟨hvalid', hexclusive⟩ := deleteBackupSchedule_preserves row hvalid
    exact ⟨hvalid', fun _ => hexclusive⟩
  case createJob =>
    obtain ⟨hvalid', hexclusive⟩ := createJob_preserves hvalid (Option.some.inj hok)
    exact ⟨hvalid', fun _ => hexclusive⟩
  case updateJob => exact updateJob_preserves hvalid (Option.some.inj hok)
  case setJobEnabled =>
    obtain ⟨hvalid', hexclusive⟩ := setJobEnabled_preserves hvalid (Option.some.inj hok)
    exact ⟨hvalid', fun _ => hexclusive⟩
  case deleteJob.cons =>
    obtain ⟨hvalid', hexclusive⟩ := deleteJob_preserves hvalid (Option.some.inj hok)
    exact ⟨hvalid', fun _ => hexclusive (requestKept_inside row)⟩
  case deleteJobReferences => exact deleteJob_preserves hvalid (Option.some.inj hok)
  all_goals nomatch hok

theorem admit_database (s : Manager) (request : Nat) (result : Except HTTPException Request) :
    (resume s request result).database = s.database := by
  cases result <;> rfl

theorem writeRuns_preserves (runs : Table JobRun JobRun.id) (hvalid : Valid db) :
    Valid { db with runs := runs } ∧ (Exclusive db → Exclusive { db with runs := runs }) := by
  have hvalid' : Valid { db with runs := runs } := valid_of_jobs hvalid rfl rfl (fun job hjob => .inl hjob)
  exact ⟨hvalid', fun h => exclusive_of_narrows hvalid hvalid' h (narrows_of_eq rfl)
    (fun job hjob => .inl ⟨job, hjob, fun _ => rfl⟩)⟩

theorem scheduleNext_preserves {s t : Manager} {e : Event} (hvalid : Valid s.database)
    (hstep : scheduleNext s e = some t) :
    Valid t.database ∧ (LoadedKept s e → Exclusive s.database → Exclusive t.database) := by
  have hsame (request : Nat) (result : Except HTTPException Request) (h : start s request result = some t) :
      t.database = s.database := by
    rw [start] at h
    split at h
    · rw [← Option.some.inj h, admit_database]
    · nomatch h
  have hread (h : t.database = s.database) :
      Valid t.database ∧ (LoadedKept s e → Exclusive s.database → Exclusive t.database) := by
    rw [h]
    exact ⟨hvalid, fun _ => id⟩
  cases e with
  | createSchedule data =>
      have ht := Option.some.inj hstep
      rcases hcreate : createBackupSchedule s.database data with _ | db
      · rw [hcreate] at ht
        exact hread (congrArg Manager.database ht).symm
      · rw [hcreate] at ht
        subst ht
        obtain ⟨hvalid', hexclusive⟩ := createBackupSchedule_preserves hvalid hcreate
        exact ⟨hvalid', fun _ => hexclusive⟩
  | loadSchedule request id change => exact hread (hsame request _ hstep)
  | newJob request data => exact hread (hsame request _ hstep)
  | loadJob request id change => exact hread (hsame request _ hstep)
  | read request =>
      obtain ⟨q, hq, hstep⟩ := Option.bind_eq_some_iff.mp hstep
      obtain ⟨result, _, ht⟩ := Option.map_eq_some_iff.mp hstep
      exact hread (by rw [← ht, admit_database])
  | commit request =>
      obtain ⟨q, hq, hstep⟩ := Option.bind_eq_some_iff.mp hstep
      obtain ⟨result, hcommit, ht⟩ := Option.map_eq_some_iff.mp hstep
      rcases result with refusal | db
      · exact hread (by rw [← ht]; rfl)
      · subst ht
        obtain ⟨hvalid', hexclusive⟩ := commitNext_preserves hvalid hcommit
        exact ⟨hvalid', fun hkept => hexclusive (hkept q hq)⟩
  | writeRuns runs =>
      cases hstep
      obtain ⟨hvalid', hexclusive⟩ := writeRuns_preserves runs hvalid
      exact ⟨hvalid', fun _ => hexclusive⟩

theorem history_valid {s t : Manager} {es : List Event} (h : History (graph scheduleNext) s es t)
    (hvalid : Valid s.database) : Valid t.database :=
  h.invariant (fun s => Valid s.database) hvalid (fun _ _ _ hv hstep => (scheduleNext_preserves hv hstep).1)

theorem history_exclusive {s t : Manager} {es : List Event}
    (h : History (meeting (graph scheduleNext) LoadedKept) s es t) (hvalid : Valid s.database)
    (hexclusive : Exclusive s.database) : Valid t.database ∧ Exclusive t.database := by
  refine h.invariant (fun s => Valid s.database ∧ Exclusive s.database) ⟨hvalid, hexclusive⟩ ?_
  intro a e b hinv hstep
  obtain ⟨hvalid', hexclusive'⟩ := scheduleNext_preserves hinv.1 hstep.1
  exact ⟨hvalid', hexclusive' hstep.2 hinv.2⟩

/-- In every committed state the query and the matcher agree, and no job has
two enabled schedules as long as every request finds what its statement
leaves unwritten as it has loaded it. -/
theorem assignments_exclusive {s₀ s : Manager} {es : List Event} (hstarted : Started s₀)
    (h : History (graph scheduleNext) s₀ es s) :
    (∀ schedule, ∀ job ∈ s.database.jobs.rows,
      job.id ∈ scheduleTargetJobIds s.database schedule false ↔ matchesJob job schedule = true) ∧
    (History (meeting (graph scheduleNext) LoadedKept) s₀ es s → Exclusive s.database) := by
  constructor
  · intro schedule job hjob
    exact mem_targets_of_mem (history_valid h hstarted.valid) schedule hjob
  · intro hkept
    exact (history_exclusive hkept hstarted.valid hstarted.exclusive).2

/-- Two devices and two repositories, before the first job and schedule. -/
def installation : Manager where
  database :=
    { hosts := ⟨[⟨1, true⟩, ⟨2, true⟩], by decide⟩
      repositories := ⟨[⟨1, "a", true, "", none, true, none⟩, ⟨2, "b", true, "", none, true, none⟩], by decide⟩
      jobs := .empty
      jobIdReservations := []
      schedules := .empty
      runs := .empty }
  requests := fun _ => none

theorem installation_started : Started installation where
  valid := ⟨by decide, by decide, by decide⟩
  exclusive := by decide
  idle := fun _ => rfl

/-- A schedule for the second device, one for the second repository, and a job
of the first device in the first repository. -/
def assignmentSetup : List Event :=
  [.createSchedule ⟨"device", "0 1 * * *", .hosts, [2], none, [], 0, true⟩,
    .createSchedule ⟨"repository", "0 2 * * *", .repository, [], some 2, [], 0, true⟩,
    .newJob 0 ⟨"job", 1, 1, true⟩, .read 0, .read 0, .commit 0]

/-- One request moves the job to the second device and another one, which has
loaded the job before, moves it to the second repository. -/
def concurrentMoves : List Event :=
  assignmentSetup ++ [.loadJob 0 1 (.update ⟨"job", 2, 1, true⟩), .loadJob 1 1 (.update ⟨"job", 1, 2, true⟩),
    .commit 0, .commit 1]

theorem assignments_exclusive_one_move :
    ∃ s, History (meeting (graph scheduleNext) LoadedKept) installation (concurrentMoves.take 9) s ∧
      scheduleTargetJobIds s.database ⟨1, "device", "0 1 * * *", .hosts, [2], none, [], 0, true⟩ false = [1] ∧
      Exclusive s.database := by
  let s := (exec scheduleNext installation (concurrentMoves.take 9)).get (by decide)
  have h : History (meeting (graph scheduleNext) LoadedKept) installation (concurrentMoves.take 9) s :=
    history_of_along (Option.some_get _).symm (by decide)
  exact ⟨s, h, by decide, (assignments_exclusive installation_started h.forget).2 h⟩

theorem assignments_not_exclusive :
    ¬ ∀ s₀ es s, Started s₀ → History (graph scheduleNext) s₀ es s → Exclusive s.database := by
  intro hall
  let s := (exec scheduleNext installation concurrentMoves).get (by decide)
  have h : History (graph scheduleNext) installation concurrentMoves s := history_of_exec (Option.some_get _).symm
  have hviolated : ¬ Exclusive s.database := by decide
  exact hviolated (hall installation concurrentMoves s installation_started h)

end BorgManager.ScheduleExclusivity
