import BorgManager.ArchiveCache

namespace BorgManager.ArchiveCommands

open Records ExecutionKeys RunQueue ExecutionPlan QueueSystem QueueCapacity RefreshAdmission Histories ArchiveCache

variable {t : Topology} {q q' : Queue} {s s' : Caching}

theorem physicalKey_writeStatus (id : Nat) (status : Status) (run : Run) :
    physicalKey t (writeStatus id status run) = physicalKey t run := by
  simp only [physicalKey, repositoryOf, writeStatus_repositoryId]

/-- At most one run of a physical repository is running, source statistics
apart. -/
def RunsAlone (t : Topology) (q : Queue) : Prop :=
  ∀ a ∈ q.runs.rows, ∀ b ∈ q.runs.rows, a.status = .running → b.status = .running →
    a.action ≠ .sourceStats → b.action ≠ .sourceStats →
      ∀ key, physicalKey t a = some key → physicalKey t b = some key → a = b

/-- What an admission event does to the rows. -/
inductive Admitted (t : Topology) (q q' : Queue) : Prop
  | same (runs : q'.runs = q.runs)
  | queued (run : Run) (younger : ∀ r ∈ q.runs.rows, r.id < run.id) (status : run.status = .queued)
      (rows : q'.runs.rows = q.runs.rows ++ [run])
  | started (run : Run) (mem : run ∈ q.runs.rows) (status : run.status = .queued)
      (runs : q'.runs = q.runs.setStatus run.id .running)
      (free : run.action ≠ .sourceStats → ∀ o ∈ q.runs.rows, o.status = .running → o.action ≠ .sourceStats →
        ∀ key, physicalKey t run = some key → physicalKey t o ≠ some key)

theorem admitted_of_enqueue {run : Run} (h : enqueue q run = some q') : Admitted t q q' := by
  obtain ⟨hid, hstatus, rfl⟩ := enqueue_eq_some h
  exact .queued run hid hstatus rfl

theorem admitted_of_claim {runId : Nat} (htracked : Tracked q) (h : queueStep t q (.claim runId) q') :
    Admitted t q q' := by
  have hclaim := claim_eq_some h
  have htracked' : Tracked q' := (rowChange_of_step h).tracked htracked
  obtain ⟨⟨run, hrun, hid, hstatus⟩, _, hgrant⟩ := claimExecutionTurn_ok hclaim
  subst hid
  have hruns : q'.runs = q.runs.setStatus run.id .running := by rw [hgrant]; rfl
  refine .started run hrun hstatus hruns ?_
  intro hne o ho hrunning hoa key hkey
  have hdistinct : o.id ≠ run.id := by
    intro heq
    rw [q.runs.eq_of_id_eq ho hrun heq, hstatus] at hrunning
    nomatch hrunning
  have ho' : o ∈ q'.runs.rows := by
    rw [hruns]
    exact RunTable.mem_setStatus.mpr ⟨o, ho, writeStatus_of_ne hdistinct _⟩
  have hactive : o.status.active = true := by rw [hrunning]; rfl
  have hlive : o ∈ liveRunning q' :=
    mem_running.mpr ⟨mem_liveRows.mpr ⟨ho', hactive, htracked' o ho' hactive⟩, hrunning⟩
  exact claimed_repository htracked hrun hclaim hne hkey hlive hdistinct hoa

theorem admitted_of_refreshStart {runId : Nat} {present : Bool} (h : refreshStart t q runId present = some q') :
    Admitted t q q' := by
  obtain ⟨run, repositoryId, hrun, hid, hstatus, _, _, hrepository, hblocker, rfl⟩ := refreshStart_eq_some h
  subst hid
  refine .started run hrun hstatus rfl ?_
  intro _ o ho hrunning _ key hkey
  have hdistinct : o.id ≠ run.id := by
    intro heq
    rw [q.runs.eq_of_id_eq ho hrun heq, hstatus] at hrunning
    nomatch hrunning
  rw [← hkey]
  exact other_repository_of_no_blocker hrepository hblocker ho (.inl hrunning) hdistinct

theorem admitted_of_step {event : AdmissionEvent} (htracked : Tracked q) (h : admissionStep t q event q')
    (hfinish : isFinish event = false) : Admitted t q q' := by
  cases event with
  | refreshStart runId present => exact admitted_of_refreshStart h
  | queue event =>
      cases event with
      | enqueue run => exact admitted_of_enqueue h
      | enqueueChainRoot run token =>
          obtain ⟨_, u, _, _, _, hu, rfl⟩ := enqueueChainRoot_eq_some h
          obtain ⟨hid, hstatus, rfl⟩ := enqueue_eq_some hu
          exact .queued run hid hstatus rfl
      | enqueueChainRun run token =>
          obtain ⟨u, hu, rfl⟩ := enqueueChainRun_eq_some h
          obtain ⟨hid, hstatus, rfl⟩ := enqueue_eq_some hu
          exact .queued run hid hstatus rfl
      | claim runId => exact admitted_of_claim htracked h
      | finish runId status => nomatch hfinish
      | endExecution runId =>
          obtain ⟨_, rfl⟩ := endExecution_eq_some h
          exact .same rfl
      | beginExecution runId => cases h; exact .same rfl
      | configure settings => cases h; exact .same rfl
      | releaseChain token => cases h; exact .same rfl
      | remount archiveMounts fuseMounts => cases h; exact .same rfl

theorem Admitted.keeps (h : Admitted t q q') {row : Run} (hrow : row ∈ q.runs.rows) (hstatus : row.status ≠ .queued) :
    row ∈ q'.runs.rows := by
  cases h with
  | same runs => exact runs ▸ hrow
  | queued run younger status rows =>
      rw [rows]
      exact List.mem_append_left _ hrow
  | started run mem status runs free =>
      rw [runs]
      refine RunTable.mem_setStatus.mpr ⟨row, hrow, writeStatus_of_ne ?_ _⟩
      intro heq
      rw [q.runs.eq_of_id_eq hrow mem heq] at hstatus
      exact hstatus status

/-- A row with the id of an earlier row that is not queued is that row. -/
theorem Admitted.eq_of_id (h : Admitted t q q') {row row' : Run} (hrow : row ∈ q.runs.rows)
    (hstatus : row.status ≠ .queued) (hrow' : row' ∈ q'.runs.rows) (hid : row.id = row'.id) : row' ∈ q.runs.rows := by
  rw [← q'.runs.eq_of_id_eq (h.keeps hrow hstatus) hrow' hid]
  exact hrow

theorem Admitted.alone (h : Admitted t q q') (halone : RunsAlone t q) : RunsAlone t q' := by
  intro a ha b hb har hbr haa hba key hka hkb
  cases h with
  | same runs =>
      rw [runs] at ha hb
      exact halone a ha b hb har hbr haa hba key hka hkb
  | queued run younger status rows =>
      have hold (x : Run) (hx : x ∈ q'.runs.rows) (hxr : x.status = .running) : x ∈ q.runs.rows := by
        rw [rows, List.mem_append, List.mem_singleton] at hx
        rcases hx with hx | rfl
        · exact hx
        · rw [status] at hxr
          nomatch hxr
      exact halone a (hold a ha har) b (hold b hb hbr) har hbr haa hba key hka hkb
  | started run mem status runs free =>
      have hnew (x : Run) (hx : x ∈ q'.runs.rows) : x ∈ q.runs.rows ∨ x = setStatus run .running := by
        rw [runs] at hx
        obtain ⟨old, hold, rfl⟩ := RunTable.mem_setStatus.mp hx
        by_cases hid : old.id = run.id
        · rw [writeStatus_of_eq hid, q.runs.eq_of_id_eq hold mem hid]
          exact .inr rfl
        · rw [writeStatus_of_ne hid]
          exact .inl hold
      rcases hnew a ha with hao | rfl
      · rcases hnew b hb with hbo | rfl
        · exact halone a hao b hbo har hbr haa hba key hka hkb
        · exact absurd hka (free hba a hao har haa key hkb)
      · rcases hnew b hb with hbo | rfl
        · exact absurd hkb (free haa b hbo hbr hba key hka)
        · rfl

/-- What is known of the command that was started for a run. -/
structure CommandOf (s : Caching) (row : Run) (command : BorgCommand) : Prop where
  begun : row.status ≠ .queued
  modifies : modifies row.action = true
  running : command.endedAt = none → row.status = .running
  startedAt : command.startedAt < s.clock
  endedAt : ∀ ended ∈ command.endedAt, command.startedAt ≤ ended ∧ ended < s.clock

/-- What is known of the scan of a refresh. -/
structure ScanOf (t : Topology) (s : Caching) (row : Run) (scan : Scan) : Prop where
  running : row.status = .running
  refresh : row.action = .archiveRefresh
  startedAt : scan.startedAt < s.clock
  after : ∀ key, physicalKey t row = some key → ScannedAfter t s key scan.startedAt

/-- The invariant of every history. No list was scanned after the command of a
running run has started. -/
structure Consistent (t : Topology) (s : Caching) : Prop where
  tracked : Tracked s.queue
  alone : RunsAlone t s.queue
  commands : ∀ id, ∀ command ∈ s.commands id, ∃ row ∈ s.queue.runs.rows, row.id = id ∧ CommandOf s row command
  scans : ∀ id, ∀ scan ∈ s.scans id, ∃ row ∈ s.queue.runs.rows, row.id = id ∧ ScanOf t s row scan
  files : ∀ repositoryId considerCheckpoints, ∀ data ∈ loadArchiveCache s repositoryId considerCheckpoints,
    data.scannedAt < s.clock
  older : ∀ row ∈ s.queue.runs.rows, row.status = .running → ∀ command ∈ s.commands row.id,
    ∀ repository ∈ t.repositories, physicalKey t row = some (repositoryExecutionKeyById t repository.id) →
      ∀ considerCheckpoints, ∀ data ∈ loadArchiveCache s repository.id considerCheckpoints,
        data.scannedAt ≤ command.startedAt

/-- A cached list is fresh, or a run is under way that is going to drop it. -/
def Settled (t : Topology) (s : Caching) : Prop :=
  ∀ repository ∈ t.repositories, ∀ considerCheckpoints, ∀ data ∈ loadArchiveCache s repository.id considerCheckpoints,
    (∃ row ∈ s.queue.runs.rows, row.status = .running ∧ (s.commands row.id).isSome = true ∧
      physicalKey t row = some (repositoryExecutionKeyById t repository.id)) ∨
    ScannedAfter t s (repositoryExecutionKeyById t repository.id) data.scannedAt

theorem Settled.fresh (h : Settled t s) : CacheFresh t s := by
  intro repository hrepository hidle considerCheckpoints data hdata
  rcases h repository hrepository considerCheckpoints data hdata with ⟨row, hrow, hrunning, _, hkey⟩ | hafter
  · have hactive := hidle row hrow hkey
    rw [hrunning] at hactive
    nomatch hactive
  · exact hafter

theorem not_sourceStats_of_modifies {row : Run} (h : modifies row.action = true) : row.action ≠ .sourceStats := by
  intro heq
  rw [heq] at h
  nomatch h

/-- A command and a scan never share a repository. -/
theorem Consistent.no_scan_beside (h : Consistent t s) {a b : Run} (ha : a ∈ s.queue.runs.rows)
    (hb : b ∈ s.queue.runs.rows) (har : a.status = .running) (hbr : b.status = .running)
    (hma : modifies a.action = true) (hmb : b.action = .archiveRefresh) {key : ExecutionKey}
    (hka : physicalKey t a = some key) (hkb : physicalKey t b = some key) : False := by
  have heq := h.alone a ha b hb har hbr (not_sourceStats_of_modifies hma) (by rw [hmb]; exact nofun) key hka hkb
  rw [heq, hmb] at hma
  nomatch hma

/-- A command that a later look finds belongs to a row that was there. -/
theorem Admitted.scannedAfter (h : Admitted t s.queue s'.queue) (hs : Consistent t s)
    (hcommands : s'.commands = s.commands) {key : ExecutionKey} {instant : Nat}
    (hafter : ScannedAfter t s key instant) : ScannedAfter t s' key instant := by
  intro row hrow hkey command hcommand
  rw [hcommands] at hcommand
  obtain ⟨old, hold, hid, hof⟩ := hs.commands row.id command hcommand
  exact hafter row (h.eq_of_id hold hof.begun hrow hid) hkey command hcommand

theorem load_congr (h : s'.files = s.files) (repositoryId : Nat) (considerCheckpoints : Bool) :
    loadArchiveCache s' repositoryId considerCheckpoints = loadArchiveCache s repositoryId considerCheckpoints := by
  rw [loadArchiveCache, loadArchiveCache, h]

theorem queueEvent_keeps {event : AdmissionEvent} (hs : Consistent t s) (h : queueEvent t s event = some s') :
    Consistent t s' ∧ (Settled t s → Settled t s') := by
  rw [queueEvent] at h
  split at h
  · nomatch h
  next hfinish =>
  obtain ⟨queue, hqueue, rfl⟩ := Option.map_eq_some_iff.mp h
  have hadmitted : Admitted t s.queue queue := admitted_of_step hs.tracked hqueue (by simpa using hfinish)
  have hafter {key : ExecutionKey} {instant : Nat} (hafter : ScannedAfter t s key instant) :
      ScannedAfter t { s with queue := queue } key instant :=
    @Admitted.scannedAfter t s { s with queue := queue } hadmitted hs rfl _ _ hafter
  constructor
  · refine ⟨(rowChange_of_admission hqueue).tracked hs.tracked, hadmitted.alone hs.alone, ?_, ?_, hs.files, ?_⟩
    · intro id command hcommand
      obtain ⟨row, hrow, hid, hof⟩ := hs.commands id command hcommand
      exact ⟨row, hadmitted.keeps hrow hof.begun, hid,
        ⟨hof.begun, hof.modifies, hof.running, hof.startedAt, hof.endedAt⟩⟩
    · intro id scan hscan
      obtain ⟨row, hrow, hid, hof⟩ := hs.scans id scan hscan
      have hbegun : row.status ≠ .queued := by
        rw [hof.running]
        exact nofun
      exact ⟨row, hadmitted.keeps hrow hbegun, hid,
        ⟨hof.running, hof.refresh, hof.startedAt, fun key hkey => hafter (hof.after key hkey)⟩⟩
    · intro row hrow hrunning command hcommand
      obtain ⟨old, hold, hid, hof⟩ := hs.commands row.id command hcommand
      exact hs.older row (hadmitted.eq_of_id hold hof.begun hrow hid) hrunning command hcommand
  · intro hsettled repository hrepository considerCheckpoints data hdata
    rcases hsettled repository hrepository considerCheckpoints data hdata with
      ⟨row, hrow, hrunning, hcommand, hkey⟩ | hold
    · have hbegun : row.status ≠ .queued := by
        rw [hrunning]
        exact nofun
      exact .inl ⟨row, hadmitted.keeps hrow hbegun, hrunning, hcommand, hkey⟩
    · exact .inr (hafter hold)

/-- What an event changes that leaves the queue as it is. -/
structure Ticks (s s' : Caching) : Prop where
  queue : s'.queue = s.queue
  clock : s'.clock = s.clock + 1

/-- The command of a run starts. -/
structure CommandStarts (s s' : Caching) (run : Run) : Prop where
  ticks : Ticks s s'
  mem : run ∈ s.queue.runs.rows
  running : run.status = .running
  modifies : ArchiveCache.modifies run.action = true
  started : s'.commands run.id = some ⟨s.clock, none⟩
  others : ∀ id, id ≠ run.id → s'.commands id = s.commands id
  scans : s'.scans = s.scans
  files : s'.files = s.files

theorem commandStart_eq_some {runId : Nat} (h : commandStart s runId = some s') : ∃ run, CommandStarts s s' run := by
  rw [commandStart] at h
  split at h
  · nomatch h
  · next run hget =>
      obtain ⟨hrun, rfl⟩ := RunTable.get_eq_some.mp hget
      split at h
      · next hguard =>
          cases h
          exact ⟨run, ⟨rfl, rfl⟩, hrun, hguard.1, hguard.2.1, Function.update_self ..,
            fun id hne => Function.update_of_ne hne .., rfl, rfl⟩
      · nomatch h

theorem CommandOf.tick {row : Run} {command : BorgCommand} (h : CommandOf s row command) (hclock : s.clock ≤ s'.clock) :
    CommandOf s' row command :=
  ⟨h.begun, h.modifies, h.running, h.startedAt.trans_le hclock,
    fun ended he => ⟨(h.endedAt ended he).1, (h.endedAt ended he).2.trans_le hclock⟩⟩

/-- A command on another repository does not touch the key. -/
theorem CommandStarts.scannedAfter {run : Run} (h : CommandStarts s s' run) {key : ExecutionKey} {instant : Nat}
    (hne : physicalKey t run ≠ some key) (hafter : ScannedAfter t s key instant) : ScannedAfter t s' key instant := by
  intro row hrow hkey command hcommand
  rw [h.ticks.queue] at hrow
  have hdistinct : row.id ≠ run.id := fun heq => hne (s.queue.runs.eq_of_id_eq hrow h.mem heq ▸ hkey)
  rw [h.others row.id hdistinct] at hcommand
  exact hafter row hrow hkey command hcommand

theorem CommandStarts.consistent {run : Run} (h : CommandStarts s s' run) (hs : Consistent t s) : Consistent t s' := by
  have hclock : s.clock < s'.clock := by
    rw [h.ticks.clock]
    exact Nat.lt_succ_self _
  refine ⟨h.ticks.queue ▸ hs.tracked, h.ticks.queue ▸ hs.alone, ?_, ?_, ?_, ?_⟩
  · intro id command hcommand
    rw [h.ticks.queue]
    by_cases heq : id = run.id
    · rw [heq, h.started] at hcommand
      cases hcommand
      refine ⟨run, h.mem, heq.symm, ⟨?_, h.modifies, fun _ => h.running, hclock, fun _ he => nomatch he⟩⟩
      rw [h.running]
      exact nofun
    · rw [h.others id heq] at hcommand
      obtain ⟨row, hrow, hid, hof⟩ := hs.commands id command hcommand
      exact ⟨row, hrow, hid, hof.tick hclock.le⟩
  · intro id scan hscan
    rw [h.scans] at hscan
    rw [h.ticks.queue]
    obtain ⟨row, hrow, hid, hof⟩ := hs.scans id scan hscan
    refine ⟨row, hrow, hid, ⟨hof.running, hof.refresh, hof.startedAt.trans hclock, ?_⟩⟩
    intro key hkey
    refine h.scannedAfter (fun hrunkey => ?_) (hof.after key hkey)
    exact hs.no_scan_beside h.mem hrow h.running hof.running h.modifies hof.refresh hrunkey hkey
  · intro repositoryId considerCheckpoints data hdata
    rw [load_congr h.files] at hdata
    exact (hs.files _ _ data hdata).trans hclock
  · intro row hrow hrunning command hcommand repository hrepository hkey considerCheckpoints data hdata
    rw [load_congr h.files] at hdata
    rw [h.ticks.queue] at hrow
    by_cases heq : row.id = run.id
    · rw [heq, h.started] at hcommand
      cases hcommand
      exact Nat.le_of_lt (hs.files _ _ data hdata)
    · rw [h.others row.id heq] at hcommand
      exact hs.older row hrow hrunning command hcommand repository hrepository hkey considerCheckpoints data hdata

theorem CommandStarts.settled {run : Run} (h : CommandStarts s s' run) (hsettled : Settled t s) : Settled t s' := by
  intro repository hrepository considerCheckpoints data hdata
  rw [load_congr h.files] at hdata
  by_cases hkey : physicalKey t run = some (repositoryExecutionKeyById t repository.id)
  · exact .inl ⟨run, h.ticks.queue ▸ h.mem, h.running, by rw [h.started]; rfl, hkey⟩
  · rcases hsettled repository hrepository considerCheckpoints data hdata with
      ⟨row, hrow, hrunning, hcommand, hk⟩ | hold
    · have hdistinct : row.id ≠ run.id := fun heq => hkey (s.queue.runs.eq_of_id_eq hrow h.mem heq ▸ hk)
      exact .inl ⟨row, h.ticks.queue ▸ hrow, hrunning, by rw [h.others row.id hdistinct]; exact hcommand, hk⟩
    · exact .inr (h.scannedAfter hkey hold)

/-- What an event changes that ends commands and runs or drops lists. -/
structure Ends (t : Topology) (s s' : Caching) : Prop where
  tracked : Tracked s.queue → Tracked s'.queue
  clock : s'.clock = s.clock + 1
  rows : ∀ row' ∈ s'.queue.runs.rows, ∃ row ∈ s.queue.runs.rows, row.id = row'.id ∧
    physicalKey t row = physicalKey t row' ∧ (row'.status = .running → row' = row)
  kept : ∀ row ∈ s.queue.runs.rows, row ∈ s'.queue.runs.rows ∨ ∃ row' ∈ s'.queue.runs.rows, row'.id = row.id ∧
    row'.action = row.action ∧ physicalKey t row' = physicalKey t row ∧ row'.status.terminal = true ∧
    s'.commands row.id = (s.commands row.id).map (closed s.clock)
  commands : ∀ id, s'.commands id = s.commands id ∨ s'.commands id = (s.commands id).map (closed s.clock)
  scans : ∀ id, ∀ scan ∈ s'.scans id, scan ∈ s.scans id ∧ ∀ row ∈ s.queue.runs.rows, row.id = id →
    row ∈ s'.queue.runs.rows
  loads : ∀ repositoryId considerCheckpoints, ∀ data ∈ loadArchiveCache s' repositoryId considerCheckpoints,
    data ∈ loadArchiveCache s repositoryId considerCheckpoints

/-- A command afterwards is a command before, with the same start, and an end
that it had is still its end. -/
theorem Ends.command (h : Ends t s s') {id : Nat} {command' : BorgCommand} (hcommand : command' ∈ s'.commands id) :
    ∃ command ∈ s.commands id, command' = command ∨ command' = closed s.clock command := by
  rcases h.commands id with heq | heq
  · rw [heq] at hcommand
    exact ⟨command', hcommand, .inl rfl⟩
  · rw [heq] at hcommand
    obtain ⟨command, hmem, hclosed⟩ := Option.map_eq_some_iff.mp hcommand
    exact ⟨command, hmem, .inr hclosed.symm⟩

theorem closed_endedAt {clock ended : Nat} {command : BorgCommand} (h : command.endedAt = some ended) :
    (closed clock command).endedAt = some ended := by
  rw [closed, h]
  rfl

theorem Ends.scannedAfter (h : Ends t s s') {key : ExecutionKey} {instant : Nat}
    (hafter : ScannedAfter t s key instant) :
    ScannedAfter t s' key instant := by
  intro row' hrow' hkey command' hcommand'
  obtain ⟨row, hrow, hid, hphysical, _⟩ := h.rows row' hrow'
  obtain ⟨command, hcommand, hclosed⟩ := h.command hcommand'
  obtain ⟨ended, hended, hlt⟩ := hafter row hrow (hphysical.trans hkey) command (hid ▸ hcommand)
  rcases hclosed with rfl | rfl
  · exact ⟨ended, hended, hlt⟩
  · exact ⟨ended, closed_endedAt hended, hlt⟩

theorem CommandOf.closed {row row' : Run} {command : BorgCommand} (h : CommandOf s row command)
    (hclock : s'.clock = s.clock + 1) (haction : row'.action = row.action) (hbegun : row'.status ≠ .queued) :
    CommandOf s' row' (ArchiveCache.closed s.clock command) := by
  have htick : CommandOf s' row command := h.tick (by rw [hclock]; exact Nat.le_succ _)
  refine ⟨hbegun, haction ▸ h.modifies, ?_, htick.startedAt, ?_⟩
  · intro hnone
    rcases hended : command.endedAt with _ | ended
    · rw [ArchiveCache.closed, hended] at hnone
      nomatch hnone
    · rw [closed_endedAt hended] at hnone
      nomatch hnone
  · intro ended hmem
    rcases hended : command.endedAt with _ | e
    · rw [ArchiveCache.closed, hended] at hmem
      cases hmem
      exact ⟨h.startedAt.le, by rw [hclock]; exact Nat.lt_succ_self _⟩
    · rw [closed_endedAt hended] at hmem
      cases hmem
      exact htick.endedAt _ hended

theorem Ends.consistent (h : Ends t s s') (hs : Consistent t s) : Consistent t s' := by
  have hclock : s.clock < s'.clock := by
    rw [h.clock]
    exact Nat.lt_succ_self _
  have hrunning (row : Run) (hrow : row ∈ s'.queue.runs.rows) (hr : row.status = .running) : row ∈
      s.queue.runs.rows := by
    obtain ⟨old, hold, _, _, heq⟩ := h.rows row hrow
    rw [heq hr]
    exact hold
  refine ⟨h.tracked hs.tracked, ?_, ?_, ?_, ?_, ?_⟩
  · intro a ha b hb har hbr
    exact hs.alone a (hrunning a ha har) b (hrunning b hb hbr) har hbr
  · intro id command' hcommand'
    obtain ⟨command, hcommand, hclosed⟩ := h.command hcommand'
    obtain ⟨row, hrow, hid, hof⟩ := hs.commands id command hcommand
    rcases h.kept row hrow with hsame | ⟨row', hrow', hid', haction, _, hterminal, hcommands⟩
    · rcases hclosed with rfl | rfl
      · exact ⟨row, hsame, hid, hof.tick hclock.le⟩
      · exact ⟨row, hsame, hid, hof.closed h.clock rfl hof.begun⟩
    · have hbegun : row'.status ≠ .queued := by
        intro heq
        rw [heq] at hterminal
        nomatch hterminal
      rw [hid, hcommand] at hcommands
      rw [hcommands] at hcommand'
      cases hcommand'
      exact ⟨row', hrow', hid'.trans hid, hof.closed h.clock haction hbegun⟩
  · intro id scan hscan
    obtain ⟨hold, hkept⟩ := h.scans id scan hscan
    obtain ⟨row, hrow, hid, hof⟩ := hs.scans id scan hold
    exact ⟨row, hkept row hrow hid, hid, ⟨hof.running, hof.refresh, hof.startedAt.trans hclock,
      fun key hkey => h.scannedAfter (hof.after key hkey)⟩⟩
  · intro repositoryId considerCheckpoints data hdata
    exact (hs.files _ _ data (h.loads _ _ data hdata)).trans hclock
  · intro row hrow hr command' hcommand' repository hrepository hkey considerCheckpoints data hdata
    obtain ⟨command, hcommand, hclosed⟩ := h.command hcommand'
    have hle := hs.older row (hrunning row hrow hr) hr command hcommand repository hrepository hkey considerCheckpoints
      data (h.loads _ _ data hdata)
    rcases hclosed with rfl | rfl
    · exact hle
    · exact hle

/-- The lists stay settled if the runs that end leave none behind. -/
theorem Ends.settled (h : Ends t s s') (hsettled : Settled t s)
    (hdropped : ∀ row ∈ s.queue.runs.rows, row.status = .running → (s.commands row.id).isSome = true →
      row ∉ s'.queue.runs.rows → ∀ repository ∈ t.repositories,
        physicalKey t row = some (repositoryExecutionKeyById t repository.id) →
          ∀ considerCheckpoints, loadArchiveCache s' repository.id considerCheckpoints = none) : Settled t s' := by
  intro repository hrepository considerCheckpoints data hdata
  rcases hsettled repository hrepository considerCheckpoints data (h.loads _ _ data hdata) with
    ⟨row, hrow, hrunning, hcommand, hkey⟩ | hold
  · by_cases hkept : row ∈ s'.queue.runs.rows
    · refine .inl ⟨row, hkept, hrunning, ?_, hkey⟩
      rcases h.commands row.id with heq | heq
      · rw [heq]
        exact hcommand
      · rw [heq, Option.isSome_map]
        exact hcommand
    · rw [hdropped row hrow hrunning hcommand hkept repository hrepository hkey considerCheckpoints] at hdata
      nomatch hdata
  · exact .inr (h.scannedAfter hold)

/-- A command on the repository ended at an instant or later. -/
def EndedSince (t : Topology) (s : Caching) (key : ExecutionKey) (instant : Nat) : Prop :=
  ∃ row ∈ s.queue.runs.rows, physicalKey t row = some key ∧
    ∃ command ∈ s.commands row.id, ∃ ended ∈ command.endedAt, instant ≤ ended

theorem EndedSince.not_scannedAfter {key : ExecutionKey} {instant : Nat} (h : EndedSince t s key instant) :
    ¬ ScannedAfter t s key instant := by
  obtain ⟨row, hrow, hkey, command, hcommand, ended, hended, hle⟩ := h
  intro hafter
  obtain ⟨ended', hended', hlt⟩ := hafter row hrow hkey command hcommand
  rw [hended] at hended'
  cases hended'
  exact absurd hlt (Nat.not_lt_of_le hle)

theorem Ends.endedSince (h : Ends t s s') {key : ExecutionKey} {instant : Nat} (hs : EndedSince t s key instant) :
    EndedSince t s' key instant := by
  obtain ⟨row, hrow, hkey, command, hcommand, ended, hended, hle⟩ := hs
  have hcommand' : ∃ command' ∈ s'.commands row.id, command'.endedAt = some ended := by
    rcases h.commands row.id with heq | heq
    · exact ⟨command, by rw [heq]; exact hcommand, hended⟩
    · exact ⟨closed s.clock command, by rw [heq, hcommand]; rfl, closed_endedAt hended⟩
  obtain ⟨command', hmem, hended'⟩ := hcommand'
  rcases h.kept row hrow with hsame | ⟨row', hrow', hid, _, hphysical, _⟩
  · exact ⟨row, hsame, hkey, command', hmem, ended, hended', hle⟩
  · exact ⟨row', hrow', hphysical.trans hkey, command', by rw [hid]; exact hmem, ended, hended', hle⟩

/-- A list that survives the end of a run on its repository is older than the
end of the run's command. -/
theorem Ends.stale (h : Ends t s s') (hs : Consistent t s) {row : Run} (hrow : row ∈ s.queue.runs.rows)
    (hrunning : row.status = .running) (hended : row ∉ s'.queue.runs.rows) {command : BorgCommand}
    (hcommand : command ∈ s.commands row.id) {repository : Repository} (hrepository : repository ∈ t.repositories)
    (hkey : physicalKey t row = some (repositoryExecutionKeyById t repository.id)) {considerCheckpoints : Bool}
    {data : Dataset} (hdata : data ∈ loadArchiveCache s repository.id considerCheckpoints) :
    EndedSince t s' (repositoryExecutionKeyById t repository.id) data.scannedAt := by
  have holder := hs.older row hrow hrunning command hcommand repository hrepository hkey considerCheckpoints data hdata
  obtain ⟨_, _, _, hof⟩ := hs.commands row.id command hcommand
  obtain ⟨row', hrow', hid, _, hphysical, _, hcommands⟩ := (h.kept row hrow).resolve_left hended
  refine ⟨row', hrow', hphysical.trans hkey, closed s.clock command, by rw [hid, hcommands, hcommand]; rfl, ?_⟩
  rcases hcase : command.endedAt with _ | ended
  · refine ⟨s.clock, ?_, holder.trans hof.startedAt.le⟩
    rw [ArchiveCache.closed, hcase]
    rfl
  · exact ⟨ended, closed_endedAt hcase, holder.trans (hof.endedAt ended hcase).1⟩

theorem load_invalidated {repositoryId id : Nat} {considerCheckpoints : Bool} {data : Dataset}
    (hfiles : s'.files = invalidateArchiveCache repositoryId s.files)
    (h : data ∈ loadArchiveCache s' id considerCheckpoints) :
    id ≠ repositoryId ∧ data ∈ loadArchiveCache s id considerCheckpoints := by
  rw [loadArchiveCache, hfiles, invalidateArchiveCache] at h
  by_cases heq : id = repositoryId
  · rw [heq, Function.update_self] at h
    nomatch h
  · rw [Function.update_of_ne heq] at h
    exact ⟨heq, h⟩

theorem load_other {repositoryId id : Nat} {considerCheckpoints : Bool}
    (hfiles : s'.files = invalidateArchiveCache repositoryId s.files) (hne : id ≠ repositoryId) :
    loadArchiveCache s' id considerCheckpoints = loadArchiveCache s id considerCheckpoints := by
  rw [loadArchiveCache, loadArchiveCache, hfiles, invalidateArchiveCache, Function.update_of_ne hne]

/-- An event that keeps the queue and ends at most commands, or drops lists. -/
theorem ends_of_ticks (hticks : Ticks s s')
    (hcommands : ∀ id, s'.commands id = s.commands id ∨ s'.commands id = (s.commands id).map (closed s.clock))
    (hscans : s'.scans = s.scans) (hloads : ∀ repositoryId considerCheckpoints,
      ∀ data ∈ loadArchiveCache s' repositoryId considerCheckpoints,
        data ∈ loadArchiveCache s repositoryId considerCheckpoints) : Ends t s s' where
  tracked := by
    rw [hticks.queue]
    exact id
  clock := hticks.clock
  rows := by
    rw [hticks.queue]
    exact fun row hrow => ⟨row, hrow, rfl, rfl, fun _ => rfl⟩
  kept := by
    rw [hticks.queue]
    exact fun row hrow => .inl hrow
  commands := hcommands
  scans := by
    rw [hticks.queue, hscans]
    exact fun id scan hscan => ⟨hscan, fun row hrow _ => hrow⟩
  loads := hloads

theorem commandEnd_ends {runId : Nat} (h : commandEnd s runId = some s') : s'.queue = s.queue ∧ Ends t s s' := by
  rw [commandEnd] at h
  split at h
  · cases h
    refine ⟨rfl, ends_of_ticks ⟨rfl, rfl⟩ ?_ rfl (fun _ _ _ hdata => hdata)⟩
    intro id
    by_cases heq : id = runId
    · subst heq
      exact .inr (Function.update_self ..)
    · exact .inl (Function.update_of_ne heq ..)
  · nomatch h

theorem dropCaches_ends (s : Caching) (repositoryId : Nat) :
    Ends t s { s with clock := s.clock + 1, files := invalidateArchiveCache repositoryId s.files } :=
  ends_of_ticks ⟨rfl, rfl⟩ (fun _ => .inl rfl) rfl (fun _ _ _ hdata => (load_invalidated rfl hdata).2)

/-- The end of a run. -/
structure RunEnds (s s' : Caching) (run : Run) (status : Status) : Prop where
  mem : run ∈ s.queue.runs.rows
  active : run.status.active = true
  terminal : status.terminal = true
  queue : s'.queue = { s.queue with runs := s.queue.runs.setStatus run.id status }
  clock : s'.clock = s.clock + 1
  ended : s'.commands run.id = (s.commands run.id).map (closed s.clock)
  others : ∀ id, id ≠ run.id → s'.commands id = s.commands id
  noScan : s'.scans run.id = none
  scans : ∀ id, id ≠ run.id → s'.scans id = s.scans id
  files : s'.files = s.files ∨
    ∃ repositoryId, run.repositoryId = some repositoryId ∧ s'.files = invalidateArchiveCache repositoryId s.files
  invalidated : invalidates run.action status = true → ∀ repositoryId, run.repositoryId = some repositoryId →
    s'.files = invalidateArchiveCache repositoryId s.files
  preserved : invalidates run.action status = false → s'.files = s.files

/-- What the end of a run leaves of the cached archive lists. -/
theorem runEnd_files {run : Run} {status : Status} {old files : Nat → Bool → Option Payload}
    (hfiles : files = (match run.repositoryId with
      | none => old
      | some repositoryId => if invalidates run.action status then invalidateArchiveCache repositoryId old else old)) :
    (files = old ∨ ∃ repositoryId, run.repositoryId = some repositoryId ∧
        files = invalidateArchiveCache repositoryId old) ∧
      (invalidates run.action status = true → ∀ repositoryId, run.repositoryId = some repositoryId →
        files = invalidateArchiveCache repositoryId old) ∧
      (invalidates run.action status = false → files = old) := by
  rcases hrepository : run.repositoryId with _ | repositoryId
  · rw [hrepository] at hfiles
    exact ⟨.inl hfiles, fun _ _ hnone => (by cases hnone), fun _ => hfiles⟩
  · rw [hrepository] at hfiles
    by_cases hinvalidates : invalidates run.action status = true
    · dsimp only at hfiles
      rw [if_pos hinvalidates] at hfiles
      refine ⟨.inr ⟨repositoryId, rfl, hfiles⟩, ?_, fun hnot => ?_⟩
      · intro _ id hid
        cases hid
        exact hfiles
      · rw [hinvalidates] at hnot
        cases hnot
    · dsimp only at hfiles
      rw [if_neg hinvalidates] at hfiles
      exact ⟨.inl hfiles, fun hyes => absurd hyes hinvalidates, fun _ => hfiles⟩

theorem runEnd_eq_some {runId : Nat} {status : Status} (h : runEnd s runId status = some s') :
    ∃ run, run.id = runId ∧ RunEnds s s' run status := by
  rw [runEnd] at h
  split at h
  · next run queue hget hfinish =>
      obtain ⟨hrun, rfl⟩ := RunTable.get_eq_some.mp hget
      obtain ⟨hterminal, hactive, rfl⟩ := finish_eq_some hfinish
      obtain ⟨row, hrow, hid, hrowactive⟩ := isActive_iff.mp hactive
      rw [s.queue.runs.eq_of_id_eq hrow hrun hid] at hrowactive
      cases h
      obtain ⟨hfiles, hinvalidated, hpreserved⟩ := runEnd_files (Eq.refl _)
      exact ⟨run, rfl, hrun, hrowactive, hterminal, rfl, rfl, Function.update_self ..,
        fun id hne => Function.update_of_ne hne .., Function.update_self ..,
        fun id hne => Function.update_of_ne hne .., hfiles, hinvalidated, hpreserved⟩
  · cases h

theorem RunEnds.loads {run : Run} {status : Status} (h : RunEnds s s' run status) (repositoryId : Nat)
    (considerCheckpoints : Bool) : ∀ data ∈ loadArchiveCache s' repositoryId considerCheckpoints,
      data ∈ loadArchiveCache s repositoryId considerCheckpoints := by
  intro data hdata
  rcases h.files with hfiles | ⟨id, _, hfiles⟩
  · rw [load_congr hfiles] at hdata
    exact hdata
  · exact (load_invalidated hfiles hdata).2

theorem RunEnds.ends {run : Run} {status : Status} (h : RunEnds s s' run status) : Ends t s s' where
  tracked := by
    intro htracked
    have hactive : isActive s.queue run.id = true := isActive_iff.mpr ⟨run, h.mem, rfl, h.active⟩
    rw [h.queue]
    exact RowChange.tracked (.status run.id status hactive rfl rfl rfl) htracked
  clock := h.clock
  rows := by
    intro row' hrow'
    rw [h.queue] at hrow'
    obtain ⟨row, hrow, rfl⟩ := RunTable.mem_setStatus.mp hrow'
    refine ⟨row, hrow, (writeStatus_id ..).symm, (physicalKey_writeStatus ..).symm, fun hrunning => ?_⟩
    by_cases hid : row.id = run.id
    · rw [writeStatus_of_eq hid, setStatus_status] at hrunning
      have hterminal := h.terminal
      rw [hrunning] at hterminal
      nomatch hterminal
    · exact writeStatus_of_ne hid status
  kept := by
    intro row hrow
    rw [h.queue]
    by_cases hid : row.id = run.id
    · refine .inr ⟨writeStatus run.id status row, RunTable.mem_setStatus.mpr ⟨row, hrow, rfl⟩,
        writeStatus_id .., writeStatus_action ..,
        physicalKey_writeStatus .., ?_, hid ▸ h.ended⟩
      rw [writeStatus_of_eq hid]
      exact h.terminal
    · exact .inl (RunTable.mem_setStatus.mpr ⟨row, hrow, writeStatus_of_ne hid status⟩)
  commands := by
    intro id
    by_cases heq : id = run.id
    · exact .inr (heq ▸ h.ended)
    · exact .inl (h.others id heq)
  scans := by
    intro id scan hscan
    by_cases heq : id = run.id
    · rw [heq, h.noScan] at hscan
      nomatch hscan
    · rw [h.scans id heq] at hscan
      refine ⟨hscan, fun row hrow hid => ?_⟩
      rw [h.queue]
      exact RunTable.mem_setStatus.mpr ⟨row, hrow, writeStatus_of_ne (hid ▸ heq) status⟩
  loads := h.loads

/-- A row that the end of a run takes away is the row of the run. -/
theorem RunEnds.eq_of_ended {run row : Run} {status : Status} (h : RunEnds s s' run status)
    (hrow : row ∈ s.queue.runs.rows) (hended : row ∉ s'.queue.runs.rows) : row = run := by
  by_contra hne
  apply hended
  rw [h.queue]
  refine RunTable.mem_setStatus.mpr ⟨row, hrow, writeStatus_of_ne (fun hid => hne ?_) status⟩
  exact s.queue.runs.eq_of_id_eq hrow h.mem hid

theorem recoverRow_eq (row : Run) : RunStatus.recoverRow row = row ∨
    (RunStatus.recoverRow row = setStatus row .failed ∧ row.status.active = true) := by
  rw [RunStatus.recoverRow]
  split
  · next hactive => exact .inr ⟨rfl, hactive⟩
  · exact .inl rfl

theorem recoverRow_inactive (row : Run) : (RunStatus.recoverRow row).status.active = false := by
  rw [RunStatus.recoverRow]
  split
  · rfl
  · next hactive => simpa using hactive

theorem mem_restart {row' : Run} : row' ∈ (restart s).queue.runs.rows ↔
    ∃ row ∈ s.queue.runs.rows, RunStatus.recoverRow row = row' := List.mem_map

theorem restart_ends (s : Caching) : Ends t s (restart s) where
  tracked := by
    intro _ row hrow hactive
    obtain ⟨old, _, rfl⟩ := mem_restart.mp hrow
    rw [recoverRow_inactive] at hactive
    nomatch hactive
  clock := rfl
  rows := by
    intro row' hrow'
    obtain ⟨row, hrow, rfl⟩ := mem_restart.mp hrow'
    rcases recoverRow_eq row with heq | ⟨heq, _⟩
    · exact ⟨row, hrow, by rw [heq], by rw [heq], fun _ => heq⟩
    · refine ⟨row, hrow, by rw [heq]; rfl, by rw [heq]; rfl, fun hrunning => ?_⟩
      rw [heq] at hrunning
      nomatch hrunning
  kept := by
    intro row hrow
    have hmem : RunStatus.recoverRow row ∈ (restart s).queue.runs.rows := mem_restart.mpr ⟨row, hrow, rfl⟩
    rcases recoverRow_eq row with heq | ⟨heq, _⟩
    · exact .inl (heq ▸ hmem)
    · rw [heq] at hmem
      exact .inr ⟨_, hmem, rfl, rfl, rfl, rfl, rfl⟩
  commands := fun _ => .inr rfl
  scans := fun _ _ hscan => nomatch hscan
  loads := fun _ _ _ hdata => hdata

/-- The scan of a refresh begins. -/
structure ScanStarts (s s' : Caching) (run : Run) (considerCheckpoints : Bool) : Prop where
  ticks : Ticks s s'
  mem : run ∈ s.queue.runs.rows
  running : run.status = .running
  refresh : run.action = .archiveRefresh
  started : s'.scans run.id = some ⟨s.clock, considerCheckpoints⟩
  others : ∀ id, id ≠ run.id → s'.scans id = s.scans id
  commands : s'.commands = s.commands
  files : s'.files = s.files

theorem scanStart_eq_some {runId : Nat} {considerCheckpoints : Bool}
    (h : scanStart s runId considerCheckpoints = some s') :
    ∃ run, ScanStarts s s' run considerCheckpoints := by
  rw [scanStart] at h
  split at h
  · nomatch h
  · next run hget =>
      obtain ⟨hrun, rfl⟩ := RunTable.get_eq_some.mp hget
      split at h
      · next hguard =>
          cases h
          exact ⟨run, ⟨rfl, rfl⟩, hrun, hguard.1, hguard.2, Function.update_self ..,
            fun id hne => Function.update_of_ne hne .., rfl, rfl⟩
      · nomatch h

theorem scannedAfter_congr (hqueue : s'.queue = s.queue) (hcommands : s'.commands = s.commands) {key : ExecutionKey}
    {instant : Nat} (h : ScannedAfter t s key instant) : ScannedAfter t s' key instant := by
  rw [ScannedAfter, hqueue, hcommands]
  exact h

/-- While a refresh is running no command of its repository is open. -/
theorem Consistent.scannedAfter_now (hs : Consistent t s) {run : Run} (hrun : run ∈ s.queue.runs.rows)
    (hrunning : run.status = .running) (hrefresh : run.action = .archiveRefresh) {key : ExecutionKey}
    (hkey : physicalKey t run = some key) : ScannedAfter t s key s.clock := by
  intro row hrow hrowkey command hcommand
  obtain ⟨other, hother, hid, hof⟩ := hs.commands row.id command hcommand
  rw [s.queue.runs.eq_of_id_eq hother hrow hid] at hof
  rcases hended : command.endedAt with _ | ended
  · exact (hs.no_scan_beside hrow hrun (hof.running hended) hrunning hof.modifies hrefresh hrowkey hkey).elim
  · exact ⟨ended, rfl, (hof.endedAt ended hended).2⟩

theorem ScanStarts.consistent {run : Run} {considerCheckpoints : Bool} (h : ScanStarts s s' run considerCheckpoints)
    (hs : Consistent t s) : Consistent t s' := by
  have hclock : s.clock < s'.clock := by
    rw [h.ticks.clock]
    exact Nat.lt_succ_self _
  refine ⟨h.ticks.queue ▸ hs.tracked, h.ticks.queue ▸ hs.alone, ?_, ?_, ?_, ?_⟩
  · intro id command hcommand
    rw [h.commands] at hcommand
    rw [h.ticks.queue]
    obtain ⟨row, hrow, hid, hof⟩ := hs.commands id command hcommand
    exact ⟨row, hrow, hid, hof.tick hclock.le⟩
  · intro id scan hscan
    rw [h.ticks.queue]
    by_cases heq : id = run.id
    · rw [heq, h.started] at hscan
      cases hscan
      exact ⟨run, h.mem, heq.symm, ⟨h.running, h.refresh, hclock, fun key hkey =>
        scannedAfter_congr h.ticks.queue h.commands (hs.scannedAfter_now h.mem h.running h.refresh hkey)⟩⟩
    · rw [h.others id heq] at hscan
      obtain ⟨row, hrow, hid, hof⟩ := hs.scans id scan hscan
      exact ⟨row, hrow, hid, ⟨hof.running, hof.refresh, hof.startedAt.trans hclock, fun key hkey =>
        scannedAfter_congr h.ticks.queue h.commands (hof.after key hkey)⟩⟩
  · intro repositoryId considerCheckpoints data hdata
    rw [load_congr h.files] at hdata
    exact (hs.files _ _ data hdata).trans hclock
  · rw [h.ticks.queue, h.commands]
    intro row hrow hrunning command hcommand repository hrepository hkey considerCheckpoints data hdata
    rw [load_congr h.files] at hdata
    exact hs.older row hrow hrunning command hcommand repository hrepository hkey considerCheckpoints data hdata

theorem ScanStarts.settled {run : Run} {considerCheckpoints : Bool} (h : ScanStarts s s' run considerCheckpoints)
    (hsettled : Settled t s) : Settled t s' := by
  intro repository hrepository considerCheckpoints data hdata
  rw [load_congr h.files] at hdata
  rw [h.ticks.queue, h.commands]
  exact (hsettled repository hrepository considerCheckpoints data hdata).imp id
    (scannedAfter_congr h.ticks.queue h.commands)

/-- A refresh stores its list. -/
structure Stores (s s' : Caching) (run : Run) (scan : Scan) : Prop where
  mem : run ∈ s.queue.runs.rows
  scanned : s.scans run.id = some scan
  queue : s'.queue = s.queue
  clock : s'.clock = s.clock
  commands : s'.commands = s.commands
  scans : s'.scans = s.scans
  loads : ∀ id considerCheckpoints, ∀ data ∈ loadArchiveCache s' id considerCheckpoints,
    data ∈ loadArchiveCache s id considerCheckpoints ∨ (run.repositoryId = some id ∧ data.scannedAt = scan.startedAt)

theorem load_stored {repositoryId id : Nat} {considerCheckpoints asked : Bool} {stored data : Dataset}
    (hfiles : s'.files = storeArchiveCache repositoryId considerCheckpoints stored s.files)
    (h : data ∈ loadArchiveCache s' id asked) :
    data ∈ loadArchiveCache s id asked ∨ (repositoryId = id ∧ data = stored) := by
  rw [loadArchiveCache, hfiles, storeArchiveCache] at h
  by_cases hid : id = repositoryId
  · subst hid
    rw [Function.update_self] at h
    by_cases hasked : asked = considerCheckpoints
    · rw [hasked, Function.update_self] at h
      simp only [and_self, if_true] at h
      exact .inr ⟨rfl, (Option.some.inj h).symm⟩
    · rw [Function.update_of_ne hasked] at h
      exact .inl h
  · rw [Function.update_of_ne hid] at h
    exact .inl h

theorem store_eq_some {runId : Nat} {archives : List Archive} (h : store s runId archives = some s') :
    ∃ run scan, Stores s s' run scan := by
  rw [store] at h
  split at h
  · next run scan hget hscan =>
      obtain ⟨hrun, rfl⟩ := RunTable.get_eq_some.mp hget
      split at h
      · nomatch h
      · next repositoryId hrepository =>
          dsimp only at h
          split at h
          · cases h
            refine ⟨run, scan, hrun, hscan, rfl, rfl, rfl, rfl, ?_⟩
            intro id asked data hdata
            rcases load_stored (s := { s with
              files := storeArchiveCache repositoryId scan.considerCheckpoints ⟨archives, scan.startedAt⟩ s.files })
              rfl hdata with hold | ⟨rfl, rfl⟩
            · rcases load_stored rfl hold with hold | ⟨rfl, rfl⟩
              · exact .inl hold
              · exact .inr ⟨hrepository, rfl⟩
            · exact .inr ⟨hrepository, rfl⟩
          · cases h
            refine ⟨run, scan, hrun, hscan, rfl, rfl, rfl, rfl, ?_⟩
            intro id asked data hdata
            rcases load_stored rfl hdata with hold | ⟨rfl, rfl⟩
            · exact .inl hold
            · exact .inr ⟨hrepository, rfl⟩
  · nomatch h

theorem physicalKey_of_repositoryId {run : Run} {id : Nat} (h : run.repositoryId = some id) :
    physicalKey t run = some (repositoryExecutionKeyById t id) := by
  rw [physicalKey, repositoryExecutionKeyById, repositoryOf, h]
  rfl

theorem Stores.scanOf {run : Run} {scan : Scan} (h : Stores s s' run scan) (hs : Consistent t s) :
    ScanOf t s run scan := by
  obtain ⟨row, hrow, hid, hof⟩ := hs.scans run.id scan h.scanned
  rw [← s.queue.runs.eq_of_id_eq hrow h.mem hid]
  exact hof

theorem Stores.consistent {run : Run} {scan : Scan} (h : Stores s s' run scan) (hs : Consistent t s) :
    Consistent t s' := by
  have hscan := h.scanOf hs
  refine ⟨h.queue ▸ hs.tracked, h.queue ▸ hs.alone, ?_, ?_, ?_, ?_⟩
  · rw [h.commands, h.queue]
    intro id command hcommand
    obtain ⟨row, hrow, hid, hof⟩ := hs.commands id command hcommand
    exact ⟨row, hrow, hid, hof.tick h.clock.ge⟩
  · rw [h.scans, h.queue]
    intro id other hother
    obtain ⟨row, hrow, hid, hof⟩ := hs.scans id other hother
    exact ⟨row, hrow, hid, ⟨hof.running, hof.refresh, h.clock ▸ hof.startedAt, fun key hkey =>
      scannedAfter_congr h.queue h.commands (hof.after key hkey)⟩⟩
  · rw [h.clock]
    intro repositoryId considerCheckpoints data hdata
    rcases h.loads _ _ data hdata with hold | ⟨_, heq⟩
    · exact hs.files _ _ data hold
    · rw [heq]
      exact hscan.startedAt
  · rw [h.commands, h.queue]
    intro row hrow hrunning command hcommand repository hrepository hkey considerCheckpoints data hdata
    rcases h.loads _ _ data hdata with hold | ⟨hid, _⟩
    · exact hs.older row hrow hrunning command hcommand repository hrepository hkey considerCheckpoints data hold
    · obtain ⟨other, hother, hoid, hof⟩ := hs.commands row.id command hcommand
      rw [s.queue.runs.eq_of_id_eq hother hrow hoid] at hof
      exact (hs.no_scan_beside hrow h.mem hrunning hscan.running hof.modifies hscan.refresh hkey
        (physicalKey_of_repositoryId hid)).elim

theorem Stores.settled {run : Run} {scan : Scan} (h : Stores s s' run scan) (hs : Consistent t s)
    (hsettled : Settled t s) : Settled t s' := by
  intro repository hrepository considerCheckpoints data hdata
  rw [h.queue, h.commands]
  rcases h.loads _ _ data hdata with hold | ⟨hid, heq⟩
  · exact (hsettled repository hrepository considerCheckpoints data hold).imp id (scannedAfter_congr h.queue h.commands)
  · rw [heq]
    exact .inr (scannedAfter_congr h.queue h.commands
      ((h.scanOf hs).after _ (physicalKey_of_repositoryId hid)))

end BorgManager.ArchiveCommands
