import Mathlib.Data.List.Nodup
import Mathlib.Logic.Function.Basic
import BorgManager.Records
import BorgManager.RunLogs

namespace BorgManager.RunHistory

open Histories Records ElidedLogs RunLogs

/-- A row of `runs`. The serial number says which run it is, however often its
id is given out. -/
structure RunRow where
  id : Nat
  serial : Nat
  jobId : Option Nat
  action : Action
  status : Status
  createdAt : Int
  deriving DecidableEq

/-- The bytes of a log file, each with the run that it was written for. -/
abbrev TaggedLog := List (Nat × UInt8)

/-- The rows, the ids of all runs that were ever created in the order of their
serial numbers, the log files by id, and for each cleanup in its thread the ids
whose log files it still has to delete. -/
structure LogStore where
  rows : List RunRow
  issued : List Nat
  logs : Nat → Option TaggedLog
  cleanups : List (List Nat)

inductive CleanupMode
  | age (retentionDays : Nat)
  | allFinished

inductive HistoryEvent
  | create (jobId : Option Nat) (action : Action) (createdAt : Int)
  | setStatus (serial : Nat) (status : Status)
  | write (serial : Nat) (data : Bytes) (maxBytes : Nat)
  | cleanup (mode : CleanupMode) (now : Int) (jobs : List Nat)
  | unlink (thread : Nat)
  | unlinkFailed (thread : Nat)

def nextRunId (rows : List RunRow) : Nat := nextId (rows.map RunRow.id)

/-- `retained_run_ids_for_existing_jobs`: the newest successful backup run of
each job. -/
def retainedRunIds (rows : List RunRow) (jobs : List Nat) : List Nat :=
  jobs.filterMap fun job =>
    ((rows.filter fun r => r.action == .backup && r.jobId == some job &&
      (r.status == .success || r.status == .warning)).map RunRow.id).max?

def secondsPerDay : Int := 86400

/-- The query of `cleanup_run_history`. -/
def expired (mode : CleanupMode) (now : Int) (protectedIds : List Nat) (r : RunRow) : Bool :=
  r.status.terminal &&
    match mode with
    | .allFinished => true
    | .age days => decide (r.createdAt < now - days * secondsPerDay) && !protectedIds.contains r.id

def cleanupIds (rows : List RunRow) (mode : CleanupMode) (now : Int) (jobs : List Nat) : List Nat :=
  (rows.filter (expired mode now (retainedRunIds rows jobs))).map RunRow.id

/-- A retention of 0 days keeps everything. -/
def CleanupMode.enabled : CleanupMode → Bool
  | .age days => decide (0 < days)
  | .allFinished => true

/-- The rows go first; the log files follow one by one. -/
def cleanupRunHistory (s : LogStore) (mode : CleanupMode) (now : Int) (jobs : List Nat) : LogStore :=
  if mode.enabled then
    { s with
      rows := s.rows.filter (fun r => !(cleanupIds s.rows mode now jobs).contains r.id)
      cleanups := s.cleanups ++ [cleanupIds s.rows mode now jobs] }
  else s

def createRun (s : LogStore) (jobId : Option Nat) (action : Action) (createdAt : Int) : LogStore :=
  { s with
    rows := s.rows ++ [⟨nextRunId s.rows, s.issued.length, jobId, action, .queued, createdAt⟩]
    issued := s.issued ++ [nextRunId s.rows] }

/-- The compaction of a log by the writer of one run. -/
def compactLog (serial : Nat) (log : TaggedLog) (maxBytes : Nat) : TaggedLog :=
  if maxBytes = 0 then log
  else if log.length ≤ maxBytes + compactMargin then log
  else elide (truncationMarker.map (Prod.mk serial)) (headSize maxBytes) (tailSize maxBytes) log

/-- A writer appends to the file that its path names, whoever has written it. -/
def appendLog (log : Option TaggedLog) (serial : Nat) (data : Bytes) (maxBytes : Nat) : TaggedLog :=
  compactLog serial (log.getD [] ++ data.map (Prod.mk serial)) maxBytes

def setRunStatus (s : LogStore) (serial : Nat) (status : Status) : LogStore :=
  { s with rows := s.rows.map (fun r => if r.serial = serial ∧ r.status.active = true then
    { r with status := status } else r) }

def setLog (s : LogStore) (id : Nat) (log : Option TaggedLog) : LogStore :=
  { s with logs := Function.update s.logs id log }

theorem logs_setLog (s : LogStore) (id : Nat) (log : Option TaggedLog) : (setLog s id log).logs id = log :=
  Function.update_self ..

theorem logs_setLog_of_ne (s : LogStore) {id id' : Nat} (h : id' ≠ id) (log : Option TaggedLog) :
    (setLog s id log).logs id' = s.logs id' := Function.update_of_ne h ..

/-- A cleanup turns to the next id on its list. -/
def dropFirst (s : LogStore) (thread : Nat) (rest : List Nat) : LogStore :=
  { s with cleanups := s.cleanups.set thread rest }

def historyNext (s : LogStore) : HistoryEvent → Option LogStore
  | .create jobId action createdAt => some (createRun s jobId action createdAt)
  | .setStatus serial status => some (setRunStatus s serial status)
  | .write serial data maxBytes =>
      if data = [] then none
      else s.issued[serial]?.map fun id => setLog s id (some (appendLog (s.logs id) serial data maxBytes))
  | .cleanup mode now jobs => some (cleanupRunHistory s mode now jobs)
  | .unlink thread =>
      match s.cleanups[thread]? with
      | some (id :: rest) => some (setLog (dropFirst s thread rest) id none)
      | _ => none
  | .unlinkFailed thread =>
      match s.cleanups[thread]? with
      | some (_ :: rest) => some (dropFirst s thread rest)
      | _ => none

def historyStep : Transition LogStore HistoryEvent := graph historyNext

/-- The logs of the runs that exist have only bytes written for them. -/
def OwnLogs (s : LogStore) : Prop :=
  ∀ r ∈ s.rows, ∀ log ∈ s.logs r.id, ∀ entry ∈ log, entry.1 = r.serial

/-- A cleanup does not delete the log of a run that exists. -/
def SparesLogs (s : LogStore) : HistoryEvent → Prop
  | .unlink thread => ∀ ids ∈ s.cleanups[thread]?, ∀ id ∈ ids.head?, (s.logs id).isSome = true → ∀ r ∈ s.rows, r.id ≠ id
  | _ => True

/-- An id is only given out again after the log of its last run is gone, and
a run does not write once its id is another run's. -/
def Retired (s : LogStore) : HistoryEvent → Prop
  | .create _ _ _ =>
      (s.logs (nextRunId s.rows)).getD [] = [] ∧ ∀ ids ∈ s.cleanups, nextRunId s.rows ∉ ids
  | .write serial _ _ => ∀ id ∈ s.issued[serial]?, ∀ r ∈ s.rows, r.id = id → r.serial = serial
  | _ => True

instance : (s : LogStore) → (e : HistoryEvent) → Decidable (Retired s e)
  | s, .create _ _ _ => inferInstanceAs (Decidable (_ ∧ ∀ ids ∈ s.cleanups, nextRunId s.rows ∉ ids))
  | s, .write serial _ _ =>
      inferInstanceAs (Decidable (∀ id ∈ s.issued[serial]?, ∀ r ∈ s.rows, r.id = id → r.serial = serial))
  | _, .setStatus _ _ => .isTrue trivial
  | _, .cleanup _ _ _ => .isTrue trivial
  | _, .unlink _ => .isTrue trivial
  | _, .unlinkFailed _ => .isTrue trivial

theorem bytes_compactLog (serial : Nat) (log : TaggedLog) (maxBytes : Nat) :
    (compactLog serial log maxBytes).map Prod.snd = compactRunLog (log.map Prod.snd) maxBytes := by
  have hmarker : (truncationMarker.map (Prod.mk serial)).map Prod.snd = truncationMarker := by
    rw [List.map_map]
    exact List.map_id _
  rw [compactLog, compactRunLog, List.length_map]
  split
  · rfl
  · split
    · rfl
    · rw [map_elide, hmarker]

/-- The bytes of a log after a write, whoever they are for. -/
theorem bytes_appendLog (log : Option TaggedLog) (serial : Nat) (data : Bytes) (maxBytes : Nat) :
    (appendLog log serial data maxBytes).map Prod.snd =
      compactRunLog ((log.getD []).map Prod.snd ++ data) maxBytes := by
  have hdata : (data.map (Prod.mk serial)).map Prod.snd = data := by
    rw [List.map_map]
    exact List.map_id _
  rw [appendLog, bytes_compactLog, List.map_append, hdata]

theorem mem_appendLog {log : Option TaggedLog} {serial : Nat} {data : Bytes} {maxBytes : Nat} {entry : Nat × UInt8}
    (h : entry ∈ appendLog log serial data maxBytes) : entry.1 = serial ∨ ∃ old ∈ log, entry ∈ old := by
  have hwritten : entry ∈ log.getD [] ++ data.map (Prod.mk serial) → entry.1 = serial ∨ ∃ old ∈ log, entry ∈ old := by
    intro hmem
    rcases List.mem_append.mp hmem with hold | hnew
    · right
      cases log with
      | none => nomatch hold
      | some old => exact ⟨old, rfl, hold⟩
    · left
      obtain ⟨b, -, rfl⟩ := List.mem_map.mp hnew
      rfl
  rw [appendLog, compactLog] at h
  split at h
  · exact hwritten h
  · split at h
    · exact hwritten h
    · rcases mem_elide h with hmarker | hlog
      · obtain ⟨b, -, rfl⟩ := List.mem_map.mp hmarker
        exact .inl rfl
      · exact hwritten hlog

/-- A write leaves bytes of its run in the log. -/
theorem exists_mem_appendLog (log : Option TaggedLog) (serial : Nat) {data : Bytes} (hdata : data ≠ [])
    (maxBytes : Nat) :
    ∃ entry ∈ appendLog log serial data maxBytes, entry.1 = serial := by
  obtain ⟨b, data, rfl⟩ := List.exists_cons_of_ne_nil hdata
  have hwritten : (serial, b) ∈ log.getD [] ++ (b :: data).map (Prod.mk serial) := by simp
  rw [appendLog, compactLog]
  split
  · exact ⟨_, hwritten, rfl⟩
  · split
    · exact ⟨_, hwritten, rfl⟩
    · refine ⟨(serial, 10), ?_, rfl⟩
      rw [elide, marker_eq]
      simp

/-- What holds of the rows and files of every state: ids are given to one row
at a time, and files hold bytes of runs that were created. -/
structure Sound (s : LogStore) : Prop where
  keyed : (s.rows.map RunRow.id).Nodup
  issued : ∀ r ∈ s.rows, s.issued[r.serial]? = some r.id
  tagged : ∀ id, ∀ log ∈ s.logs id, ∀ entry ∈ log, entry.1 < s.issued.length

variable {s t : LogStore} {e : HistoryEvent}

theorem id_lt_nextRunId {rows : List RunRow} {r : RunRow} (h : r ∈ rows) : r.id < nextRunId rows :=
  lt_nextId (List.mem_map_of_mem h)

namespace Sound

theorem create (h : Sound s) (jobId : Option Nat) (action : Action) (createdAt : Int) :
    Sound (createRun s jobId action createdAt) where
  keyed := by
    rw [createRun, List.map_append, List.map_singleton]
    refine List.nodup_append.mpr ⟨h.keyed, List.nodup_singleton _, ?_⟩
    intro id hid id' hid' heq
    obtain ⟨r, hr, rfl⟩ := List.mem_map.mp hid
    have hlt := id_lt_nextRunId hr
    have hnew : r.id = nextRunId s.rows := heq.trans (List.mem_singleton.mp hid')
    omega
  issued r hr := by
    rcases List.mem_append.mp hr with hold | hnew
    · have hissued := h.issued r hold
      have hlt := (List.getElem?_eq_some_iff.mp hissued).1
      rw [createRun, List.getElem?_append_left hlt]
      exact hissued
    · rw [List.mem_singleton.mp hnew]
      simp [createRun]
  tagged id log hlog entry hentry := by
    have hlt := h.tagged id log hlog entry hentry
    simp only [createRun, List.length_append, List.length_singleton]
    omega

theorem setStatus (h : Sound s) (serial : Nat) (status : Status) : Sound (setRunStatus s serial status) where
  keyed := by
    rw [setRunStatus, List.map_map]
    have hsame : (RunRow.id ∘ fun r : RunRow =>
        if r.serial = serial ∧ r.status.active = true then { r with status := status } else r) = RunRow.id := by
      funext r
      simp only [Function.comp_apply]
      split <;> rfl
    rw [hsame]
    exact h.keyed
  issued r hr := by
    obtain ⟨old, hold, rfl⟩ := List.mem_map.mp hr
    split
    · exact h.issued old hold
    · exact h.issued old hold
  tagged := h.tagged

theorem write (h : Sound s) {serial id : Nat} (hid : s.issued[serial]? = some id) (data : Bytes) (maxBytes : Nat) :
    Sound (setLog s id (some (appendLog (s.logs id) serial data maxBytes))) where
  keyed := h.keyed
  issued := h.issued
  tagged id' log hlog entry hentry := by
    by_cases heq : id' = id
    · rw [heq, logs_setLog] at hlog
      cases hlog
      rcases mem_appendLog hentry with hown | ⟨old, hold, hentry⟩
      · rw [hown]
        exact (List.getElem?_eq_some_iff.mp hid).1
      · exact h.tagged id old hold entry hentry
    · rw [logs_setLog_of_ne _ heq] at hlog
      exact h.tagged id' log hlog entry hentry

theorem cleanup (h : Sound s) (mode : CleanupMode) (now : Int) (jobs : List Nat) :
    Sound (cleanupRunHistory s mode now jobs) := by
  rw [cleanupRunHistory]
  split
  · exact ⟨h.keyed.sublist (List.filter_sublist.map _), fun r hr => h.issued r (List.mem_of_mem_filter hr), h.tagged⟩
  · exact h

theorem unlink (h : Sound s) (thread : Nat) (rest : List Nat) (id : Nat) :
    Sound (setLog (dropFirst s thread rest) id none) where
  keyed := h.keyed
  issued := h.issued
  tagged id' log hlog entry hentry := by
    by_cases heq : id' = id
    · rw [heq, logs_setLog] at hlog
      nomatch hlog
    · rw [logs_setLog_of_ne _ heq] at hlog
      exact h.tagged id' log hlog entry hentry

end Sound

/-- The steps, with what each of them finds. -/
inductive Steps (s : LogStore) : HistoryEvent → LogStore → Prop
  | create (jobId action createdAt) : Steps s (.create jobId action createdAt) (createRun s jobId action createdAt)
  | setStatus (serial status) : Steps s (.setStatus serial status) (setRunStatus s serial status)
  | write {serial id data} (maxBytes) (some_data : data ≠ []) (issued : s.issued[serial]? = some id) :
      Steps s (.write serial data maxBytes)
        (setLog s id (some (appendLog (s.logs id) serial data maxBytes)))
  | cleanup (mode now jobs) : Steps s (.cleanup mode now jobs) (cleanupRunHistory s mode now jobs)
  | unlink {thread id rest} (pending : s.cleanups[thread]? = some (id :: rest)) :
      Steps s (.unlink thread) (setLog (dropFirst s thread rest) id none)
  | unlinkFailed {thread id rest} (pending : s.cleanups[thread]? = some (id :: rest)) :
      Steps s (.unlinkFailed thread) (dropFirst s thread rest)

theorem steps_of_next (h : historyNext s e = some t) : Steps s e t := by
  cases e with
  | create jobId action createdAt => cases h; exact .create jobId action createdAt
  | setStatus serial status => cases h; exact .setStatus serial status
  | write serial data maxBytes =>
      rw [historyNext] at h
      split at h
      · nomatch h
      · next hdata =>
        obtain ⟨id, hid, rfl⟩ := Option.map_eq_some_iff.mp h
        exact .write maxBytes hdata hid
  | cleanup mode now jobs => cases h; exact .cleanup mode now jobs
  | unlink thread =>
      rw [historyNext] at h
      split at h
      · next hpending => cases h; exact .unlink hpending
      · nomatch h
  | unlinkFailed thread =>
      rw [historyNext] at h
      split at h
      · next hpending => cases h; exact .unlinkFailed hpending
      · nomatch h

theorem Steps.sound (h : Steps s e t) (hs : Sound s) : Sound t := by
  cases h with
  | create jobId action createdAt => exact hs.create jobId action createdAt
  | setStatus serial status => exact hs.setStatus serial status
  | write maxBytes _ hissued => exact hs.write hissued _ maxBytes
  | cleanup mode now jobs => exact hs.cleanup mode now jobs
  | unlink _ => exact hs.unlink _ _ _
  | unlinkFailed _ => exact ⟨hs.keyed, hs.issued, hs.tagged⟩

/-- The logs of the runs that exist are theirs, and no cleanup is going to
delete one of them. -/
structure Separate (s : LogStore) : Prop where
  own : OwnLogs s
  pending : ∀ ids ∈ s.cleanups, ∀ id ∈ ids, ∀ r ∈ s.rows, r.id ≠ id

theorem Separate.spares (h : Separate s) (e : HistoryEvent) : SparesLogs s e := by
  cases e with
  | unlink thread =>
      intro ids hids id hid _ r hr
      exact h.pending ids (List.mem_of_getElem? hids) id (List.mem_of_mem_head? hid) r hr
  | _ => trivial

theorem cleanups_dropFirst {thread : Nat} {id : Nat} {rest : List Nat}
    (hpending : s.cleanups[thread]? = some (id :: rest)) (h : ∀ ids ∈ s.cleanups, ∀ id ∈ ids, ∀ r ∈ s.rows, r.id ≠ id) :
    ∀ ids ∈ (dropFirst s thread rest).cleanups, ∀ id ∈ ids, ∀ r ∈ s.rows, r.id ≠ id := by
  intro ids hids i hi
  rcases List.mem_or_eq_of_mem_set hids with hold | rfl
  · exact h ids hold i hi
  · exact h _ (List.mem_of_getElem? hpending) i (List.mem_cons_of_mem id hi)

theorem Steps.separate (h : Steps s e t) (hs : Separate s) (hretired : Retired s e) : Separate t := by
  cases h with
  | create jobId action createdAt =>
      obtain ⟨hempty, hfinished⟩ := hretired
      refine ⟨?_, ?_⟩
      · intro r hr log hlog entry hentry
        rcases List.mem_append.mp hr with hold | hnew
        · exact hs.own r hold log hlog entry hentry
        · rw [List.mem_singleton.mp hnew] at hlog
          have hlogs : s.logs (nextRunId s.rows) = some log := hlog
          rw [hlogs] at hempty
          rw [show log = [] from hempty] at hentry
          nomatch hentry
      · intro ids hids id hid r hr
        rcases List.mem_append.mp hr with hold | hnew
        · exact hs.pending ids hids id hid r hold
        · rw [List.mem_singleton.mp hnew]
          rintro rfl
          exact hfinished ids hids hid
  | setStatus serial status =>
      refine ⟨?_, ?_⟩
      · intro r hr
        obtain ⟨old, hold, rfl⟩ := List.mem_map.mp hr
        split
        · exact hs.own old hold
        · exact hs.own old hold
      · intro ids hids id hid r hr
        obtain ⟨old, hold, rfl⟩ := List.mem_map.mp hr
        split
        · exact hs.pending ids hids id hid old hold
        · exact hs.pending ids hids id hid old hold
  | @write serial id data maxBytes hdata hissued =>
      refine ⟨?_, hs.pending⟩
      intro r hr log hlog entry hentry
      by_cases heq : r.id = id
      · have hserial : r.serial = serial := hretired id hissued r hr heq
        rw [heq, logs_setLog] at hlog
        cases hlog
        rcases mem_appendLog hentry with hown | ⟨old, hold, hentry⟩
        · exact hown.trans hserial.symm
        · exact hs.own r hr old (heq ▸ hold) entry hentry
      · rw [logs_setLog_of_ne _ heq] at hlog
        exact hs.own r hr log hlog entry hentry
  | cleanup mode now jobs =>
      rw [cleanupRunHistory]
      split
      · refine ⟨fun r hr => hs.own r (List.mem_of_mem_filter hr), ?_⟩
        intro ids hids id hid r hr
        obtain ⟨hr, hkept⟩ := List.mem_filter.mp hr
        rcases List.mem_append.mp hids with hold | hnew
        · exact hs.pending ids hold id hid r hr
        · rw [List.mem_singleton.mp hnew] at hid
          rintro rfl
          simp only [Bool.not_eq_true', List.contains_eq_mem, decide_eq_false_iff_not] at hkept
          exact hkept hid
      · exact hs
  | @unlink thread id rest hpending =>
      refine ⟨?_, cleanups_dropFirst hpending hs.pending⟩
      intro r hr log hlog
      by_cases heq : r.id = id
      · rw [heq, logs_setLog] at hlog
        nomatch hlog
      · rw [logs_setLog_of_ne _ heq] at hlog
        exact hs.own r hr log hlog
  | unlinkFailed hpending => exact ⟨hs.own, cleanups_dropFirst hpending hs.pending⟩

/-- The logs of runs that exist are theirs, and no step of a cleanup deletes
one. -/
def LogsBelong (s : LogStore) : Prop := OwnLogs s ∧ ∀ e, SparesLogs s e

/-- A cleanup that has the id of an existing run on its list comes to it. -/
theorem cleanup_reaches {r : RunRow} {thread : Nat} {ids : List Nat} (hr : r ∈ s.rows)
    (hlog : (s.logs r.id).isSome = true) (hids : s.cleanups[thread]? = some ids) (hmem : r.id ∈ ids) :
    ∃ es u, History historyStep s es u ∧ ¬ LogsBelong u := by
  induction ids generalizing s with
  | nil => nomatch hmem
  | cons id rest ih =>
      by_cases heq : r.id = id
      · refine ⟨[], s, .nil s, ?_⟩
        rintro ⟨-, hspares⟩
        exact hspares (.unlink thread) _ hids id rfl (heq ▸ hlog) r hr heq
      · have hunlink : historyNext s (.unlink thread) = some (setLog (dropFirst s thread rest) id none) := by
          rw [historyNext, hids]
        have hlt := (List.getElem?_eq_some_iff.mp hids).1
        obtain ⟨es, u, hes, hu⟩ := @ih (setLog (dropFirst s thread rest) id none) hr
          (by rw [logs_setLog_of_ne _ heq]; exact hlog)
          (List.getElem?_set_self hlt) ((List.mem_cons.mp hmem).resolve_left heq)
        exact ⟨_, u, .cons hunlink hes, hu⟩

/-- A step that breaks the condition leads to a state that breaks the
property. -/
theorem Steps.exists_violation (h : Steps s e t) (hs : Sound s) (hretired : ¬ Retired s e) :
    ∃ es u, History historyStep t es u ∧ ¬ LogsBelong u := by
  cases h with
  | create jobId action createdAt =>
      have hrow : (⟨nextRunId s.rows, s.issued.length, jobId, action, .queued, createdAt⟩ : RunRow) ∈
          (createRun s jobId action createdAt).rows := List.mem_append_right _ (List.mem_singleton_self _)
      by_cases hempty : (s.logs (nextRunId s.rows)).getD [] = []
      · -- the id is still on the list of a cleanup: the run writes, then the cleanup comes to it
        obtain ⟨ids, hids, hmem⟩ : ∃ ids ∈ s.cleanups, nextRunId s.rows ∈ ids := by
          by_contra hnone
          push Not at hnone
          exact hretired ⟨hempty, hnone⟩
        obtain ⟨thread, hthread⟩ := List.getElem?_of_mem hids
        have hissued : (createRun s jobId action createdAt).issued[s.issued.length]? = some (nextRunId s.rows) := by
          simp [createRun]
        obtain ⟨v, hv⟩ : ∃ v, v = setLog (createRun s jobId action createdAt) (nextRunId s.rows)
            (some (appendLog (s.logs (nextRunId s.rows)) s.issued.length [0] 0)) := ⟨_, rfl⟩
        have hwrite : historyNext (createRun s jobId action createdAt) (.write s.issued.length [0] 0) = some v := by
          rw [historyNext, if_neg (by decide), hissued, hv]
          rfl
        have hlog : (v.logs (nextRunId s.rows)).isSome = true := by
          rw [hv, logs_setLog]
          rfl
        have hrow' : ⟨nextRunId s.rows, s.issued.length, jobId, action, .queued, createdAt⟩ ∈ v.rows := by
          rw [hv]
          exact hrow
        have hthread' : v.cleanups[thread]? = some ids := by
          rw [hv]
          exact hthread
        obtain ⟨es, u, hes, hu⟩ := cleanup_reaches hrow' hlog hthread' hmem
        exact ⟨_, u, .cons hwrite hes, hu⟩
      · -- bytes of an earlier run are left in the file
        refine ⟨[], _, .nil _, ?_⟩
        rintro ⟨hown, -⟩
        cases hlog : s.logs (nextRunId s.rows) with
        | none =>
            rw [hlog] at hempty
            exact hempty rfl
        | some log =>
            rw [hlog] at hempty
            obtain ⟨entry, rest, rfl⟩ := List.exists_cons_of_ne_nil hempty
            have hold := hs.tagged _ _ hlog entry (List.mem_cons_self ..)
            have hnew := hown _ hrow _ hlog entry (List.mem_cons_self ..)
            dsimp only at hnew
            omega
  | @write serial id data maxBytes hdata hissued =>
      refine ⟨[], _, .nil _, ?_⟩
      rintro ⟨hown, -⟩
      refine hretired ?_
      intro id' hid' r hr hrid
      cases hissued.symm.trans hid'
      obtain ⟨entry, hentry, hserial⟩ := exists_mem_appendLog (s.logs id) serial hdata maxBytes
      have hmine := hown r hr _ (by rw [hrid]; exact logs_setLog s id _) entry hentry
      exact hmine.symm.trans hserial
  | setStatus | cleanup | unlink | unlinkFailed => exact absurd trivial hretired

/-- A store in which no cleanup is under way and every log is its run's. -/
structure Started (s : LogStore) : Prop where
  sound : Sound s
  own : OwnLogs s
  idle : s.cleanups = []

/-- The logs belong to their runs in every state of a run in which every id is
retired with its log, and the first step that breaks the condition leads to a
state in which they do not. -/
theorem logs_belong_to_runs {s₀ : LogStore} (h₀ : Started s₀) :
    (∀ es s, History (meeting historyStep Retired) s₀ es s → LogsBelong s) ∧
    ∀ es s e t, History (meeting historyStep Retired) s₀ es s → historyStep s e t → ¬ Retired s e →
      ∃ es' u, History historyStep t es' u ∧ ¬ LogsBelong u := by
  have hkeeps : ∀ es s, History (meeting historyStep Retired) s₀ es s → Sound s ∧ Separate s := by
    intro es s h
    refine h.invariant (fun s => Sound s ∧ Separate s) ⟨h₀.sound, h₀.own, ?_⟩ ?_
    · rw [h₀.idle]
      nofun
    · rintro a e b ⟨hsound, hseparate⟩ ⟨hstep, hretired⟩
      have hsteps := steps_of_next hstep
      exact ⟨hsteps.sound hsound, hsteps.separate hseparate hretired⟩
  refine ⟨?_, ?_⟩
  · intro es s h
    obtain ⟨-, hseparate⟩ := hkeeps es s h
    exact ⟨hseparate.own, hseparate.spares⟩
  · intro es s e t h hstep hretired
    exact (steps_of_next hstep).exists_violation (hkeeps es s h).1 hretired

def emptyStore : LogStore := ⟨[], [], fun _ => none, []⟩

theorem emptyStore_started : Started emptyStore where
  sound := ⟨List.nodup_nil, nofun, nofun⟩
  own := nofun
  idle := rfl

/-- A run ends, and a cleanup removes its row. -/
def cleanedRun : List HistoryEvent :=
  [.create none .backup 0, .write 0 [97] 0, .setStatus 0 .success, .cleanup .allFinished 0 []]

def afterCleanedRun : LogStore := (exec historyNext emptyStore cleanedRun).get (by decide)

theorem cleanedRun_history : History (meeting historyStep Retired) emptyStore cleanedRun afterCleanedRun :=
  history_of_along (Option.some_get _).symm (by decide)

theorem logs_belong_to_runs_cleaned :
    LogsBelong afterCleanedRun ∧
      ∃ es u, History historyStep (createRun afterCleanedRun none .backup 1) es u ∧ ¬ LogsBelong u := by
  have hlogs := logs_belong_to_runs emptyStore_started
  exact ⟨hlogs.1 _ _ cleanedRun_history,
    hlogs.2 _ _ (.create none .backup 1) _ cleanedRun_history rfl (by decide)⟩

/-- The next run gets the id of the removed row and writes its log, before the
cleanup deletes the log of the removed run. -/
def reusedId : List HistoryEvent := cleanedRun ++ [.create none .backup 1, .write 1 [98] 0]

def afterReusedId : LogStore := (exec historyNext emptyStore reusedId).get (by decide)

theorem cleanup_deletes_new_log :
    ¬ ∀ s₀ es s, Started s₀ → History historyStep s₀ es s → LogsBelong s := by
  intro hclaim
  have hhistory : History historyStep emptyStore reusedId afterReusedId := history_of_exec (Option.some_get _).symm
  obtain ⟨-, hspares⟩ := hclaim _ _ _ emptyStore_started hhistory
  exact hspares (.unlink 0) [1] rfl 1 rfl (by decide) ⟨1, 1, none, .backup, .queued, 1⟩ (by decide) rfl

end BorgManager.RunHistory
