import BorgManager.Histories
import BorgManager.KeyedTables
import BorgManager.Records
import BorgManager.SecretStore
import Mathlib.Logic.Function.Basic

namespace BorgManager.SourceStatistics

open Histories Records
open KeyedTables (column)
open SecretStore (Text)

/-- The columns of a job that decide what a run reads on the device. -/
structure Inputs where
  hostId : Nat
  sourcePathsJson : Text
  excludePatternsJson : Text
  createOptionsJson : Text
  deriving DecidableEq

inductive Origin
  | backup
  | scan
  deriving DecidableEq

/-- The columns of a job about its sources. -/
structure Statistics where
  sizeBytes : Option Nat
  fileCount : Option Nat
  checkedAt : Option Nat
  origin : Option Origin
  detailJson : Text

def emptyDetail : Text := "\x7b\x7d".toList

def Statistics.cleared : Statistics := ⟨none, none, none, none, emptyDetail⟩

structure Job where
  inputs : Inputs
  statistics : Statistics

structure Run where
  jobId : Option Nat
  action : Action
  status : Status
  inputs : Inputs
  sourceSizeSnapshot : Option Nat
  fileCountSnapshot : Option Nat

/-- What the output of a run says about the sources. -/
structure Report where
  sizeBytes : Nat
  fileCount : Option Nat
  detailJson : Text

/-- A request that edits a job holds the row as it was loaded. -/
structure Database (Client : Type) where
  reserved : List Nat
  jobs : Nat → Option Job
  runs : Nat → Option Run
  edits : Client → Option (Nat × Job)

def measuring : Action → Bool
  | .backup | .sourceStats => true
  | _ => false

def statisticsOf (action : Action) (now : Nat) (report : Report) : Statistics where
  sizeBytes := some report.sizeBytes
  fileCount := report.fileCount
  checkedAt := some now
  origin := some (if action = .backup then .backup else .scan)
  detailJson := if action = .sourceStats then report.detailJson else emptyDetail

/-- The `UPDATE` of the inputs: a column is written if it is not what was loaded. -/
def Inputs.written (loaded new current : Inputs) : Inputs where
  hostId := column loaded.hostId new.hostId current.hostId
  sourcePathsJson := column loaded.sourcePathsJson new.sourcePathsJson current.sourcePathsJson
  excludePatternsJson := column loaded.excludePatternsJson new.excludePatternsJson current.excludePatternsJson
  createOptionsJson := column loaded.createOptionsJson new.createOptionsJson current.createOptionsJson

def Statistics.written (loaded new current : Statistics) : Statistics where
  sizeBytes := column loaded.sizeBytes new.sizeBytes current.sizeBytes
  fileCount := column loaded.fileCount new.fileCount current.fileCount
  checkedAt := column loaded.checkedAt new.checkedAt current.checkedAt
  origin := column loaded.origin new.origin current.origin
  detailJson := column loaded.detailJson new.detailJson current.detailJson

/-- `apply_job` on the loaded row and the commit over the row as it is now. -/
def applyJob (loaded : Job) (inputs : Inputs) (current : Job) : Job where
  inputs := loaded.inputs.written inputs current.inputs
  statistics := if loaded.inputs ≠ inputs then loaded.statistics.written .cleared current.statistics
    else current.statistics

def enqueued (id : Nat) (job : Job) (action : Action) : Run where
  jobId := some id
  action := action
  status := .queued
  inputs := job.inputs
  sourceSizeSnapshot := if action = .backup then job.statistics.sizeBytes else none
  fileCountSnapshot := if action = .backup then job.statistics.fileCount else none

variable {Client : Type}

def Database.empty : Database Client := ⟨[], fun _ => none, fun _ => none, fun _ => none⟩

def Live (db : Database Client) (id : Nat) (run : Run) : Prop :=
  ∃ n, db.runs n = some run ∧ run.jobId = some id ∧ run.status.active = true

section Program

-- `measure` stands for the devices: what the command of an action says about
-- the inputs it was made for, by the time it ends.
variable (measure : Action → Inputs → Nat → Option Report)

/-- The last part of a run. -/
def finished (db : Database Client) (run : Run) (status : Status) (now : Nat) : Nat → Option Job :=
  if measuring run.action && (status == .success || status == .warning) then
    match run.jobId, measure run.action run.inputs now with
    | some id, some report =>
        match db.jobs id with
        | some job => Function.update db.jobs id (some { job with statistics := statisticsOf run.action now report })
        | none => db.jobs
    | _, _ => db.jobs
  else db.jobs

inductive Event (Client : Type)
  | create (id : Nat) (inputs : Inputs)
  | load (client : Client) (id : Nat)
  | commit (client : Client) (inputs : Inputs)
  | drop (client : Client)
  | delete (id : Nat)
  | queue (id n : Nat) (action : Action)
  | claim (n : Nat)
  | finish (n : Nat) (status : Status) (now : Nat)
  | clear
  | recover

/-- A run is stopped by the restart of the manager. -/
def interrupted (run : Run) : Run := if run.status.active then { run with status := .failed } else run

variable [DecidableEq Client]

inductive Step : Transition (Database Client) (Event Client)
  | create {db : Database Client} (id inputs) (fresh : id ∉ db.reserved) :
      Step db (.create id inputs)
        { db with reserved := id :: db.reserved, jobs := Function.update db.jobs id (some ⟨inputs, .cleared⟩) }
  | load {db : Database Client} {id job} (client) (found : db.jobs id = some job) :
      Step db (.load client id) { db with edits := Function.update db.edits client (some (id, job)) }
  | commit {db : Database Client} {client id loaded current} (inputs) (held : db.edits client = some (id, loaded))
      (found : db.jobs id = some current) :
      Step db (.commit client inputs)
        { db with
          jobs := Function.update db.jobs id (some (applyJob loaded inputs current))
          edits := Function.update db.edits client none }
  | drop {db : Database Client} (client) : Step db (.drop client)
      { db with edits := Function.update db.edits client none }
  | delete {db : Database Client} (id) (idle : ∀ run, ¬ Live db id run) :
      Step db (.delete id)
        { db with
          jobs := Function.update db.jobs id none
          runs := fun n => (db.runs n).map
            (fun run => if run.jobId = some id then { run with jobId := none } else run) }
  | queue {db : Database Client} {id job} (n action) (found : db.jobs id = some job) (fresh : db.runs n = none)
      (idle : ∀ run, ¬ Live db id run) :
      Step db (.queue id n action) { db with runs := Function.update db.runs n (some (enqueued id job action)) }
  | claim {db : Database Client} {n run} (found : db.runs n = some run) (queued : run.status = .queued) :
      Step db (.claim n) { db with runs := Function.update db.runs n (some { run with status := .running }) }
  | finish {db : Database Client} {n run status} (now) (found : db.runs n = some run) (live : run.status.active = true)
      (ended : status.terminal = true) :
      Step db (.finish n status now)
        { db with
          jobs := finished measure db run status now
          runs := Function.update db.runs n (some { run with status := status }) }
  | clear {db : Database Client} :
      Step db .clear { db with jobs := fun id => (db.jobs id).map (fun job => { job with statistics := .cleared }) }
  | recover {db : Database Client} :
      Step db .recover { db with runs := fun n => (db.runs n).map interrupted, edits := fun _ => none }

end Program

/-- No run that measures a job ends while a request is editing the job, and
none is live when a request changes what is measured. -/
def Settled (db : Database Client) : Event Client → Prop
  | .commit client inputs => ∀ id loaded, db.edits client = some (id, loaded) → loaded.inputs ≠ inputs →
      ∀ run, Live db id run → measuring run.action = false
  | .finish n _ _ => ∀ run, db.runs n = some run → measuring run.action = true →
      ∀ client id loaded, db.edits client = some (id, loaded) → run.jobId ≠ some id
  | _ => True

/-- The totals that the progress of a backup is shown against. -/
def baseline (run : Run) (job : Job) : Option Nat × Option Nat :=
  (run.sourceSizeSnapshot.or job.statistics.sizeBytes, run.fileCountSnapshot.or job.statistics.fileCount)

section Runs

variable {measure : Action → Inputs → Nat → Option Report}

variable (measure) in
/-- The columns hold a measurement of these inputs, or nothing. -/
def Measured (inputs : Inputs) (statistics : Statistics) : Prop :=
  statistics = .cleared ∨ ∃ action now report, measure action inputs now = some report ∧
    statistics = statisticsOf action now report

variable (measure) in
structure Current (db : Database Client) : Prop where
  measured : ∀ id job, db.jobs id = some job → Measured measure job.inputs job.statistics
  live : ∀ id run job, Live db id run → measuring run.action = true → db.jobs id = some job → run.inputs = job.inputs
  held : ∀ client id loaded job, db.edits client = some (id, loaded) → db.jobs id = some job →
    job.statistics = loaded.statistics ∨ job.statistics = .cleared
  snapshot : ∀ n run, db.runs n = some run → run.action = .backup →
    ∃ statistics, Measured measure run.inputs statistics ∧
    run.sourceSizeSnapshot = statistics.sizeBytes ∧ run.fileCountSnapshot = statistics.fileCount
  reservedJobs : ∀ id job, db.jobs id = some job → id ∈ db.reserved
  reservedEdits : ∀ client id loaded, db.edits client = some (id, loaded) → id ∈ db.reserved
  reservedRuns : ∀ n run id, db.runs n = some run → run.jobId = some id → id ∈ db.reserved

theorem column_of_current {α : Type} [DecidableEq α] {loaded new current : α} (h : current = loaded ∨ current = new) :
    column loaded new current = new := by
  rw [column]
  split
  · next heq => rcases h with h | h <;> simp [h, heq]
  · rfl

theorem written_of_current {loaded new current : Statistics} (h : current = loaded ∨ current = new) :
    loaded.written new current = new := by
  have hcolumn {α : Type} [DecidableEq α] (f : Statistics → α) : column (f loaded) (f new) (f current) = f new :=
    column_of_current (h.imp (congrArg f) (congrArg f))
  rw [Statistics.written, hcolumn Statistics.sizeBytes, hcolumn Statistics.fileCount, hcolumn Statistics.checkedAt,
    hcolumn Statistics.origin, hcolumn Statistics.detailJson]

theorem inputs_written_self (loaded current : Inputs) : loaded.written loaded current = current := by
  have hcolumn {α : Type} [DecidableEq α] (f : Inputs → α) : column (f loaded) (f loaded) (f current) =
      f current := if_pos rfl
  rw [Inputs.written, hcolumn Inputs.hostId, hcolumn Inputs.sourcePathsJson, hcolumn Inputs.excludePatternsJson,
    hcolumn Inputs.createOptionsJson]

variable {db next : Database Client} {es : List (Event Client)}

theorem current_empty : Current measure (Database.empty : Database Client) where
  measured := by
    intro id job h
    cases h
  live := by
    rintro id run job ⟨n, h, -⟩
    cases h
  held := by
    intro client id loaded job h
    cases h
  snapshot := by
    intro n run h
    cases h
  reservedJobs := by
    intro id job h
    cases h
  reservedEdits := by
    intro client id loaded h
    cases h
  reservedRuns := by
    intro n run id h
    cases h

/-- Requests may give up what they hold. -/
theorem Current.forget (h : Current measure db) {edits : Client → Option (Nat × Job)}
    (hedits : ∀ c e, edits c = some e → db.edits c = some e) :
    Current measure { db with edits := edits } :=
  { h with
    held := fun c id loaded job hheld => h.held c id loaded job (hedits c _ hheld)
    reservedEdits := fun c id loaded hheld => h.reservedEdits c id loaded (hedits c _ hheld) }

/-- A run that came from another: it may have lost its job and may have ended. -/
structure Derived (run' run : Run) : Prop where
  action : run'.action = run.action
  inputs : run'.inputs = run.inputs
  size : run'.sourceSizeSnapshot = run.sourceSizeSnapshot
  count : run'.fileCountSnapshot = run.fileCountSnapshot
  job : ∀ id, run'.jobId = some id → run.jobId = some id
  active : run'.status.active = true → run.status.active = true

theorem Current.derived (h : Current measure db) {runs : Nat → Option Run}
    (hruns : ∀ n run', runs n = some run' → ∃ run, db.runs n = some run ∧ Derived run' run) :
    Current measure { db with runs := runs } := by
  refine { h with live := ?_, snapshot := ?_, reservedRuns := ?_ }
  · rintro id run' job ⟨n, hn, hjob, hactive⟩ hmeasuring hfound
    obtain ⟨run, hrun, hderived⟩ := hruns n run' hn
    rw [hderived.action] at hmeasuring
    rw [hderived.inputs]
    exact h.live id run job ⟨n, hrun, hderived.job id hjob, hderived.active hactive⟩ hmeasuring hfound
  · intro n run' hn haction
    obtain ⟨run, hrun, hderived⟩ := hruns n run' hn
    rw [hderived.action] at haction
    rw [hderived.inputs, hderived.size, hderived.count]
    exact h.snapshot n run hrun haction
  · intro n run' id hn hjob
    obtain ⟨run, hrun, hderived⟩ := hruns n run' hn
    exact h.reservedRuns n run id hrun (hderived.job id hjob)

/-- The row of a job changes. -/
theorem Current.write (h : Current measure db) {id : Nat} {job next : Job} (hfound : db.jobs id = some job)
    (hmeasured : Measured measure next.inputs next.statistics)
    (hlive : ∀ run, Live db id run → measuring run.action = true → run.inputs = next.inputs)
    (hheld : ∀ c loaded, db.edits c = some (id, loaded) → next.statistics = loaded.statistics ∨
      next.statistics = .cleared) :
    Current measure { db with jobs := Function.update db.jobs id (some next) } := by
  refine { h with measured := ?_, live := ?_, held := ?_, reservedJobs := ?_ }
  · intro other row hrow
    by_cases hother : other = id
    · simp only [hother, Function.update_self] at hrow
      cases hrow
      exact hmeasured
    · simp only [Function.update_of_ne hother] at hrow
      exact h.measured other row hrow
  · intro other run row hrun hmeasuring hrow
    by_cases hother : other = id
    · subst hother
      simp only [Function.update_self] at hrow
      cases hrow
      exact hlive run hrun hmeasuring
    · simp only [Function.update_of_ne hother] at hrow
      exact h.live other run row hrun hmeasuring hrow
  · intro c other loaded row hedit hrow
    by_cases hother : other = id
    · subst hother
      simp only [Function.update_self] at hrow
      cases hrow
      exact hheld c loaded hedit
    · simp only [Function.update_of_ne hother] at hrow
      exact h.held c other loaded row hedit hrow
  · intro other row hrow
    by_cases hother : other = id
    · subst hother
      exact h.reservedJobs other job hfound
    · simp only [Function.update_of_ne hother] at hrow
      exact h.reservedJobs other row hrow

theorem Current.create (h : Current measure db) {id : Nat} (inputs : Inputs) (hfresh : id ∉ db.reserved) :
    Current measure
      { db with reserved := id :: db.reserved, jobs := Function.update db.jobs id (some ⟨inputs, .cleared⟩) } := by
  refine ⟨?_, ?_, ?_, h.snapshot, ?_, ?_, ?_⟩
  · intro other row hrow
    by_cases hother : other = id
    · simp only [hother, Function.update_self] at hrow
      cases hrow
      exact .inl rfl
    · simp only [Function.update_of_ne hother] at hrow
      exact h.measured other row hrow
  · rintro other run row hrun hmeasuring hrow
    by_cases hother : other = id
    · obtain ⟨n, hn, hjob, -⟩ := hrun
      exact absurd (hother ▸ h.reservedRuns n run other hn hjob) hfresh
    · simp only [Function.update_of_ne hother] at hrow
      exact h.live other run row hrun hmeasuring hrow
  · intro c other loaded row hedit hrow
    by_cases hother : other = id
    · exact absurd (hother ▸ h.reservedEdits c other loaded hedit) hfresh
    · simp only [Function.update_of_ne hother] at hrow
      exact h.held c other loaded row hedit hrow
  · intro other row hrow
    by_cases hother : other = id
    · exact hother ▸ List.mem_cons_self ..
    · simp only [Function.update_of_ne hother] at hrow
      exact List.mem_cons_of_mem _ (h.reservedJobs other row hrow)
  · exact fun c other loaded hedit => List.mem_cons_of_mem _ (h.reservedEdits c other loaded hedit)
  · exact fun n run other hn hjob => List.mem_cons_of_mem _ (h.reservedRuns n run other hn hjob)

theorem Current.delete (h : Current measure db) (id : Nat) :
    Current measure { db with
      jobs := Function.update db.jobs id none
      runs := fun n => (db.runs n).map
        (fun run => if run.jobId = some id then { run with jobId := none } else run) } := by
  have hruns : Current measure { db with
      runs := fun n => (db.runs n).map
        (fun run => if run.jobId = some id then { run with jobId := none } else run) } := h.derived (by
    intro n run' hn
    obtain ⟨run, hrun, rfl⟩ := Option.map_eq_some_iff.mp hn
    refine ⟨run, hrun, ?_⟩
    split
    · exact ⟨rfl, rfl, rfl, rfl, by simp, fun hactive => hactive⟩
    · exact ⟨rfl, rfl, rfl, rfl, fun _ hjob => hjob, fun hactive => hactive⟩)
  have hjobs : ∀ {other row}, Function.update db.jobs id none other = some row → db.jobs other = some row := by
    intro other row hrow
    by_cases hother : other = id
    · simp [hother] at hrow
    · rwa [Function.update_of_ne hother] at hrow
  exact { hruns with
    measured := fun other row hrow => h.measured other row (hjobs hrow)
    live := fun other run row hrun hmeasuring hrow => hruns.live other run row hrun hmeasuring (hjobs hrow)
    held := fun c other loaded row hedit hrow => h.held c other loaded row hedit (hjobs hrow)
    reservedJobs := fun other row hrow => h.reservedJobs other row (hjobs hrow) }

theorem Current.queue (h : Current measure db) {id n : Nat} {job : Job} (action : Action)
    (hfound : db.jobs id = some job) :
    Current measure { db with runs := Function.update db.runs n (some (enqueued id job action)) } := by
  refine { h with live := ?_, snapshot := ?_, reservedRuns := ?_ }
  · rintro other run row ⟨m, hm, hjob, hactive⟩ hmeasuring hrow
    by_cases hother : m = n
    · simp only [hother, Function.update_self] at hm
      cases hm
      cases hjob
      rw [hfound] at hrow
      cases hrow
      rfl
    · simp only [Function.update_of_ne hother] at hm
      exact h.live other run row ⟨m, hm, hjob, hactive⟩ hmeasuring hrow
  · intro m run hm haction
    by_cases hother : m = n
    · simp only [hother, Function.update_self] at hm
      cases hm
      exact ⟨job.statistics, h.measured id job hfound, if_pos haction, if_pos haction⟩
    · simp only [Function.update_of_ne hother] at hm
      exact h.snapshot m run hm haction
  · intro m run other hm hjob
    by_cases hother : m = n
    · simp only [hother, Function.update_self] at hm
      cases hm
      cases hjob
      exact h.reservedJobs id job hfound
    · simp only [Function.update_of_ne hother] at hm
      exact h.reservedRuns m run other hm hjob

theorem derived_update {n : Nat} {run run' : Run} (hfound : db.runs n = some run) (hderived : Derived run' run)
    (m : Nat) (r : Run) (hm : Function.update db.runs n (some run') m = some r) :
    ∃ q, db.runs m = some q ∧ Derived r q := by
  by_cases hother : m = n
  · subst hother
    rw [Function.update_self] at hm
    cases hm
    exact ⟨run, hfound, hderived⟩
  · rw [Function.update_of_ne hother] at hm
    exact ⟨r, hm, rfl, rfl, rfl, rfl, fun _ hjob => hjob, fun hactive => hactive⟩

theorem Current.finished (h : Current measure db) {n : Nat} {run : Run} (status : Status) (now : Nat)
    (hfound : db.runs n = some run) (hactive : run.status.active = true) (hsettled : measuring run.action = true →
      ∀ client id loaded, db.edits client = some (id, loaded) → run.jobId ≠ some id) :
    Current measure { db with jobs := SourceStatistics.finished measure db run status now } := by
  rw [SourceStatistics.finished]
  split
  · next hends =>
      have hmeasuring := (Bool.and_eq_true_iff.mp hends).1
      split
      · next id report hjob hreport =>
          split
          · next job hrow =>
              have hlive : ∀ q, Live db id q → measuring q.action = true → q.inputs = job.inputs :=
                fun q hq hq' => h.live id q job hq hq' hrow
              refine h.write hrow (.inr ⟨run.action, now, report, ?_, rfl⟩) hlive fun c loaded hedit =>
                absurd hjob (hsettled hmeasuring c id loaded hedit)
              rw [← hlive run ⟨n, hfound, hjob, hactive⟩ hmeasuring]
              exact hreport
          · exact h
      · exact h
  · exact h

theorem Current.clear (h : Current measure db) :
    Current measure
      { db with jobs := fun id => (db.jobs id).map (fun job => { job with statistics := .cleared }) } := by
  refine { h with measured := ?_, live := ?_, held := ?_, reservedJobs := ?_ }
  · intro id row hrow
    obtain ⟨job, -, rfl⟩ := Option.map_eq_some_iff.mp hrow
    exact .inl rfl
  · intro id run row hrun hmeasuring hrow
    obtain ⟨job, hjob, rfl⟩ := Option.map_eq_some_iff.mp hrow
    exact h.live id run job hrun hmeasuring hjob
  · intro c id loaded row hedit hrow
    obtain ⟨job, -, rfl⟩ := Option.map_eq_some_iff.mp hrow
    exact .inr rfl
  · intro id row hrow
    obtain ⟨job, hjob, rfl⟩ := Option.map_eq_some_iff.mp hrow
    exact h.reservedJobs id job hjob

theorem derived_interrupted (run : Run) : Derived (interrupted run) run := by
  rw [interrupted]
  split
  · exact ⟨rfl, rfl, rfl, rfl, fun _ hjob => hjob, by simp [Status.active]⟩
  · exact ⟨rfl, rfl, rfl, rfl, fun _ hjob => hjob, fun hactive => hactive⟩

variable [DecidableEq Client]

theorem Current.load {client : Client} {id : Nat} {job : Job} (h : Current measure db)
    (hfound : db.jobs id = some job) :
    Current measure { db with edits := Function.update db.edits client (some (id, job)) } := by
  refine { h with held := ?_, reservedEdits := ?_ }
  · intro c other loaded current hheld hcurrent
    by_cases hc : c = client
    · simp only [hc, Function.update_self] at hheld
      cases hheld
      rw [hfound] at hcurrent
      cases hcurrent
      exact .inl rfl
    · simp only [Function.update_of_ne hc] at hheld
      exact h.held c other loaded current hheld hcurrent
  · intro c other loaded hheld
    by_cases hc : c = client
    · simp only [hc, Function.update_self] at hheld
      cases hheld
      exact h.reservedJobs id job hfound
    · simp only [Function.update_of_ne hc] at hheld
      exact h.reservedEdits c other loaded hheld

theorem edits_update {client c : Client} {edits : Client → Option (Nat × Job)} {e : Nat × Job}
    (h : Function.update edits client none c = some e) : edits c = some e := by
  by_cases hc : c = client
  · simp [hc] at h
  · rwa [Function.update_of_ne hc] at h

theorem Current.commit (h : Current measure db) {client : Client} {id : Nat} {loaded current : Job} (inputs : Inputs)
    (hheld : db.edits client = some (id, loaded)) (hfound : db.jobs id = some current)
    (hsettled : loaded.inputs ≠ inputs → ∀ run, Live db id run → measuring run.action = false) :
    Current measure { db with
      jobs := Function.update db.jobs id (some (applyJob loaded inputs current))
      edits := Function.update db.edits client none } := by
  have hwritten : Current measure
      { db with jobs := Function.update db.jobs id (some (applyJob loaded inputs current)) } := by
    by_cases hinputs : loaded.inputs = inputs
    · have hsame : applyJob loaded inputs current = current := by
        rw [applyJob, ← hinputs, inputs_written_self, if_neg (not_not.mpr rfl)]
      rw [hsame, ← hfound, Function.update_eq_self]
      exact h
    · have hcleared : (applyJob loaded inputs current).statistics = .cleared := by
        rw [applyJob]
        exact (if_pos hinputs).trans (written_of_current (h.held client id loaded current hheld hfound))
      refine h.write hfound (.inl hcleared) ?_ fun _ _ _ => .inr hcleared
      intro run hrun hmeasuring
      rw [hsettled hinputs run hrun] at hmeasuring
      cases hmeasuring
  exact hwritten.forget fun c e hc => edits_update hc

theorem Current.step {e : Event Client} (h : Current measure db) (hstep : meeting (Step measure) Settled db e next) :
    Current measure next := by
  obtain ⟨hstep, hsettled⟩ := hstep
  cases hstep with
  | create id inputs fresh => exact h.create inputs fresh
  | load client found => exact h.load found
  | commit inputs held found => exact h.commit inputs held found (hsettled _ _ held)
  | drop client => exact h.forget fun c e hc => edits_update hc
  | delete id idle => exact h.delete id
  | queue n action found fresh idle => exact h.queue action found
  | claim found queued =>
      refine h.derived (derived_update found ⟨rfl, rfl, rfl, rfl, fun _ hjob => hjob, fun _ => ?_⟩)
      rw [queued]
      rfl
  | @finish _ n run status now found live ended =>
      have hjobs := h.finished status now found live (hsettled _ found)
      exact hjobs.derived (derived_update found ⟨rfl, rfl, rfl, rfl, fun _ hjob => hjob, fun _ => live⟩)
  | clear => exact h.clear
  | recover =>
      have hruns : Current measure { db with runs := fun n => (db.runs n).map interrupted } := h.derived (by
        intro n run' hn
        obtain ⟨run, hrun, rfl⟩ := Option.map_eq_some_iff.mp hn
        exact ⟨run, hrun, derived_interrupted run⟩)
      exact hruns.forget fun c e hc => by cases hc

omit [DecidableEq Client] in
theorem baseline_measured {run : Run} {job : Job} {taken : Statistics} (hinputs : run.inputs = job.inputs)
    (hjob : Measured measure job.inputs job.statistics) (htaken : Measured measure run.inputs taken)
    (hsize : run.sourceSizeSnapshot = taken.sizeBytes) (hcount : run.fileCountSnapshot = taken.fileCount) :
    (∀ n, (baseline run job).1 = some n → ∃ statistics, Measured measure run.inputs statistics ∧
      statistics.sizeBytes = some n) ∧
      ∀ n, (baseline run job).2 = some n → ∃ statistics, Measured measure run.inputs statistics ∧
      statistics.fileCount = some n := by
  rw [← hinputs] at hjob
  rw [baseline, hsize, hcount]
  constructor
  · intro n hn
    cases htakenSize : taken.sizeBytes with
    | some size =>
        rw [htakenSize] at hn
        exact ⟨taken, htaken, htakenSize.trans hn⟩
    | none =>
        rw [htakenSize] at hn
        exact ⟨job.statistics, hjob, hn⟩
  · intro n hn
    cases htakenCount : taken.fileCount with
    | some count =>
        rw [htakenCount] at hn
        exact ⟨taken, htaken, htakenCount.trans hn⟩
    | none =>
        rw [htakenCount] at hn
        exact ⟨job.statistics, hjob, hn⟩

/-- As long as no job is edited during a run that measures it, the totals of a
job were measured for the sources it has now, and the progress of a backup is
shown against totals of what this backup reads. -/
theorem statistics_current (h : History (meeting (Step measure) Settled) (Database.empty : Database Client) es db) :
    (∀ id job, db.jobs id = some job → Measured measure job.inputs job.statistics) ∧
      ∀ id run job, Live db id run → run.action = .backup → db.jobs id = some job →
        (∀ n, (baseline run job).1 = some n → ∃ statistics, Measured measure run.inputs statistics ∧
          statistics.sizeBytes = some n) ∧
          ∀ n, (baseline run job).2 = some n → ∃ statistics, Measured measure run.inputs statistics ∧
          statistics.fileCount = some n := by
  have hcurrent := h.invariant (Current measure) current_empty (fun _ _ _ hs hstep => hs.step hstep)
  refine ⟨hcurrent.measured, ?_⟩
  intro id run job hlive haction hjob
  have hinputs := hcurrent.live id run job hlive (by rw [haction]; rfl) hjob
  obtain ⟨n, hn, -⟩ := hlive
  obtain ⟨taken, htaken, hsize, hcount⟩ := hcurrent.snapshot n run hn haction
  exact baseline_measured hinputs (hcurrent.measured id job hjob) htaken hsize hcount

/-- Devices whose sources are as large as the text that names them. -/
def sampleMeasure (_ : Action) (inputs : Inputs) (_ : Nat) : Option Report :=
  some ⟨inputs.sourcePathsJson.length, none, []⟩

def sampleInputs (paths : Text) : Inputs := ⟨1, paths, [], []⟩

/-- A job is edited before its sources are measured; then its backup is
shown against the new totals. -/
def editedEvents : List (Event Unit) :=
  [.create 1 (sampleInputs "[]".toList), .load () 1, .commit () (sampleInputs "[1]".toList),
    .queue 1 0 .sourceStats, .claim 0,
    .finish 0 .success 5, .queue 1 1 .backup, .claim 1]

theorem statistics_current_edited :
    ∃ db : Database Unit, History (meeting (Step sampleMeasure) Settled) Database.empty editedEvents db ∧
      ∃ run job, Live db 1 run ∧ db.jobs 1 = some job ∧ (baseline run job).1 = some 3 ∧
        ∃ statistics, Measured sampleMeasure run.inputs statistics ∧ statistics.sizeBytes = some 3 := by
  have h : History (meeting (Step sampleMeasure) Settled) (Database.empty : Database Unit) editedEvents _ :=
    .cons ⟨.create 1 _ (by simp [Database.empty]), trivial⟩
      (.cons ⟨.load () rfl, trivial⟩
        (.cons ⟨.commit _ rfl rfl, by rintro id loaded - - run ⟨n, hn, -⟩; cases hn⟩
          (.cons ⟨.queue 0 .sourceStats rfl rfl (by rintro run ⟨n, hn, -⟩; cases hn), trivial⟩
            (.cons ⟨.claim rfl rfl, trivial⟩
              (.cons ⟨.finish 5 rfl rfl rfl, by rintro run - - c id loaded hedit; cases hedit⟩
                (.cons ⟨.queue 1 .backup rfl rfl ?_, trivial⟩ (.single ⟨.claim rfl rfl, trivial⟩)))))))
  · obtain ⟨statistics, hmeasured, hsize⟩ := ((statistics_current h).2 1 _ _ ⟨1, rfl, rfl, rfl⟩ rfl rfl).1 3 rfl
    exact ⟨_, h, _, _, ⟨1, rfl, rfl, rfl⟩, rfl, rfl, statistics, hmeasured, hsize⟩
  · rintro run ⟨n, hn, -, hactive⟩
    cases n with
    | zero =>
        cases hn
        cases hactive
    | succ n => cases hn

/-- An edit during a backup leaves the job with totals of the sources that it
had before. -/
theorem edited_backup_stale : ∃ (es : List (Event Unit)) (db : Database Unit) (job : Job),
    History (Step sampleMeasure) Database.empty es db ∧ db.jobs 1 = some job ∧ (∀ run, ¬ Live db 1 run) ∧
      ¬ Measured sampleMeasure job.inputs job.statistics := by
  have h : History (Step sampleMeasure) (Database.empty : Database Unit)
      [.create 1 (sampleInputs "[]".toList), .queue 1 0 .backup, .claim 0, .load () 1,
        .commit () (sampleInputs []), .finish 0 .success 5] _ :=
    .cons (.create 1 _ (by simp [Database.empty]))
      (.cons (.queue 0 .backup rfl rfl (by rintro run ⟨n, hn, -⟩; cases hn))
      (.cons (.claim rfl rfl) (.cons (.load () rfl) (.cons (.commit _ rfl rfl) (.single (.finish 5 rfl rfl rfl))))))
  refine ⟨_, _, ⟨sampleInputs [], statisticsOf .backup 5 ⟨2, none, []⟩⟩, h, rfl, ?_, ?_⟩
  · rintro run ⟨n, hn, -, hactive⟩
    cases n with
    | zero =>
        cases hn
        cases hactive
    | succ n => cases hn
  · rintro (hcleared | ⟨action, now, report, hreport, hstatistics⟩)
    · have hsize : some 2 = none := congrArg Statistics.sizeBytes hcleared
      cases hsize
    · cases hreport
      have hsize : some 2 = some 0 := congrArg Statistics.sizeBytes hstatistics
      cases hsize

end Runs

end BorgManager.SourceStatistics
