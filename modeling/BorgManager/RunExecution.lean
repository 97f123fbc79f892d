import BorgManager.Blocks
import BorgManager.LogFilter
import BorgManager.Records
import Mathlib.Tactic.MkIffOfInductiveProp

namespace BorgManager.RunExecution

open PythonText Records RemoteOutput LogFilter Blocks

/-- What a statement can raise. `cancelled` is `asyncio.CancelledError`, which
is no `Exception`. -/
inductive Raised
  | commandCancelled (forced remoteCleanupConfirmed : Bool)
  | cancelled
  | exception (error : PyError)
  deriving DecidableEq

def Raised.isException : Raised → Bool
  | .cancelled => false
  | .commandCancelled .. | .exception _ => true

abbrev Outcome (α : Type) := Except Raised α

/-- The totals of a restore as its progress records have left them. -/
structure RestoreTotals where
  totalBytes : Nat
  processedBytes : Nat
  totalFiles : Nat
  processedFiles : Nat

/-- Everything that decides how the execution of a claimed run goes: the run,
the texts of its command, the activity that has been recorded for it, and the
outcome of each statement that waits or writes a file. -/
structure RunWorld where
  runtime : Runtime
  action : Action
  repositoryId : Option Nat
  repositoryFound : Bool
  managerLock : Bool
  refreshSizeAfter : Bool
  jobFound : Bool
  jobHost : Bool
  storedOutput : String
  storedVersion : Option String
  errorId : String
  technicalErrorId : String
  networkActivity : Option (Nat × Nat)
  restoreProgress : Option RestoreTotals
  repositoryLocked : Outcome Unit
  managerLocked : Outcome Unit
  cacheCleaned : Outcome Unit
  storageProbed : Outcome Bool
  executed : Outcome (Int × String × String)
  monitorStopped : Outcome Unit
  storageReported : Outcome Unit
  streamsFinished : Outcome String
  flushed : Outcome Unit
  noted : Outcome Unit
  finalFlush : Outcome Unit
  monitorJoined : Outcome Unit
  flusherJoined : Outcome Unit
  logClosed : Outcome Unit
  cacheInvalidated : Outcome Unit
  hooked : Outcome Unit
  refreshed : Outcome Unit

structure Conclusion where
  code : Int
  output : String
  error : String
  status : Status

inductive Statistics
  | backup (statistics : Option BackupStatistics)
  | scan (statistics : Option SourceScanStatistics)

/-- What the final transaction stores next to the status. -/
structure RunDetails where
  output : String
  error : String
  logOutput : String
  borgVersion : Option String
  hostLevel : Option String
  network : Option (Nat × Nat)
  restore : Option RestoreTotals
  statistics : Option Statistics

/-- The committed status of the run, the locks that the coroutine holds, and
whether its storage monitor runs. -/
structure RunState where
  status : Status
  details : Option RunDetails
  repositoryHeld : Bool
  managerHeld : Bool
  monitor : Bool

abbrev RunBlock := Block Raised RunState

variable (w : RunWorld)

def needsRepositoryLock : Bool := w.action != .sourceStats && w.repositoryId.isSome && w.repositoryFound

def probesStorage : Bool := w.action == .backup && w.repositoryId.isSome

def filtersStreams : Bool := w.action == .backup || w.action == .restore

def acquireLocks : RunBlock Unit := do
  when (needsRepositoryLock w) (do
    effect w.repositoryLocked
    update (fun s => { s with repositoryHeld := true }))
  when w.managerLock (do
    effect w.managerLocked
    update (fun s => { s with managerHeld := true })
    effect w.cacheCleaned)

/-- The remote filesystem is probed before a backup, and watched during it. -/
def probeStorage : RunBlock Unit :=
  when (probesStorage w) (do
    let watched ← effect w.storageProbed
    update (fun s => { s with monitor := watched }))

def stopMonitor : RunBlock Unit := do
  let watched ← Blocks.read RunState.monitor
  when watched (do
    effect w.monitorStopped
    update (fun s => { s with monitor := false })
    effect w.storageReported)

/-- The bytes that the stream filters still hold back at the end. -/
def trailingText : Outcome String := if filtersStreams w then w.streamsFinished else .ok ""

def runCommand : RunBlock (Int × String × String) := do
  let (code, output, error) ← effect w.executed
  stopMonitor w
  let trailing ← effect (trailingText w)
  effect w.flushed
  return (code, output, error ++ trailing)

def statusOfCode (code : Int) : Status := if code = 0 then .success else if code = 1 then .warning else .failed

/-- The body of the `try` statement, from the claim on. -/
def attempt : RunBlock Conclusion := do
  acquireLocks w
  probeStorage w
  let (code, output, error) ← runCommand w
  return ⟨code, output, error, statusOfCode code⟩

def cancelledError (forced remoteCleanupConfirmed : Bool) : String :=
  if forced then "Execution cancelled by user after forced process termination"
  else if remoteCleanupConfirmed then "Execution cancelled by user; remote Borg shutdown confirmed"
  else "Execution cancelled by user; Borg process group stopped cleanly"

/-- What the handlers conclude from an exception. -/
def conclusionOf : Raised → Conclusion
  | .commandCancelled forced confirmed => ⟨130, "", cancelledError forced confirmed, .cancelled⟩
  | .cancelled => ⟨130, "", "Execution cancelled by user", .cancelled⟩
  | .exception _ => ⟨255, "", publicErrorMessage w.errorId, .failed⟩

/-- Only the handler of a stopped command writes to the run log. -/
def handle (e : Raised) : RunBlock Conclusion :=
  match e with
  | .commandCancelled .. => do
      effect w.noted
      return conclusionOf w e
  | .cancelled | .exception _ => pure (conclusionOf w e)

def flushPreview : RunBlock Unit :=
  tryExcept (effect w.finalFlush) (fun e => if e.isException then pure () else raise e)

/-- The `finally` block. The locks are released in its last statements. -/
def cleanup : RunBlock Unit := do
  flushPreview w
  let watched ← Blocks.read RunState.monitor
  when watched (effect w.monitorJoined)
  effect w.flusherJoined
  effect w.logClosed
  update (fun s => { s with managerHeld := false })
  update (fun s => { s with repositoryHeld := false })

def joined (parts : List String) : String := String.intercalate "\n" (parts.filter (fun part => part != ""))

def takeEnd (n : Nat) (text : String) : String := String.ofList (text.toList.drop (text.length - n))

def technicalError (c : Conclusion) : Option String :=
  if detailRequiresDebugLog (strip (joined [c.output, c.error])) then some w.technicalErrorId else none

def filteredError (c : Conclusion) : String :=
  let filtered := takeEnd 32768 (stripBorgItemLines w.runtime (extractErrorOutput w.runtime c.error))
  match technicalError w c with
  | none => filtered
  | some errorId =>
      if detailRequiresDebugLog filtered then publicErrorMessage errorId
      else if filtered = "" then publicErrorMessage errorId
      else takeEnd 32768 (rstrip filtered ++
        "\nTechnische Details: Debug-Log, Fehler-ID " ++ errorId ++ ".")

def cleanOutput (c : Conclusion) : String :=
  let source := if w.action = .backup ∨ w.storedOutput = "" then c.output else w.storedOutput
  takeEnd 4096 (stripBorgItemLines w.runtime source)

def rowError (c : Conclusion) : String :=
  if filteredError w c = "" ∧ c.code ≠ 0 then "Exit code: " ++ toString c.code else filteredError w c

def logOutput (c : Conclusion) : String := takeEnd 16384 (joined [cleanOutput w c, filteredError w c])

/-- The version that the texts of the run report. -/
def reportedVersion (c : Conclusion) : Option String :=
  let preview := logOutput w c
  parseBorgVersion w.runtime (if preview = "" then cleanOutput w c ++ "\n" ++ rowError w c else preview)

/-- The version of the run: the stored one if it is well formed. -/
def rowVersion (c : Conclusion) : Except PyError (Option String) := do
  let parsed ← versionTuple w.runtime w.storedVersion
  return if parsed.isSome then w.storedVersion else reportedVersion w c

def statisticsText (c : Conclusion) : String := c.output ++ "\n" ++ c.error

def succeeded (status : Status) : Bool := status == .success || status == .warning

def rowStatistics (c : Conclusion) : Except PyError (Option Statistics) :=
  if succeeded c.status then
    match w.action with
    | .backup => (parseBackupStatistics w.runtime (statisticsText c)).map (fun found => some (.backup found))
    | .sourceStats => (parseSourceScanStatistics w.runtime (statisticsText c)).map (fun found => some (.scan found))
    | _ => .ok none
  else .ok none

def hostLevel (version : Option String) : Except PyError (Option String) :=
  if version.isSome && w.jobHost then (classifyBorgVersion w.runtime version).map some else .ok none

def detailsOf (c : Conclusion) (version : Option String) : Except PyError RunDetails := do
  let level ← hostLevel w version
  let statistics ← rowStatistics w c
  return {
    output := cleanOutput w c
    error := rowError w c
    logOutput := logOutput w c
    borgVersion := if version.isSome then version else w.storedVersion
    hostLevel := level
    network := if w.action = .backup then w.networkActivity else none
    restore := if w.action = .restore then w.restoreProgress else none
    statistics := statistics }

/-- The values of the final transaction. Each parser of remote output may
raise. -/
def runDetails (c : Conclusion) : Except PyError RunDetails := do
  let version ← rowVersion w c
  detailsOf w c version

def changesArchives : Action → Bool
  | .repositoryInit | .backup | .prune | .deleteArchive | .renameArchive => true
  | _ => false

def invalidates (c : Conclusion) : Bool :=
  w.repositoryId.isSome && ((succeeded c.status && changesArchives w.action) || w.action == .deleteArchive)

def changesSize : Action → Bool
  | .repositoryInit | .backup | .prune | .compact | .deleteArchive => true
  | _ => false

def refreshHandles : Raised → Bool
  | .exception .valueError | .exception (.other "OSError") | .exception (.other "LookupError") => true
  | _ => false

def refreshStatistics (c : Conclusion) : RunBlock Unit :=
  when (w.repositoryId.isSome && succeeded c.status && w.refreshSizeAfter && changesSize w.action)
    (tryExcept (effect w.refreshed) (fun e => if refreshHandles e then pure () else raise e))

def detailsOutcome (c : Conclusion) : Outcome RunDetails :=
  match runDetails w c with
  | .ok details => .ok details
  | .error e => .error (.exception e)

/-- The numbers that an `INTEGER` column takes. -/
def sqliteInteger (n : Int) : Bool := decide (-0x8000000000000000 ≤ n ∧ n < 0x8000000000000000)

def networkNumbers (network : Option (Nat × Nat)) : List Int := network.toList.flatMap (fun n => [n.1, n.2])

def restoreNumbers (restore : Option RestoreTotals) : List Int :=
  restore.toList.flatMap (fun r => [r.totalBytes, r.processedBytes, r.totalFiles, r.processedFiles])

/-- The statistics that are stored. A scan is stored with its job only. -/
def statisticsNumbers : Option Statistics → List Int
  | some (.backup (some b)) =>
      [b.originalSizeBytes, b.compressedSizeBytes, b.deduplicatedSizeBytes, b.fileCount].reduceOption
  | some (.scan (some s)) => if w.jobFound then [s.originalSizeBytes, s.fileCount] else []
  | _ => []

/-- The texts of `source_stats_detail_json` can be written. -/
def detailEncodable (s : SourceScanStatistics) : Bool :=
  let encodable := w.runtime.encodable
  encodable s.quality && encodable s.scanMethod && s.unsupportedPatterns.all encodable &&
    encodableJson w.runtime s.nodumpSupported

def statisticsEncodable : Option Statistics → Bool
  | some (.scan (some s)) => !w.jobFound || detailEncodable w s
  | _ => true

/-- `db.commit`: the numbers and texts of the row are bound. -/
def committed (details : RunDetails) : Outcome Unit :=
  let numbers := networkNumbers details.network ++ restoreNumbers details.restore ++
    statisticsNumbers w details.statistics
  if numbers.all sqliteInteger = false then .error (.exception .overflowError)
  else if statisticsEncodable w details.statistics = false then .error (.exception .valueError)
  else .ok ()

/-- Everything after the `finally` block. The transaction commits at its end or
not at all. -/
def publish (c : Conclusion) : RunBlock Unit := do
  when (invalidates w c) (effect w.cacheInvalidated)
  let details ← effect (detailsOutcome w c)
  effect w.hooked
  effect (committed w details)
  update (fun s => { s with status := c.status, details := some details })
  refreshStatistics w c

/-- `_execute_run_inner` from the claim of its run on. -/
def executeClaimed : RunBlock Unit := do
  let c ← tryFinally (tryExcept (attempt w) (handle w)) (cleanup w)
  publish w c

def claimed : RunState := ⟨.running, none, false, false, false⟩

/-- The run has a final status, and nothing is locked any more. -/
structure Finished (s : RunState) : Prop where
  status : s.status.terminal = true
  repository : s.repositoryHeld = false
  manager : s.managerHeld = false

/-- The first exception among the locks of the run. -/
def locksTaken : Outcome Unit := do
  if needsRepositoryLock w then w.repositoryLocked
  if w.managerLock then do
    w.managerLocked
    w.cacheCleaned

/-- Whether the storage monitor was started, if nothing was raised before. -/
def monitorStarted : Outcome Bool := do
  locksTaken w
  if probesStorage w then w.storageProbed else pure false

def monitorEnded (watched : Bool) : Outcome Unit :=
  if watched then do
    w.monitorStopped
    w.storageReported
  else pure ()

def commandEnded (watched : Bool) : Outcome (Int × String × String) := do
  let (code, output, error) ← w.executed
  monitorEnded w watched
  let trailing ← trailingText w
  w.flushed
  return (code, output, error ++ trailing)

/-- The first exception of the `try` block, or what its command returned. -/
def attempted : Outcome Conclusion := do
  let watched ← monitorStarted w
  let (code, output, error) ← commandEnded w watched
  return ⟨code, output, error, statusOfCode code⟩

def succeededOutcome {α : Type} : Outcome α → Bool
  | .ok _ => true
  | .error _ => false

/-- The monitor still runs when the `finally` block begins. -/
def monitorLeft : Bool :=
  match monitorStarted w with
  | .ok true => !(succeededOutcome w.executed && succeededOutcome w.monitorStopped)
  | _ => false

def concluded : Conclusion :=
  match attempted w with
  | .ok c => c
  | .error e => conclusionOf w e

def versionKnown : Bool :=
  match versionTuple w.runtime w.storedVersion with
  | .ok (some _) => true
  | _ => false

def statisticsReadable (c : Conclusion) : Bool :=
  !succeeded c.status ||
    match w.action with
    | .backup => backupTextReadable w.runtime (statisticsText c)
    | .sourceStats => scanTextReadable w.runtime (statisticsText c)
    | _ => true

/-- The texts of the run make no parser of the final transaction raise. -/
def detailsReadable (c : Conclusion) : Bool :=
  versionReadable w.runtime w.storedVersion &&
    (versionKnown w || !w.jobHost || versionReadable w.runtime (reportedVersion w c)) &&
    statisticsReadable w c

/-- The activity of the run and what its texts report fits into the database:
the numbers are below 2^63, and no text has half of a surrogate pair. -/
def detailsStorable (c : Conclusion) : Bool :=
  (if w.action = .backup then networkNumbers w.networkActivity else []).all sqliteInteger &&
    (if w.action = .restore then restoreNumbers w.restoreProgress else []).all sqliteInteger &&
      match rowStatistics w c with
      | .ok statistics => (statisticsNumbers w statistics).all sqliteInteger && statisticsEncodable w statistics
      | .error _ => true

/-- The handler of the exception can write to the run log if it does. -/
def Noted (e : Raised) : Prop := ∀ forced confirmed, e = .commandCancelled forced confirmed → w.noted = .ok ()

/-- Nothing leaves the `finally` block before its last statements. -/
@[mk_iff] structure CleanedUp (watched : Bool) : Prop where
  flush : ∀ e, w.finalFlush = .error e → e.isException = true
  monitor : watched = true → w.monitorJoined = .ok ()
  flusher : w.flusherJoined = .ok ()
  log : w.logClosed = .ok ()

/-- Nothing is raised before the final transaction commits. -/
@[mk_iff] structure Published (c : Conclusion) : Prop where
  cache : invalidates w c = true → w.cacheInvalidated = .ok ()
  readable : detailsReadable w c = true
  hook : w.hooked = .ok ()
  storable : detailsStorable w c = true

/-- Nothing is raised where no handler is left: the note about a stopped
command is written, no cancellation and no error interrupts the `finally`
block, the archive cache can be dropped, and the final transaction can read and
store what the client sent. -/
structure Undisturbed : Prop where
  noted : ∀ e, attempted w = .error e → Noted w e
  cleaned : CleanedUp w (monitorLeft w)
  published : Published w (concluded w)

variable {w} {s t : RunState}

/-- Both states agree on what a statement of the `try` block leaves alone. -/
def Kept (s t : RunState) : Prop := t.status = s.status ∧ t.details = s.details

theorem Kept.trans {r s t : RunState} (h : Kept r s) (h' : Kept s t) : Kept r t :=
  ⟨h'.1.trans h.1, h'.2.trans h.2⟩

theorem acquireLocks_ends :
    Ends (acquireLocks w) s (fun outcome t => outcome = locksTaken w ∧ Kept s t ∧ t.monitor = s.monitor) := by
  rw [acquireLocks, locksTaken]
  cases needsRepositoryLock w <;> cases w.managerLock <;> cases w.repositoryLocked <;>
    cases w.managerLocked <;> cases w.cacheCleaned <;>
    simp [Ends, when, effect, update, Bind.bind, Except.bind, Pure.pure, Except.pure, Kept]

theorem probeStorage_ends (h : s.monitor = false) :
    Ends (probeStorage w) s (fun outcome t => Kept s t ∧
      match (if probesStorage w then w.storageProbed else pure false) with
      | .ok watched => outcome = .ok () ∧ t.monitor = watched
      | .error e => outcome = .error e ∧ t.monitor = false) := by
  rw [probeStorage]
  cases probesStorage w <;> cases w.storageProbed <;>
    simp [Ends, when, effect, update, Bind.bind, Pure.pure, Except.pure, Kept, h]

theorem stopMonitor_ends :
    Ends (stopMonitor w) s (fun outcome t => outcome = monitorEnded w s.monitor ∧ Kept s t ∧
      t.monitor = (s.monitor && !succeededOutcome w.monitorStopped)) := by
  rw [stopMonitor, monitorEnded]
  cases h : s.monitor <;> cases w.monitorStopped <;> cases w.storageReported <;>
    simp [Ends, when, effect, update, Blocks.read, Bind.bind, Except.bind, Pure.pure, Except.pure, Kept, h,
      succeededOutcome]

theorem runCommand_ends :
    Ends (runCommand w) s (fun outcome t => outcome = commandEnded w s.monitor ∧ Kept s t ∧
      t.monitor = (s.monitor && !(succeededOutcome w.executed && succeededOutcome w.monitorStopped))) := by
  rw [runCommand, commandEnded, ends_bind, ends_effect]
  cases w.executed with
  | error e => simp [Kept, succeededOutcome]
  | ok result =>
      simp only [ok_bind]
      rw [ends_bind]
      apply ends_mono stopMonitor_ends
      rintro outcome t ⟨rfl, hk, hm⟩
      cases monitorEnded w s.monitor with
      | error e => exact ⟨rfl, hk, hm⟩
      | ok u =>
          simp only [ok_bind, ends_bind, ends_effect]
          cases trailingText w <;> cases w.flushed <;> simp [ends_pure, hk, hm, succeededOutcome]

theorem attempt_ends :
    Ends (attempt w) claimed (fun outcome t => outcome = attempted w ∧ Kept claimed t ∧
      t.monitor = monitorLeft w) := by
  rw [attempt, attempted, monitorLeft, monitorStarted, ends_bind]
  apply ends_mono acquireLocks_ends
  rintro outcome s ⟨rfl, hk, hm⟩
  cases locksTaken w with
  | error e => exact ⟨rfl, hk, hm⟩
  | ok u =>
      simp only [ok_bind]
      rw [ends_bind]
      apply ends_mono (probeStorage_ends hm)
      rintro outcome t ⟨hk', hp⟩
      generalize (if probesStorage w then w.storageProbed else pure false) = watch at hp ⊢
      cases watch with
      | error e =>
          obtain ⟨rfl, hm'⟩ := hp
          exact ⟨rfl, hk.trans hk', hm'⟩
      | ok watched =>
          obtain ⟨rfl, rfl⟩ := hp
          simp only [ok_bind]
          rw [ends_bind]
          apply ends_mono runCommand_ends
          rintro outcome u ⟨rfl, hk'', hm'⟩
          cases commandEnded w t.monitor <;>
            refine ⟨rfl, (hk.trans hk').trans hk'', hm'.trans ?_⟩ <;> cases t.monitor <;> rfl

theorem statusOfCode_terminal (code : Int) : (statusOfCode code).terminal = true := by
  rw [statusOfCode]
  split
  · rfl
  · split <;> rfl

theorem attempted_status {c : Conclusion} (h : attempted w = .ok c) : c.status = statusOfCode c.code := by
  rw [attempted] at h
  cases hm : monitorStarted w with
  | error e => rw [hm] at h; cases h
  | ok watched =>
      cases hc : commandEnded w watched with
      | error e => rw [hm, ok_bind, hc] at h; cases h
      | ok result =>
          rw [hm, ok_bind, hc] at h
          cases h
          rfl

theorem conclusionOf_terminal (e : Raised) : (conclusionOf w e).status.terminal = true := by
  cases e <;> rfl

theorem concluded_terminal : (concluded w).status.terminal = true := by
  rw [concluded]
  cases h : attempted w with
  | ok c => rw [attempted_status h]; exact statusOfCode_terminal c.code
  | error e => exact conclusionOf_terminal e

theorem handle_ends (e : Raised) :
    Ends (handle w e) s (fun outcome t => t = s ∧
      ((outcome = .ok (conclusionOf w e) ∧ Noted w e) ∨ (∃ e', outcome = .error e') ∧ ¬ Noted w e)) := by
  cases e with
  | cancelled => exact ⟨rfl, .inl ⟨rfl, fun _ _ h => nomatch h⟩⟩
  | exception e => exact ⟨rfl, .inl ⟨rfl, fun _ _ h => nomatch h⟩⟩
  | commandCancelled forced confirmed =>
      rw [handle, Noted, ends_bind, ends_effect]
      cases w.noted with
      | ok u => exact ⟨rfl, .inl ⟨rfl, fun _ _ _ => rfl⟩⟩
      | error e' => exact ⟨rfl, .inr ⟨⟨e', rfl⟩, fun h => nomatch h forced confirmed rfl⟩⟩

/-- Whatever the `try` block raises, its handlers conclude something, unless
they cannot write to the log. -/
theorem concludes_ends :
    Ends (tryExcept (attempt w) (handle w)) claimed (fun outcome t => Kept claimed t ∧ t.monitor = monitorLeft w ∧
      ((outcome = .ok (concluded w) ∧ ∀ e, attempted w = .error e → Noted w e) ∨
        (∃ e, outcome = .error e) ∧ ¬ ∀ e, attempted w = .error e → Noted w e)) := by
  rw [ends_tryExcept]
  apply ends_mono attempt_ends
  rintro outcome s ⟨rfl, hk, hm⟩
  rw [concluded]
  cases attempted w with
  | ok c => exact ⟨hk, hm, .inl ⟨rfl, fun _ h => nomatch h⟩⟩
  | error e =>
      apply ends_mono (handle_ends e)
      rintro outcome t ⟨rfl, h⟩
      refine ⟨hk, hm, ?_⟩
      rcases h with ⟨h, hn⟩ | ⟨h, hn⟩
      · refine .inl ⟨h, ?_⟩
        rintro e' he
        cases he
        exact hn
      · exact .inr ⟨h, fun h' => hn (h' e rfl)⟩

theorem flushPreview_ends :
    Ends (flushPreview w) s (fun outcome t => t = s ∧
      ((outcome = .ok () ∧ ∀ e, w.finalFlush = .error e → e.isException = true) ∨
        (∃ e, outcome = .error e) ∧ ¬ ∀ e, w.finalFlush = .error e → e.isException = true)) := by
  rw [flushPreview, ends_tryExcept, ends_effect]
  cases w.finalFlush with
  | ok u => exact ⟨rfl, .inl ⟨rfl, fun _ h => nomatch h⟩⟩
  | error e =>
      cases e <;> simp [Raised.isException, raise]

theorem cleanup_ends :
    Ends (cleanup w) s (fun outcome t => t.status = s.status ∧
      ((outcome = .ok () ∧ t.repositoryHeld = false ∧ t.managerHeld = false ∧ CleanedUp w s.monitor) ∨
        (∃ e, outcome = .error e) ∧ ¬ CleanedUp w s.monitor)) := by
  rw [cleanup, ends_bind]
  apply ends_mono flushPreview_ends
  rintro outcome t ⟨rfl, ⟨rfl, hf⟩ | ⟨⟨e, rfl⟩, hf⟩⟩
  · simp only [ends_bind, ends_read, when, cleanedUp_iff]
    cases t.monitor <;> cases w.monitorJoined <;> cases w.flusherJoined <;> cases w.logClosed <;> simp
    all_goals exact hf
  · exact ⟨rfl, .inr ⟨⟨e, rfl⟩, fun h => hf h.flush⟩⟩

theorem passes_rowStatistics (c : Conclusion) : passes (rowStatistics w c) = statisticsReadable w c := by
  rw [rowStatistics, statisticsReadable]
  cases succeeded c.status with
  | false => rfl
  | true =>
      cases w.action with
      | backup => exact (passes_map _ _).trans (passes_parseBackupStatistics _)
      | sourceStats => exact (passes_map _ _).trans (passes_parseSourceScanStatistics _)
      | _ => rfl

theorem passes_hostLevel (version : Option String) :
    passes (hostLevel w version) = (!w.jobHost || versionReadable w.runtime version) := by
  rw [hostLevel]
  cases w.jobHost with
  | false => cases version <;> rfl
  | true =>
      cases version with
      | none => rfl
      | some text => exact (passes_map _ _).trans (passes_classifyBorgVersion _)

theorem passes_detailsOf (c : Conclusion) (version : Option String) :
    passes (detailsOf w c version) =
      ((!w.jobHost || versionReadable w.runtime version) && statisticsReadable w c) := by
  rw [detailsOf, ← passes_hostLevel, ← passes_rowStatistics]
  apply passes_bind
  intro level
  rw [← Bool.and_true (passes (rowStatistics w c))]
  apply passes_bind
  intro statistics
  rfl

theorem passes_runDetails (c : Conclusion) : passes (runDetails w c) = detailsReadable w c := by
  have hv := @passes_versionTuple w.runtime w.storedVersion
  rw [runDetails, rowVersion, detailsReadable, versionKnown, ← hv]
  cases h : versionTuple w.runtime w.storedVersion with
  | error e => rfl
  | ok parsed =>
      rw [h] at hv
      cases parsed with
      | none =>
          rw [ok_bind, pure_ok, ok_bind]
          exact (passes_detailsOf c (reportedVersion w c)).trans (by simp [passes])
      | some v =>
          rw [ok_bind, pure_ok, ok_bind]
          refine (passes_detailsOf c w.storedVersion).trans ?_
          rw [← hv]
          cases w.jobHost <;> rfl

theorem refreshStatistics_ends (c : Conclusion) : Ends (refreshStatistics w c) s (fun _ t => t = s) := by
  rw [refreshStatistics, when]
  split
  · rw [ends_tryExcept, ends_effect]
    cases w.refreshed with
    | ok u => rfl
    | error e => simp only; split <;> rfl
  · rfl

theorem invalidate_ends (c : Conclusion) :
    Ends (when (invalidates w c) (effect w.cacheInvalidated) : RunBlock Unit) s (fun outcome t => t = s ∧
      ((outcome = .ok () ∧ (invalidates w c = true → w.cacheInvalidated = .ok ())) ∨
        (∃ e, outcome = .error e) ∧ ¬ (invalidates w c = true → w.cacheInvalidated = .ok ()))) := by
  rw [when]
  cases invalidates w c <;> cases w.cacheInvalidated <;> simp [Ends, effect, Pure.pure]

theorem detailsOf_stored {c : Conclusion} {version : Option String} {details : RunDetails}
    (h : detailsOf w c version = .ok details) :
    details.network = (if w.action = .backup then w.networkActivity else none) ∧
      details.restore = (if w.action = .restore then w.restoreProgress else none) ∧
        rowStatistics w c = .ok details.statistics := by
  rw [detailsOf] at h
  cases hlevel : hostLevel w version with
  | error e => rw [hlevel] at h; cases h
  | ok level =>
      cases hstatistics : rowStatistics w c with
      | error e => rw [hlevel, ok_bind, hstatistics] at h; cases h
      | ok statistics =>
          rw [hlevel, ok_bind, hstatistics, ok_bind, pure_ok, Except.ok.injEq] at h
          rw [← h]
          exact ⟨rfl, rfl, rfl⟩

/-- The commit raises exactly if something does not fit. -/
theorem committed_iff {c : Conclusion} {details : RunDetails} (h : runDetails w c = .ok details) :
    committed w details = .ok () ↔ detailsStorable w c = true := by
  have hdetails : ∃ version, detailsOf w c version = .ok details := by
    rw [runDetails] at h
    cases hversion : rowVersion w c with
    | error e => rw [hversion] at h; cases h
    | ok version => exact ⟨version, by rw [hversion] at h; exact h⟩
  obtain ⟨version, hdetails⟩ := hdetails
  obtain ⟨hnetwork, hrestore, hstatistics⟩ := detailsOf_stored hdetails
  have hnumbers : networkNumbers details.network = if w.action = .backup then networkNumbers w.networkActivity
      else [] := by
    rw [hnetwork]
    split <;> rfl
  have htotals : restoreNumbers details.restore = if w.action = .restore then restoreNumbers w.restoreProgress
      else [] := by
    rw [hrestore]
    split <;> rfl
  simp only [committed, detailsStorable, hstatistics, ← hnumbers, ← htotals, List.all_append]
  generalize (networkNumbers details.network).all sqliteInteger = network
  generalize (restoreNumbers details.restore).all sqliteInteger = restore
  generalize (statisticsNumbers w details.statistics).all sqliteInteger = statistics
  cases network <;> cases restore <;> cases statistics <;> cases statisticsEncodable w details.statistics <;> simp

theorem commit_ends {c : Conclusion} {details : RunDetails} (h : runDetails w c = .ok details) :
    Ends (do
      effect w.hooked
      effect (committed w details)
      update (fun s : RunState => { s with status := c.status, details := some details })
      refreshStatistics w c) s (fun _ t =>
      ((w.hooked = .ok () ∧ detailsStorable w c = true) ∧ t.status = c.status ∧ t.repositoryHeld = s.repositoryHeld ∧
        t.managerHeld = s.managerHeld) ∨ ¬ (w.hooked = .ok () ∧ detailsStorable w c = true) ∧ t = s) := by
  rw [ends_bind, ends_effect]
  cases w.hooked with
  | error e => exact .inr ⟨fun h => (nomatch h.1), rfl⟩
  | ok u =>
      simp only
      rw [ends_bind, ends_effect, ← committed_iff h]
      cases committed w details with
      | error e => exact .inr ⟨fun h => (nomatch h.2), rfl⟩
      | ok u =>
          simp only [ends_bind, ends_update]
          apply ends_mono (refreshStatistics_ends c)
          rintro outcome t rfl
          simp

theorem publish_ends (c : Conclusion) :
    Ends (publish w c) s (fun _ t =>
      (Published w c ∧ t.status = c.status ∧ t.repositoryHeld = s.repositoryHeld ∧
        t.managerHeld = s.managerHeld) ∨ ¬ Published w c ∧ t = s) := by
  rw [publish, ends_bind]
  apply ends_mono (invalidate_ends c)
  rintro outcome t ⟨rfl, ⟨rfl, hc⟩ | ⟨⟨e, rfl⟩, hc⟩⟩
  · have hr := @passes_runDetails w c
    simp only
    rw [ends_bind, ends_effect, detailsOutcome]
    cases h : runDetails w c with
    | error e =>
        rw [h] at hr
        exact .inr ⟨fun hp => (nomatch hr.trans hp.readable), rfl⟩
    | ok details =>
        rw [h] at hr
        apply ends_mono (commit_ends h)
        rintro outcome u (⟨⟨hh, hstored⟩, hu⟩ | ⟨hh, rfl⟩)
        · exact .inl ⟨⟨hc, hr.symm, hh, hstored⟩, hu⟩
        · exact .inr ⟨fun hp => hh ⟨hp.hook, hp.storable⟩, rfl⟩
  · exact .inr ⟨fun hp => hc hp.cache, rfl⟩

/-- A claimed run finishes exactly if nothing is raised where no handler is
left. -/
theorem claimed_run_finishes (w : RunWorld) : Finished (executeClaimed w claimed).2 ↔ Undisturbed w := by
  have h : Ends (executeClaimed w) claimed (fun _ t => Finished t ↔ Undisturbed w) := by
    rw [executeClaimed, ends_bind, ends_tryFinally]
    apply ends_mono concludes_ends
    rintro outcome s ⟨hk, hm, h⟩
    apply ends_mono cleanup_ends
    rintro ended t ⟨hs, hc⟩
    have running (hn : ¬ Undisturbed w) (u : RunState) (hu : u.status = t.status) :
        Finished u ↔ Undisturbed w := by
      refine iff_of_false (fun hf => ?_) hn
      have := hf.status
      rw [hu, hs, hk.1] at this
      cases this
    rw [hm] at hc
    rcases hc with ⟨rfl, hr, hg, hc⟩ | ⟨⟨e, rfl⟩, hc⟩
    · rcases h with ⟨rfl, hn⟩ | ⟨⟨e, rfl⟩, hn⟩
      · apply ends_mono (publish_ends (concluded w))
        rintro outcome u (⟨hp, hu, hur, hug⟩ | ⟨hp, rfl⟩)
        · refine iff_of_true ⟨?_, hur.trans hr, hug.trans hg⟩ ⟨hn, hc, hp⟩
          rw [hu]
          exact concluded_terminal
        · exact running (fun hw => hp hw.published) u rfl
      · exact running (fun hw => hn hw.noted) t rfl
    · exact running (fun hw => hc hw.cleaned) t rfl
  exact h

def asciiRuntime : Runtime := {
  decimal := fun c => if c.isDigit then some (c.toNat - '0'.toNat) else none
  sameLetter := fun c d => c.toLower == d.toLower
  casefold := String.toLower
  lower := String.toLower
  jsonLoads := fun _ => .error .decode
  str := fun _ => ""
  roundProduct := fun text n => text.toNat?.map (fun k => ((k * n : Nat) : Int))
  encodable := fun _ => true }

/-- A backup whose process a first request stops, and a second request that
arrives while the `finally` block waits for the task that flushes the log. -/
def cancelledTwice : RunWorld := {
  runtime := asciiRuntime
  action := .backup
  repositoryId := some 1
  repositoryFound := true
  managerLock := false
  refreshSizeAfter := true
  jobFound := true
  jobHost := true
  storedOutput := ""
  storedVersion := none
  errorId := "BBM-00000001"
  technicalErrorId := "BBM-00000002"
  networkActivity := none
  restoreProgress := none
  repositoryLocked := .ok ()
  managerLocked := .ok ()
  cacheCleaned := .ok ()
  storageProbed := .ok false
  executed := .error (.commandCancelled false true)
  monitorStopped := .ok ()
  storageReported := .ok ()
  streamsFinished := .ok ""
  flushed := .ok ()
  noted := .ok ()
  finalFlush := .ok ()
  monitorJoined := .ok ()
  flusherJoined := .error .cancelled
  logClosed := .ok ()
  cacheInvalidated := .ok ()
  hooked := .ok ()
  refreshed := .ok () }

/-- The run stays running and keeps the lock of its repository. -/
theorem second_cancel_leaves_run :
    (executeClaimed cancelledTwice claimed).2.status = .running ∧
      (executeClaimed cancelledTwice claimed).2.repositoryHeld = true ∧
      ¬ ∀ w, Finished (executeClaimed w claimed).2 := by
  refine ⟨rfl, rfl, fun h => ?_⟩
  cases (h cancelledTwice).status

end BorgManager.RunExecution
