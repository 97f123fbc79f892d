import Mathlib.Data.List.Induction
import BorgManager.StorageProbe

namespace BorgManager.StorageMonitor

open StorageProbe

abbrev Outcome := Except Failure Usage

inductive Task
  | running
  | returned
  | raised (failure : Failure)
  deriving DecidableEq

/-- The monitor of a backup with the event and the reason that it shares with
the execution of the backup. Nothing else sets the event. -/
structure Monitor where
  failures : Nat
  abortEvent : Bool
  abortReason : Option String
  log : List String
  task : Task

def started : Monitor := ⟨0, false, none, [], .running⟩

def maxConsecutiveFailures : Nat := 2

/-- `f"{value:.1f}"` -/
def oneDecimal (value : Rat) : String :=
  let below := (10 * value).floor
  let rest := 10 * value - below
  let tenths := if rest < 1 / 2 ∨ (rest = 1 / 2 ∧ below % 2 = 0) then below else below + 1
  (if tenths < 0 then "-" else "") ++ toString (tenths.natAbs / 10) ++ "." ++ toString (tenths.natAbs % 10)

def failuresText (failures : Nat) (failure : Failure) : String :=
  "Externe Speicherplatz-Sperre: Dateisystembelegung konnte während des Backups " ++ toString failures ++
    "-mal hintereinander nicht geprüft werden: " ++ failure.text

def thresholdText (threshold : Int) (usage : Usage) : String :=
  "Externer Repository-Speicher ist zu " ++ oneDecimal usage.percent ++ "% belegt; die konfigurierte " ++
    toString threshold ++
    "%-Speicherplatz-Sperre wurde während des Backups erreicht (" ++
      (if usage.mountPoint = "" then usage.path else usage.mountPoint) ++ ")."

def guardLine (message : String) : String := "\nSPEICHERPLATZ-SPERRE: " ++ message

/-- The reason is set before the line is appended, and the event after it.
`logError` is what the writer of the run log raises. -/
def trip (logError : Option Failure) (m : Monitor) (message line : String) : Monitor :=
  match logError with
  | some failure => { m with abortReason := some message, task := .raised failure }
  | none => { m with abortReason := some message, log := m.log ++ [line], abortEvent := true, task := .returned }

/-- One turn of the loop of `_monitor_external_repository_storage`. -/
def turn (guardEnabled : Bool) (threshold : Int) (logError : Option Failure) (m : Monitor) : Outcome → Monitor
  | .error failure =>
      if failure.expected then
        if guardEnabled && maxConsecutiveFailures ≤ m.failures + 1 then
          let message := failuresText (m.failures + 1) failure
          trip logError { m with failures := m.failures + 1 } message (guardLine message ++ "\n")
        else { m with failures := m.failures + 1 }
      else { m with task := .raised failure }
  | .ok usage =>
      if guardEnabled && (threshold : Rat) ≤ usage.percent then
        let message := thresholdText threshold usage
        trip logError { m with failures := 0 } message (guardLine message ++ " Borg wird kontrolliert gestoppt.\n")
      else { m with failures := 0 }

/-- A task that has ended probes no more. -/
def step (guardEnabled : Bool) (threshold : Int) (logError : Option Failure) (m : Monitor) (outcome : Outcome) :
    Monitor :=
  match m.task with
  | .running => turn guardEnabled threshold logError m outcome
  | _ => m

/-- The monitor after the probes of a backup that still runs. -/
def monitor (guardEnabled : Bool) (threshold : Int) (logError : Option Failure) (outcomes : List Outcome) : Monitor :=
  outcomes.foldl (step guardEnabled threshold logError) started

def failed : Outcome → Bool
  | .error _ => true
  | .ok _ => false

/-- The last probe has to stop the backup. -/
def Due (threshold : Int) (outcomes : List Outcome) : Prop :=
  (∃ before usage, outcomes = before ++ [.ok usage] ∧ (threshold : Rat) ≤ usage.percent) ∨
    ∃ before first second, outcomes = before ++ [.error first] ++ [.error second]

/-- The event is set at the latest when a probe has to stop the backup, and the
monitor has not ended without it. -/
def GuardKept (threshold : Int) (logError : Option Failure) (outcomes : List Outcome) : Prop :=
  ∀ seen, seen <+: outcomes →
    (Due threshold seen → (monitor true threshold logError seen).abortEvent = true) ∧
      ((monitor true threshold logError seen).task ≠ .running →
        (monitor true threshold logError seen).abortEvent = true)

/-- Up to the first probe that has to stop the backup no probe raises anything
unexpected, and the log takes the line about it. -/
def Foreseen (threshold : Int) (logError : Option Failure) (outcomes : List Outcome) : Prop :=
  ∀ seen outcome, seen ++ [outcome] <+: outcomes → (∀ before, before <+: seen → ¬ Due threshold before) →
    (∀ failure, outcome = .error failure → failure.expected = true) ∧
      (Due threshold (seen ++ [outcome]) → logError = none)

variable {threshold : Int} {logError : Option Failure} {seen outcomes : List Outcome} {outcome : Outcome}

def lastFailed (seen : List Outcome) : Bool := seen.getLast?.any failed

theorem due_snoc_ok {usage : Usage} : Due threshold (seen ++ [.ok usage]) ↔ (threshold : Rat) ≤ usage.percent := by
  constructor
  · rintro (⟨before, usage', heq, hle⟩ | ⟨before, first, second, heq⟩)
    · obtain ⟨-, hlast⟩ := List.append_inj' heq rfl
      cases hlast
      exact hle
    · obtain ⟨-, hlast⟩ := List.append_inj' heq rfl
      nomatch hlast
  · intro hle
    exact .inl ⟨seen, usage, rfl, hle⟩

theorem due_snoc_error {failure : Failure} : Due threshold (seen ++ [.error failure]) ↔ lastFailed seen = true := by
  constructor
  · rintro (⟨before, usage, heq, -⟩ | ⟨before, first, second, heq⟩)
    · obtain ⟨-, hlast⟩ := List.append_inj' heq rfl
      nomatch hlast
    · obtain ⟨hseen, -⟩ := List.append_inj' heq rfl
      rw [hseen, lastFailed, List.getLast?_concat]
      rfl
  · intro hlast
    rw [lastFailed, Option.any_eq_true] at hlast
    obtain ⟨last, hlast, hfailed⟩ := hlast
    obtain ⟨before, rfl⟩ := List.getLast?_eq_some_iff.mp hlast
    cases last with
    | error first => exact .inr ⟨before, first, failure, rfl⟩
    | ok usage => nomatch hfailed

theorem not_due_nil : ¬ Due threshold [] := by
  rintro (⟨before, usage, heq, -⟩ | ⟨before, first, second, heq⟩)
  · exact List.append_ne_nil_of_right_ne_nil before (List.cons_ne_nil _ _) heq.symm
  · exact List.append_ne_nil_of_right_ne_nil _ (List.cons_ne_nil _ _) heq.symm

/-- The guard still waits: nothing has had to stop the backup. -/
structure Calm (threshold : Int) (logError : Option Failure) (seen : List Outcome) : Prop where
  undue : ∀ before, before <+: seen → ¬ Due threshold before
  task : (monitor true threshold logError seen).task = .running
  event : (monitor true threshold logError seen).abortEvent = false
  failures : (monitor true threshold logError seen).failures = (lastFailed seen).toNat

theorem monitor_snoc (seen : List Outcome) (outcome : Outcome) : monitor true threshold logError (seen ++ [outcome]) =
    step true threshold logError (monitor true threshold logError seen) outcome := by
  rw [monitor, monitor, List.foldl_append, List.foldl_cons, List.foldl_nil]

theorem calm_nil : Calm threshold logError [] where
  undue before hbefore := by
    rw [List.prefix_nil.mp hbefore]
    exact not_due_nil
  task := rfl
  event := rfl
  failures := rfl

theorem Calm.turn (h : Calm threshold logError seen) (outcome : Outcome) :
    monitor true threshold logError (seen ++ [outcome]) =
      StorageMonitor.turn true threshold logError (monitor true threshold logError seen) outcome := by
  rw [monitor_snoc, step, h.task]

/-- A monitor that waits ends on anything unexpected. -/
theorem Calm.unexpected (h : Calm threshold logError seen) {failure : Failure} (hfailure : failure.expected = false) :
    (monitor true threshold logError (seen ++ [.error failure])).task = .raised failure ∧
      (monitor true threshold logError (seen ++ [.error failure])).abortEvent = false := by
  rw [h.turn, StorageMonitor.turn, if_neg (by rw [hfailure]; exact Bool.false_ne_true)]
  exact ⟨rfl, h.event⟩

theorem Calm.expected_of_kept {failure : Failure} (h : Calm threshold logError seen)
    (hkept : GuardKept threshold logError outcomes) (hseen : seen ++ [.error failure] <+: outcomes) :
    failure.expected = true := by
  by_contra hfailure
  obtain ⟨htask, hevent⟩ := h.unexpected (Bool.eq_false_of_not_eq_true hfailure)
  have hset := (hkept _ hseen).2 (by rw [htask]; nofun)
  rw [hevent] at hset
  nomatch hset

/-- A monitor that waits trips when it has to, if the line can be appended. -/
theorem Calm.due (h : Calm threshold logError seen)
    (hexpected : ∀ failure, outcome = .error failure → failure.expected = true)
    (hdue : Due threshold (seen ++ [outcome])) :
    ∃ m message line, monitor true threshold logError (seen ++ [outcome]) = trip logError m message line ∧
      m.abortEvent = false := by
  have hturn := h.turn outcome
  cases outcome with
  | error failure =>
      have hcount : maxConsecutiveFailures ≤ (monitor true threshold logError seen).failures + 1 := by
        rw [h.failures, due_snoc_error.mp hdue]
        decide
      rw [StorageMonitor.turn, if_pos (hexpected failure rfl),
        if_pos (by rw [Bool.true_and]; exact decide_eq_true hcount)] at hturn
      rw [hturn]
      exact ⟨_, _, _, rfl, h.event⟩
  | ok usage =>
      rw [StorageMonitor.turn, if_pos (by rw [Bool.true_and]; exact decide_eq_true (due_snoc_ok.mp hdue))] at hturn
      rw [hturn]
      exact ⟨_, _, _, rfl, h.event⟩

theorem Calm.snoc (h : Calm threshold logError seen)
    (hexpected : ∀ failure, outcome = .error failure → failure.expected = true)
    (hdue : ¬ Due threshold (seen ++ [outcome])) :
    Calm threshold logError (seen ++ [outcome]) := by
  have hundue (before : List Outcome) (hbefore : before <+: seen ++ [outcome]) : ¬ Due threshold before := by
    rcases List.prefix_concat_iff.mp hbefore with heq | hprefix
    · rw [heq]
      exact hdue
    · exact h.undue before hprefix
  have hlast : lastFailed (seen ++ [outcome]) = failed outcome := by
    rw [lastFailed, List.getLast?_concat, Option.any_some]
  cases outcome with
  | error failure =>
      have hfirst : lastFailed seen = false := by
        rw [← Bool.not_eq_true]
        exact fun hlast => hdue (due_snoc_error.mpr hlast)
      have hcount : ¬ maxConsecutiveFailures ≤ (monitor true threshold logError seen).failures + 1 := by
        rw [h.failures, hfirst]
        decide
      have hturn := h.turn (.error failure)
      rw [StorageMonitor.turn, if_pos (hexpected failure rfl),
        if_neg (by rw [Bool.true_and, decide_eq_true_eq]; exact hcount)] at hturn
      refine ⟨hundue, ?_, ?_, ?_⟩
      · rw [hturn]
        exact h.task
      · rw [hturn]
        exact h.event
      · rw [hturn, hlast]
        exact congrArg (· + 1) (h.failures.trans (congrArg Bool.toNat hfirst))
  | ok usage =>
      have hbelow : ¬ (threshold : Rat) ≤ usage.percent := fun hle => hdue (due_snoc_ok.mpr hle)
      have hturn := h.turn (.ok usage)
      rw [StorageMonitor.turn, if_neg (by rw [Bool.true_and, decide_eq_true_eq]; exact hbelow)] at hturn
      refine ⟨hundue, ?_, ?_, ?_⟩
      · rw [hturn]
        exact h.task
      · rw [hturn]
        exact h.event
      · rw [hturn, hlast]
        rfl

theorem tripped (h : Calm threshold logError seen)
    (hexpected : ∀ failure, outcome = .error failure → failure.expected = true)
    (hdue : Due threshold (seen ++ [outcome])) :
    (monitor true threshold logError (seen ++ [outcome])).abortEvent = logError.isNone ∧
      (monitor true threshold logError (seen ++ [outcome])).task ≠ .running := by
  obtain ⟨m, message, line, htrip, hevent⟩ := h.due hexpected hdue
  rw [htrip]
  cases logError with
  | none => exact ⟨rfl, nofun⟩
  | some failure => exact ⟨hevent, nofun⟩

/-- As long as nothing unforeseen happens the monitor waits or has set the event. -/
theorem calm_or_tripped (hforeseen : Foreseen threshold logError outcomes) (hseen : seen <+: outcomes) :
    Calm threshold logError seen ∨ ((monitor true threshold logError seen).abortEvent = true ∧
      (monitor true threshold logError seen).task ≠ .running) := by
  induction seen using List.reverseRecOn with
  | nil => exact .inl calm_nil
  | append_singleton seen outcome ih =>
      rcases ih ((List.prefix_append seen [outcome]).trans hseen) with hcalm | ⟨hevent, hended⟩
      · obtain ⟨hexpected, hlog⟩ := hforeseen seen outcome hseen hcalm.undue
        by_cases hdue : Due threshold (seen ++ [outcome])
        · obtain ⟨hevent, hended⟩ := tripped hcalm hexpected hdue
          exact .inr ⟨hevent.trans (Option.isNone_iff_eq_none.mpr (hlog hdue)), hended⟩
        · exact .inl (hcalm.snoc hexpected hdue)
      · right
        rw [monitor_snoc, step]
        split
        · next hrunning => exact absurd hrunning hended
        · exact ⟨hevent, hended⟩

/-- A guard that is kept has waited for as long as nothing has had to stop the
backup. -/
theorem calm_of_kept (hkept : GuardKept threshold logError outcomes) (hseen : seen <+: outcomes)
    (hundue : ∀ before, before <+: seen → ¬ Due threshold before) : Calm threshold logError seen := by
  induction seen using List.reverseRecOn with
  | nil => exact calm_nil
  | append_singleton seen outcome ih =>
      have hearlier : seen <+: seen ++ [outcome] := List.prefix_append seen [outcome]
      have hcalm := ih (hearlier.trans hseen) (fun before hbefore => hundue before (hbefore.trans hearlier))
      apply hcalm.snoc
      · rintro failure rfl
        exact hcalm.expected_of_kept hkept hseen
      · exact hundue _ List.prefix_rfl

/-- The guard is kept exactly if, up to the first probe that has to stop the
backup, nothing unforeseen is raised. -/
theorem guard_kept_iff (threshold : Int) (logError : Option Failure) (outcomes : List Outcome) :
    GuardKept threshold logError outcomes ↔ Foreseen threshold logError outcomes := by
  constructor
  · intro hkept seen outcome hseen hundue
    have hcalm := calm_of_kept hkept ((List.prefix_append seen [outcome]).trans hseen) hundue
    have hexpected : ∀ failure, outcome = .error failure → failure.expected = true := by
      rintro failure rfl
      exact hcalm.expected_of_kept hkept hseen
    refine ⟨hexpected, fun hdue => ?_⟩
    have hset := (hkept _ hseen).1 hdue
    rw [(tripped hcalm hexpected hdue).1] at hset
    exact Option.isNone_iff_eq_none.mp hset
  · intro hforeseen seen hseen
    rcases calm_or_tripped hforeseen hseen with hcalm | ⟨hevent, -⟩
    · exact ⟨fun hdue => absurd hdue (hcalm.undue seen List.prefix_rfl), fun hended => absurd hcalm.task hended⟩
    · exact ⟨fun _ => hevent, fun _ => hevent⟩

/-- A guard can only be lost to an unexpected exception of what the probes or
the log rest on. -/
theorem guard_kept_of_foreseeable {rt : Runtime} {probes : List Surroundings}
    (hrt : ∀ location, Foreseeable (rt.probeTarget location)) (h : ∀ probe ∈ probes, Ordinary probe) :
    GuardKept threshold none (probes.map (refreshExternalRepositoryStorage rt)) := by
  rw [guard_kept_iff]
  intro seen outcome hseen _
  refine ⟨fun failure hfailure => ?_, fun _ => rfl⟩
  have hmem : outcome ∈ probes.map (refreshExternalRepositoryStorage rt) :=
    hseen.subset (List.mem_append_right _ (List.mem_singleton_self _))
  obtain ⟨probe, hprobe, hrefresh⟩ := List.mem_map.mp hmem
  exact refresh_foreseeable hrt (h probe hprobe) failure (hrefresh.trans hfailure)

/-- A store of one external repository, an account on a storage box and a disk
that is nearly empty. -/
def exampleRuntime : Runtime where
  digit c := if c.isDigit then some (c.toNat - 48) else none
  probeTarget _ := .ok (some ⟨"box", 23, "backup", "./repo"⟩)
  quote := id

def exampleProbe (execution : Except Failure (Int × String × String)) : Surroundings where
  row := .ok (some ⟨none, true, "ssh://backup@box:23/./repo"⟩)
  secret _ := .ok (some "key")
  execution _ := execution
  errorId := "BBM-00000000"
  storedError := .ok ()
  storedRow := .ok (some ⟨none, true, "ssh://backup@box:23/./repo"⟩)
  stored := .ok ()

/-- The probe command cannot be started once, and then the disk is full. -/
def interruptedProbes : List Surroundings :=
  [exampleProbe (.error (.other "[Errno 24] Too many open files")),
    exampleProbe (.ok (0, "u1 100 99 1 99% /home", ""))]

theorem guard_lost : ¬ ∀ threshold outcomes, GuardKept threshold none outcomes := by
  intro hall
  have hkept := hall 95 (interruptedProbes.map (refreshExternalRepositoryStorage exampleRuntime))
  have hset := (hkept _ List.prefix_rfl).2 (by decide)
  exact absurd hset (by decide)

end BorgManager.StorageMonitor
