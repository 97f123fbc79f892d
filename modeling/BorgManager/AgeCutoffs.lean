import BorgManager.CivilTime

namespace BorgManager.AgeCutoffs

open CivilTime

/-- A row of `runs`, as far as the cleanup reads and writes it. -/
structure Run where
  id : Int
  status : String
  createdAt : String
  finishedAt : Option String
  error : Option String

/-- A row of `notification_deliveries`. -/
structure Delivery where
  id : Int
  runId : Option Int
  createdAt : String

section Conditions

def isOpen (run : Run) : Bool := run.status == "queued" || run.status == "running"

/-- `status IN ('queued','running') AND created_at < :cutoff` -/
def staleRun (cutoff : String) (run : Run) : Bool := isOpen run && textLess run.createdAt cutoff

/-- `d.run_id IS NOT NULL AND r.id IS NULL` after the left join with the runs. -/
def isOrphan (runs : List Run) (d : Delivery) : Bool :=
  match d.runId with
  | none => false
  | some id => runs.all (fun run => run.id != id)

def orphanDelivery (runs : List Run) (cutoff : String) (d : Delivery) : Bool :=
  isOrphan runs d && textLess d.createdAt cutoff

end Conditions

section Cleanup

variable (now : DateTime)

/-- `_iso(now - timedelta(hours=24))`; there is none before the second day of year 1. -/
def staleRunCutoff : Option String := (now.minusDays 1).map DateTime.isoformat

def orphanDeliveryCutoff : Option String := (now.minusDays 30).map DateTime.isoformat

def staleActiveRuns (runs : List Run) : Option Nat :=
  (staleRunCutoff now).map (fun cutoff => runs.countP (staleRun cutoff))

def orphanNotificationDeliveries (runs : List Run) (deliveries : List Delivery) : Option Nat :=
  (orphanDeliveryCutoff now).map (fun cutoff => deliveries.countP (orphanDelivery runs cutoff))

def closedMessage : String := "Durch Datenbankbereinigung als veralteter unterbrochener Lauf abgeschlossen."

/-- The backslash stays: SQLite has no escapes in its texts. -/
def closeRun (run : Run) : Run := { run with
  status := "failed"
  finishedAt := some now.isoformat
  error := some (if run.error.getD "" = "" then closedMessage else run.error.getD "" ++ "\\n" ++ closedMessage) }

def closeStaleRuns (runs : List Run) : Option (List Run) :=
  (staleRunCutoff now).map (fun cutoff => runs.map (fun run => if staleRun cutoff run then closeRun now run else run))

def removeOrphanDeliveries (runs : List Run) (deliveries : List Delivery) : Option (List Delivery) :=
  (orphanDeliveryCutoff now).map (fun cutoff => deliveries.filter (fun d => !orphanDelivery runs cutoff d))

end Cleanup

/-- The row was created on the day of the cut-off, and not before it. -/
def SameDayLater (created cutoff : DateTime) : Prop :=
  created.date = cutoff.date ∧ cutoff.time.microseconds ≤ created.time.microseconds

theorem textLess_iff_instant {created cutoff : DateTime} :
    (textLess created.stored cutoff.isoformat = true ↔ created.instant < cutoff.instant) ↔
      ¬ SameDayLater created cutoff := by
  rw [textLess_stored_isoformat, DateTime.instant_lt_iff, SameDayLater]
  constructor
  · rintro h ⟨hdate, hle⟩
    rcases h.mp (Or.inr hdate) with hbefore | ⟨-, hlt⟩
    · exact Nat.lt_irrefl _ (hdate ▸ Date.ordinal_lt hbefore)
    · exact Nat.not_lt_of_le hle hlt
  · intro h
    refine or_congr_right ⟨fun hdate => ⟨hdate, ?_⟩, And.left⟩
    by_contra hlt
    exact h ⟨hdate, Nat.le_of_not_lt hlt⟩

theorem guarded_iff {p : Bool} {selected : Bool} {before later : Prop} (h : (selected = true ↔ before) ↔ ¬ later) :
    ((p && selected) = true ↔ p = true ∧ before) ↔ ¬ (p = true ∧ later) := by
  cases p with
  | false => simp
  | true => simpa using h

/-- The conditions select the rows that are due exactly if these were not created
on the day of the cut-off at its time or later. -/
theorem age_cutoffs_iff (now day month created : DateTime) (hday : now.minusDays 1 = some day)
    (hmonth : now.minusDays 30 = some month) (run : Run) (hrun : run.createdAt = created.stored)
    (runs : List Run) (d : Delivery) (hd : d.createdAt = created.stored) :
    (∃ cutoff, staleRunCutoff now = some cutoff ∧
      ((staleRun cutoff run = true ↔ isOpen run = true ∧ created.instant + dayLength < now.instant) ↔
        ¬ (isOpen run = true ∧ SameDayLater created day))) ∧
    (∃ cutoff, orphanDeliveryCutoff now = some cutoff ∧
      ((orphanDelivery runs cutoff d = true ↔ isOrphan runs d = true ∧ created.instant + 30 * dayLength < now.instant) ↔
        ¬ (isOrphan runs d = true ∧ SameDayLater created month))) := by
  have hdayInstant := DateTime.instant_minusDays hday
  have hmonthInstant := DateTime.instant_minusDays hmonth
  constructor
  · refine ⟨day.isoformat, by rw [staleRunCutoff, hday]; rfl, ?_⟩
    rw [staleRun, hrun, ← hdayInstant, Nat.one_mul, Nat.add_lt_add_iff_right]
    exact guarded_iff textLess_iff_instant
  · refine ⟨month.isoformat, by rw [orphanDeliveryCutoff, hmonth]; rfl, ?_⟩
    rw [orphanDelivery, hd, ← hmonthInstant, Nat.add_lt_add_iff_right]
    exact guarded_iff textLess_iff_instant

/-- An hour and a minute of a day of January 2024. -/
def january (day hour : Nat) (minute : Fin 60) (hday : 1 ≤ day ∧ day ≤ 31) (hhour : hour < 24) : DateTime :=
  ⟨⟨2024, 1, day, by decide, by decide, hday⟩, ⟨hour, minute, 0, 0, hhour, minute.isLt, by decide, by decide⟩⟩

theorem age_cutoffs_noon :
    ∃ cutoff, staleRunCutoff (january 31 12 0 (by decide) (by decide)) = some cutoff ∧
      ((staleRun cutoff ⟨1, "running", (january 29 13 0 (by decide) (by decide)).stored, none, none⟩ = true ↔
        isOpen ⟨1, "running", (january 29 13 0 (by decide) (by decide)).stored, none, none⟩ = true ∧
          (january 29 13 0 (by decide) (by decide)).instant + dayLength <
            (january 31 12 0 (by decide) (by decide)).instant) ↔
        ¬ (isOpen ⟨1, "running", (january 29 13 0 (by decide) (by decide)).stored, none, none⟩ = true ∧
          SameDayLater (january 29 13 0 (by decide) (by decide)) (january 30 12 0 (by decide) (by decide)))) :=
  (age_cutoffs_iff _ (january 30 12 0 (by decide) (by decide))
    (january 1 12 0 (by decide) (by decide)) _ rfl rfl _ rfl [] ⟨1, none, _⟩ rfl).1

/-- A run of one minute before midnight is closed half an hour after midnight. -/
theorem recent_run_closed :
    let created := january 1 23 59 (by decide) (by decide)
    let now := january 2 0 30 (by decide) (by decide)
    let run : Run := ⟨1, "running", created.stored, none, none⟩
    (staleRunCutoff now).map (fun cutoff => staleRun cutoff run) = some true ∧
      closeStaleRuns now [run] = some [closeRun now run] ∧ ¬ created.instant + dayLength < now.instant := by
  refine ⟨?_, ?_, ?_⟩
  · decide
  · rfl
  · decide

end BorgManager.AgeCutoffs
