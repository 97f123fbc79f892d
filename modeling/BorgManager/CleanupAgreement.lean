import BorgManager.DatabaseCleanup
import BorgManager.Exceptions
import Mathlib.Data.List.Dedup
import Mathlib.Data.List.ReduceOption

namespace BorgManager.CleanupAgreement

open CivilTime AgeCutoffs JsonGrammar Tables Exceptions DatabaseCleanup
open CompressionSpec (DigitTable maxStrDigits)

section Lists

variable {t : DigitTable}

/-- Ids as a list of targets keeps them. -/
structure Ids (ids : List Int) : Prop where
  sorted : ids.Pairwise (· < ·)
  fits : ∀ id ∈ ids, 0 < id ∧ fits id = true

theorem mem_sortedIds {ids : List Int} {id : Int} : id ∈ sortedIds ids ↔ id ∈ ids := by
  rw [sortedIds, List.mem_insertionSort, List.mem_dedup]

theorem sorted_sortedIds (ids : List Int) : (sortedIds ids).Pairwise (· < ·) := by
  have hle : (sortedIds ids).Pairwise (· ≤ ·) := List.pairwise_insertionSort _ _
  have hne : (sortedIds ids).Pairwise (· ≠ ·) := ((List.perm_insertionSort _ _).nodup_iff).mpr (List.nodup_dedup ids)
  exact hle.imp₂ (fun _ _ h h' => lt_of_le_of_ne h h') hne

theorem sortedIds_sorted {ids : List Int} (h : ids.Pairwise (· < ·)) : sortedIds ids = ids := by
  have hnodup : ids.Nodup := h.imp (fun hlt => ne_of_lt hlt)
  rw [sortedIds, List.dedup_eq_self.mpr hnodup, List.Pairwise.insertionSort_eq (h.imp (fun hlt => le_of_lt hlt))]

/-- Digits below ten make a number of as many digits. -/
theorem foldl_digits_lt {digit : Char → Nat} (h : ∀ c, digit c < 10) (cs : List Char) (value : Nat) :
    cs.foldl (fun value c => 10 * value + digit c) value < (value + 1) * Nat.pow 10 cs.length := by
  induction cs generalizing value with
  | nil =>
      change value < (value + 1) * 1
      omega
  | cons c cs ih =>
      have hle : (10 * value + digit c + 1) * Nat.pow 10 cs.length ≤ (value + 1) * Nat.pow 10 (c :: cs).length := by
        change _ ≤ (value + 1) * (Nat.pow 10 cs.length * 10)
        rw [Nat.mul_comm (Nat.pow 10 cs.length), ← Nat.mul_assoc]
        have hc := h c
        exact Nat.mul_le_mul_right _ (by omega)
      exact Nat.lt_of_lt_of_le (ih _) hle

theorem pow_mono {m n : Nat} (h : m ≤ n) : Nat.pow 10 m ≤ Nat.pow 10 n := Nat.pow_le_pow_right (Nat.succ_pos 9) h

theorem fits_int (hdecimal : ∀ c d, t.decimal c = some d → d < 10) {text : String} {n : Nat}
    (h : CompressionSpec.int t text = .ok n) :
    fits n = true := by
  rw [CompressionSpec.int] at h
  split at h
  · next hshort =>
      rw [CompressionSpec.numeral] at h
      split at h
      · cases h
        have hdigit (c : Char) : (t.decimal c).getD 0 < 10 := by
          cases hc : t.decimal c with
          | none => exact Nat.succ_pos 9
          | some d => exact hdecimal c d hc
        have hlt := foldl_digits_lt hdigit text.toList 0
        rw [Nat.zero_add, Nat.one_mul] at hlt
        exact decide_eq_true (Nat.lt_of_lt_of_le hlt (pow_mono hshort))
      · cases h
  · cases h

theorem fits_itemId (hdecimal : ∀ c d, t.decimal c = some d → d < 10) {item : Value}
    (hitem : numbersFit item = true) {id : Int} (h : itemId t item = .ok (some id)) : 0 < id ∧ fits id = true := by
  cases item with
  | int n =>
      obtain ⟨hpos, heq⟩ := Option.ite_none_right_eq_some.mp (Except.ok.inj h)
      cases heq
      exact ⟨hpos, hitem⟩
  | str key =>
      rw [itemId] at h
      split at h
      · split at h
        · next n hn =>
            obtain ⟨hpos, heq⟩ := Option.ite_none_right_eq_some.mp (Except.ok.inj h)
            cases heq
            exact ⟨Int.natCast_pos.mpr hpos, fits_int hdecimal hn⟩
        · cases h
      · cases h
  | null | bool | float | arr | obj => cases h

theorem itemsFit_iff {items : List Value} : itemsFit items = true ↔ ∀ item ∈ items, numbersFit item = true := by
  induction items with
  | nil => simp [itemsFit]
  | cons item items ih => rw [itemsFit, Bool.and_eq_true, ih, List.forall_mem_cons]

theorem safeJsonIds_ids (hdecimal : ∀ c d, t.decimal c = some d → d < 10) {value : String} {ids : List Int}
    (h : safeJsonIds t value = .ok ids) : Ids ids := by
  have hnone : Ids [] := ⟨List.Pairwise.nil, by rintro id ⟨⟩⟩
  rw [safeJsonIds] at h
  split at h
  · next items _ =>
      split at h
      · next hfit =>
          cases hread : items.mapM (itemId t) with
          | error e =>
              rw [hread] at h
              cases h
          | ok read =>
              rw [hread] at h
              cases h
              refine ⟨sorted_sortedIds _, fun id hid => ?_⟩
              rw [mem_sortedIds, List.reduceOption_mem_iff] at hid
              obtain ⟨item, hitem, hid⟩ := mem_of_mapM_ok hread hid
              exact fits_itemId hdecimal (itemsFit_iff.mp hfit item hitem) hid
      · cases h
        exact hnone
  · cases h
    exact hnone

theorem mapM_int {ids : List Int} (h : ∀ id ∈ ids, 0 < id) :
    (ids.map Value.int).mapM (itemId t) = .ok (ids.map some) := by
  induction ids with
  | nil => rfl
  | cons id ids ih =>
      rw [List.map_cons, List.mapM_cons, itemId, if_pos (h id (List.mem_cons_self ..)),
        ih (fun other hother => h other (List.mem_cons_of_mem _ hother))]
      rfl

/-- The lists that the cleanup writes are read as they were. -/
theorem safeJsonIds_dumps {ids : List Int} (h : Ids ids) :
    safeJsonIds t (String.ofList (JsonIntegers.dumps ids)) = .ok ids := by
  have hne : String.ofList (JsonIntegers.dumps ids) ≠ "" := by
    intro heq
    have hlist := congrArg String.toList heq
    rw [String.toList_ofList] at hlist
    cases hlist
  have hfit : itemsFit (ids.map Value.int) = true := by
    rw [itemsFit_iff]
    intro item hitem
    obtain ⟨id, hid, rfl⟩ := List.mem_map.mp hitem
    exact (h.fits id hid).2
  have hread : (ids.map Value.int).mapM (itemId t) = .ok (ids.map some) := mapM_int (fun id hid => (h.fits id hid).1)
  have hids : (ids.map some).reduceOption = ids := by
    rw [List.reduceOption, List.filterMap_map]
    exact List.filterMap_some
  rw [safeJsonIds, if_neg hne, String.toList_ofList, JsonIntegers.loads_dumps]
  dsimp only
  rw [if_pos hfit, hread]
  change Except.ok (sortedIds (ids.map some).reduceOption) = _
  rw [hids, sortedIds_sorted h.sorted]

theorem Ids.filter {ids : List Int} (h : Ids ids) (p : Int → Bool) : Ids (ids.filter p) :=
  ⟨h.sorted.filter p, fun id hid => h.fits id (List.mem_of_mem_filter hid)⟩

/-- Both lists of targets can be read. -/
structure Readable (t : DigitTable) (row : Schedule) (hosts jobs : List Int) : Prop where
  hosts : safeJsonIds t row.targetHostIdsJson = .ok hosts
  jobs : safeJsonIds t row.targetJobIdsJson = .ok jobs

end Lists

section Schedules

variable {env : Surroundings} {db : Database} {row : Schedule} {hosts jobs : List Int}

def present (known : List Int) (ids : List Int) : List Int := ids.filter (fun id => decide (id ∈ known))

/-- One of the ids is not known. -/
def Missing (known : List Int) (ids : List Int) : Prop := ∃ id ∈ ids, id ∉ known

theorem present_ne {known ids : List Int} : present known ids ≠ ids ↔ Missing known ids := by
  rw [present, ne_eq, List.filter_eq_self, Missing]
  simp

theorem any_missing {known ids : List Int} : ids.any (fun id => decide (id ∉ known)) = true ↔ Missing known ids := by
  rw [List.any_eq_true, Missing]
  simp

theorem not_missing_present (known ids : List Int) : ¬ Missing known (present known ids) := by
  rintro ⟨id, hid, hmissing⟩
  exact hmissing (by simpa using (List.mem_filter.mp hid).2)

/-- A target of the schedule is missing, of the sort that its mode names. -/
def MissingTargets (db : Database) (row : Schedule) (hosts jobs : List Int) : Prop :=
  (row.targetMode = "hosts" ∧ Missing db.hostIds hosts) ∨ (row.targetMode = "jobs" ∧ Missing db.jobIds jobs)

/-- A repository that a schedule names is there. -/
def Referenced (db : Database) (row : Schedule) : Prop := ∀ id ∈ row.targetRepositoryId, id ∈ db.repositoryIds

/-- In its mode the schedule names a repository that is there. -/
def Assigned (db : Database) (row : Schedule) : Prop :=
  row.targetMode = "repository" → ∃ id ∈ row.targetRepositoryId, id ∈ db.repositoryIds

theorem writeSchedule_some {repositoryId : Option Int} {enabled : Bool} {written : Option Schedule}
    (h : writeSchedule env db row hosts jobs repositoryId enabled = .ok written) :
    (∀ id ∈ repositoryId, id ∈ db.repositoryIds) ∧ ∃ new, written = some new ∧ new.id = row.id ∧
    new.targetMode = row.targetMode ∧
      new.targetRepositoryId = repositoryId ∧ new.targetHostIdsJson = String.ofList (JsonIntegers.dumps hosts) ∧
        new.targetJobIdsJson = String.ofList (JsonIntegers.dumps jobs) := by
  rw [writeSchedule] at h
  split at h
  · next hall =>
      cases h
      refine ⟨fun id hid => ?_, _, rfl, rfl, rfl, rfl, rfl, rfl⟩
      cases hid
      exact of_decide_eq_true hall
  · cases h

theorem readable_of_ok {result : Option Schedule} (h : repairSchedule env db row = .ok result) :
    ∃ hosts jobs, Readable env.digits row hosts jobs := by
  obtain ⟨hosts, hhosts, h⟩ := bind_ok h
  obtain ⟨jobs, hjobs, -⟩ := bind_ok h
  exact ⟨hosts, jobs, hhosts, hjobs⟩

theorem not_assigned : ¬ Assigned db row ↔
    row.targetMode = "repository" ∧ ¬ row.targetRepositoryId.any (fun id => decide (id ∈ db.repositoryIds)) = true := by
  rw [Assigned, Classical.not_imp, Option.any_eq_true]
  simp [Option.mem_def]

/-- How a schedule is written, if it is. -/
def Written (env : Surroundings) (db : Database) (row : Schedule) (hosts jobs : List Int)
    (result : Except Failure (Option Schedule)) : Prop :=
  ∃ repositoryId enabled, (row.targetMode = "repository" → repositoryId = none) ∧
    (row.targetMode ≠ "repository" → repositoryId = row.targetRepositoryId) ∧
      result = writeSchedule env db row (present db.hostIds hosts) (present db.jobIds jobs) repositoryId enabled

/-- A schedule is written if a target is missing or its repository is. -/
theorem repairSchedule_cases (h : Readable env.digits row hosts jobs) :
    ((MissingTargets db row hosts jobs ∨ ¬ Assigned db row) ∧
      Written env db row hosts jobs (repairSchedule env db row)) ∨
      (¬ MissingTargets db row hosts jobs ∧ Assigned db row ∧ repairSchedule env db row = .ok none) := by
  rw [repairSchedule, h.hosts, h.jobs]
  change (_ ∧ Written env db row hosts jobs (if row.targetMode = "hosts" ∧ present db.hostIds hosts ≠ hosts then _
    else if row.targetMode = "jobs" ∧ present db.jobIds jobs ≠ jobs then _ else if _ then _ else _)) ∨ (_ ∧ _ ∧
      (if row.targetMode = "hosts" ∧ present db.hostIds hosts ≠ hosts then _
        else if row.targetMode = "jobs" ∧ present db.jobIds jobs ≠ jobs then _ else if _ then _ else _) = _)
  split
  · next hhosts =>
      refine Or.inl ⟨Or.inl (Or.inl ⟨hhosts.1, present_ne.mp hhosts.2⟩), _, _, ?_, fun _ => rfl, rfl⟩
      intro hmode
      rw [hhosts.1] at hmode
      exact absurd hmode (by decide)
  next hhosts =>
  split
  · next hjobs =>
      refine Or.inl ⟨Or.inl (Or.inr ⟨hjobs.1, present_ne.mp hjobs.2⟩), _, _, ?_, fun _ => rfl, rfl⟩
      intro hmode
      rw [hjobs.1] at hmode
      exact absurd hmode (by decide)
  next hjobs =>
  split
  · next hrepository =>
      exact Or.inl ⟨Or.inr (not_assigned.mpr hrepository), none, false, fun _ => rfl,
        fun hmode => absurd hrepository.1 hmode, rfl⟩
  · next hrepository =>
      refine Or.inr ⟨?_, by_contra (fun hassigned => hrepository (not_assigned.mp hassigned)), rfl⟩
      rintro (⟨hmode, hmissing⟩ | ⟨hmode, hmissing⟩)
      · exact hhosts ⟨hmode, present_ne.mpr hmissing⟩
      · exact hjobs ⟨hmode, present_ne.mpr hmissing⟩

/-- A schedule that the preview counts. -/
theorem invalidTargets_ok (h : Readable env.digits row hosts jobs) :
    ∃ invalid, invalidTargets env db row = .ok invalid ∧
      (invalid = true ↔ MissingTargets db row hosts jobs ∨
        (row.targetMode = "repository" ∧ ∃ id ∈ row.targetRepositoryId, id ∉ db.repositoryIds)) := by
  rw [invalidTargets, MissingTargets, h.hosts, h.jobs]
  split
  · next hmode =>
      refine ⟨_, rfl, ?_⟩
      rw [any_missing, hmode]
      simp
  next hhosts =>
  split
  · next hmode =>
      refine ⟨_, rfl, ?_⟩
      rw [any_missing, hmode]
      simp
  next hjobs =>
  split
  · next hmode =>
      cases hrepository : row.targetRepositoryId with
      | none => exact ⟨_, rfl, by simp [hmode]⟩
      | some id => exact ⟨_, rfl, by simp [hmode]⟩
  · next hmode => exact ⟨_, rfl, by simp [hhosts, hjobs, hmode]⟩

theorem written_ok {result : Except Failure (Option Schedule)} {written : Option Schedule}
    (h : Written env db row hosts jobs result) (hok : result = .ok written) :
    (row.targetMode ≠ "repository" → Referenced db row) ∧ ∃ new, written = some new ∧ new.id = row.id ∧
      new.targetMode = row.targetMode ∧ (row.targetMode = "repository" → new.targetRepositoryId = none) ∧
      new.targetHostIdsJson = String.ofList (JsonIntegers.dumps (present db.hostIds hosts)) ∧
      new.targetJobIdsJson = String.ofList (JsonIntegers.dumps (present db.jobIds jobs)) := by
  obtain ⟨repositoryId, enabled, hnone, hsame, hresult⟩ := h
  obtain ⟨hreferences, new, hnew, hid, hmode, hrepository, hhosts, hjobs⟩ := writeSchedule_some (hresult.symm.trans hok)
  refine ⟨fun hother => ?_, new, hnew, hid, hmode, fun hmode => hrepository.trans (hnone hmode), hhosts, hjobs⟩
  rw [hsame hother] at hreferences
  exact hreferences

theorem written_of_referenced {result : Except Failure (Option Schedule)} (h : Written env db row hosts jobs result)
    (href : row.targetMode ≠ "repository" → Referenced db row) : ∃ new, result = .ok (some new) := by
  obtain ⟨repositoryId, enabled, hnone, hsame, rfl⟩ := h
  refine ⟨_, if_pos ?_⟩
  by_cases hmode : row.targetMode = "repository"
  · rw [hnone hmode]
    rfl
  · have hreferenced := href hmode
    rw [hsame hmode]
    cases hrepository : row.targetRepositoryId with
    | none => rfl
    | some id => exact decide_eq_true (hreferenced id hrepository)

/-- What is written for a schedule. -/
def repairOf (env : Surroundings) (db : Database) (row : Schedule) : Option Schedule :=
  match repairSchedule env db row with
  | .ok written => written
  | .error _ => none

theorem repairOf_ok {written : Option Schedule} (h : repairSchedule env db row = .ok written) :
    repairOf env db row = written := by
  rw [repairOf, h]

theorem id_repairOf {new : Schedule} (h : repairOf env db row = some new) : new.id = row.id := by
  rw [repairOf] at h
  split at h
  · next written hok =>
      obtain ⟨hosts, jobs, hread⟩ := readable_of_ok hok
      rcases repairSchedule_cases hread with ⟨-, hwritten⟩ | ⟨-, -, hnone⟩
      · obtain ⟨-, other, hother, hid, -⟩ := written_ok hwritten hok
        cases h.symm.trans hother
        exact hid
      · rw [hnone] at hok
        cases hok.trans (congrArg Except.ok h)
  · cases h

/-- There is nothing to repair in a schedule. -/
def Sound (env : Surroundings) (db : Database) (row : Schedule) : Prop :=
  ∃ hosts jobs, Readable env.digits row hosts jobs ∧ ¬ MissingTargets db row hosts jobs ∧ Assigned db row

theorem Sound.repair (h : Sound env db row) : repairSchedule env db row = .ok none := by
  obtain ⟨hosts, jobs, hread, hmissing, hassigned⟩ := h
  rcases repairSchedule_cases hread with ⟨hfault | hfault, -⟩ | ⟨-, -, hnone⟩
  · exact absurd hfault hmissing
  · exact absurd hassigned hfault
  · exact hnone

theorem Sound.invalid (h : Sound env db row) : invalidTargets env db row = .ok false := by
  obtain ⟨hosts, jobs, hread, hmissing, hassigned⟩ := h
  obtain ⟨invalid, hok, hiff⟩ := @invalidTargets_ok env db row hosts jobs hread
  have hvalid : ¬ invalid = true := by
    rw [hiff]
    rintro (hfault | ⟨hmode, id, hid, hgone⟩)
    · exact hmissing hfault
    · obtain ⟨other, hother, hthere⟩ := hassigned hmode
      cases Option.mem_unique hid hother
      exact hgone hthere
  rw [hok, Bool.eq_false_iff.mpr hvalid]

/-- What is written is sound, where the schedule names a repository if it has to. -/
theorem sound_written {new : Schedule} (h : Readable env.digits row hosts jobs) (hassigned : Assigned db row)
    (hsome : repairSchedule env db row = .ok (some new)) : Sound env db new := by
  rcases repairSchedule_cases h with ⟨hfault | hfault, hwritten⟩ | ⟨-, -, hnone⟩
  · obtain ⟨-, other, hother, -, hmode, -, hhosts, hjobs⟩ := written_ok hwritten hsome
    cases hother
    refine ⟨present db.hostIds hosts, present db.jobIds jobs, ⟨?_, ?_⟩, ?_, ?_⟩
    · rw [hhosts]
      exact safeJsonIds_dumps ((safeJsonIds_ids env.decimal_lt h.hosts).filter _)
    · rw [hjobs]
      exact safeJsonIds_dumps ((safeJsonIds_ids env.decimal_lt h.jobs).filter _)
    · rintro (⟨-, hmissing⟩ | ⟨-, hmissing⟩)
      · exact not_missing_present _ _ hmissing
      · exact not_missing_present _ _ hmissing
    · intro hrepository
      rw [hmode] at hrepository
      rcases hfault with ⟨hother, -⟩ | ⟨hother, -⟩
      · exact absurd (hother.symm.trans hrepository) (by decide)
      · exact absurd (hother.symm.trans hrepository) (by decide)
  · exact absurd hassigned hfault
  · rw [hnone] at hsome
    cases hsome

end Schedules

section Rows

variable {env : Surroundings} {db : Database}

/-- The cleanup removes the mounts that the preview counts. -/
theorem removableMount_eq (env : Surroundings) (row : Mount) : removableMount env row = staleMount env row := by
  have hmin : minInstant < env.clock.staleMountCutoff := by
    have hmonth := DateTime.instant_minusDays env.clock.monthAgo
    rw [minInstant, Clock.staleMountCutoff, ← hmonth, dayLength]
    omega
  have hshort {text : String} (h : text.length < 7) : fromisoformat env text = none := if_pos h
  rw [removableMount, staleMount]
  cases row.timestamp with
  | none =>
      rw [Option.getD_none, hshort (by decide), Option.getD_none, decide_eq_true hmin]
  | some text =>
      rw [Option.getD_some]
      dsimp only
      by_cases hempty : text = ""
      · rw [hshort (by rw [hempty]; decide), Option.getD_none, decide_eq_true hmin, if_pos hempty]
      · rw [if_neg hempty]
        cases fromisoformat env text with
        | none => rw [Option.getD_none, decide_eq_true hmin]
        | some parsed => rfl

theorem staleRun_closeRun (cutoff : String) (now : DateTime) (run : Run) :
    staleRun cutoff (closeRun now run) = false := rfl

theorem count_closeRuns (clock : Clock) (runs : Table Run Run.id) :
    (closeRuns clock runs).1.count (staleRun clock.day.isoformat) = 0 := by
  unfold closeRuns
  exact Table.count_update (fun run _ => staleRun_closeRun _ _ run)

theorem rows_closeRuns (clock : Clock) (runs : Table Run Run.id) : (closeRuns clock runs).1.rows =
    runs.rows.map (fun run => if staleRun clock.day.isoformat run then closeRun clock.now run else run) := rfl

/-- Closing a run leaves its id. -/
theorem orphanDelivery_closeRuns (clock : Clock) (cutoff : String) :
    orphanDelivery (closeRuns clock db.runs).1.rows cutoff = orphanDelivery db.runs.rows cutoff := by
  have hall (id : Int) : ((closeRuns clock db.runs).1.rows).all (fun run => run.id != id) = db.runs.rows.all
      (fun run => run.id != id) := by
    rw [rows_closeRuns, List.all_map]
    congr 1
    funext run
    rw [Function.comp_apply]
    split <;> rfl
  funext d
  rw [orphanDelivery, orphanDelivery, isOrphan, isOrphan]
  cases d.runId with
  | none => rfl
  | some id => exact congrArg (fun b => b && textLess d.createdAt cutoff) (hall id)

/-- The distinct ids with a condition are as many as all of them exactly if none comes twice. -/
theorem countP_dedup {ids : List Int} {p : Int → Bool} : ids.dedup.countP p = ids.countP p ↔ (ids.filter p).Nodup := by
  have hfilter : (ids.dedup.filter p).Perm (ids.filter p).dedup := by
    rw [List.perm_ext_iff_of_nodup ((List.nodup_dedup ids).filter p) (List.nodup_dedup _)]
    intro id
    rw [List.mem_filter, List.mem_dedup, List.mem_dedup, List.mem_filter]
  rw [List.countP_eq_length_filter, List.countP_eq_length_filter, hfilter.length_eq]
  constructor
  · intro h
    rw [← List.dedup_eq_self]
    exact (List.dedup_sublist _).eq_of_length h
  · exact fun h => by rw [List.dedup_eq_self.mpr h]

theorem hostActions_count :
    (hostSshActionHostIds db).countP (fun id => decide (id ∉ db.hostIds)) = db.actions.count (orphanAction db) ↔
    ((db.actions.rows.filter (orphanAction db)).map Action.hostId).Nodup := by
  have hcount : db.actions.count (orphanAction db) = (db.actions.rows.map Action.hostId).countP
      (fun id => decide (id ∉ db.hostIds)) := by
    rw [List.countP_map]
    rfl
  have hfilter : (db.actions.rows.filter (orphanAction db)).map Action.hostId =
      (db.actions.rows.map Action.hostId).filter (fun id => decide (id ∉ db.hostIds)) := by
    rw [List.filter_map]
    rfl
  rw [hostSshActionHostIds, (List.perm_insertionSort _ _).countP_eq, hcount, hfilter, countP_dedup]

/-- Of two counts of which one takes in the other, equal ones are of the same rows. -/
theorem eq_of_countP_eq {α : Type} {p q : α → Bool} {rows : List α} (h : ∀ row ∈ rows, p row = true → q row = true)
    (hcount : rows.countP p = rows.countP q) : ∀ row ∈ rows, q row = true → p row = true := by
  induction rows with
  | nil => rintro row ⟨⟩
  | cons row rows ih =>
      have hle : rows.countP p ≤ rows.countP q :=
        List.countP_mono_left (fun other hother => h other (List.mem_cons_of_mem _ hother))
      have hrow := h row (List.mem_cons_self ..)
      rw [List.countP_cons, List.countP_cons] at hcount
      have hboth : (q row = true → p row = true) ∧ rows.countP p = rows.countP q := by
        by_cases hp : p row = true
        · rw [if_pos hp, if_pos (hrow hp)] at hcount
          exact ⟨fun _ => hp, Nat.add_right_cancel hcount⟩
        · by_cases hq : q row = true
          · rw [if_neg hp, if_pos hq] at hcount
            omega
          · rw [if_neg hp, if_neg hq] at hcount
            exact ⟨fun h => absurd h hq, hcount⟩
      intro other hother
      rcases List.mem_cons.mp hother with rfl | hother
      · exact hboth.1
      · exact ih (fun row hrow => h row (List.mem_cons_of_mem _ hrow)) hboth.2 other hother

end Rows

section Agreement

variable (env : Surroundings) (db : Database)

/-- Preview and cleanup agree: the cleanup writes what the preview counts, and
afterwards there is nothing to count and nothing to write. -/
def Agrees : Prop :=
  ∃ counts after, databaseCleanupPreview env db = .ok counts ∧ cleanupManagerDatabase env db = .ok (after, counts) ∧
    databaseCleanupPreview env after = .ok Counts.zero ∧ cleanupManagerDatabase env after = .ok (after, Counts.zero)

/-- No two host actions are of one host that is gone, both target lists of each
schedule can be read, a schedule in repository mode names a repository that is
there, and one with other targets that are gone names none that is not. -/
structure Consistent : Prop where
  actions : ((db.actions.rows.filter (orphanAction db)).map Action.hostId).Nodup
  schedules : ∀ row ∈ db.schedules.rows, ∃ hosts jobs, Readable env.digits row hosts jobs ∧ Assigned db row ∧
    (MissingTargets db row hosts jobs → Referenced db row)

/-- There is nothing to clean up. -/
structure Settled : Prop where
  runs : db.runs.count (staleRun env.clock.day.isoformat) = 0
  mounts : db.mounts.count (staleMount env) = 0
  access : db.access.count (orphanAccess db) = 0
  actions : db.actions.count (orphanAction db) = 0
  deliveries : db.deliveries.count (orphanDelivery db.runs.rows env.clock.month.isoformat) = 0
  schedules : ∀ row ∈ db.schedules.rows, Sound env db row

variable {env : Surroundings} {db : Database}

/-- What a cleanup leaves, where it succeeds. -/
def cleaned (env : Surroundings) (db : Database) : Database :=
  { db with
    runs := (closeRuns env.clock db.runs).1
    mounts := (db.mounts.delete (db.mounts.select (staleMount env))).1
    access := (db.access.delete (db.access.select (orphanAccess db))).1
    actions := (db.actions.delete (db.actions.select (orphanAction db))).1
    deliveries :=
      (db.deliveries.delete (db.deliveries.select (orphanDelivery db.runs.rows env.clock.month.isoformat))).1
    schedules := (db.schedules.rows.filterMap (repairOf env db)).foldl Table.put db.schedules }

/-- What a cleanup counts. -/
def cleanupCounts (env : Surroundings) (db : Database) : Counts :=
  ⟨db.runs.count (staleRun env.clock.day.isoformat), db.mounts.count (staleMount env),
    db.access.count (orphanAccess db),
    db.actions.count (orphanAction db), db.deliveries.count (orphanDelivery db.runs.rows env.clock.month.isoformat),
    (db.schedules.rows.filterMap (repairOf env db)).length⟩

/-- A cleanup succeeds if the preview and every repair do. -/
theorem cleanup_eq {counts : Counts} (hpreview : databaseCleanupPreview env db = .ok counts)
    (hrepairs : ∀ row ∈ db.schedules.rows, repairSchedule env db row = .ok (repairOf env db row)) :
    cleanupManagerDatabase env db = .ok (cleaned env db, cleanupCounts env db) := by
  have hmounts : removableMount env = staleMount env := funext (removableMount_eq env)
  have hrows : (db.schedules.rows.map (repairOf env db)).reduceOption = db.schedules.rows.filterMap
      (repairOf env db) := by
    rw [List.reduceOption, List.filterMap_map]
    rfl
  rw [cleanupManagerDatabase, hpreview, mapM_of_ok hrepairs]
  change Except.ok _ = _
  rw [hrows, hmounts, orphanDelivery_closeRuns, cleaned, cleanupCounts, (Table.delete_select ..).2,
    (Table.delete_select ..).2,
    (Table.delete_select ..).2, (Table.delete_select ..).2]
  rfl

/-- The preview of a database of which every schedule can be read. -/
theorem preview_eq {invalid : Schedule → Bool}
    (h : ∀ row ∈ db.schedules.rows, invalidTargets env db row = .ok (invalid row)) :
    databaseCleanupPreview env db = .ok {
      cleanupCounts env db with
      actions := (hostSshActionHostIds db).countP (fun id => decide (id ∉ db.hostIds))
      schedules := db.schedules.rows.countP invalid } := by
  rw [databaseCleanupPreview, mapM_of_ok h]
  change Except.ok _ = _
  rw [List.countP_map, Function.id_comp]
  rfl

theorem length_repairs : (db.schedules.rows.filterMap (repairOf env db)).length =
    db.schedules.rows.countP (fun row => (repairOf env db row).isSome) := by
  rw [List.length_filterMap_eq_countP]

/-- A settled database is left as it is. -/
theorem settled_agrees (h : Settled env db) :
    databaseCleanupPreview env db = .ok Counts.zero ∧ cleanupManagerDatabase env db = .ok (db, Counts.zero) := by
  have hrepairs : ∀ row ∈ db.schedules.rows, repairOf env db row = none := fun row hrow =>
    repairOf_ok (h.schedules row hrow).repair
  have hnone : db.schedules.rows.filterMap (repairOf env db) = [] := List.filterMap_eq_nil_iff.mpr hrepairs
  have hactions : (hostSshActionHostIds db).countP (fun id => decide (id ∉ db.hostIds)) = 0 := by
    have hnodup : (db.actions.rows.filter (orphanAction db)).map Action.hostId = [] := by
      rw [List.map_eq_nil_iff, List.filter_eq_nil_iff]
      exact List.countP_eq_zero.mp h.actions
    rw [hostActions_count.mpr (hnodup ▸ List.nodup_nil), h.actions]
  have hcounts : cleanupCounts env db = Counts.zero := by
    rw [cleanupCounts, h.runs, h.mounts, h.access, h.actions, h.deliveries, hnone]
    rfl
  have hpreview : databaseCleanupPreview env db = .ok Counts.zero := by
    rw [preview_eq (fun row hrow => (h.schedules row hrow).invalid), hactions, hcounts, List.countP_false]
    rfl
  refine ⟨hpreview, ?_⟩
  rw [cleanup_eq hpreview (fun row hrow => by rw [hrepairs row hrow, (h.schedules row hrow).repair]), hcounts, cleaned,
    show closeRuns env.clock db.runs = (db.runs, 0) from Table.update_none h.runs, Table.delete_none h.mounts,
      Table.delete_none h.access, Table.delete_none h.actions,
    Table.delete_none h.deliveries, hnone]
  rfl

theorem rows_cleaned :
    (cleaned env db).schedules.rows = db.schedules.rows.map (fun row => (repairOf env db row).getD row) :=
  db.schedules.rewrite_rows (fun _ _ => id_repairOf)

/-- The repairs of a consistent database succeed, and leave nothing to repair. -/
theorem repair_consistent (h : Consistent env db) {row : Schedule} (hrow : row ∈ db.schedules.rows) :
    repairSchedule env db row = .ok (repairOf env db row) ∧ Sound env db ((repairOf env db row).getD row) ∧
      ∃ invalid, invalidTargets env db row = .ok invalid ∧ (invalid = true ↔ (repairOf env db row).isSome = true) := by
  obtain ⟨hosts, jobs, hread, hassigned, hreferenced⟩ := h.schedules row hrow
  obtain ⟨invalid, hinvalid, hiff⟩ := @invalidTargets_ok env db row hosts jobs hread
  have hgone : ¬ (row.targetMode = "repository" ∧ ∃ id ∈ row.targetRepositoryId, id ∉ db.repositoryIds) := by
    rintro ⟨hmode, id, hid, hgone⟩
    obtain ⟨other, hother, hthere⟩ := hassigned hmode
    cases Option.mem_unique hid hother
    exact hgone hthere
  rw [or_iff_left hgone] at hiff
  rcases repairSchedule_cases hread with ⟨hfault | hfault, hwritten⟩ | ⟨hmissing, -, hnone⟩
  · obtain ⟨new, hnew⟩ := written_of_referenced hwritten (fun _ => hreferenced hfault)
    have hrepair := repairOf_ok hnew
    rw [hrepair, Option.getD_some]
    exact ⟨hnew, sound_written hread hassigned hnew, invalid, hinvalid, iff_of_true (hiff.mpr hfault) rfl⟩
  · exact absurd hassigned hfault
  · have hrepair := repairOf_ok hnone
    rw [hrepair, Option.getD_none]
    exact ⟨hnone, ⟨hosts, jobs, hread, hmissing, hassigned⟩, invalid, hinvalid,
      iff_of_false (fun h => hmissing (hiff.mp h)) Bool.false_ne_true⟩

theorem settled_cleaned (h : Consistent env db) : Settled env (cleaned env db) where
  runs := count_closeRuns _ _
  mounts := Table.count_delete _ _
  access := Table.count_delete _ _
  actions := Table.count_delete _ _
  deliveries := by
    change Table.count _ (orphanDelivery (closeRuns env.clock db.runs).1.rows _) = 0
    rw [orphanDelivery_closeRuns]
    exact Table.count_delete _ _
  schedules := by
    intro row hrow
    rw [rows_cleaned] at hrow
    obtain ⟨old, hold, rfl⟩ := List.mem_map.mp hrow
    exact (repair_consistent h hold).2.1

/-- Whether the preview counts a schedule. -/
def invalidOf (env : Surroundings) (db : Database) (row : Schedule) : Bool :=
  match invalidTargets env db row with
  | .ok invalid => invalid
  | .error _ => false

theorem invalidOf_ok {row : Schedule} {invalid : Bool} (h : invalidTargets env db row = .ok invalid) :
    invalidOf env db row = invalid := by
  rw [invalidOf, h]

theorem Consistent.agrees (h : Consistent env db) : Agrees env db := by
  have hinvalid : ∀ row ∈ db.schedules.rows, invalidTargets env db row = .ok (invalidOf env db row) := by
    intro row hrow
    obtain ⟨-, -, invalid, hok, -⟩ := repair_consistent h hrow
    rw [invalidOf_ok hok, hok]
  have hsame : db.schedules.rows.countP (invalidOf env db) =
      (db.schedules.rows.filterMap (repairOf env db)).length := by
    rw [length_repairs]
    refine List.countP_congr (fun row hrow => ?_)
    obtain ⟨-, -, invalid, hok, hiff⟩ := repair_consistent h hrow
    rw [invalidOf_ok hok]
    exact hiff
  have hpreview : databaseCleanupPreview env db = .ok (cleanupCounts env db) := by
    rw [preview_eq hinvalid, hostActions_count.mpr h.actions, hsame]
    rfl
  exact ⟨cleanupCounts env db, cleaned env db, hpreview,
    cleanup_eq hpreview (fun row hrow => (repair_consistent h hrow).1),
    settled_agrees (settled_cleaned h)⟩

theorem repairs_of_cleanup {result : Database × Counts} (h : cleanupManagerDatabase env db = .ok result) :
    ∀ row ∈ db.schedules.rows, repairSchedule env db row = .ok (repairOf env db row) := by
  intro row hrow
  obtain ⟨_, -, h⟩ := bind_ok h
  obtain ⟨_, hrepairs, -⟩ := bind_ok h
  obtain ⟨written, hok⟩ := ok_of_mapM_ok hrepairs hrow
  rw [repairOf_ok hok, hok]

/-- Where preview and cleanup count the same, both count the same schedules. -/
theorem counted_of_agreement {counts : Counts} {after : Database}
    (hpreview : databaseCleanupPreview env db = .ok counts)
    (hcleanup : cleanupManagerDatabase env db = .ok (after, counts)) :
    after = cleaned env db ∧ ((db.actions.rows.filter (orphanAction db)).map Action.hostId).Nodup ∧
      ∀ row ∈ db.schedules.rows, (repairOf env db row).isSome = true → invalidOf env db row = true := by
  have hrepairs := repairs_of_cleanup hcleanup
  have hread (row : Schedule) (hrow : row ∈ db.schedules.rows) : ∃ hosts jobs, Readable env.digits row hosts jobs :=
    readable_of_ok (hrepairs row hrow)
  have hinvalid : ∀ row ∈ db.schedules.rows, invalidTargets env db row = .ok (invalidOf env db row) := by
    intro row hrow
    obtain ⟨hosts, jobs, hread⟩ := hread row hrow
    obtain ⟨invalid, hok, -⟩ := @invalidTargets_ok env db row hosts jobs hread
    rw [invalidOf_ok hok, hok]
  rw [cleanup_eq hpreview hrepairs] at hcleanup
  cases hcleanup
  rw [preview_eq hinvalid, Except.ok.injEq, Counts.mk.injEq] at hpreview
  obtain ⟨-, -, -, hactions, -, hschedules⟩ := hpreview
  refine ⟨rfl, hostActions_count.mp hactions, ?_⟩
  replace hschedules := hschedules.trans length_repairs
  refine eq_of_countP_eq (fun row hrow hcounted => ?_) hschedules
  obtain ⟨hosts, jobs, hread⟩ := hread row hrow
  obtain ⟨invalid, hok, hiff⟩ := @invalidTargets_ok env db row hosts jobs hread
  rw [invalidOf_ok hok, hiff] at hcounted
  rcases repairSchedule_cases hread with ⟨-, hwritten⟩ | ⟨hmissing, hassigned, -⟩
  · obtain ⟨-, new, hnew, -⟩ := written_ok hwritten (hrepairs row hrow)
    rw [hnew]
    rfl
  · rcases hcounted with hfault | ⟨hmode, id, hid, hgone⟩
    · exact absurd hfault hmissing
    · obtain ⟨other, hother, hthere⟩ := hassigned hmode
      cases Option.mem_unique hid hother
      exact absurd hthere hgone

/-- A schedule in repository mode without a repository is repaired, but not counted. -/
theorem not_counted {row : Schedule} (hmode : row.targetMode = "repository")
    (hrepository : row.targetRepositoryId = none) :
    invalidOf env db row = false := by
  apply invalidOf_ok
  rw [invalidTargets, hmode, hrepository]
  rfl

theorem Agrees.consistent (h : Agrees env db) : Consistent env db := by
  obtain ⟨counts, after, hpreview, hcleanup, hpreviewAfter, hcleanupAfter⟩ := h
  obtain ⟨rfl, hactions, hcounted⟩ := counted_of_agreement hpreview hcleanup
  obtain ⟨-, -, hcountedAfter⟩ := counted_of_agreement hpreviewAfter hcleanupAfter
  have hrepairs := repairs_of_cleanup hcleanup
  refine ⟨hactions, fun row hrow => ?_⟩
  obtain ⟨hosts, jobs, hread⟩ := readable_of_ok (hrepairs row hrow)
  refine ⟨hosts, jobs, hread, ?_⟩
  rcases repairSchedule_cases hread with ⟨hfault, hwritten⟩ | ⟨hmissing, hassigned, -⟩
  · obtain ⟨hreferenced, new, hnew, -, hmode, hnone, -⟩ := written_ok hwritten (hrepairs row hrow)
    have hassigned : Assigned db row := by
      intro hrepository
      -- the repaired schedule is repaired once more
      exfalso
      have hmember : new ∈ (cleaned env db).schedules.rows := by
        rw [rows_cleaned]
        exact List.mem_map.mpr ⟨row, hrow, by rw [hnew, Option.getD_some]⟩
      obtain ⟨hosts', jobs', hread'⟩ := readable_of_ok (repairs_of_cleanup hcleanupAfter new hmember)
      have hunassigned : ¬ Assigned (cleaned env db) new := by
        intro hassigned
        obtain ⟨id, hid, -⟩ := hassigned (hmode.trans hrepository)
        rw [hnone hrepository] at hid
        cases hid
      rcases repairSchedule_cases hread' with ⟨-, hagain⟩ | ⟨-, hassigned, -⟩
      · obtain ⟨-, other, hother, -⟩ := written_ok hagain (repairs_of_cleanup hcleanupAfter new hmember)
        have hnotCounted := @not_counted env (cleaned env db) new (hmode.trans hrepository) (hnone hrepository)
        rw [hcountedAfter new hmember (by rw [hother]; rfl)] at hnotCounted
        cases hnotCounted
      · exact hunassigned hassigned
    refine ⟨hassigned, fun hmissing => hreferenced ?_⟩
    intro hrepository
    rcases hmissing with ⟨hother, -⟩ | ⟨hother, -⟩
    · exact absurd (hother.symm.trans hrepository) (by decide)
    · exact absurd (hother.symm.trans hrepository) (by decide)
  · exact ⟨hassigned, fun hfault => absurd hfault hmissing⟩

end Agreement

section Example

def noon : Clock :=
  ⟨january 31 12 0 (by decide) (by decide), january 30 12 0 (by decide) (by decide),
    january 1 12 0 (by decide) (by decide), rfl, rfl⟩

theorem asciiDigits_lt (c : Char) (d : Nat) (h : CompressionSpec.asciiDigits.decimal c = some d) : d < 10 := by
  obtain ⟨hdigit, heq⟩ := Option.ite_none_right_eq_some.mp h
  have hrange : 48 ≤ c.toNat ∧ c.toNat ≤ 57 := Char.isDigit_iff_toNat.mp hdigit
  cases heq
  change c.toNat - 48 < 10
  omega

def plainSurroundings : Surroundings := ⟨noon, [], CompressionSpec.asciiDigits, asciiDigits_lt, fun _ => none⟩

def scheduleOnly (row : Schedule) : Database :=
  ⟨⟨[], List.nodup_nil⟩, ⟨[], List.nodup_nil⟩, ⟨[], List.nodup_nil⟩, ⟨[], List.nodup_nil⟩, ⟨[], List.nodup_nil⟩,
    ⟨[row], List.nodup_singleton _⟩, [], [], []⟩

/-- A schedule in repository mode without a repository. -/
def unassigned : Schedule := ⟨1, "repository", "[]", "[]", none, false, ""⟩

end Example

end BorgManager.CleanupAgreement
