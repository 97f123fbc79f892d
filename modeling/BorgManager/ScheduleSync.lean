import BorgManager.ArchiveSeries
import BorgManager.Exceptions
import BorgManager.ScheduleConflicts
import BorgManager.SecretStore
import Mathlib.Data.List.Sort

namespace BorgManager.ScheduleSync

open Dictionaries KeyedTables PythonText
open ScheduleConflicts (BackupSchedule Database scheduleTargetJobIds)
open SecretStore (Text)

def maxScheduleExpressions : Nat := 24

/-- The other separators become line ends. -/
def lineEnd (c : Char) : Char := if c = '\r' ∨ c = ';' then '\n' else c

def rawItems (value : Text) : List Text := (value.map lineEnd).splitOn '\n'

def joinWords (words : List Text) : Text := [' '].intercalate words

def invalidExpression (expression : Text) : Text := "Ungültiger Cron-Ausdruck: ".toList ++ expression

/-- `valid` stands for the parser of cron expressions. -/
def addExpression (valid : Text → Bool) (expressions : List Text) (raw : Text) : Except Text (List Text) :=
  let expression := joinWords (splitWords raw)
  if expression.isEmpty || expressions.contains expression then .ok expressions
  else if valid expression then .ok (expressions ++ [expression])
  else .error (invalidExpression expression)

def tooMany : Text := "Maximal 24 Zeitpunkte pro Zeitplan sind erlaubt".toList

def scheduleExpressions (valid : Text → Bool) (value : Option Text) : Except Text (List Text) :=
  match value.filter (fun text => !text.all isSpace) with
  | none => .ok []
  | some value => do
      let expressions ← (rawItems value).foldlM (addExpression valid) []
      if maxScheduleExpressions < expressions.length then .error tooMany else .ok expressions

def joinExpressions (expressions : List Text) : Option Text :=
  if expressions.isEmpty then none else some ([';'].intercalate expressions)

def normalizeSchedule (valid : Text → Bool) (value : Option Text) : Except Text (Option Text) :=
  (scheduleExpressions valid value).map joinExpressions

inductive SchedulerJob
  | cleanupRunHistory
  | updateCheck (hours : Nat)
  | scheduled (expression : Text) (scheduleId : Nat) (scheduleName : String) (parallelLimit : Nat)

def scheduleJobId (id index : Nat) : Text := "schedule-".toList ++ (Nat.toDigits 10 id ++ '-' :: Nat.toDigits 10 index)

def housekeepingId : Text := "housekeeping-run-history".toList

def updateCheckId : Text := "github-release-check".toList

/-- The jobs of a schedule with targets; a schedule that cannot be read has
none. -/
def jobsOf (valid : Text → Bool) (db : Database) (schedule : BackupSchedule) : List (Text × SchedulerJob) :=
  match scheduleExpressions valid (some schedule.expressions.toList) with
  | .error _ => []
  | .ok expressions =>
      if (scheduleTargetJobIds db schedule true).isEmpty then []
      else (expressions.zipIdx 1).map (fun e =>
        (scheduleJobId schedule.id e.2, .scheduled e.1 schedule.id schedule.name schedule.parallelLimit))

def addSchedule (valid : Text → Bool) (db : Database) (jobs : Dict Text SchedulerJob) (schedule : BackupSchedule) :
    Dict Text SchedulerJob :=
  (jobsOf valid db schedule).foldl (fun jobs job => jobs.set job.1 job.2) jobs

def syncUpdateCheckJob (hours : Option Nat) (jobs : Dict Text SchedulerJob) : Dict Text SchedulerJob :=
  let jobs := jobs.erase updateCheckId
  match hours with
  | none => jobs
  | some hours => jobs.set updateCheckId (.updateCheck hours)

def enabledSchedules (db : Database) : List BackupSchedule :=
  (db.schedules.rows.filter BackupSchedule.enabled).insertionSort (fun a b => a.id ≤ b.id)

/-- The scheduler is filled anew; `hours` is the interval of the update check. -/
def syncSchedules (valid : Text → Bool) (hours : Option Nat) (db : Database) : Dict Text SchedulerJob :=
  syncUpdateCheckJob hours
    ((enabledSchedules db).foldl (addSchedule valid db) (Dict.empty.set housekeepingId .cleanupRunHistory))

section Expressions

variable {valid : Text → Bool}

theorem mem_splitOnP {p : Char → Bool} {text part : Text} (h : part ∈ text.splitOnP p) {c : Char} (hc : c ∈ part) :
    p c = false ∧ c ∈ text := by
  induction text generalizing part with
  | nil =>
      rw [List.splitOnP_nil, List.mem_singleton] at h
      subst h
      cases hc
  | cons d text ih =>
      rw [List.splitOnP_cons_eq_if_modifyHead] at h
      split at h
      · rcases List.mem_cons.mp h with rfl | h
        · cases hc
        · exact (ih h hc).imp_right (List.mem_cons_of_mem d)
      · next hd =>
          cases hsplit : text.splitOnP p with
          | nil => exact absurd hsplit (List.splitOnP_ne_nil p text)
          | cons first rest =>
              rw [hsplit, List.modifyHead_cons] at h
              rcases List.mem_cons.mp h with rfl | h
              · rcases List.mem_cons.mp hc with rfl | hc
                · exact ⟨by simpa using hd, List.mem_cons_self ..⟩
                · exact (ih (hsplit ▸ List.mem_cons_self ..) hc).imp_right (List.mem_cons_of_mem d)
              · exact (ih (hsplit ▸ List.mem_cons_of_mem _ h) hc).imp_right (List.mem_cons_of_mem d)

/-- A word has letters, none of them white space. -/
def IsWord (word : Text) : Prop := word ≠ [] ∧ ∀ c ∈ word, isSpace c = false

theorem isWord_of_mem {text word : Text} (h : word ∈ splitWords text) : IsWord word := by
  rw [splitWords, List.mem_filter] at h
  exact ⟨by simpa using h.2, fun c hc => (mem_splitOnP h.1 hc).1⟩

theorem splitWords_joinWords {words : List Text} (h : ∀ word ∈ words, IsWord word) :
    splitWords (joinWords words) = words := by
  induction words with
  | nil => rfl
  | cons word words ih =>
      have hword := h word (List.mem_cons_self ..)
      have hrest := ih (fun w hw => h w (List.mem_cons_of_mem _ hw))
      cases words with
      | nil =>
          rw [joinWords, List.intercalate_singleton, splitWords, List.splitOnP_eq_singleton hword.2,
            List.filter_cons_of_pos (by simpa using hword.1), List.filter_nil]
      | cons next words =>
          have hjoin : joinWords (word :: next :: words) = word ++ ' ' :: joinWords (next :: words) := by
            rw [joinWords, joinWords, List.intercalate_cons_cons, List.append_assoc, List.singleton_append]
          rw [hjoin, splitWords_cons hword.1 hword.2 (by decide), hrest]

/-- The form in which an expression is stored. -/
structure Normal (valid : Text → Bool) (expression : Text) : Prop where
  words : joinWords (splitWords expression) = expression
  nonempty : expression ≠ []
  valid : valid expression = true
  oneLine : ∀ c ∈ expression, c ≠ '\n' ∧ c ≠ '\r' ∧ c ≠ ';'

theorem mem_joinWords {words : List Text} {c : Char} (h : c ∈ joinWords words) :
    c = ' ' ∨ ∃ word ∈ words, c ∈ word := by
  induction words with
  | nil => cases h
  | cons word words ih =>
      cases words with
      | nil =>
          rw [joinWords, List.intercalate_singleton] at h
          exact .inr ⟨word, List.mem_cons_self .., h⟩
      | cons next words =>
          rw [joinWords, List.intercalate_cons_cons, List.append_assoc, List.mem_append, List.mem_append,
            List.mem_singleton] at h
          rcases h with h | h | h
          · exact .inr ⟨word, List.mem_cons_self .., h⟩
          · exact .inl h
          · rcases ih h with rfl | ⟨other, hother, hc⟩
            · exact .inl rfl
            · exact .inr ⟨other, List.mem_cons_of_mem _ hother, hc⟩

theorem mem_rawItems {value item : Text} (h : item ∈ rawItems value) {c : Char} (hc : c ∈ item) :
    c ≠ '\n' ∧ c ≠ '\r' ∧ c ≠ ';' := by
  rw [rawItems, List.splitOn_eq_splitOnP] at h
  obtain ⟨hend, hmem⟩ := mem_splitOnP h hc
  obtain ⟨d, -, rfl⟩ := List.mem_map.mp hmem
  have hne : lineEnd d ≠ '\n' := by simpa using hend
  rw [lineEnd] at hne ⊢
  split at hne
  · exact absurd rfl hne
  · next hd =>
      rw [not_or] at hd
      rw [if_neg (not_or.mpr hd)]
      exact ⟨hne, hd.1, hd.2⟩

theorem normal_of_item {value item : Text} (h : item ∈ rawItems value)
    (hvalid : valid (joinWords (splitWords item)) = true) (hne : joinWords (splitWords item) ≠ []) :
    Normal valid (joinWords (splitWords item)) where
  words := by rw [splitWords_joinWords (fun _ => isWord_of_mem)]
  nonempty := hne
  valid := hvalid
  oneLine := by
    intro c hc
    rcases mem_joinWords hc with rfl | ⟨word, hword, hcw⟩
    · decide
    · rw [splitWords, List.mem_filter] at hword
      exact mem_rawItems h (mem_splitOnP hword.1 hcw).2

/-- What the loop over the items has put together. -/
structure Collected (valid : Text → Bool) (expressions : List Text) : Prop where
  nodup : expressions.Nodup
  normal : ∀ expression ∈ expressions, Normal valid expression

theorem collected_add {value item : Text} {expressions next : List Text} (h : Collected valid expressions)
    (hitem : item ∈ rawItems value) (hadd : addExpression valid expressions item = .ok next) :
    Collected valid next := by
  rw [addExpression] at hadd
  split at hadd
  · cases hadd
    exact h
  · next hnew =>
      split at hadd
      · next hvalid =>
          cases hadd
          rw [Bool.or_eq_true, not_or, List.isEmpty_iff, List.contains_iff_mem] at hnew
          refine ⟨?_, fun expression hmem => ?_⟩
          · rw [List.nodup_append]
            refine ⟨h.nodup, List.nodup_singleton _, ?_⟩
            rintro a ha b hb rfl
            rw [List.mem_singleton] at hb
            subst hb
            exact hnew.2 ha
          · rcases List.mem_append.mp hmem with hmem | hmem
            · exact h.normal expression hmem
            · rw [List.mem_singleton] at hmem
              subst hmem
              exact normal_of_item hitem hvalid hnew.1
      · cases hadd

theorem collected_items {value : Text} {items expressions result : List Text} (h : Collected valid expressions)
    (hitems : ∀ item ∈ items, item ∈ rawItems value)
    (hresult : items.foldlM (addExpression valid) expressions = .ok result) :
    Collected valid result := by
  induction items generalizing expressions with
  | nil =>
      cases hresult
      exact h
  | cons item items ih =>
      rw [List.foldlM_cons] at hresult
      obtain ⟨next, hadd, hrest⟩ := Exceptions.bind_ok hresult
      exact ih (collected_add h (hitems item (List.mem_cons_self ..)) hadd)
        (fun i hi => hitems i (List.mem_cons_of_mem _ hi)) hrest

/-- Expressions in their stored form are taken over one by one. -/
theorem foldlM_normal (expressions : List Text) {rest : List Text} (h : Collected valid (expressions ++ rest)) :
    rest.foldlM (addExpression valid) expressions = .ok (expressions ++ rest) := by
  induction rest generalizing expressions with
  | nil =>
      rw [List.append_nil]
      rfl
  | cons expression rest ih =>
      have hnormal := h.normal expression (by simp)
      have hnew : ¬(expression.isEmpty || expressions.contains expression) = true := by
        rw [Bool.or_eq_true, not_or, List.isEmpty_iff, List.contains_iff_mem]
        refine ⟨hnormal.nonempty, fun hmem => ?_⟩
        exact (List.nodup_append.mp h.nodup).2.2 expression hmem expression (List.mem_cons_self ..) rfl
      have hadd : addExpression valid expressions expression = .ok (expressions ++ [expression]) := by
        rw [addExpression, hnormal.words, if_neg hnew, if_pos hnormal.valid]
      have hrest := ih (expressions ++ [expression]) (by rw [List.append_assoc]; exact h)
      rw [List.append_assoc, List.singleton_append] at hrest
      rw [List.foldlM_cons, hadd]
      exact hrest

theorem map_lineEnd {text : Text} (h : ∀ c ∈ text, c ≠ '\n' ∧ c ≠ '\r' ∧ c ≠ ';') : text.map lineEnd = text := by
  rw [List.map_congr_left (g := id), List.map_id]
  intro c hc
  exact if_neg (not_or.mpr (h c hc).2)

theorem rawItems_join {expressions : List Text} (h : ∀ e ∈ expressions, Normal valid e) (hne : expressions ≠ []) :
    rawItems ([';'].intercalate expressions) = expressions := by
  have hmap : ∀ {es : List Text}, (∀ e ∈ es, Normal valid e) → ([';'].intercalate es).map lineEnd =
      ['\n'].intercalate es := by
    intro es hes
    induction es with
    | nil => rfl
    | cons e es ih =>
        have he := map_lineEnd (hes e (List.mem_cons_self ..)).oneLine
        cases es with
        | nil => rw [List.intercalate_singleton, List.intercalate_singleton, he]
        | cons next es =>
            rw [List.intercalate_cons_cons, List.intercalate_cons_cons, List.map_append, List.map_append, he,
              ih (fun x hx => hes x (List.mem_cons_of_mem _ hx))]
            rfl
  rw [rawItems, hmap h, List.splitOn_intercalate _ (fun e he hc => ((h e he).oneLine '\n' hc).1 rfl) hne]

/-- A stored expression has a letter that is no white space. -/
theorem not_blank_join {expressions : List Text} (h : ∀ e ∈ expressions, Normal valid e) (hne : expressions ≠ []) :
    ([';'].intercalate expressions).all isSpace = false := by
  cases expressions with
  | nil => exact absurd rfl hne
  | cons e es =>
      have he := h e (List.mem_cons_self ..)
      cases hwords : splitWords e with
      | nil =>
          have hempty := he.words
          rw [hwords] at hempty
          exact absurd hempty.symm he.nonempty
      | cons word words =>
          have hword : IsWord word := isWord_of_mem (hwords ▸ List.mem_cons_self ..)
          obtain ⟨c, cs, rfl⟩ := List.exists_cons_of_ne_nil hword.1
          have hc : c ∈ [';'].intercalate (e :: es) := by
            have hin : c ∈ e := by
              rw [← he.words, hwords]
              cases words with
              | nil =>
                  rw [joinWords, List.intercalate_singleton]
                  exact List.mem_cons_self ..
              | cons next words =>
                  rw [joinWords, List.intercalate_cons_cons]
                  simp
            cases es with
            | nil =>
                rw [List.intercalate_singleton]
                exact hin
            | cons next es =>
                rw [List.intercalate_cons_cons, List.append_assoc]
                exact List.mem_append_left _ hin
          rw [List.all_eq_false]
          exact ⟨c, hc, by simp [hword.2 c (List.mem_cons_self ..)]⟩

theorem collected_of_ok {value : Option Text} {expressions : List Text}
    (h : scheduleExpressions valid value = .ok expressions) :
    Collected valid expressions ∧ expressions.length ≤ maxScheduleExpressions := by
  have hnone : Collected valid [] := ⟨List.nodup_nil, by simp⟩
  rw [scheduleExpressions] at h
  split at h
  · cases h
    exact ⟨hnone, Nat.zero_le _⟩
  · obtain ⟨result, hresult, h⟩ := Exceptions.bind_ok h
    split at h
    · cases h
    · next hlen =>
        cases h
        exact ⟨collected_items hnone (fun _ hi => hi) hresult, Nat.le_of_not_lt hlen⟩

/-- What the form stores is read back as the same expressions, each of them
once, in one line and accepted by the parser. -/
theorem expressions_stored {value stored : Option Text} (h : normalizeSchedule valid value = .ok stored) :
    ∃ expressions, scheduleExpressions valid value = .ok expressions ∧ scheduleExpressions valid stored =
      .ok expressions ∧
      normalizeSchedule valid stored = .ok stored ∧ Collected valid expressions ∧
      expressions.length ≤ maxScheduleExpressions := by
  cases hexpressions : scheduleExpressions valid value with
  | error e =>
      rw [normalizeSchedule, hexpressions] at h
      cases h
  | ok expressions =>
      obtain ⟨hcollected, hlen⟩ := collected_of_ok hexpressions
      rw [normalizeSchedule, hexpressions] at h
      cases h
      have hread : scheduleExpressions valid (joinExpressions expressions) = .ok expressions := by
        cases expressions with
        | nil => rfl
        | cons e es =>
            have hblank := not_blank_join hcollected.normal (List.cons_ne_nil e es)
            rw [joinExpressions, List.isEmpty_cons, if_neg Bool.false_ne_true, scheduleExpressions,
              Option.filter_some_pos (by rw [hblank]; rfl)]
            dsimp only
            rw [rawItems_join hcollected.normal (List.cons_ne_nil e es), foldlM_normal [] hcollected]
            exact if_neg (Nat.not_lt.mpr hlen)
      refine ⟨expressions, rfl, hread, ?_, hcollected, hlen⟩
      rw [normalizeSchedule, hread]
      rfl

end Expressions

theorem expressions_stored_two :
    ∃ expressions, scheduleExpressions (fun _ => true) (some "30 3 * * 1".toList) = .ok expressions := by
  have hstored : normalizeSchedule (fun _ => true) (some "30  3 * * 1\n 30 3 * * 1".toList) =
      .ok (some "30 3 * * 1".toList) := by decide
  obtain ⟨expressions, -, hread, -⟩ := expressions_stored hstored
  exact ⟨expressions, hread⟩

section Scheduler

variable (valid : Text → Bool) (db : Database)

/-- The times at which a schedule is to run. -/
def wanted (schedule : BackupSchedule) : List Text :=
  match scheduleExpressions valid (some schedule.expressions.toList) with
  | .error _ => []
  | .ok expressions => if schedule.enabled && !(scheduleTargetJobIds db schedule true).isEmpty then expressions else []

def wantedJob (schedule : BackupSchedule) (expression : Text) : SchedulerJob :=
  .scheduled expression schedule.id schedule.name schedule.parallelLimit

def wantedJobs (schedule : BackupSchedule) : List (Text × SchedulerJob) :=
  ((wanted valid db schedule).zipIdx 1).map (fun e => (scheduleJobId schedule.id e.2, wantedJob schedule e.1))

variable {valid db} {schedule : BackupSchedule} {key : Text} {job : SchedulerJob}

theorem jobsOf_enabled (h : schedule.enabled = true) : jobsOf valid db schedule = wantedJobs valid db schedule := by
  rw [jobsOf, wantedJobs, wanted, h, Bool.true_and]
  cases scheduleExpressions valid (some schedule.expressions.toList) with
  | error e => rfl
  | ok expressions => cases (scheduleTargetJobIds db schedule true).isEmpty <;> rfl

theorem enabled_of_wanted {k : Nat} {expression : Text} (h : (wanted valid db schedule)[k]? = some expression) :
    schedule.enabled = true := by
  rw [wanted] at h
  split at h
  · cases h
  · split at h
    · next hrun => exact (Bool.and_eq_true_iff.mp hrun).1
    · cases h

theorem digits_injective {n m : Nat} (h : Nat.toDigits 10 n = Nat.toDigits 10 m) : n = m := by
  have hparsed := congrArg (fun digits => Nat.ofDigitChars 10 digits 0) h
  simpa using hparsed

theorem scheduleJobId_injective {a b c d : Nat} (h : scheduleJobId a b = scheduleJobId c d) : a = c ∧ b = d := by
  have hdigits : Nat.toDigits 10 a ++ '-' :: Nat.toDigits 10 b = Nat.toDigits 10 c ++ '-' :: Nat.toDigits 10 d :=
    List.append_cancel_left h
  have hfirst := congrArg (List.takeWhile (· != '-')) hdigits
  rw [ArchiveSeries.takeWhile_digits, ArchiveSeries.takeWhile_digits] at hfirst
  rw [hfirst] at hdigits
  have hlast := List.append_cancel_left hdigits
  exact ⟨digits_injective hfirst, digits_injective (List.cons.inj hlast).2⟩

theorem mem_wantedJobs : (key, job) ∈ wantedJobs valid db schedule ↔
    ∃ k expression, (wanted valid db schedule)[k]? = some expression ∧ key = scheduleJobId schedule.id (k + 1) ∧
      job = wantedJob schedule expression := by
  rw [wantedJobs, List.mem_map]
  constructor
  · rintro ⟨⟨expression, n⟩, hmem, heq⟩
    cases heq
    obtain ⟨hle, hget⟩ := List.mem_zipIdx_iff_le_and_getElem?_sub.mp hmem
    exact ⟨n - 1, expression, hget, by rw [Nat.sub_add_cancel hle], rfl⟩
  · rintro ⟨k, expression, hget, rfl, rfl⟩
    refine ⟨(expression, k + 1), List.mem_zipIdx_iff_le_and_getElem?_sub.mpr ⟨Nat.le_add_left 1 k, ?_⟩, rfl⟩
    rw [Nat.add_sub_cancel]
    exact hget

theorem keys_wantedJobs (schedule : BackupSchedule) : ((wantedJobs valid db schedule).map Prod.fst).Nodup := by
  have hkeys : ∀ entries : List (Text × Nat),
      (entries.map (fun e => (scheduleJobId schedule.id e.2, wantedJob schedule e.1))).map Prod.fst =
        (entries.map Prod.snd).map (scheduleJobId schedule.id) := by
    intro entries
    induction entries with
    | nil => rfl
    | cons e entries ih => rw [List.map_cons, List.map_cons, ih, List.map_cons, List.map_cons]
  rw [wantedJobs, hkeys, List.zipIdx_map_snd]
  exact List.Nodup.map (fun _ _ heq => (scheduleJobId_injective heq).2) (List.nodup_range' 1)

variable (db)

theorem mem_enabledSchedules :
    schedule ∈ enabledSchedules db ↔ schedule ∈ db.schedules.rows ∧ schedule.enabled = true := by
  rw [enabledSchedules, List.mem_insertionSort, List.mem_filter]

theorem ids_enabledSchedules : ((enabledSchedules db).map BackupSchedule.id).Nodup := by
  have hperm := (List.perm_insertionSort (fun a b : BackupSchedule => a.id ≤ b.id)
    (db.schedules.rows.filter BackupSchedule.enabled)).map BackupSchedule.id
  exact hperm.nodup_iff.mpr (db.schedules.unique.sublist (List.filter_sublist.map BackupSchedule.id))

theorem jobs_enabledSchedules (valid : Text → Bool) :
    (enabledSchedules db).flatMap (jobsOf valid db) = (enabledSchedules db).flatMap (wantedJobs valid db) :=
  List.flatMap_congr fun _ hmem => jobsOf_enabled ((mem_enabledSchedules db).mp hmem).2

/-- No two jobs of the scheduler have one id. -/
theorem keys_jobs (valid : Text → Bool) :
    (((enabledSchedules db).flatMap (wantedJobs valid db)).map Prod.fst).Nodup := by
  rw [List.map_flatMap, List.nodup_flatMap]
  refine ⟨fun _ _ => keys_wantedJobs _, ?_⟩
  refine (List.pairwise_map.mp (ids_enabledSchedules db)).imp fun {a b} hne => ?_
  intro key ha hb
  obtain ⟨⟨_, job⟩, hmem, rfl⟩ := List.mem_map.mp ha
  obtain ⟨⟨_, other⟩, hmem', heq⟩ := List.mem_map.mp hb
  obtain ⟨k, expression, -, rfl, -⟩ := mem_wantedJobs.mp hmem
  obtain ⟨j, expression', -, rfl, -⟩ := mem_wantedJobs.mp hmem'
  exact hne (scheduleJobId_injective heq.symm).1

/-- The jobs of the schedules as a dictionary. -/
def scheduleJobs (valid : Text → Bool) : Dict Text SchedulerJob :=
  ⟨(enabledSchedules db).flatMap (wantedJobs valid db), keys_jobs db valid⟩

theorem get?_scheduleJobs : (scheduleJobs db valid).get? key = some job ↔
    ∃ schedule ∈ db.schedules.rows, ∃ k expression, (wanted valid db schedule)[k]? = some expression ∧
      key = scheduleJobId schedule.id (k + 1) ∧ job = wantedJob schedule expression := by
  rw [Dict.get?_eq_some, scheduleJobs, List.mem_flatMap]
  constructor
  · rintro ⟨schedule, hmem, hjob⟩
    exact ⟨schedule, ((mem_enabledSchedules db).mp hmem).1, mem_wantedJobs.mp hjob⟩
  · rintro ⟨schedule, hmem, k, expression, hget, hrest⟩
    exact ⟨schedule, (mem_enabledSchedules db).mpr ⟨hmem, enabled_of_wanted hget⟩,
      mem_wantedJobs.mpr ⟨k, expression, hget, hrest⟩⟩

theorem syncSchedules_eq (valid : Text → Bool) (hours : Option Nat) :
    syncSchedules valid hours db =
      syncUpdateCheckJob hours ((Dict.empty.set housekeepingId .cleanupRunHistory).update (scheduleJobs db valid)) := by
  have hfold : ∀ (schedules : List BackupSchedule) (jobs : Dict Text SchedulerJob),
      schedules.foldl (addSchedule valid db) jobs =
        (schedules.flatMap (jobsOf valid db)).foldl (fun jobs job => jobs.set job.1 job.2) jobs := by
    intro schedules jobs
    rw [List.foldl_flatMap]
    rfl
  rw [syncSchedules, hfold, jobs_enabledSchedules]
  rfl

theorem scheduleJobId_head (a b : Nat) : (scheduleJobId a b).head? = some 's' := rfl

theorem get?_syncUpdateCheckJob {hours : Option Nat} {jobs : Dict Text SchedulerJob} {key : Text} :
    (syncUpdateCheckJob hours jobs).get? key = if key = updateCheckId then hours.map .updateCheck
      else jobs.get? key := by
  cases hours with
  | none =>
      change (jobs.erase updateCheckId).get? key = _
      rw [Dict.get?_erase]
      rfl
  | some hours =>
      change ((jobs.erase updateCheckId).set updateCheckId (.updateCheck hours)).get? key = _
      rw [Dict.get?_set, Dict.get?_erase]
      split <;> rfl

theorem get?_syncSchedules {hours : Option Nat} {key : Text} (h : key ≠ updateCheckId) :
    (syncSchedules valid hours db).get? key =
      ((scheduleJobs db valid).get? key).or (if key = housekeepingId then some .cleanupRunHistory else none) := by
  rw [syncSchedules_eq, get?_syncUpdateCheckJob, if_neg h, Dict.get?_update, Dict.get?_set, Dict.get?_empty]

theorem get?_scheduleJobs_of_head {key : Text} (h : key.head? ≠ some 's') :
    (scheduleJobs db valid).get? key = none := by
  rw [Option.eq_none_iff_forall_not_mem]
  intro job hjob
  obtain ⟨schedule, -, k, expression, -, rfl, -⟩ := (get?_scheduleJobs db).mp hjob
  exact h (scheduleJobId_head ..)

theorem scheduleJobId_ne {a b : Nat} {key : Text} (h : key.head? ≠ some 's') : scheduleJobId a b ≠ key := by
  rintro rfl
  exact h (scheduleJobId_head ..)

/-- Which schedules have to run at which times, read off the scheduler: the
times of each schedule that is enabled, readable and has targets, one job for
each, and no other jobs but the two of the manager itself. -/
theorem scheduler_follows (valid : Text → Bool) (hours : Option Nat) :
    (∀ schedule ∈ db.schedules.rows, ∀ k, (syncSchedules valid hours db).get? (scheduleJobId schedule.id (k + 1)) =
        (wanted valid db schedule)[k]?.map (wantedJob schedule)) ∧
      (syncSchedules valid hours db).get? housekeepingId = some .cleanupRunHistory ∧
      (syncSchedules valid hours db).get? updateCheckId = hours.map .updateCheck ∧
      ∀ key job, (syncSchedules valid hours db).get? key = some job → key = housekeepingId ∨ key = updateCheckId ∨
        ∃ schedule ∈ db.schedules.rows, schedule.enabled = true ∧ ∃ k, key = scheduleJobId schedule.id (k + 1) := by
  refine ⟨?_, ?_, ?_, ?_⟩
  · intro schedule hmem k
    rw [get?_syncSchedules db (scheduleJobId_ne (by decide)), if_neg (scheduleJobId_ne (by decide)), Option.or_none]
    apply Option.ext
    intro job
    rw [get?_scheduleJobs, Option.map_eq_some_iff]
    constructor
    · rintro ⟨other, hother, j, expression, hexpression, hkey, rfl⟩
      obtain ⟨hid, hk⟩ := scheduleJobId_injective hkey
      have hsame := db.schedules.eq_of_key hmem hother hid
      subst hsame
      cases Nat.succ.inj hk
      exact ⟨expression, hexpression, rfl⟩
    · rintro ⟨expression, hexpression, rfl⟩
      exact ⟨schedule, hmem, k, expression, hexpression, rfl, rfl⟩
  · rw [get?_syncSchedules db (by decide), get?_scheduleJobs_of_head db (by decide), Option.none_or, if_pos rfl]
  · rw [syncSchedules_eq, get?_syncUpdateCheckJob, if_pos rfl]
  · intro key job hjob
    by_cases hupdate : key = updateCheckId
    · exact .inr (.inl hupdate)
    · rw [get?_syncSchedules db hupdate] at hjob
      cases hfound : (scheduleJobs db valid).get? key with
      | none =>
          rw [hfound, Option.none_or] at hjob
          split at hjob
          · next hkey => exact .inl hkey
          · cases hjob
      | some found =>
          obtain ⟨schedule, hmem, k, expression, hexpression, hkey, -⟩ := (get?_scheduleJobs db).mp hfound
          exact .inr (.inr ⟨schedule, hmem, enabled_of_wanted hexpression, k, hkey⟩)

end Scheduler

end BorgManager.ScheduleSync
