import BorgManager.SecretStore
import BorgManager.Histories
import Mathlib.Data.List.DropRight
import Mathlib.Data.List.Sort
import Mathlib.Data.Rat.Init

namespace BorgManager.BackupTasks

open Dictionaries Histories
open SecretStore (Text)

inductive Status
  | queued
  | running
  | finished
  | warning
  | failed
  deriving DecidableEq

def Status.active : Status → Bool
  | .queued | .running => true
  | .finished | .warning | .failed => false

inductive BackupType
  | manager
  | cache
  deriving DecidableEq

def BackupType.noun : BackupType → Text
  | .manager => "Manager-Backup".toList
  | .cache => "Cache-Backup".toList

/-- What a progress report says beside the fields of its own. -/
inductive Detail
  | none
  | number (n : Int)
  | text (t : Text)

structure Entry (τ : Type) where
  time : τ
  message : Text

/-- A task; `τ` are the texts of the clock in their order and `β` the entries of
the list of backups. -/
structure Task (τ β : Type) where
  id : Text
  backupType : BackupType
  status : Status
  stage : Text
  message : Text
  percent : ℚ
  label : Text
  includeBorgCache : Bool
  includeClientBorgCache : Bool
  createdAt : τ
  startedAt : Option τ
  finishedAt : Option τ
  updatedAt : Option τ
  details : Dict Text Detail
  backup : Option β
  backups : List β
  error : Option Text
  warning : Option Text
  events : List (Entry τ)

/-- The tables `_tasks` and `_current_task_id`. -/
structure Registry (τ β : Type) where
  tasks : Dict Text (Task τ β)
  current : Option Text

variable {τ β : Type}

def maxTasks : Nat := 12

def maxEvents : Nat := 12

def alreadyActive : Text := "Es wird bereits ein Manager-Backup erstellt".toList

def initialDetails : Dict Text Detail :=
  ((Dict.empty.set "current".toList .none).set "total".toList .none).set "bytes_done".toList (.number 0)

def queuedTask (id label : Text) (backupType : BackupType) (includeBorgCache includeClientBorgCache : Bool)
    (created event : τ) :
    Task τ β :=
  let message := backupType.noun ++ " wird vorbereitet …".toList
  { id, backupType, label, includeBorgCache, includeClientBorgCache, message
    status := .queued
    stage := "queued".toList
    percent := 0
    createdAt := created
    startedAt := none
    finishedAt := none
    updatedAt := none
    details := initialDetails
    backup := none
    backups := []
    error := none
    warning := none
    events := [⟨event, message⟩] }

def Registry.busy (r : Registry τ β) : Bool :=
  match r.current.bind r.tasks.get? with
  | some task => task.status.active
  | none => false

/-- The arguments of an update; `status` is always given by the worker. -/
structure Changes where
  status : Status
  stage : Option Text
  message : Option Text
  percent : Option ℚ
  details : Dict Text Detail

def record (events : List (Entry τ)) (added : List (Entry τ)) : List (Entry τ) := (events ++ added).rtake maxEvents

/-- A message that is there and says something new. -/
def Changes.news (changes : Changes) (task : Task τ β) : Option Text :=
  changes.message.filter (fun message => message ≠ [] && message ≠ task.message)

def changed (changes : Changes) (started event updated : τ) (task : Task τ β) : Task τ β :=
  { task with
    startedAt := if task.startedAt.isNone && changes.status = .running then some started else task.startedAt
    events := match changes.news task with
      | some message => record task.events [⟨event, message⟩]
      | none => task.events
    status := changes.status
    stage := changes.stage.getD task.stage
    message := changes.message.getD task.message
    percent := changes.percent.getD task.percent
    details := task.details.update changes.details
    updatedAt := some updated }

def updateTask (r : Registry τ β) (id : Text) (changes : Changes) (started event updated : τ) :
    Registry τ β × Option (Task τ β) :=
  match r.tasks.get? id with
  | none => (r, none)
  | some task => ({ r with tasks := r.tasks.set id (changed changes started event updated task) },
    some (changed changes started event updated task))

/-- A warning that is there and says something. -/
def warned (warning : Option Text) : Option Text := warning.filter (fun text => text ≠ [])

def finishedTask (backup : Option β) (backups : List β) (warning : Option Text) (event warningAt finishedAt updated : τ)
    (task : Task τ β) : Task τ β :=
  let message := task.backupType.noun ++
    (if (warned warning).isSome then " wurde mit Warnungen erstellt.".toList else " wurde erfolgreich erstellt.".toList)
  { task with
    events := record task.events
      (⟨event, message⟩ :: ((warned warning).map (fun text => ⟨warningAt, "Warnung: ".toList ++ text⟩)).toList)
    status := if (warned warning).isSome then .warning else .finished
    stage := "finished".toList
    message := message
    percent := 100
    finishedAt := some finishedAt
    backup := backup
    backups := if backups.isEmpty then backup.toList else backups
    error := none
    warning := warning
    updatedAt := some updated }

def failedTask (error : Text) (event finishedAt updated : τ) (task : Task τ β) : Task τ β :=
  { task with
    events := record task.events [⟨event, "Fehler: ".toList ++ error⟩]
    status := .failed
    stage := "failed".toList
    message := task.backupType.noun ++ " konnte nicht erstellt werden.".toList
    finishedAt := some finishedAt
    error := some error
    updatedAt := some updated }

/-- `current_task` without the last one. -/
def currentTask (r : Registry τ β) : Option (Task τ β) := r.current.bind r.tasks.get?

/-- What holds of a single task at any time. -/
structure Sound (task : Task τ β) : Prop where
  recorded : task.events ≠ [] ∧ task.events.length ≤ maxEvents
  active : task.status.active = true → task.finishedAt = none ∧ task.error = none
  running : task.status = .running → task.startedAt.isSome = true
  finished : task.status = .finished ∨ task.status = .warning → task.percent = 100 ∧
    task.finishedAt.isSome = true ∧ task.error = none
  failed : task.status = .failed → task.finishedAt.isSome = true ∧ task.error.isSome = true

theorem record_bounds {events added : List (Entry τ)} (h : added ≠ []) :
    record events added ≠ [] ∧ (record events added).length ≤ maxEvents := by
  have hlen : 0 < added.length := List.length_pos_iff.mpr h
  rw [← List.length_pos_iff, record, List.rtake, List.length_drop, List.length_append, maxEvents]
  omega

theorem sound_queued (id label : Text) (backupType : BackupType) (cache clients : Bool) (created event : τ) :
    Sound (queuedTask id label backupType cache clients created event : Task τ β) :=
  ⟨⟨List.cons_ne_nil _ _, by rw [maxEvents]; exact Nat.le_add_left 1 11⟩, fun _ => ⟨rfl, rfl⟩,
    by rintro ⟨⟩, fun h => (by rcases h with h | h <;> cases h), by rintro ⟨⟩⟩

theorem sound_changed {task : Task τ β} (h : Sound task) (hactive : task.status.active = true) {changes : Changes}
    (hchanges : changes.status = .running) (started event updated : τ) :
    Sound (changed changes started event updated task) where
  recorded := by
    rw [changed]
    cases changes.news task with
    | none => exact h.recorded
    | some message => exact record_bounds (List.cons_ne_nil _ _)
  active := fun _ => h.active hactive
  running := by
    intro _
    rw [changed]
    cases hs : task.startedAt <;> simp [hchanges]
  finished := by
    rw [changed, hchanges]
    rintro (h | h) <;> cases h
  failed := by
    rw [changed, hchanges]
    rintro ⟨⟩

theorem sound_finished {task : Task τ β} (backup : Option β) (backups : List β) (warning : Option Text)
    (event warningAt finishedAt updated : τ) :
    Sound (finishedTask backup backups warning event warningAt finishedAt updated task) where
  recorded := record_bounds (List.cons_ne_nil _ _)
  active := by
    rw [finishedTask]
    cases (warned warning).isSome <;> rintro ⟨⟩
  running := by
    rw [finishedTask]
    cases (warned warning).isSome <;> rintro ⟨⟩
  finished := fun _ => ⟨rfl, rfl, rfl⟩
  failed := by
    rw [finishedTask]
    cases (warned warning).isSome <;> rintro ⟨⟩

theorem sound_failed {task : Task τ β} (error : Text) (event finishedAt updated : τ) :
    Sound (failedTask error event finishedAt updated task) where
  recorded := record_bounds (List.cons_ne_nil _ _)
  active := by rintro ⟨⟩
  running := by rintro ⟨⟩
  finished := by rintro (h | h) <;> cases h
  failed := fun _ => ⟨rfl, rfl⟩

theorem Sound.over {task : Task τ β} (h : Sound task) (hactive : task.status.active = false) :
    task.finishedAt.isSome = true := by
  cases hstatus : task.status with
  | queued =>
      rw [hstatus] at hactive
      cases hactive
  | running =>
      rw [hstatus] at hactive
      cases hactive
  | finished => exact (h.finished (.inl hstatus)).2.1
  | warning => exact (h.finished (.inr hstatus)).2.1
  | failed => exact (h.failed hstatus).1

/-- A closing of tasks keeps their ids and ends their activity. -/
structure Closes (close : Task τ β → Task τ β) (finishedAt : τ) : Prop where
  id : ∀ task, (close task).id = task.id
  inactive : ∀ task, (close task).status.active = false
  finishedAt : ∀ task, (close task).finishedAt = some finishedAt
  sound : ∀ task, Sound (close task)

theorem closes_finished (backup : Option β) (backups : List β) (warning : Option Text)
    (event warningAt finishedAt updated : τ) :
    Closes (finishedTask backup backups warning event warningAt finishedAt updated) finishedAt := by
  refine ⟨fun _ => rfl, fun task => ?_, fun _ => rfl,
    fun task => sound_finished backup backups warning event warningAt finishedAt updated⟩
  rw [finishedTask]
  cases (warned warning).isSome <;> rfl

theorem closes_failed (error : Text) (event finishedAt updated : τ) :
    Closes (failedTask error event finishedAt updated : Task τ β → Task τ β) finishedAt :=
  ⟨fun _ => rfl, fun _ => rfl, fun _ => rfl, fun _ => sound_failed error event finishedAt updated⟩

/-- What holds of the registry between two calls. -/
structure Kept (r : Registry τ β) : Prop where
  named : ∀ id task, r.tasks.get? id = some task → task.id = id
  sound : ∀ id task, r.tasks.get? id = some task → Sound task
  active : ∀ id task, r.tasks.get? id = some task → (task.status.active = true ↔ r.current = some id)
  present : ∀ id, r.current = some id → ∃ task, r.tasks.get? id = some task

theorem kept_erase {r : Registry τ β} (h : Kept r) {id : Text} (hid : id ∉ r.current) :
    Kept { r with tasks := r.tasks.erase id } := by
  have hget : ∀ k task, (r.tasks.erase id).get? k = some task → r.tasks.get? k = some task := by
    intro k task hk
    rw [Dict.get?_erase] at hk
    split at hk
    · cases hk
    · exact hk
  refine ⟨fun k task hk => h.named k task (hget k task hk), fun k task hk => h.sound k task (hget k task hk),
    fun k task hk => h.active k task (hget k task hk), fun k hk => ?_⟩
  obtain ⟨task, htask⟩ := h.present k hk
  refine ⟨task, ?_⟩
  rw [Dict.get?_erase, if_neg, htask]
  rintro rfl
  exact hid hk

/-- Nothing is active when a task may begin. -/
theorem current_of_idle {r : Registry τ β} (h : Kept r) (hidle : r.busy = false) : r.current = none := by
  cases hcurrent : r.current with
  | none => rfl
  | some id =>
      obtain ⟨task, htask⟩ := h.present id hcurrent
      rw [Registry.busy, hcurrent, Option.bind_some, htask] at hidle
      dsimp only at hidle
      rw [(h.active id task htask).mpr hcurrent] at hidle
      cases hidle

/-- The registry with a task put in. -/
theorem kept_put {r : Registry τ β} (h : Kept r) {task : Task τ β} (hsound : Sound task) (current : Option Text)
    (hactive : task.status.active = true ↔ current = some task.id)
    (hothers : ∀ id, id ≠ task.id → (current = some id ↔ r.current = some id)) :
    Kept (⟨r.tasks.set task.id task, current⟩ : Registry τ β) where
  named := by
    intro id other hget
    rw [Dict.get?_set] at hget
    split at hget
    · next heq =>
        cases hget
        exact heq.symm
    · exact h.named id other hget
  sound := by
    intro id other hget
    rw [Dict.get?_set] at hget
    split at hget
    · cases hget
      exact hsound
    · exact h.sound id other hget
  active := by
    intro id other hget
    rw [Dict.get?_set] at hget
    split at hget
    · next heq =>
        cases hget
        rw [heq]
        exact hactive
    · next hne => exact (h.active id other hget).trans (hothers id hne).symm
  present := by
    intro id hid
    rw [Dict.get?_set]
    by_cases heq : id = task.id
    · exact ⟨task, if_pos heq⟩
    · rw [if_neg heq]
      exact h.present id ((hothers id heq).mp hid)

theorem kept_update {r : Registry τ β} (h : Kept r) {id : Text} (hcurrent : r.current = some id) (changes : Changes)
    (hchanges : changes.status = .running) (started event updated : τ) :
    ∃ task, r.tasks.get? id = some task ∧ task.id = id ∧
      updateTask r id changes started event updated =
        (⟨r.tasks.set id (changed changes started event updated task), r.current⟩,
          some (changed changes started event updated task)) ∧
      Kept (updateTask r id changes started event updated).1 := by
  obtain ⟨task, htask⟩ := h.present id hcurrent
  have hid := h.named id task htask
  have heq : updateTask r id changes started event updated =
      (⟨r.tasks.set id (changed changes started event updated task), r.current⟩,
        some (changed changes started event updated task)) := by
    rw [updateTask, htask]
  refine ⟨task, htask, hid, heq, ?_⟩
  rw [heq]
  have hput := kept_put h
    (sound_changed (h.sound id task htask) ((h.active id task htask).mpr hcurrent) hchanges started event
      updated) r.current
    (iff_of_true (by rw [changed, hchanges]; rfl) (hcurrent.trans (congrArg some hid.symm))) (fun _ _ => Iff.rfl)
  exact hid ▸ hput

/-- The registry, the threads that have been asked for and have not ended, and
the tasks that have ended in the order of their ends. A thread that cannot be
started makes no call and never ends. -/
structure System (τ β : Type) where
  registry : Registry τ β
  workers : List Text
  ended : List (Task τ β)

inductive Event (τ β : Type)
  | start (id label : Text) (backupType : BackupType) (includeBorgCache includeClientBorgCache : Bool)
      (created event : τ)
  | report (id : Text) (stage message : Option Text) (percent : Option ℚ) (details : Dict Text Detail)
      (started event updated : τ)
  | finish (id : Text) (backup : Option β) (backups : List β) (warning : Option Text)
      (event warningAt finishedAt updated : τ)
  | fail (id error : Text) (event finishedAt updated : τ)

def idle : System τ β := ⟨⟨.empty, none⟩, [], []⟩

/-- The registry together with the threads. -/
structure Supervised (s : System τ β) : Prop where
  kept : Kept s.registry
  size : s.registry.tasks.items.length ≤ maxTasks
  workers : s.workers = s.registry.current.toList

theorem Supervised.working {s : System τ β} (h : Supervised s) {id : Text} (hid : id ∈ s.workers) :
    s.registry.current = some id ∧ s.workers.erase id = [] := by
  rw [h.workers, Option.mem_toList] at hid
  refine ⟨hid, ?_⟩
  rw [h.workers, hid]
  exact List.erase_cons_head ..

theorem supervised_idle : Supervised (idle : System τ β) :=
  ⟨⟨by rintro id task ⟨⟩, by rintro id task ⟨⟩, by rintro id task ⟨⟩, by rintro id ⟨⟩⟩, Nat.zero_le _, rfl⟩

variable [LinearOrder τ]

/-- The instant by which tasks that are over are put in order. -/
def Task.age (task : Task τ β) : τ := task.finishedAt.getD task.createdAt

def Registry.prunable (r : Registry τ β) : List (Task τ β) :=
  ((r.tasks.items.map Prod.snd).filter (fun task => task.id ∉ r.current && !task.status.active)).insertionSort
    (fun a b => a.age ≤ b.age)

def pruneLocked (r : Registry τ β) : Registry τ β :=
  if r.tasks.items.length ≤ maxTasks then r
  else
    { r with
      tasks := (r.prunable.take (r.tasks.items.length - maxTasks)).foldl (fun d task => d.erase task.id) r.tasks }

def beginTask (r : Registry τ β) (task : Task τ β) : Except Text (Registry τ β) :=
  if r.busy then .error alreadyActive
  else .ok (pruneLocked ⟨r.tasks.set task.id task, some task.id⟩)

/-- The common part of `finish_task` and `fail_task`. -/
def endTask (r : Registry τ β) (id : Text) (close : Task τ β → Task τ β) : Registry τ β × Option (Task τ β) :=
  match r.tasks.get? id with
  | none => (r, none)
  | some task =>
      (pruneLocked ⟨r.tasks.set id (close task), if r.current = some id then none else r.current⟩, some (close task))

def finishTask (r : Registry τ β) (id : Text) (backup : Option β) (backups : List β) (warning : Option Text)
    (event warningAt finishedAt updated : τ) : Registry τ β × Option (Task τ β) :=
  endTask r id (finishedTask backup backups warning event warningAt finishedAt updated)

def failTask (r : Registry τ β) (id error : Text) (event finishedAt updated : τ) : Registry τ β × Option (Task τ β) :=
  endTask r id (failedTask error event finishedAt updated)

/-- A request that starts a task, or a call of the thread of a task. -/
def next (s : System τ β) : Event τ β → Option (System τ β)
  | .start id label backupType cache clients created event =>
      match beginTask s.registry (queuedTask id label backupType cache clients created event) with
      | .error _ => some s
      | .ok r => some { s with registry := r, workers := id :: s.workers }
  | .report id stage message percent details started event updated =>
      if s.workers.contains id then
        some { s with registry :=
          (updateTask s.registry id ⟨.running, stage, message, percent, details⟩ started event updated).1 }
      else none
  | .finish id backup backups warning event warningAt finishedAt updated =>
      if s.workers.contains id then
        let (r, task) := finishTask s.registry id backup backups warning event warningAt finishedAt updated
        some ⟨r, s.workers.erase id, s.ended ++ task.toList⟩
      else none
  | .fail id error event finishedAt updated =>
      if s.workers.contains id then
        let (r, task) := failTask s.registry id error event finishedAt updated
        some ⟨r, s.workers.erase id, s.ended ++ task.toList⟩
      else none

omit [LinearOrder τ] in
theorem called {s s' : System τ β} {id : Text} {after : Option (System τ β)}
    (h : (if s.workers.contains id then after else none) = some s') : id ∈ s.workers ∧ after = some s' := by
  rwa [Option.ite_none_right_eq_some, List.contains_iff_mem] at h

theorem mem_prunable {r : Registry τ β} {task : Task τ β} :
    task ∈ r.prunable ↔ (∃ id, r.tasks.get? id = some task) ∧ task.id ∉ r.current ∧ task.status.active = false := by
  rw [Registry.prunable, List.mem_insertionSort, List.mem_filter, List.mem_map, Bool.and_eq_true, Bool.not_eq_true',
    decide_eq_true_eq]
  simp only [Dict.get?_eq_some, Prod.exists, exists_eq_right]

/-- What is not too large is left alone; one task too many costs the oldest
of those that are over. -/
theorem prune_cases {r : Registry τ β} (hsize : r.tasks.items.length ≤ maxTasks + 1)
    (hsome : maxTasks < r.tasks.items.length → r.prunable ≠ []) :
    r.tasks.items.length ≤ maxTasks ∧ pruneLocked r = r ∨
      r.tasks.items.length = maxTasks + 1 ∧ ∃ oldest rest, r.prunable = oldest :: rest ∧
        pruneLocked r = { r with tasks := r.tasks.erase oldest.id } := by
  rw [pruneLocked]
  by_cases hle : r.tasks.items.length ≤ maxTasks
  · exact .inl ⟨hle, if_pos hle⟩
  · have hlen : r.tasks.items.length = maxTasks + 1 := by omega
    cases hprunable : r.prunable with
    | nil => exact absurd hprunable (hsome (Nat.lt_of_not_le hle))
    | cons oldest rest =>
        refine .inr ⟨hlen, oldest, rest, rfl, ?_⟩
        rw [if_neg hle, hlen, Nat.add_sub_cancel_left, List.take_succ_cons, List.take_zero, List.foldl_cons,
          List.foldl_nil]

theorem kept_prune {r : Registry τ β} (h : Kept r) (hsize : r.tasks.items.length ≤ maxTasks + 1)
    (hsome : maxTasks < r.tasks.items.length → r.prunable ≠ []) :
    Kept (pruneLocked r) ∧ (pruneLocked r).tasks.items.length ≤ maxTasks := by
  rcases prune_cases hsize hsome with ⟨hle, heq⟩ | ⟨hlen, oldest, rest, hprunable, heq⟩
  · rw [heq]
    exact ⟨h, hle⟩
  · have hmem : oldest ∈ r.prunable := hprunable ▸ List.mem_cons_self ..
    obtain ⟨⟨id, hget⟩, hcurrent, -⟩ := mem_prunable.mp hmem
    rw [heq]
    refine ⟨kept_erase h hcurrent, ?_⟩
    have hkey : oldest.id ∈ r.tasks.keys := by
      rw [h.named id oldest hget]
      exact Dict.mem_keys.mpr ⟨oldest, hget⟩
    have herase := Dict.length_erase hkey
    dsimp only
    omega

theorem current_prune (r : Registry τ β) : (pruneLocked r).current = r.current := by
  rw [pruneLocked]
  split <;> rfl

theorem kept_begin {r r' : Registry τ β} (h : Kept r) (hsize : r.tasks.items.length ≤ maxTasks) {task : Task τ β}
    (hsound : Sound task) (hactive : task.status.active = true) (hbegin : beginTask r task = .ok r') :
    r.current = none ∧ Kept r' ∧ r'.tasks.items.length ≤ maxTasks ∧ r'.current = some task.id := by
  rw [beginTask] at hbegin
  split at hbegin
  · cases hbegin
  · next hbusy =>
      cases hbegin
      have hidle := current_of_idle h (Bool.not_eq_true _ ▸ hbusy)
      have hput : Kept (⟨r.tasks.set task.id task, some task.id⟩ : Registry τ β) :=
        kept_put h hsound _ (iff_of_true hactive rfl) (fun id hne => by
          rw [hidle]
          exact iff_of_false (fun heq => hne (Option.some.inj heq).symm) (by rintro ⟨⟩))
      -- a dictionary that has grown has another task, and that one is over
      have hsome : maxTasks < (r.tasks.set task.id task).items.length →
          (⟨r.tasks.set task.id task, some task.id⟩ : Registry τ β).prunable ≠ [] := by
        intro hlarge
        have hnew : task.id ∉ r.tasks.keys := by
          intro hmem
          rw [Dict.length_set_of_mem hmem] at hlarge
          omega
        rw [Dict.items_set_of_not_mem hnew, List.length_append, List.length_singleton, maxTasks] at hlarge
        obtain ⟨⟨id, other⟩, hother⟩ := List.exists_mem_of_length_pos (l := r.tasks.items) (by omega)
        have hget := Dict.get?_eq_some.mpr hother
        have hne : id ≠ task.id := by
          rintro rfl
          exact hnew (Dict.mem_keys.mpr ⟨other, hget⟩)
        refine List.ne_nil_of_mem (a := other) (mem_prunable.mpr ⟨⟨id, ?_⟩, ?_, ?_⟩)
        · rw [Dict.get?_set, if_neg hne, hget]
        · rw [h.named id other hget]
          exact fun heq => hne (Option.some.inj heq).symm
        · rw [← Bool.not_eq_true, h.active id other hget, hidle]
          rintro ⟨⟩
      have hlarge : (r.tasks.set task.id task).items.length ≤ maxTasks + 1 := by
        by_cases hmem : task.id ∈ r.tasks.keys
        · rw [Dict.length_set_of_mem hmem]
          omega
        · rw [Dict.items_set_of_not_mem hmem, List.length_append, List.length_singleton]
          omega
      obtain ⟨hkept, hpruned⟩ := kept_prune hput hlarge hsome
      exact ⟨hidle, hkept, hpruned, current_prune _⟩

theorem kept_end {r : Registry τ β} (h : Kept r) (hsize : r.tasks.items.length ≤ maxTasks) {id : Text}
    (hcurrent : r.current = some id) {close : Task τ β → Task τ β} {finishedAt : τ} (hclose : Closes close finishedAt) :
    ∃ task, r.tasks.get? id = some task ∧ task.id = id ∧
      endTask r id close = (⟨r.tasks.set id (close task), none⟩, some (close task)) ∧ Kept (endTask r id close).1 ∧
      (endTask r id close).1.tasks.items.length ≤ maxTasks := by
  obtain ⟨task, htask⟩ := h.present id hcurrent
  have hid := h.named id task htask
  have hsame : (r.tasks.set id (close task)).items.length = r.tasks.items.length :=
    Dict.length_set_of_mem (Dict.mem_keys.mpr ⟨task, htask⟩)
  have heq : endTask r id close = (⟨r.tasks.set id (close task), none⟩, some (close task)) := by
    rw [endTask, htask]
    dsimp only
    rw [if_pos hcurrent, pruneLocked, if_pos (hsame.trans_le hsize)]
  have hput := kept_put h (hclose.sound task) none
    (iff_of_false (by rw [hclose.inactive]; exact Bool.false_ne_true) (by rintro ⟨⟩))
    (fun k hne => iff_of_false (by rintro ⟨⟩) (fun hk => hne (by
      rw [hclose.id, hid]
      exact Option.some.inj (hk.symm.trans hcurrent))))
  rw [hclose.id, hid] at hput
  refine ⟨task, htask, hid, heq, ?_⟩
  rw [heq]
  exact ⟨hput, hsame.trans_le hsize⟩

theorem supervised_end {s : System τ β} (h : Supervised s) {id : Text} (hid : id ∈ s.workers)
    {close : Task τ β → Task τ β} {finishedAt : τ} (hclose : Closes close finishedAt) (ended : List (Task τ β)) :
    Supervised ⟨(endTask s.registry id close).1, s.workers.erase id, ended⟩ := by
  obtain ⟨hcurrent, hworkers⟩ := h.working hid
  obtain ⟨task, -, -, heq, hkept, hsize⟩ := kept_end h.kept h.size hcurrent hclose
  refine ⟨hkept, hsize, ?_⟩
  rw [heq]
  exact hworkers

theorem supervised_next {s s' : System τ β} {event : Event τ β} (h : Supervised s) (hnext : next s event = some s') :
    Supervised s' := by
  cases event with
  | start id label backupType cache clients created event =>
      rw [next] at hnext
      split at hnext
      · cases hnext
        exact h
      · next r hbegin =>
          cases hnext
          obtain ⟨hidle, hkept, hsize, hcurrent⟩ := kept_begin h.kept h.size
            (sound_queued id label backupType cache clients created event) rfl hbegin
          refine ⟨hkept, hsize, ?_⟩
          dsimp only
          rw [h.workers, hidle, hcurrent]
          rfl
  | report id stage message percent details started event updated =>
      obtain ⟨hid, hstep⟩ := called hnext
      cases hstep
      have hcurrent := (h.working hid).1
      obtain ⟨task, htask, -, heq, hkept⟩ :=
        kept_update h.kept hcurrent ⟨.running, stage, message, percent, details⟩ rfl started event updated
      refine ⟨hkept, ?_, ?_⟩
      · rw [heq]
        exact (Dict.length_set_of_mem (Dict.mem_keys.mpr ⟨task, htask⟩)).trans_le h.size
      · rw [heq]
        exact h.workers
  | finish id backup backups warning event warningAt finishedAt updated =>
      obtain ⟨hid, hstep⟩ := called hnext
      cases hstep
      exact supervised_end h hid (closes_finished backup backups warning event warningAt finishedAt updated) _
  | fail id error event finishedAt updated =>
      obtain ⟨hid, hstep⟩ := called hnext
      cases hstep
      exact supervised_end h hid (closes_failed error event finishedAt updated) _

/-- In every order of requests and of calls of the threads: the registry holds
at most twelve tasks with at most twelve events each, a task is active as long
as its thread has not ended, and there is at most one such. -/
theorem tasks_supervised {events : List (Event τ β)} {s : System τ β} (h : History (graph next) idle events s) :
    Supervised s ∧ s.workers.length ≤ 1 ∧
      (∀ id, id ∈ s.workers ↔ ∃ task, s.registry.tasks.get? id = some task ∧ task.status.active = true) ∧
      (currentTask s.registry = none ↔ s.workers = []) := by
  have hs : Supervised s := h.invariant Supervised supervised_idle (fun _ _ _ => supervised_next)
  refine ⟨hs, ?_, ?_, ?_⟩
  · rw [hs.workers]
    cases s.registry.current <;> simp
  · intro id
    rw [hs.workers, Option.mem_toList]
    constructor
    · intro hid
      obtain ⟨task, htask⟩ := hs.kept.present id hid
      exact ⟨task, htask, (hs.kept.active id task htask).mpr hid⟩
    · rintro ⟨task, htask, hactive⟩
      exact (hs.kept.active id task htask).mp hactive
  · rw [hs.workers, currentTask]
    cases hcurrent : s.registry.current with
    | none => simp
    | some id =>
        obtain ⟨task, htask⟩ := hs.kept.present id hcurrent
        simp [htask]

/-- The id of a new task is new, and no task that is held has ended later than
the one that ends now. -/
def Orderly (s : System τ β) : Event τ β → Prop
  | .start id _ _ _ _ _ _ => id ∉ s.registry.tasks.keys
  | .report .. => True
  | .finish _ _ _ _ _ _ finishedAt _ | .fail _ _ _ finishedAt _ =>
      ∀ item ∈ s.registry.tasks.items, ∀ before ∈ item.2.finishedAt, before ≤ finishedAt

instance (s : System τ β) : (event : Event τ β) → Decidable (Orderly s event)
  | .start id _ _ _ _ _ _ => inferInstanceAs (Decidable (id ∉ s.registry.tasks.keys))
  | .report .. => .isTrue trivial
  | .finish _ _ _ _ _ _ finishedAt _ | .fail _ _ _ finishedAt _ =>
      inferInstanceAs (Decidable (∀ item ∈ s.registry.tasks.items, ∀ before ∈ item.2.finishedAt, before ≤ finishedAt))

def named (task : Task τ β) : Text × Task τ β := (task.id, task)

/-- What is held are the last tasks that have ended, and the active one. -/
structure Recent (s : System τ β) : Prop where
  held : s.registry.tasks.items =
    (s.ended.rtake (maxTasks - s.workers.length)).map named ++ (currentTask s.registry).toList.map named
  sorted : (s.ended.rtake maxTasks).Pairwise (fun a b => a.age ≤ b.age)

theorem rtake_of_le {α : Type} {l : List α} {n : Nat} (h : l.length ≤ n) : l.rtake n = l := by
  rw [List.rtake, Nat.sub_eq_zero_of_le h, List.drop_zero]

theorem rtake_rtake {α : Type} (l : List α) (m n : Nat) : (l.rtake m).rtake n = l.rtake (min n m) := by
  rw [List.rtake_eq_reverse_take_reverse, List.rtake_eq_reverse_take_reverse, List.rtake_eq_reverse_take_reverse,
    List.reverse_reverse, List.take_take]

theorem prunable_eq {r : Registry τ β} {done : List (Task τ β)} {task : Task τ β}
    (hitems : r.tasks.items = done.map named ++ [named task]) (hcurrent : r.current = some task.id)
    (hover : ∀ other ∈ done, other.status.active = false) (hsorted : done.Pairwise (fun a b => a.age ≤ b.age)) :
    r.prunable = done := by
  have hnodup := r.tasks.nodup
  rw [hitems, List.map_append, List.map_singleton, List.nodup_append] at hnodup
  have hkeep : ∀ other ∈ done, (decide (other.id ∉ r.current) && !other.status.active) = true := by
    intro other hother
    rw [hover other hother, Bool.not_false, Bool.and_true, decide_eq_true_eq, hcurrent]
    intro heq
    exact hnodup.2.2 other.id (by simpa [named] using ⟨other, hother, rfl⟩) task.id (List.mem_singleton.mpr rfl)
      (Option.some.inj heq).symm
  have hdrop : (decide (task.id ∉ r.current) && !task.status.active) = false := by
    rw [hcurrent]
    simp
  have hsnd : (done.map named).map Prod.snd = done := by
    rw [List.map_map]
    exact List.map_id _
  rw [Registry.prunable, hitems, List.map_append, hsnd, List.map_singleton, List.filter_append,
    List.filter_eq_self.mpr hkeep]
  dsimp only [named]
  rw [List.filter_singleton, hdrop, Bool.cond_false, List.append_nil]
  exact hsorted.insertionSort_eq

/-- A task that begins costs at most the oldest of those that are over. -/
theorem items_begin {r : Registry τ β} {done : List (Task τ β)} {task : Task τ β}
    (hitems : r.tasks.items = done.map named ++ [named task]) (hcurrent : r.current = some task.id)
    (hlen : done.length ≤ maxTasks) (hover : ∀ other ∈ done, other.status.active = false)
    (hsorted : done.Pairwise (fun a b => a.age ≤ b.age)) :
    (pruneLocked r).tasks.items = (done.rtake (maxTasks - 1)).map named ++ [named task] := by
  have hlength : r.tasks.items.length = done.length + 1 := by
    rw [hitems, List.length_append, List.length_map, List.length_singleton]
  have hprunable := prunable_eq hitems hcurrent hover hsorted
  have hsome : maxTasks < r.tasks.items.length → r.prunable ≠ [] := by
    intro hlarge
    have hmax : 0 < maxTasks := by decide
    rw [hprunable, ← List.length_pos_iff]
    omega
  rcases prune_cases (hlength.trans_le (Nat.succ_le_succ hlen)) hsome with
    ⟨hle, heq⟩ | ⟨hfull, oldest, rest, hcons, heq⟩
  · rw [heq, hitems, rtake_of_le]
    omega
  · rw [hprunable] at hcons
    subst hcons
    have hrest : (oldest :: rest).rtake (maxTasks - 1) = rest := by
      have hlast : (oldest :: rest).length - (maxTasks - 1) = 1 := by
        rw [List.length_cons] at hlength ⊢
        omega
      rw [List.rtake, hlast, List.drop_one, List.tail_cons]
    have hnodup := r.tasks.nodup
    rw [hitems, List.map_cons, List.cons_append, List.map_cons, List.nodup_cons] at hnodup
    rw [heq, hrest]
    dsimp only [Dict.erase, Dict.filter]
    rw [hitems, List.map_cons, List.cons_append, List.filter_cons_of_neg (by simp [named]), List.filter_eq_self]
    intro item hitem
    rw [Bool.not_eq_true', decide_eq_false_iff_not]
    rintro heq
    exact hnodup.1 (List.mem_map.mpr ⟨item, hitem, heq⟩)

theorem recent_idle : Recent (idle : System τ β) := ⟨rfl, List.Pairwise.nil⟩

theorem Recent.working {s : System τ β} (h : Recent s) (hs : Supervised s) {id : Text} {task : Task τ β}
    (hcurrent : s.registry.current = some id) (htask : s.registry.tasks.get? id = some task) :
    s.registry.tasks.items = (s.ended.rtake (maxTasks - 1)).map named ++ [(id, task)] := by
  rw [h.held, hs.workers, currentTask, hcurrent, Option.bind_some, htask, Option.toList_some, Option.toList_some,
    List.length_singleton, List.map_singleton, named, hs.kept.named id task htask]

theorem recent_start {s : System τ β} {r : Registry τ β} (h : Recent s) (hs : Supervised s) {task : Task τ β}
    (hsound : Sound task) (hactive : task.status.active = true) (hfresh : task.id ∉ s.registry.tasks.keys)
    (hbegin : beginTask s.registry task = .ok r) : Recent ⟨r, task.id :: s.workers, s.ended⟩ := by
  obtain ⟨hidle, -, -, hcurrent⟩ := kept_begin hs.kept hs.size hsound hactive hbegin
  have hdone : s.registry.tasks.items = (s.ended.rtake maxTasks).map named := by
    rw [h.held, hs.workers, currentTask, hidle]
    exact List.append_nil _
  have hover : ∀ other ∈ s.ended.rtake maxTasks, other.status.active = false := by
    intro other hother
    have hget : s.registry.tasks.get? other.id = some other := by
      rw [Dict.get?_eq_some, hdone]
      exact List.mem_map.mpr ⟨other, hother, rfl⟩
    rw [← Bool.not_eq_true, hs.kept.active other.id other hget, hidle]
    rintro ⟨⟩
  have hlen : (s.ended.rtake maxTasks).length ≤ maxTasks := by
    rw [List.rtake, List.length_drop]
    omega
  have hitems : r.tasks.items = (s.ended.rtake (maxTasks - 1)).map named ++ [named task] := by
    rw [beginTask] at hbegin
    split at hbegin
    · cases hbegin
    · cases hbegin
      rw [items_begin (by rw [Dict.items_set_of_not_mem hfresh, hdone]; rfl) rfl hlen hover h.sorted, rtake_rtake]
      rfl
  have hget : r.tasks.get? task.id = some task := by
    rw [Dict.get?_eq_some, hitems]
    exact List.mem_append_right _ (List.mem_singleton.mpr rfl)
  refine ⟨?_, h.sorted⟩
  rw [hs.workers, hidle, currentTask, hcurrent, Option.bind_some, hget]
  exact hitems

theorem recent_report {s : System τ β} (h : Recent s) (hs : Supervised s) {id : Text} (hid : id ∈ s.workers)
    {changes : Changes} (hchanges : changes.status = .running) (started event updated : τ) :
    Recent { s with registry := (updateTask s.registry id changes started event updated).1 } := by
  have hcurrent := (hs.working hid).1
  obtain ⟨task, htask, hname, heq, -⟩ := kept_update hs.kept hcurrent changes hchanges started event updated
  refine ⟨?_, h.sorted⟩
  rw [heq, Dict.items_set_of_mem (h.working hs hcurrent htask), hs.workers, currentTask, hcurrent, Option.bind_some,
    Dict.get?_set, if_pos rfl, ← hname]
  rfl

theorem recent_end {s : System τ β} (h : Recent s) (hs : Supervised s) {id : Text} (hid : id ∈ s.workers)
    {close : Task τ β → Task τ β} {finishedAt : τ} (hclose : Closes close finishedAt)
    (horder : ∀ item ∈ s.registry.tasks.items, ∀ before ∈ item.2.finishedAt, before ≤ finishedAt) :
    Recent ⟨(endTask s.registry id close).1, s.workers.erase id,
      s.ended ++ (endTask s.registry id close).2.toList⟩ := by
  obtain ⟨hcurrent, hworkers⟩ := hs.working hid
  obtain ⟨task, htask, hname, heq, -⟩ := kept_end hs.kept hs.size hcurrent hclose
  have hitems := h.working hs hcurrent htask
  have hsnoc : (s.ended ++ [close task]).rtake maxTasks = s.ended.rtake (maxTasks - 1) ++ [close task] :=
    List.rtake_concat_succ ..
  have hnodup := s.registry.tasks.nodup
  rw [hitems, List.map_append, List.nodup_append] at hnodup
  rw [heq, hworkers]
  refine ⟨?_, ?_⟩
  · dsimp only
    rw [Dict.items_set_of_mem hitems, List.length_nil, Nat.sub_zero, Option.toList_some, hsnoc, List.map_append,
      currentTask,
      List.map_singleton, named, hclose.id, hname]
    exact (List.append_nil _).symm
  · dsimp only
    rw [Option.toList_some, hsnoc, List.pairwise_append]
    refine ⟨h.sorted.sublist ?_, List.pairwise_singleton _ _, ?_⟩
    · rw [← min_eq_left (Nat.sub_le maxTasks 1), ← rtake_rtake]
      exact List.drop_sublist ..
    · intro other hother last hlast
      rw [List.mem_singleton] at hlast
      subst hlast
      have hmem : named other ∈ s.registry.tasks.items := by
        rw [hitems]
        exact List.mem_append_left _ (List.mem_map.mpr ⟨other, hother, rfl⟩)
      have hget : s.registry.tasks.get? other.id = some other := Dict.get?_eq_some.mpr hmem
      have hover : other.status.active = false := by
        rw [← Bool.not_eq_true, hs.kept.active other.id other hget, hcurrent]
        intro hsame
        exact hnodup.2.2 other.id (by simpa [named] using ⟨other, hother, rfl⟩) id (List.mem_singleton.mpr rfl)
          (Option.some.inj hsame).symm
      obtain ⟨before, hbefore⟩ := Option.isSome_iff_exists.mp ((hs.kept.sound other.id other hget).over hover)
      rw [Task.age, Task.age, hclose.finishedAt, hbefore]
      exact horder _ hmem before hbefore

theorem recent_next {s s' : System τ β} {event : Event τ β} (h : Recent s) (hs : Supervised s)
    (horder : Orderly s event) (hnext : next s event = some s') : Recent s' := by
  cases event with
  | start id label backupType cache clients created event =>
      rw [next] at hnext
      split at hnext
      · cases hnext
        exact h
      · next r hbegin =>
          cases hnext
          exact recent_start h hs (sound_queued id label backupType cache clients created event) rfl horder hbegin
  | report id stage message percent details started event updated =>
      obtain ⟨hid, hstep⟩ := called hnext
      cases hstep
      exact recent_report h hs hid rfl started event updated
  | finish id backup backups warning event warningAt finishedAt updated =>
      obtain ⟨hid, hstep⟩ := called hnext
      cases hstep
      exact recent_end h hs hid (closes_finished backup backups warning event warningAt finishedAt updated) horder
  | fail id error event finishedAt updated =>
      obtain ⟨hid, hstep⟩ := called hnext
      cases hstep
      exact recent_end h hs hid (closes_failed error event finishedAt updated) horder

/-- With new ids and a clock that does not go back, the registry holds the
active task and exactly the last of those that have ended, in their order. -/
theorem tasks_recent {events : List (Event τ β)} {s : System τ β}
    (h : History (meeting (graph next) Orderly) idle events s) :
    s.registry.tasks.items.map Prod.snd =
      s.ended.rtake (maxTasks - s.workers.length) ++ (currentTask s.registry).toList := by
  have hall := h.invariant (fun s => Supervised s ∧ Recent s) ⟨supervised_idle, recent_idle⟩
    (fun a event b hinv hstep => ⟨supervised_next hinv.1 hstep.1, recent_next hinv.2 hinv.1 hstep.2 hstep.1⟩)
  rw [hall.2.held, List.map_append, List.map_map, List.map_map]
  exact congrArg₂ _ (List.map_id _) (List.map_id _)

section Runs

def taskId (n : Nat) : Text := [Char.ofNat (97 + n)]

/-- A backup that reports and ends, with a request beside it. -/
def oneBackup (n : Nat) : List (Event Nat Text) :=
  [.start (taskId n) "x".toList .manager false false (10 * n) (10 * n),
    .start "other".toList "y".toList .cache true false 3 4,
    .report (taskId n) none (some "Datenbank".toList) none .empty 5 6 7,
    .finish (taskId n) (some "m.bbm".toList) [] none 8 9 (10 * n + 9) 11]

/-- Fourteen backups, of which the registry keeps the last ones, and one that
has begun and reports. -/
def manyBackups : List (Event Nat Text) := (List.range 14).flatMap oneBackup ++ (oneBackup 14).take 3

theorem exec_manyBackups : ∃ s, exec next idle manyBackups = some s ∧ s.workers = [taskId 14] ∧
    s.registry.tasks.keys = (List.range' 3 12).map taskId := ⟨_, rfl, rfl, rfl⟩

theorem tasks_supervised_many : ∃ s, exec next idle manyBackups = some s ∧
    s.registry.tasks.keys = (List.range' 3 12).map taskId ∧
    ∃ task, s.registry.tasks.get? (taskId 14) = some task ∧ task.status.active = true := by
  obtain ⟨s, hs, hworkers, hkeys⟩ := exec_manyBackups
  have hactive := (tasks_supervised (history_of_exec hs)).2.2.1 (taskId 14)
  exact ⟨s, hs, hkeys, hactive.mp (by rw [hworkers]; exact List.mem_cons_self ..)⟩

theorem tasks_recent_many :
    ∃ s, exec next idle manyBackups = some s ∧ s.registry.tasks.keys = (List.range' 3 12).map taskId ∧
    s.registry.tasks.items.map Prod.snd = s.ended.rtake (maxTasks - s.workers.length) ++
      (currentTask s.registry).toList := by
  obtain ⟨s, hs, -, hkeys⟩ := exec_manyBackups
  exact ⟨s, hs, hkeys, tasks_recent (history_of_along hs (by decide +kernel))⟩

end Runs

end BorgManager.BackupTasks
