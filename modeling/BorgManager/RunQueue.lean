import BorgManager.ChainReservations

namespace BorgManager.RunQueue

open Records ExecutionKeys ChainReservations

/-- The `runs` table in primary-key order, as every query of the planner
reads it. -/
structure RunTable where
  rows : List Run
  ordered : rows.Pairwise (fun a b => a.id < b.id)

def RunTable.empty : RunTable := ⟨[], .nil⟩

def RunTable.get (t : RunTable) (id : Nat) : Option Run := t.rows.find? (fun r => r.id == id)

def RunTable.insert (t : RunTable) (run : Run) (h : ∀ r ∈ t.rows, r.id < run.id) : RunTable where
  rows := t.rows ++ [run]
  ordered := by
    rw [List.pairwise_append]
    refine ⟨t.ordered, List.pairwise_singleton .., ?_⟩
    intro a ha b hb
    rw [List.mem_singleton] at hb
    exact hb ▸ h a ha

def writeStatus (id : Nat) (status : Status) (run : Run) : Run :=
  if run.id = id then setStatus run status else run

@[simp] theorem writeStatus_id (id : Nat) (status : Status) (run : Run) :
    (writeStatus id status run).id = run.id := by
  rw [writeStatus]
  split <;> rfl

@[simp] theorem writeStatus_action (id : Nat) (status : Status) (run : Run) :
    (writeStatus id status run).action = run.action := by
  rw [writeStatus]
  split <;> rfl

@[simp] theorem writeStatus_repositoryId (id : Nat) (status : Status) (run : Run) :
    (writeStatus id status run).repositoryId = run.repositoryId := by
  rw [writeStatus]
  split <;> rfl

theorem writeStatus_of_ne {id : Nat} {run : Run} (h : run.id ≠ id) (status : Status) :
    writeStatus id status run = run := if_neg h

theorem writeStatus_of_eq {id : Nat} {run : Run} (h : run.id = id) (status : Status) :
    writeStatus id status run = setStatus run status := if_pos h

def RunTable.setStatus (t : RunTable) (id : Nat) (status : Status) : RunTable where
  rows := t.rows.map (writeStatus id status)
  ordered := by
    rw [List.pairwise_map]
    simpa only [writeStatus_id] using t.ordered

@[simp] theorem RunTable.setStatus_rows (t : RunTable) (id : Nat) (status : Status) :
    (t.setStatus id status).rows = t.rows.map (writeStatus id status) := rfl

@[simp] theorem RunTable.insert_rows (t : RunTable) (run : Run) (h : ∀ r ∈ t.rows, r.id < run.id) :
    (t.insert run h).rows = t.rows ++ [run] := rfl

theorem RunTable.nodup_ids (t : RunTable) : (t.rows.map Run.id).Nodup := by
  rw [List.Nodup, List.pairwise_map]
  exact t.ordered.imp (fun h => Nat.ne_of_lt h)

theorem RunTable.nodup (t : RunTable) : t.rows.Nodup := t.nodup_ids.of_map _

theorem RunTable.eq_of_id_eq (t : RunTable) {a b : Run} (ha : a ∈ t.rows) (hb : b ∈ t.rows)
    (h : a.id = b.id) : a = b :=
  List.inj_on_of_nodup_map t.nodup_ids ha hb h

theorem RunTable.get_eq_some {t : RunTable} {id : Nat} {run : Run} :
    t.get id = some run ↔ run ∈ t.rows ∧ run.id = id := by
  constructor
  · intro h
    exact ⟨List.mem_of_find?_eq_some h, by simpa using List.find?_some h⟩
  · rintro ⟨hm, rfl⟩
    cases hf : t.rows.find? (fun r => r.id == run.id) with
    | none =>
        have := List.find?_eq_none.mp hf run hm
        simp at this
    | some other =>
        have ho : other.id = run.id := by simpa using List.find?_some hf
        rw [RunTable.get, hf, t.eq_of_id_eq (List.mem_of_find?_eq_some hf) hm ho]

theorem RunTable.setStatus_split {t : RunTable} {run : Run} (h : run ∈ t.rows) (status : Status) :
    ∃ xs ys, t.rows = xs ++ run :: ys ∧ (t.setStatus run.id status).rows = xs ++
      Records.setStatus run status :: ys := by
  obtain ⟨xs, ys, hrows⟩ := List.append_of_mem h
  have hnodup := t.nodup_ids
  simp only [hrows, List.map_append, List.map_cons, List.nodup_append, List.nodup_cons] at hnodup
  obtain ⟨_, ⟨hys, _⟩, hxs⟩ := hnodup
  have hx (r : Run) (hr : r ∈ xs) : writeStatus run.id status r = r :=
    writeStatus_of_ne (hxs r.id (List.mem_map_of_mem hr) run.id (List.mem_cons_self ..)) status
  have hy (r : Run) (hr : r ∈ ys) : writeStatus run.id status r = r :=
    writeStatus_of_ne (fun he => hys (List.mem_map.mpr ⟨r, hr, he⟩)) status
  refine ⟨xs, ys, hrows, ?_⟩
  rw [RunTable.setStatus_rows, hrows, List.map_append, List.map_cons, writeStatus_of_eq rfl,
    List.map_congr_left hx, List.map_congr_left hy, List.map_id', List.map_id']

theorem RunTable.mem_setStatus {t : RunTable} {id : Nat} {status : Status} {run : Run} :
    run ∈ (t.setStatus id status).rows ↔ ∃ old ∈ t.rows, writeStatus id status old = run := by
  simp

/-- Everything the planner reads: the database rows, the live task registries,
the settings, the archive mounts and the chain registries. -/
structure Queue where
  runs : RunTable
  activeRunTasks : List Nat
  executingRunIds : List Nat
  settings : Settings
  archiveMounts : List ManagerArchiveMount
  fuseMounts : List String
  chains : Registry

def archiveMountIsActive (s : Queue) (path : String) : Bool := s.fuseMounts.contains path

/-- The run ids with a live task. A finished task leaves its registry, so the
stale entries that the planner prunes are not represented. -/
def liveRunIds (s : Queue) (current : Option Nat) : List Nat :=
  s.activeRunTasks ++ s.executingRunIds ++ current.toList

def isLive (s : Queue) (current : Option Nat) (run : Run) : Bool :=
  run.status.active && (liveRunIds s current).contains run.id

def liveRows (s : Queue) (current : Option Nat) : List Run := s.runs.rows.filter (isLive s current)

def running (rows : List Run) : List Run := rows.filter (fun r => r.status == .running)

def queued (rows : List Run) : List Run := rows.filter (fun r => r.status == .queued)

theorem mem_liveRows {s : Queue} {current : Option Nat} {run : Run} :
    run ∈ liveRows s current ↔
      run ∈ s.runs.rows ∧ run.status.active = true ∧ run.id ∈ liveRunIds s current := by
  simp [liveRows, isLive]

theorem liveRows_ordered (s : Queue) (current : Option Nat) :
    (liveRows s current).Pairwise (fun a b => a.id < b.id) :=
  s.runs.ordered.filter _

theorem mem_running {rows : List Run} {run : Run} :
    run ∈ running rows ↔ run ∈ rows ∧ run.status = .running := by
  simp [running]

theorem mem_queued {rows : List Run} {run : Run} :
    run ∈ queued rows ↔ run ∈ rows ∧ run.status = .queued := by
  simp [queued]

/-- Every active row has a live task. -/
def Tracked (s : Queue) : Prop :=
  ∀ r ∈ s.runs.rows, r.status.active = true → r.id ∈ liveRunIds s none

theorem mem_liveRunIds_of_none {s : Queue} {id : Nat} (h : id ∈ liveRunIds s none)
    (current : Option Nat) : id ∈ liveRunIds s current := by
  simp only [liveRunIds, Option.toList_none, List.append_nil] at h
  exact List.mem_append_left _ h

theorem liveRows_started {s s' : Queue} {current current' : Option Nat} {run : Run}
    (hrun : run ∈ liveRows s current) (hruns : s'.runs = s.runs.setStatus run.id .running)
    (hlive : ∀ r ∈ s.runs.rows, r.status.active = true →
      (r.id ∈ liveRunIds s' current' ↔ r.id ∈ liveRunIds s current)) :
    ∃ xs ys, liveRows s current = xs ++ run :: ys ∧ liveRows s' current' = xs ++ setStatus run .running :: ys := by
  obtain ⟨hm, ha, hid⟩ := mem_liveRows.mp hrun
  obtain ⟨xs, ys, hrows, hset⟩ := RunTable.setStatus_split hm .running
  have hkeep (rs : List Run) (hrs : ∀ r ∈ rs, r ∈ s.runs.rows) :
      rs.filter (isLive s' current') = rs.filter (isLive s current) := by
    apply List.filter_congr
    intro r hr
    cases hact : r.status.active with
    | false => simp [isLive, hact]
    | true => simpa [isLive, hact] using hlive r (hrs r hr) hact
  have hlater : isLive s' current' (setStatus run .running) = true := by
    simpa [isLive, Status.active] using (hlive run hm ha).mpr hid
  refine ⟨xs.filter (isLive s current), ys.filter (isLive s current), ?_, ?_⟩
  · rw [liveRows, hrows, List.filter_append, List.filter_cons_of_pos (by simp [isLive, ha, hid])]
  · rw [liveRows, hruns, hset, List.filter_append, List.filter_cons_of_pos hlater,
      hkeep xs (fun r hr => by simp [hrows, hr]), hkeep ys (fun r hr => by simp [hrows, hr])]

theorem running_started (xs ys : List Run) {run : Run} (hq : run.status = .queued) :
    (running (xs ++ setStatus run .running :: ys)).Perm (running (xs ++ run :: ys) ++ [setStatus run .running]) := by
  have hold : running (xs ++ run :: ys) = running xs ++ running ys := by
    simp [running, hq]
  have hnew : running (xs ++ setStatus run .running :: ys) =
      running xs ++ setStatus run .running :: running ys := by
    simp [running]
  rw [hold, hnew, List.append_assoc]
  exact List.Perm.append_left _ (List.perm_append_singleton _ _).symm

end BorgManager.RunQueue
