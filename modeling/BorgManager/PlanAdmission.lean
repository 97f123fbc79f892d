import BorgManager.ExecutionPlan
import BorgManager.GreedyAdmission

namespace BorgManager.PlanAdmission

open Records ExecutionKeys ChainReservations RunQueue ExecutionPlan GreedyAdmission

/-- The five capacity layers of the planner as units of one resource type. -/
inductive Layer
  | repository (key : ExecutionKey)
  | mount (key : MountKey)
  | schedule (key : ScheduleKey)
  | sourceStats
  | global
  deriving DecidableEq

variable (t : Topology) (ctx : PlanContext)

def held (row : Run) : Bool := heldByArchiveMount ctx row || (foreignChain t ctx row).isSome

def layers (row : Run) : List Layer :=
  ((rowRepositoryKey t row).map Layer.repository).toList ++ ((rowMountKey t row).map Layer.mount).toList ++
    ((runScheduleKey t.platform row).map Layer.schedule).toList ++
    (if row.action = .sourceStats then [Layer.sourceStats] else []) ++ [Layer.global]

def positive (limit : Nat) : Option Nat := if 0 < limit then some limit else none

def capacity : Layer → Option Nat
  | .repository _ => some 1
  | .mount key => positive (ctx.mountLimits key)
  | .schedule key => positive (ctx.scheduleLimits key)
  | .sourceStats => positive ctx.sourceStatsLimit
  | .global => positive ctx.globalLimit

/-- What the planner is for: first-come admission over the five layers, with
archive mounts and foreign chains held back. -/
def policy : Policy Run Layer := ⟨held t ctx, layers t, capacity ctx⟩

@[simp] theorem repository_mem_layers {row : Run} {key : ExecutionKey} :
    Layer.repository key ∈ layers t row ↔ rowRepositoryKey t row = some key := by
  by_cases h : row.action = .sourceStats <;> simp [layers, h]

@[simp] theorem mount_mem_layers {row : Run} {key : MountKey} :
    Layer.mount key ∈ layers t row ↔ rowMountKey t row = some key := by
  by_cases h : row.action = .sourceStats <;> simp [layers, h]

@[simp] theorem schedule_mem_layers {row : Run} {key : ScheduleKey} :
    Layer.schedule key ∈ layers t row ↔ runScheduleKey t.platform row = some key := by
  by_cases h : row.action = .sourceStats <;> simp [layers, h]

@[simp] theorem sourceStats_mem_layers {row : Run} :
    Layer.sourceStats ∈ layers t row ↔ row.action = .sourceStats := by
  by_cases h : row.action = .sourceStats <;> simp [layers, h]

@[simp] theorem global_mem_layers {row : Run} : Layer.global ∈ layers t row := by
  simp [layers]

@[simp] theorem layers_setStatus (row : Run) (status : Status) : layers t (setStatus row status) = layers t row :=
  rfl

/-- The occupant lists of the pass count the occupants of each layer. Mount
lists are kept for limited groups only. -/
structure Represents (occ : Occupancy) (rows : List Run) : Prop where
  repository : ∀ key, (occ.repository key).length = occupancy (policy t ctx) rows (.repository key)
  mount : ∀ key, 0 < ctx.mountLimits key →
    (occ.mount key).length = occupancy (policy t ctx) rows (.mount key)
  schedule : ∀ key, (occ.schedule key).length = occupancy (policy t ctx) rows (.schedule key)
  sourceStats : occ.sourceStats.length = occupancy (policy t ctx) rows .sourceStats
  global : occ.global.length = occupancy (policy t ctx) rows .global

theorem push_length {κ : Type} [DecidableEq κ] (occupants : κ → List Nat) (key : Option κ) (id : Nat) (k : κ) :
    (push occupants key id k).length = (occupants k).length + if key = some k then 1 else 0 := by
  cases key with
  | none => simp [push]
  | some j =>
      by_cases hj : k = j
      · subst k; simp [push]
      · simp [push, Function.update_of_ne hj, Ne.symm hj]

theorem occupancy_single (P : Policy Run Layer) (row : Run) (i : Layer) :
    occupancy P [row] i = if i ∈ P.layers row then 1 else 0 := by
  split
  · next h => exact occupancy_single_of_mem h
  · next h => exact occupancy_single_of_notMem h

theorem represents_empty : Represents t ctx .empty [] :=
  ⟨fun _ => rfl, fun _ _ => rfl, fun _ => rfl, rfl, rfl⟩

variable {t ctx}

theorem Represents.occupy {occ : Occupancy} {rows : List Run} (h : Represents t ctx occ rows) (row : Run) :
    Represents t ctx (ExecutionPlan.occupy t ctx occ row) (rows ++ [row]) where
  repository key := by
    simp only [ExecutionPlan.occupy, push_length, h.repository key, occupancy_append, occupancy_single,
      policy, repository_mem_layers]
  mount key hpos := by
    have hkey : (rowMountKey t row).filter (fun k => decide (0 < ctx.mountLimits k)) = some key ↔
        rowMountKey t row = some key := by
      rw [Option.filter_eq_some_iff]
      exact ⟨fun hf => hf.1, fun hf => ⟨hf, by simpa using hpos⟩⟩
    simp only [ExecutionPlan.occupy, push_length, h.mount key hpos, occupancy_append, occupancy_single,
      policy, mount_mem_layers, hkey]
  schedule key := by
    simp only [ExecutionPlan.occupy, push_length, h.schedule key, occupancy_append, occupancy_single,
      policy, schedule_mem_layers]
  sourceStats := by
    rw [occupancy_append, occupancy_single]
    by_cases ha : row.action = .sourceStats <;>
      simp [ExecutionPlan.occupy, ha, h.sourceStats, policy]
  global := by
    simp [ExecutionPlan.occupy, h.global, occupancy_single, policy]

theorem represents_foldl {occ : Occupancy} {base : List Run} (h : Represents t ctx occ base) (rows : List Run) :
    Represents t ctx (rows.foldl (ExecutionPlan.occupy t ctx) occ) (base ++ rows) := by
  induction rows generalizing occ base with
  | nil => simpa using h
  | cons row rows ih => simpa using ih (h.occupy row)

theorem represents_running (rows : List Run) :
    Represents t ctx (rows.foldl (ExecutionPlan.occupy t ctx) .empty) rows :=
  represents_foldl (represents_empty t ctx) rows

theorem full_eq_none {limit : Nat} {occupants : List Nat} :
    full limit occupants = none ↔ ∀ c, positive limit = some c → occupants.length < c := by
  rw [full, positive]
  by_cases hp : 0 < limit
  · by_cases hl : limit ≤ occupants.length
    · simp [hp, hl]
    · simp [hp, hl, Nat.lt_of_not_le hl]
  · simp [hp]

theorem exhausted_eq_false {P : Policy Run Layer} {rows : List Run} {i : Layer} :
    exhausted P rows i = false ↔ ∀ c, P.capacity i = some c → occupancy P rows i < c := by
  rw [exhausted]
  cases P.capacity i <;> simp

variable {occ : Occupancy} {rows : List Run}

theorem archiveMountBlocker_eq_none {row : Run} :
    archiveMountBlocker t ctx row = none ↔ heldByArchiveMount ctx row = false := by
  rw [archiveMountBlocker]
  cases heldByArchiveMount ctx row <;> simp

theorem chainBlocker_eq_none {row : Run} :
    chainBlocker t ctx row = none ↔ (foreignChain t ctx row).isSome = false := by
  simp [chainBlocker]

theorem repositoryBlocker_eq_none (h : Represents t ctx occ rows) {row : Run} :
    repositoryBlocker t occ row = none ↔
      ∀ key, rowRepositoryKey t row = some key → exhausted (policy t ctx) rows (.repository key) = false := by
  simp only [repositoryBlocker, Option.bind_eq_none_iff, Option.map_eq_none_iff, full_eq_none,
    exhausted_eq_false, ← h.repository]
  simp [policy, capacity, positive]

theorem mountBlocker_eq_none (h : Represents t ctx occ rows) {row : Run} :
    mountBlocker t ctx occ row = none ↔
      ∀ key, rowMountKey t row = some key → exhausted (policy t ctx) rows (.mount key) = false := by
  simp only [mountBlocker, Option.bind_eq_none_iff, Option.map_eq_none_iff, full_eq_none, exhausted_eq_false]
  refine forall_congr' (fun key => imp_congr_right (fun _ => ?_))
  change (∀ c, positive (ctx.mountLimits key) = some c → _) ↔ ∀ c, positive (ctx.mountLimits key) = some c → _
  by_cases hp : 0 < ctx.mountLimits key
  · rw [h.mount key hp]
  · simp [positive, hp]

theorem scheduleBlocker_eq_none (h : Represents t ctx occ rows) {row : Run} :
    scheduleBlocker t ctx occ row = none ↔
      ∀ key, runScheduleKey t.platform row = some key →
        exhausted (policy t ctx) rows (.schedule key) = false := by
  simp only [scheduleBlocker, Option.bind_eq_none_iff, Option.map_eq_none_iff, full_eq_none,
    exhausted_eq_false, ← h.schedule]
  rfl

theorem sourceStatsBlocker_eq_none (h : Represents t ctx occ rows) {row : Run} :
    sourceStatsBlocker ctx occ row = none ↔
      (row.action = .sourceStats → exhausted (policy t ctx) rows .sourceStats = false) := by
  rw [sourceStatsBlocker]
  split
  · next ha =>
      simp only [Option.map_eq_none_iff, full_eq_none, exhausted_eq_false, ← h.sourceStats, ha, true_imp_iff]
      rfl
  · next ha => simp [ha]

theorem globalBlocker_eq_none (h : Represents t ctx occ rows) :
    globalBlocker ctx occ = none ↔ exhausted (policy t ctx) rows .global = false := by
  simp only [globalBlocker, Option.map_eq_none_iff, full_eq_none, exhausted_eq_false, ← h.global]
  rfl

theorem all_layers_open {row : Run} {P : Policy Run Layer} :
    (∀ i ∈ layers t row, exhausted P rows i = false) ↔
      (∀ key, rowRepositoryKey t row = some key → exhausted P rows (.repository key) = false) ∧
      (∀ key, rowMountKey t row = some key → exhausted P rows (.mount key) = false) ∧
      (∀ key, runScheduleKey t.platform row = some key → exhausted P rows (.schedule key) = false) ∧
      (row.action = .sourceStats → exhausted P rows .sourceStats = false) ∧
      exhausted P rows .global = false := by
  constructor
  · intro h
    exact ⟨fun key hk => h _ ((repository_mem_layers t).mpr hk), fun key hk => h _ ((mount_mem_layers t).mpr hk),
      fun key hk => h _ ((schedule_mem_layers t).mpr hk), fun ha => h _ ((sourceStats_mem_layers t).mpr ha),
      h _ (global_mem_layers t)⟩
  · rintro ⟨hr, hm, hs, hc, hg⟩ i hi
    cases i with
    | repository key => exact hr key ((repository_mem_layers t).mp hi)
    | mount key => exact hm key ((mount_mem_layers t).mp hi)
    | schedule key => exact hs key ((schedule_mem_layers t).mp hi)
    | sourceStats => exact hc ((sourceStats_mem_layers t).mp hi)
    | global => exact hg

/-- A row without a blocker is exactly a row that the policy admits. -/
theorem blocker_eq_none (h : Represents t ctx occ rows) {row : Run} :
    blocker t ctx occ row = none ↔ admits (policy t ctx) rows row = true := by
  simp only [blocker, Option.or_eq_none_iff, archiveMountBlocker_eq_none, chainBlocker_eq_none,
    repositoryBlocker_eq_none h, mountBlocker_eq_none h, scheduleBlocker_eq_none h,
    sourceStatsBlocker_eq_none h, globalBlocker_eq_none h, admits_iff]
  change _ ↔ held t ctx row = false ∧ ∀ i ∈ layers t row, exhausted (policy t ctx) rows i = false
  rw [all_layers_open, held, Bool.or_eq_false_iff]
  tauto

/-- The pass of the source is the greedy selection of the policy. -/
theorem planQueue_selected (h : Represents t ctx occ rows) (queue : List Run) :
    (planQueue t ctx occ queue).selected = (select (policy t ctx) rows queue).map Run.id := by
  induction queue generalizing occ rows with
  | nil => rfl
  | cons row queue ih =>
      rw [planQueue]
      cases hb : blocker t ctx occ row with
      | none =>
          rw [select_cons_of_admits ((blocker_eq_none h).mp hb)]
          simp only [List.map_cons, ih (h.occupy row)]
      | some reason =>
          have hn : ¬ admits (policy t ctx) rows row = true := fun ha => by
            rw [(blocker_eq_none h).mpr ha] at hb
            cases hb
          rw [select_cons_of_not_admits hn]
          exact ih h

theorem planQueue_lookup_none (occ : Occupancy) {queue : List Run} {id : Nat} (h : ∀ r ∈ queue, r.id ≠ id) :
    (planQueue t ctx occ queue).blockers.lookup id = none := by
  induction queue generalizing occ with
  | nil => rfl
  | cons row queue ih =>
      have hrest := fun r hr => h r (List.mem_cons_of_mem row hr)
      have hid : (id == row.id) = false := by simpa using (h row (List.mem_cons_self ..)).symm
      rw [planQueue]
      cases blocker t ctx occ row with
      | none => exact ih _ hrest
      | some reason => simpa only [List.lookup_cons, hid] using ih occ hrest

/-- The reported reason is the blocker that the pass met at the row, with the
rows admitted before it among the occupants. -/
theorem planQueue_lookup (h : Represents t ctx occ rows) {before after : List Run} {row : Run}
    (hbefore : ∀ r ∈ before, r.id ≠ row.id) (hafter : ∀ r ∈ after, r.id ≠ row.id) :
    ∃ occ', Represents t ctx occ' (rows ++ select (policy t ctx) rows before) ∧
      (planQueue t ctx occ (before ++ row :: after)).blockers.lookup row.id = blocker t ctx occ' row := by
  induction before generalizing occ rows with
  | nil =>
      refine ⟨occ, by simpa [select] using h, ?_⟩
      rw [List.nil_append, planQueue]
      cases blocker t ctx occ row with
      | none => exact planQueue_lookup_none _ hafter
      | some reason => exact List.lookup_cons_self
  | cons r before ih =>
      have hrest := fun r' hr' => hbefore r' (List.mem_cons_of_mem r hr')
      have hid : (row.id == r.id) = false := by simpa using (hbefore r (List.mem_cons_self ..)).symm
      rw [List.cons_append, planQueue]
      cases hb : blocker t ctx occ r with
      | none =>
          obtain ⟨occ', hrep, hlookup⟩ := ih (h.occupy r) hrest
          refine ⟨occ', ?_, hlookup⟩
          rw [select_cons_of_admits ((blocker_eq_none h).mp hb)]
          simpa using hrep
      | some reason =>
          have hn : ¬ admits (policy t ctx) rows r = true := fun ha => by
            rw [(blocker_eq_none h).mpr ha] at hb
            cases hb
          obtain ⟨occ', hrep, hlookup⟩ := ih h hrest
          refine ⟨occ', ?_, ?_⟩
          · rw [select_cons_of_not_admits hn]
            exact hrep
          · simpa only [List.lookup_cons, hid] using hlookup

variable (t)

def planPolicy (s : Queue) (current : Option Nat) : Policy Run Layer :=
  policy t (planContext t s (liveRows s current))

/-- The rows that the plan lets start. -/
def admitted (s : Queue) (current : Option Nat) : List Run :=
  select (planPolicy t s current) (running (liveRows s current)) (queued (liveRows s current))

theorem executionPlan_selected (s : Queue) (current : Option Nat) :
    (executionPlan t s current).selected = (admitted t s current).map Run.id :=
  planQueue_selected (represents_running _) _

theorem mem_admitted {s : Queue} {current : Option Nat} {run : Run} (h : run ∈ admitted t s current) :
    run ∈ liveRows s current ∧ run.status = .queued :=
  mem_queued.mp (mem_of_mem_select h)

theorem claimed_admitted {s s' : Queue} {runId : Nat} (h : claimExecutionTurn t s runId = .ok s') :
    ∃ run ∈ admitted t s (some runId), run.id = runId := by
  obtain ⟨_, hsel, _⟩ := claimExecutionTurn_ok h
  rw [executionPlan_selected] at hsel
  obtain ⟨run, hr, hid⟩ := List.mem_map.mp hsel
  exact ⟨run, hr, hid⟩

end BorgManager.PlanAdmission
