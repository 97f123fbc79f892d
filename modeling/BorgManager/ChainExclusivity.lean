import BorgManager.QueueCapacity

namespace BorgManager.ChainExclusivity

open Records ExecutionKeys ChainReservations RunQueue ExecutionPlan PlanAdmission GreedyAdmission
open QueueSystem QueueCapacity Histories

/-- What the two registries promise about the chains of every repository. -/
structure ChainsConsistent (t : Topology) (s : Queue) : Prop where
  ordered : ∀ key, (s.chains.queues key).Pairwise (fun a b => a.rootRunId < b.rootRunId)
  root : ∀ key, ∀ item ∈ s.chains.queues key,
    ∃ run ∈ s.runs.rows, run.id = item.rootRunId ∧ run.action ≠ .sourceStats ∧ physicalKey t run = some key
  token : ∀ key, ∀ item ∈ s.chains.queues key,
    item.token ≠ "" ∧ s.chains.runTokens item.rootRunId = some item.token
  unique : ∀ key, ∀ a ∈ s.chains.queues key, ∀ b ∈ s.chains.queues key,
    a.token = b.token → a.rootRunId = b.rootRunId
  known : ∀ id token, s.chains.runTokens id = some token → ∃ run ∈ s.runs.rows, run.id = id

variable {t : Topology} {s s' : Queue} {run : Run} {key : ExecutionKey}

theorem freshToken_iff {token : String} :
    freshToken s token = true ↔ token ≠ "" ∧ ∀ r ∈ s.runs.rows, s.chains.runTokens r.id ≠ some token := by
  simp [freshToken]

theorem chainsConsistent_of_started (h : Started s) : ChainsConsistent t s := by
  constructor <;> simp [h.chains, Registry.empty]

theorem row_persists (h : RowChange s s') {id : Nat} (hr : ∃ run ∈ s.runs.rows, run.id = id) :
    ∃ run ∈ s'.runs.rows, run.id = id := by
  obtain ⟨run, hm, hid⟩ := hr
  obtain ⟨status, hp⟩ := h.persists hm
  exact ⟨_, hp, hid⟩

theorem root_persists (h : RowChange s s') {id : Nat}
    (hr : ∃ run ∈ s.runs.rows, run.id = id ∧ run.action ≠ .sourceStats ∧ physicalKey t run = some key) :
    ∃ run ∈ s'.runs.rows, run.id = id ∧ run.action ≠ .sourceStats ∧ physicalKey t run = some key := by
  obtain ⟨run, hm, hid, ha, hk⟩ := hr
  obtain ⟨status, hp⟩ := h.persists hm
  exact ⟨_, hp, hid, ha, hk⟩

theorem ChainsConsistent.root_lt (h : ChainsConsistent t s) {id : Nat} (hy : ∀ r ∈ s.runs.rows, r.id < id)
    {item : Reservation} (hi : item ∈ s.chains.queues key) : item.rootRunId < id := by
  obtain ⟨run, hm, hid, _⟩ := h.root key item hi
  exact hid ▸ hy run hm

theorem ChainsConsistent.token_ne (h : ChainsConsistent t s) {token : String}
    (hf : freshToken s token = true) {item : Reservation} (hi : item ∈ s.chains.queues key) :
    item.token ≠ token := by
  rintro rfl
  obtain ⟨run, hm, hid, _⟩ := h.root key item hi
  exact (freshToken_iff.mp hf).2 run hm (hid ▸ (h.token key item hi).2)

theorem ChainsConsistent.of_same (h : ChainsConsistent t s) (hrows : RowChange s s')
    (hsame : s'.chains = s.chains) : ChainsConsistent t s' where
  ordered := hsame ▸ h.ordered
  root k item hi := root_persists hrows (h.root k item (hsame ▸ hi))
  token := hsame ▸ h.token
  unique := hsame ▸ h.unique
  known id tok hk := row_persists hrows (h.known id tok (hsame ▸ hk))

theorem ChainsConsistent.of_root (h : ChainsConsistent t s) (hrows : RowChange s s') {token : String}
    (htarget : physicalKey t run = some key) (haction : run.action = .backup)
    (hfresh : freshToken s token = true) (hyoung : ∀ r ∈ s.runs.rows, r.id < run.id)
    (hrow : run ∈ s'.runs.rows) (hreg : s'.chains = registerRepositoryChain s.chains key run.id token) :
    ChainsConsistent t s' where
  ordered k := by
    rw [hreg]
    by_cases hk : k = key
    · subst k
      rw [registered_queue (h.ordered key) (fun item hi => h.root_lt hyoung hi), List.pairwise_append]
      refine ⟨h.ordered key, List.pairwise_singleton .., ?_⟩
      intro a ha b hb
      rw [List.mem_singleton] at hb
      exact hb ▸ h.root_lt hyoung ha
    · rw [registered_queue_of_ne hk]
      exact h.ordered k
  root k item hi := by
    rw [hreg] at hi
    rcases mem_registered.mp hi with hi | ⟨rfl, rfl⟩
    · exact root_persists hrows (h.root k item hi)
    · exact ⟨run, hrow, rfl, by rw [haction]; decide, htarget⟩
  token k item hi := by
    rw [hreg] at hi ⊢
    rcases mem_registered.mp hi with hi | ⟨rfl, rfl⟩
    · have hne := Nat.ne_of_lt (h.root_lt hyoung hi)
      rw [registered_runTokens, Function.update_of_ne hne]
      exact h.token k item hi
    · exact ⟨(freshToken_iff.mp hfresh).1, by simp⟩
  unique k a ha b hb heq := by
    rw [hreg] at ha hb
    rcases mem_registered.mp ha with ha | ⟨rfl, rfl⟩ <;> rcases mem_registered.mp hb with hb | ⟨hk, rfl⟩
    · exact h.unique k a ha b hb heq
    · exact absurd heq (h.token_ne hfresh ha)
    · exact absurd heq.symm (h.token_ne hfresh hb)
    · rfl
  known id tok hk := by
    rw [hreg, registered_runTokens] at hk
    by_cases hid : id = run.id
    · exact ⟨run, hrow, hid.symm⟩
    · rw [Function.update_of_ne hid] at hk
      exact row_persists hrows (h.known id tok hk)

theorem ChainsConsistent.of_member (h : ChainsConsistent t s) (hrows : RowChange s s') {token : String}
    (hyoung : ∀ r ∈ s.runs.rows, r.id < run.id) (hrow : run ∈ s'.runs.rows)
    (hreg : s'.chains = registerChainRun s.chains run.id token) : ChainsConsistent t s' where
  ordered := by rw [hreg, registerChainRun_queues]; exact h.ordered
  root k item hi := by
    rw [hreg, registerChainRun_queues] at hi
    exact root_persists hrows (h.root k item hi)
  token k item hi := by
    rw [hreg, registerChainRun_queues] at hi
    rw [hreg, registerChainRun_runTokens (Nat.ne_of_lt (h.root_lt hyoung hi))]
    exact h.token k item hi
  unique := by rw [hreg, registerChainRun_queues]; exact h.unique
  known id tok hk := by
    by_cases hid : id = run.id
    · exact ⟨run, hrow, hid.symm⟩
    · rw [hreg, registerChainRun_runTokens hid] at hk
      exact row_persists hrows (h.known id tok hk)

theorem ChainsConsistent.of_started (h : ChainsConsistent t s) (hrows : RowChange s s') {runId : Nat}
    (hmark : s'.chains = markRepositoryChainStarted s.chains runId) : ChainsConsistent t s' := by
  have hold (k : ExecutionKey) (item : Reservation) (hi : item ∈ s'.chains.queues k) :
      ∃ old ∈ s.chains.queues k, item.token = old.token ∧ item.rootRunId = old.rootRunId := by
    obtain ⟨f, hf, hspec⟩ := marked_queue s.chains runId k
    rw [hmark, hf] at hi
    obtain ⟨old, ho, rfl⟩ := List.mem_map.mp hi
    exact ⟨old, ho, (hspec old).1, (hspec old).2.1⟩
  refine ⟨?_, ?_, ?_, ?_, ?_⟩
  · intro k
    obtain ⟨f, hf, hspec⟩ := marked_queue s.chains runId k
    rw [hmark, hf, List.pairwise_map]
    refine (h.ordered k).imp ?_
    intro a b hab
    rwa [(hspec a).2.1, (hspec b).2.1]
  · intro k item hi
    obtain ⟨old, ho, _, hroot⟩ := hold k item hi
    exact hroot ▸ root_persists hrows (h.root k old ho)
  · intro k item hi
    obtain ⟨old, ho, htok, hroot⟩ := hold k item hi
    rw [hmark, marked_runTokens, htok, hroot]
    exact h.token k old ho
  · intro k a ha b hb heq
    obtain ⟨oa, hoa, hta, hra⟩ := hold k a ha
    obtain ⟨ob, hob, htb, hrb⟩ := hold k b hb
    rw [hra, hrb]
    exact h.unique k oa hoa ob hob (by rw [← hta, ← htb, heq])
  · intro id tok hk
    rw [hmark, marked_runTokens] at hk
    exact row_persists hrows (h.known id tok hk)

theorem ChainsConsistent.of_released (h : ChainsConsistent t s) (hrows : RowChange s s') {token : String}
    (hrel : s'.chains = releaseRepositoryChain s.chains token) : ChainsConsistent t s' where
  ordered k := by rw [hrel]; exact (h.ordered k).filter _
  root k item hi := by
    rw [hrel] at hi
    exact root_persists hrows (h.root k item (mem_released.mp hi).1)
  token k item hi := by
    rw [hrel] at hi ⊢
    obtain ⟨hi, hne⟩ := mem_released.mp hi
    exact ⟨(h.token k item hi).1, (released_runTokens hne).mpr (h.token k item hi).2⟩
  unique k a ha b hb heq := by
    rw [hrel] at ha hb
    exact h.unique k a (mem_released.mp ha).1 b (mem_released.mp hb).1 heq
  known id tok hk := by
    rw [hrel] at hk
    by_cases htok : tok = token
    · subst tok
      simp [releaseRepositoryChain] at hk
    · exact row_persists hrows (h.known id tok ((released_runTokens htok).mp hk))

theorem ChainsConsistent.step {e : QueueEvent} (h : ChainsConsistent t s) (hs : queueStep t s e s') :
    ChainsConsistent t s' := by
  have hrows := rowChange_of_step hs
  cases chainChange_of_step hs with
  | unchanged same => exact h.of_same hrows same
  | root key target action fresh younger row registered =>
      exact h.of_root hrows target action fresh younger row registered
  | member younger row registered => exact h.of_member hrows younger row registered
  | started marked => exact h.of_started hrows marked
  | released removed => exact h.of_released hrows removed

theorem chainsConsistent_of_reachable (h : Reachable t s) : ChainsConsistent t s :=
  h.invariant (fun _ => chainsConsistent_of_started) (fun _ _ _ ha hs => ha.step hs)

/-- A chain holds a place in the reservation queue of the repository. -/
def Reserved (s : Queue) (key : ExecutionKey) (root : Nat) (token : String) : Prop :=
  ∃ item ∈ s.chains.queues key, item.rootRunId = root ∧ item.token = token

/-- A chain whose root has started is at the head of the queue. -/
def Owns (s : Queue) (key : ExecutionKey) (token : String) : Prop :=
  ∃ item, repositoryChainSnapshot s.chains key = some item ∧ item.token = token ∧ item.started = true

theorem head_mem {item : Reservation} (h : repositoryChainSnapshot s.chains key = some item) :
    item ∈ s.chains.queues key :=
  List.mem_of_head? h

theorem ChainsConsistent.head_le (h : ChainsConsistent t s) {head item : Reservation}
    (hhead : repositoryChainSnapshot s.chains key = some head) (hi : item ∈ s.chains.queues key) :
    item = head ∨ head.rootRunId < item.rootRunId := by
  obtain ⟨rest, hq⟩ := List.head?_eq_some_iff.mp hhead
  have hord := h.ordered key
  rw [hq] at hi hord
  rcases List.mem_cons.mp hi with rfl | hi
  · exact .inl rfl
  · exact .inr ((List.pairwise_cons.mp hord).1 item hi)

/-- A claim admits a run past the head of the reservation queue only if the
run belongs to that chain, or is not younger than a root that still waits. -/
theorem claim_respects_head (hm : run ∈ s.runs.rows) (hns : run.action ≠ .sourceStats)
    (hkey : physicalKey t run = some key) (hc : claimExecutionTurn t s run.id = .ok s') {head : Reservation}
    (hhead : repositoryChainSnapshot s.chains key = some head) :
    s.chains.runTokens run.id = some head.token ∨ (head.started = false ∧ run.id ≤ head.rootRunId) := by
  have hheld := held_eq_false_of_mem_select (claimed_mem_admitted hm hc)
  have hforeign : (foreignChain t (planContext t s (liveRows s (some run.id))) run).isSome = false :=
    (Bool.or_eq_false_iff.mp hheld).2
  by_contra hn
  rw [not_or] at hn
  have hrow : rowRepositoryKey t run = some key := by rw [rowRepositoryKey, if_neg hns, hkey]
  have hblock : (head.started || decide (head.rootRunId < run.id)) = true := by
    cases hst : head.started with
    | true => rfl
    | false =>
        have : ¬ run.id ≤ head.rootRunId := fun hle => hn.2 ⟨hst, hle⟩
        simpa using Nat.lt_of_not_le this
  simp [foreignChain, hrow, planContext, hhead, hn.1, hblock] at hforeign

theorem claimed_root_is_head (h : ChainsConsistent t s) {item : Reservation} (hi : item ∈ s.chains.queues key)
    (hc : claimExecutionTurn t s item.rootRunId = .ok s') :
    repositoryChainSnapshot s.chains key = some item := by
  obtain ⟨run, hm, hid, hns, hkey⟩ := h.root key item hi
  obtain ⟨head, hhead⟩ : ∃ head, repositoryChainSnapshot s.chains key = some head := by
    cases hq : s.chains.queues key with
    | nil => rw [hq] at hi; cases hi
    | cons head rest => exact ⟨head, by rw [repositoryChainSnapshot, hq]; rfl⟩
  rw [← hid] at hc
  rcases h.head_le hhead hi with rfl | hlt
  · exact hhead
  · exfalso
    rcases claim_respects_head hm hns hkey hc hhead with htok | ⟨_, hle⟩
    · rw [hid, (h.token key item hi).2] at htok
      have := h.unique key item hi head (head_mem hhead) (Option.some.inj htok)
      omega
    · omega

theorem owns_of_claim (h : ChainsConsistent t s) {root : Nat} {token : String} (hres : Reserved s key root token)
    (hc : claimExecutionTurn t s root = .ok s') : Owns s' key token := by
  obtain ⟨item, hi, rfl, rfl⟩ := hres
  have hhead := claimed_root_is_head h hi hc
  obtain ⟨_, _, rfl⟩ := claimExecutionTurn_ok hc
  obtain ⟨f, hf, hspec⟩ := marked_queue s.chains item.rootRunId key
  have hlater : repositoryChainSnapshot (markRepositoryChainStarted s.chains item.rootRunId) key = some (f item) := by
    rw [repositoryChainSnapshot, hf, List.head?_map]
    exact congrArg (Option.map f) hhead
  have htok := h.token key item hi
  refine ⟨f item, hlater, (hspec item).1, ?_⟩
  refine marked_started (List.mem_of_head? hlater) (hspec item).2.1 ?_ ?_
  · rw [(hspec item).1]; exact htok.2
  · rw [(hspec item).1]; exact htok.1

theorem Owns.step (h : ChainsConsistent t s) {token : String} (ho : Owns s key token) {e : QueueEvent}
    (he : e ≠ .releaseChain token) (hs : queueStep t s e s') : Owns s' key token := by
  obtain ⟨item, hhead, htok, hst⟩ := ho
  have hq := List.head?_eq_some_iff.mp hhead
  cases chainChange_of_step hs with
  | unchanged same => exact ⟨item, by rw [same]; exact hhead, htok, hst⟩
  | root k target action fresh younger row registered =>
      refine ⟨item, ?_, htok, hst⟩
      rw [registered, repositoryChainSnapshot]
      by_cases hk : key = k
      · subst k
        rw [registered_queue (h.ordered key) (fun i hi => h.root_lt younger hi), List.head?_append]
        exact congrArg (Option.or · _) hhead
      · rw [registered_queue_of_ne hk]
        exact hhead
  | member younger row registered =>
      refine ⟨item, ?_, htok, hst⟩
      rw [registered, repositoryChainSnapshot, registerChainRun_queues]
      exact hhead
  | @started runId marked =>
      obtain ⟨f, hf, hspec⟩ := marked_queue s.chains runId key
      refine ⟨f item, ?_, (hspec item).1.trans htok, (hspec item).2.2.1 hst⟩
      rw [marked, repositoryChainSnapshot, hf, List.head?_map]
      exact congrArg (Option.map f) hhead
  | @released other removed =>
      have hne : item.token ≠ other := by
        rintro rfl
        exact he (by rw [htok])
      obtain ⟨rest, hq⟩ := hq
      refine ⟨item, ?_, htok, hst⟩
      rw [removed, repositoryChainSnapshot, released_queue, hq, List.filter_cons_of_pos (by simpa using hne)]
      rfl

theorem Reserved.step {root : Nat} {token : String} (hres : Reserved s key root token) {e : QueueEvent}
    (he : e ≠ .releaseChain token) (hs : queueStep t s e s') : Reserved s' key root token := by
  obtain ⟨item, hi, hroot, htok⟩ := hres
  cases chainChange_of_step hs with
  | unchanged same => exact ⟨item, by rw [same]; exact hi, hroot, htok⟩
  | root k target action fresh younger row registered =>
      exact ⟨item, by rw [registered]; exact mem_registered.mpr (.inl hi), hroot, htok⟩
  | member younger row registered => exact ⟨item, by rw [registered, registerChainRun_queues]; exact hi, hroot, htok⟩
  | @started runId marked =>
      obtain ⟨f, hf, hspec⟩ := marked_queue s.chains runId key
      refine ⟨f item, ?_, (hspec item).2.1.trans hroot, (hspec item).1.trans htok⟩
      rw [marked, hf]
      exact List.mem_map_of_mem hi
  | @released other removed =>
      have hne : item.token ≠ other := by
        rintro rfl
        exact he (by rw [htok])
      exact ⟨item, by rw [removed]; exact mem_released.mpr ⟨hi, hne⟩, hroot, htok⟩

theorem Owns.history {es : List QueueEvent} {token : String} (h : Reachable t s) (ho : Owns s key token)
    (hs : History (queueStep t) s es s') (hes : .releaseChain token ∉ es) : Owns s' key token := by
  have hinv : Reachable t s' ∧ Owns s' key token := by
    refine hs.invariant_of_mem (fun u => Reachable t u ∧ Owns u key token) ⟨h, ho⟩ ?_
    rintro a e b he ⟨hr, hoa⟩ hab
    exact ⟨hr.step hab, hoa.step (chainsConsistent_of_reachable hr) (fun heq => hes (heq ▸ he)) hab⟩
  exact hinv.2

theorem Reserved.history {es : List QueueEvent} {root : Nat} {token : String} (hres : Reserved s key root token)
    (hs : History (queueStep t) s es s') (hes : .releaseChain token ∉ es) : Reserved s' key root token := by
  refine hs.invariant_of_mem (fun u => Reserved u key root token) hres ?_
  intro a e b he ha hab
  exact ha.step (fun heq => hes (heq ▸ he)) hab

/-- Maintenance-chain exclusivity. A claim on a repository key respects the
chain that owns the key, the chain at the head of its queue, and the order of
the waiting chains. -/
theorem chain_exclusivity (h : Reachable t s) (hm : run ∈ s.runs.rows) (hns : run.action ≠ .sourceStats)
    (hkey : physicalKey t run = some key) (hc : claimExecutionTurn t s run.id = .ok s') :
    (∀ s₀ s₁ es root token, Reachable t s₀ → Reserved s₀ key root token →
      claimExecutionTurn t s₀ root = .ok s₁ → History (queueStep t) s₁ es s → .releaseChain token ∉ es →
      s.chains.runTokens run.id = some token) ∧
    (∀ head, repositoryChainSnapshot s.chains key = some head → head.started = false →
      run.id < head.rootRunId ∨ s.chains.runTokens run.id = some head.token) ∧
    (∀ s₀ es root token token', Reachable t s₀ → Reserved s₀ key root token → root < run.id →
      History (queueStep t) s₀ es s → Reserved s key run.id token' → .releaseChain token ∈ es) := by
  have hcons := chainsConsistent_of_reachable h
  refine ⟨?_, ?_, ?_⟩
  · intro s₀ s₁ es root token h₀ hres hroot hs hes
    have hr₁ : Reachable t s₁ := h₀.step (e := .claim root) (by simp [graph, next, claim, hroot, Except.toOption])
    have hown := owns_of_claim (chainsConsistent_of_reachable h₀) hres hroot
    obtain ⟨head, hhead, htok, hst⟩ := hown.history hr₁ hs hes
    rcases claim_respects_head hm hns hkey hc hhead with hrun | ⟨hno, _⟩
    · rw [hrun, htok]
    · rw [hst] at hno
      cases hno
  · intro head hhead _
    rcases claim_respects_head hm hns hkey hc hhead with hrun | ⟨_, hle⟩
    · exact .inr hrun
    · rcases Nat.lt_or_eq_of_le hle with hlt | heq
      · exact .inl hlt
      · exact .inr (heq ▸ (hcons.token key head (head_mem hhead)).2)
  · intro s₀ es root token token' _ hres hlt hs hmine
    by_contra hes
    obtain ⟨other, ho, hor, _⟩ := hres.history hs hes
    obtain ⟨item, hi, hroot, _⟩ := hmine
    have hhead := claimed_root_is_head hcons hi (hroot ▸ hc)
    rcases hcons.head_le hhead ho with rfl | hgt
    · omega
    · omega

def pruneFollows : List QueueEvent :=
  [.enqueueChainRoot (sampleRun 1 1 .backup) "manual-1", .claim 1, .enqueue (sampleRun 2 1 .check),
    .finish 1 .success, .endExecution 1, .enqueueChainRun (sampleRun 3 1 .prune) "manual-1"]

def pruneWaits : Queue := (exec (next sampleTopology) (emptyQueue sampleSettings) pruneFollows).get (by decide)

/-- The prune of a chain passes an older run of the same repository. -/
theorem chain_exclusivity_prune :
    (∀ s₀ s₁ es root token, Reachable sampleTopology s₀ →
      Reserved s₀ (.managed "/repositories/first") root token →
      claimExecutionTurn sampleTopology s₀ root = .ok s₁ →
      History (queueStep sampleTopology) s₁ es pruneWaits → .releaseChain token ∉ es →
      pruneWaits.chains.runTokens 3 = some token) ∧
    (∀ head, repositoryChainSnapshot pruneWaits.chains (.managed "/repositories/first") = some head →
      head.started = false → 3 < head.rootRunId ∨ pruneWaits.chains.runTokens 3 = some head.token) ∧
    (∀ s₀ es root token token', Reachable sampleTopology s₀ →
      Reserved s₀ (.managed "/repositories/first") root token → root < 3 →
      History (queueStep sampleTopology) s₀ es pruneWaits →
      Reserved pruneWaits (.managed "/repositories/first") 3 token' → .releaseChain token ∈ es) :=
  @chain_exclusivity _ pruneWaits _ (sampleRun 3 1 .prune) _
    (.of_exec (emptyQueue_started sampleSettings) (Option.some_get _).symm) (by decide) (by decide) (by decide)
    (claimExecutionTurn_of_selected (sampleRun 3 1 .prune) (by decide) rfl (by decide))

def statsBehindChain : Queue :=
  (exec (next sampleTopology) (emptyQueue sampleSettings)
    [.enqueueChainRoot (sampleRun 1 1 .backup) "manual-1", .enqueue (sampleRun 2 1 .sourceStats)]).get (by decide)

/-- Source statistics of the reserved repository do not wait for the chain. -/
theorem sourceStats_pass_waiting_chain :
    Reachable sampleTopology statsBehindChain ∧
    physicalKey sampleTopology (sampleRun 2 1 .sourceStats) = some (.managed "/repositories/first") ∧
    repositoryChainSnapshot statsBehindChain.chains (.managed "/repositories/first") =
      some ⟨"manual-1", 1, false⟩ ∧
    claimExecutionTurn sampleTopology statsBehindChain 2 = .ok (grantTurn statsBehindChain 2) ∧
    ¬ (2 < 1 ∨ statsBehindChain.chains.runTokens 2 = some "manual-1") :=
  ⟨.of_exec (emptyQueue_started sampleSettings) (Option.some_get _).symm, by decide, by decide,
    claimExecutionTurn_of_selected (sampleRun 2 1 .sourceStats) (by decide) rfl (by decide), by decide⟩

end BorgManager.ChainExclusivity
