import BorgManager.ExecutionKeys
import Mathlib.Logic.Function.Basic
import Mathlib.Data.List.Sort

namespace BorgManager.ChainReservations

open ExecutionKeys

structure Reservation where
  token : String
  rootRunId : Nat
  started : Bool
  deriving DecidableEq

/-- The two process-wide registries: the waiting chains of each physical
repository, and the chain that a run belongs to. A queue that the source
removes when it becomes empty is the empty list here. -/
structure Registry where
  queues : ExecutionKey → List Reservation
  runTokens : Nat → Option String

def Registry.empty : Registry := ⟨fun _ => [], fun _ => none⟩

abbrev byRoot (a b : Reservation) : Prop := a.rootRunId ≤ b.rootRunId

def registerRepositoryChain (g : Registry) (key : ExecutionKey) (runId : Nat) (token : String) : Registry :=
  let queue : List Reservation := g.queues key ++ [⟨token, runId, false⟩]
  { queues := Function.update g.queues key (queue.insertionSort byRoot)
    runTokens := Function.update g.runTokens runId (some token) }

def registerChainRun (g : Registry) (runId : Nat) (token : String) : Registry :=
  if token = "" then g else { g with runTokens := Function.update g.runTokens runId (some token) }

/-- A run is the root of at most one reservation, so the first match, where
the source stops, is the only one. -/
def markRepositoryChainStarted (g : Registry) (runId : Nat) : Registry :=
  match g.runTokens runId with
  | none | some "" => g
  | some token =>
      { g with queues := fun key => (g.queues key).map (fun item =>
          if item.token = token ∧ item.rootRunId = runId then { item with started := true } else item) }

def releaseRepositoryChain (g : Registry) (token : String) : Registry :=
  { queues := fun key => (g.queues key).filter (fun item => decide (item.token ≠ token))
    runTokens := fun runId => if g.runTokens runId = some token then none else g.runTokens runId }

/-- Only the head of each queue is visible to the planner. -/
def repositoryChainSnapshot (g : Registry) (key : ExecutionKey) : Option Reservation :=
  (g.queues key).head?

theorem mem_registered {g : Registry} {key k : ExecutionKey} {runId : Nat} {token : String}
    {item : Reservation} :
    item ∈ (registerRepositoryChain g key runId token).queues k ↔
      item ∈ g.queues k ∨ (k = key ∧ item = ⟨token, runId, false⟩) := by
  by_cases hk : k = key
  · subst k
    simp [registerRepositoryChain]
  · simp [registerRepositoryChain, hk]

theorem registered_queue {g : Registry} {key : ExecutionKey} {runId : Nat} {token : String}
    (hsorted : (g.queues key).Pairwise (fun a b => a.rootRunId < b.rootRunId))
    (hyoung : ∀ item ∈ g.queues key, item.rootRunId < runId) :
    (registerRepositoryChain g key runId token).queues key = g.queues key ++ [⟨token, runId, false⟩] := by
  simp only [registerRepositoryChain, Function.update_self]
  apply List.Pairwise.insertionSort_eq
  rw [List.pairwise_append]
  refine ⟨hsorted.imp Nat.le_of_lt, List.pairwise_singleton .., ?_⟩
  intro a ha b hb
  rw [List.mem_singleton] at hb
  exact hb ▸ Nat.le_of_lt (hyoung a ha)

theorem registered_queue_of_ne {g : Registry} {key k : ExecutionKey} (h : k ≠ key) (runId : Nat)
    (token : String) : (registerRepositoryChain g key runId token).queues k = g.queues k := by
  simp [registerRepositoryChain, h]

@[simp] theorem registered_runTokens (g : Registry) (key : ExecutionKey) (runId : Nat) (token : String) :
    (registerRepositoryChain g key runId token).runTokens = Function.update g.runTokens runId (some token) :=
  rfl

@[simp] theorem registerChainRun_queues (g : Registry) (runId : Nat) (token : String) :
    (registerChainRun g runId token).queues = g.queues := by
  rw [registerChainRun]
  split <;> rfl

theorem registerChainRun_runTokens {g : Registry} {runId r : Nat} {token : String} (h : r ≠ runId) :
    (registerChainRun g runId token).runTokens r = g.runTokens r := by
  rw [registerChainRun]
  split
  · rfl
  · simp [h]

@[simp] theorem marked_runTokens (g : Registry) (runId : Nat) :
    (markRepositoryChainStarted g runId).runTokens = g.runTokens := by
  rw [markRepositoryChainStarted]
  split <;> rfl

theorem marked_queue (g : Registry) (runId : Nat) (key : ExecutionKey) :
    ∃ f : Reservation → Reservation,
      (markRepositoryChainStarted g runId).queues key = (g.queues key).map f ∧
      ∀ item, (f item).token = item.token ∧ (f item).rootRunId = item.rootRunId ∧
        (item.started = true → (f item).started = true) ∧
        ((f item).started = true → item.started = true ∨
          (item.rootRunId = runId ∧ g.runTokens runId = some item.token)) := by
  rw [markRepositoryChainStarted]
  split
  · exact ⟨id, by simp, fun item => ⟨rfl, rfl, fun h => h, fun h => .inl h⟩⟩
  · exact ⟨id, by simp, fun item => ⟨rfl, rfl, fun h => h, fun h => .inl h⟩⟩
  · next token _ ht =>
      refine ⟨_, rfl, ?_⟩
      intro item
      by_cases hm : item.token = token ∧ item.rootRunId = runId
      · rw [if_pos hm]
        exact ⟨rfl, rfl, fun _ => rfl, fun _ => .inr ⟨hm.2, by rw [ht, hm.1]⟩⟩
      · rw [if_neg hm]
        exact ⟨rfl, rfl, fun h => h, fun h => .inl h⟩

theorem marked_started {g : Registry} {runId : Nat} {key : ExecutionKey} {item : Reservation}
    (hitem : item ∈ (markRepositoryChainStarted g runId).queues key) (hroot : item.rootRunId = runId)
    (htoken : g.runTokens runId = some item.token) (hne : item.token ≠ "") : item.started = true := by
  rw [markRepositoryChainStarted] at hitem
  rw [htoken] at hitem
  split at hitem
  · next h => cases h
  · next h => exact absurd (Option.some.inj h) hne
  · next token _ ht =>
      obtain ⟨old, _, ho⟩ := List.mem_map.mp hitem
      have htok : item.token = token := Option.some.inj ht
      by_cases hm : old.token = token ∧ old.rootRunId = runId
      · rw [if_pos hm] at ho
        rw [← ho]
      · rw [if_neg hm] at ho
        subst old
        exact absurd ⟨htok, hroot⟩ hm

/-- Marking changes the visible chain of a repository only by starting the
run's own reservation. -/
theorem marked_snapshot (g : Registry) (runId : Nat) (key : ExecutionKey) :
    repositoryChainSnapshot (markRepositoryChainStarted g runId) key = repositoryChainSnapshot g key ∨
      ∃ item, repositoryChainSnapshot g key = some item ∧ item.rootRunId = runId ∧
        g.runTokens runId = some item.token ∧
        repositoryChainSnapshot (markRepositoryChainStarted g runId) key = some { item with started := true } := by
  rw [markRepositoryChainStarted]
  split
  · exact .inl rfl
  · exact .inl rfl
  · next token _ ht =>
      simp only [repositoryChainSnapshot, List.head?_map]
      cases hh : (g.queues key).head? with
      | none => exact .inl rfl
      | some item =>
          simp only [Option.map_some]
          by_cases hm : item.token = token ∧ item.rootRunId = runId
          · exact .inr ⟨item, rfl, hm.2, by rw [ht, hm.1], by rw [if_pos hm]⟩
          · exact .inl (by rw [if_neg hm])

theorem released_queue (g : Registry) (token : String) (key : ExecutionKey) :
    (releaseRepositoryChain g token).queues key =
      (g.queues key).filter (fun item => decide (item.token ≠ token)) := rfl

@[simp] theorem mem_released {g : Registry} {token : String} {key : ExecutionKey} {item : Reservation} :
    item ∈ (releaseRepositoryChain g token).queues key ↔ item ∈ g.queues key ∧ item.token ≠ token := by
  simp [released_queue]

theorem released_runTokens {g : Registry} {token t : String} {runId : Nat} (h : t ≠ token) :
    (releaseRepositoryChain g token).runTokens runId = some t ↔ g.runTokens runId = some t := by
  simp only [releaseRepositoryChain]
  split
  · next ht => simp [ht, Ne.symm h]
  · rfl

end BorgManager.ChainReservations
