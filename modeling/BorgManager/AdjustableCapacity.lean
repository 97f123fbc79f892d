import Mathlib.Data.List.Nodup
import Mathlib.Data.List.Perm.Basic
import Mathlib.Logic.Function.Basic

namespace BorgManager.AdjustableCapacity

inductive FutureState where
  | pending
  | granted
  | cancelled
deriving DecidableEq

/-- A slot handed out to a call, with the capacity that was found. -/
structure Grant where
  call : Nat
  inUse : Nat
  limit : Nat

/-- The limiter with the tasks that use it. The calls of `acquire` are numbered in
their order; `suspended` are those that await their future, `cancelRequested` those
that were cancelled while they did, and `grants` is the record of all slots. -/
structure World where
  limit : Nat
  inUse : Nat
  waiters : List Nat
  future : Nat → FutureState
  calls : Nat
  suspended : List Nat
  cancelRequested : List Nat
  holders : List Nat
  grants : List Grant

section Limiter

def grant (call : Nat) (w : World) : World := { w with
  inUse := w.inUse + 1
  future := Function.update w.future call .granted
  grants := w.grants ++ [⟨call, w.inUse, w.limit⟩] }

def wakeLoop : List Nat → World → World
  | [], w => { w with waiters := [] }
  | waiter :: waiters, w =>
      if w.inUse < w.limit then
        if w.future waiter = .pending then wakeLoop waiters (grant waiter w) else wakeLoop waiters w
      else { w with waiters := waiter :: waiters }

def wakeWaiters (w : World) : World := wakeLoop w.waiters w

def setLimit (limit : Int) (w : World) : World := wakeWaiters { w with limit := max 1 limit.toNat }

/-- `await waiter` returns. -/
def returned (call : Nat) (w : World) : World := { w with
  suspended := w.suspended.erase call
  holders := call :: w.holders }

/-- `await waiter` raises: the `except` block of `acquire`. -/
def raised (call : Nat) (w : World) : World :=
  let w := { w with suspended := w.suspended.erase call }
  if w.future call = .granted then wakeWaiters { w with inUse := w.inUse - 1 }
  else { w with waiters := w.waiters.erase call, future := Function.update w.future call .cancelled }

/-- A call up to its first suspension; a future that is done does not suspend it. -/
def acquire (w : World) : World :=
  let call := w.calls
  if w.inUse < w.limit ∧ w.waiters = [] then { grant call w with calls := call + 1, holders := call :: w.holders }
  else
    let w := wakeWaiters { w with
      calls := call + 1
      waiters := w.waiters ++ [call]
      future := Function.update w.future call .pending
      suspended := call :: w.suspended }
    if w.future call = .pending then w else returned call w

/-- A holder gives its slot back; without a slot in use this is a `ValueError`. -/
def release (call : Nat) (w : World) : World :=
  if call ∈ w.holders then
    if w.inUse = 0 then w
    else wakeWaiters { w with inUse := w.inUse - 1, holders := w.holders.erase call }
  else w

end Limiter

section Tasks

/-- `Task.cancel`, also by a timeout: a future that is not done is cancelled, and in
each case the task is resumed with `CancelledError`. -/
def cancel (call : Nat) (w : World) : World :=
  if call ∈ w.suspended then { w with
    cancelRequested := call :: w.cancelRequested
    future := if w.future call = .pending then Function.update w.future call .cancelled else w.future }
  else w

/-- The loop runs a task whose future is done. -/
def resume (call : Nat) (w : World) : World :=
  if call ∈ w.suspended then
    match w.future call with
    | .pending => w
    | .granted => if call ∈ w.cancelRequested then raised call w else returned call w
    | .cancelled => raised call w
  else w

/-- The coroutine of a suspended call is closed. -/
def close (call : Nat) (w : World) : World :=
  if call ∈ w.suspended then raised call { w with cancelRequested := call :: w.cancelRequested } else w

inductive Event where
  | acquire
  | cancel (call : Nat)
  | resume (call : Nat)
  | close (call : Nat)
  | release (call : Nat)
  | setLimit (limit : Int)

/-- What cannot happen changes nothing. -/
def step (w : World) : Event → World
  | .acquire => acquire w
  | .cancel call => cancel call w
  | .resume call => resume call w
  | .close call => close call w
  | .release call => release call w
  | .setLimit limit => setLimit limit w

def init (limit : Int) : World := ⟨max 1 limit.toNat, 0, [], fun _ => .pending, 0, [], [], [], []⟩

def run (limit : Int) (events : List Event) : World := events.foldl step (init limit)

end Tasks

/-- The calls that were granted a slot and have not been resumed. -/
def World.granted (w : World) : List Nat := w.suspended.filter (fun call => w.future call == .granted)

structure Consistent (w : World) : Prop where
  count : w.inUse = w.holders.length + w.granted.length
  sorted : w.waiters.Pairwise (· < ·)
  queued : ∀ call ∈ w.waiters, w.future call ≠ .granted ∧ call < w.calls
  waiting : ∀ call ∈ w.suspended, w.future call = .pending → call ∈ w.waiters
  awaited : ∀ call ∈ w.waiters, w.future call = .pending → call ∈ w.suspended
  below : ∀ g ∈ w.grants, g.inUse < g.limit ∧ g.call < w.calls
  order : (w.grants.map Grant.call).Pairwise (· < ·)
  before : ∀ g ∈ w.grants, ∀ call ∈ w.waiters, g.call < call
  known : ∀ call, call ∈ w.suspended ∨ call ∈ w.holders ∨ call ∈ w.cancelRequested → call < w.calls
  nodupSuspended : w.suspended.Nodup
  nodupHolders : w.holders.Nodup
  apart : ∀ call ∈ w.suspended, call ∉ w.holders
  refused : ∀ call ∈ w.cancelRequested, call ∉ w.holders
  cancelled : ∀ call ∈ w.suspended, w.future call = .cancelled → call ∈ w.cancelRequested
  done : ∀ call ∈ w.suspended, call ∈ w.cancelRequested → w.future call ≠ .pending
  recorded : ∀ call, call ∈ w.holders ∨ call ∈ w.suspended ∧ w.future call = .granted → call ∈ w.grants.map Grant.call

/-- A free slot has nobody waiting for it. -/
def Idle (w : World) : Prop := w.inUse < w.limit → w.waiters = []

section Waking

variable {w : World}

/-- Granting to one suspended call adds one granted call. -/
theorem length_granted_grant {call : Nat} (hmem : call ∈ w.suspended) (hnodup : w.suspended.Nodup)
    (hnew : w.future call ≠ .granted) :
    (grant call w).granted.length = w.granted.length + 1 := by
  have hperm := List.perm_cons_erase hmem
  have hrest : call ∉ w.suspended.erase call := hnodup.not_mem_erase
  have hsame : (w.suspended.erase call).filter (fun c => Function.update w.future call .granted c == .granted) =
      (w.suspended.erase call).filter (fun c => w.future c == .granted) := by
    apply List.filter_congr
    intro c hc
    have hne : c ≠ call := by
      rintro rfl
      exact hrest hc
    rw [Function.update_of_ne hne]
  have hafter := (hperm.filter (fun c => Function.update w.future call .granted c == .granted)).length_eq
  have hbefore := (hperm.filter (fun c => w.future c == .granted)).length_eq
  rw [List.filter_cons_of_pos (by simp), List.length_cons, hsame] at hafter
  rw [List.filter_cons_of_neg (by simpa using hnew)] at hbefore
  rw [World.granted, World.granted, hbefore]
  exact hafter

/-- The head of the queue takes a slot. -/
theorem Consistent.grant_head {call : Nat} {waiters : List Nat} (h : Consistent { w with waiters := call :: waiters })
    (hfree : w.inUse < w.limit) (hpending : w.future call = .pending) :
    Consistent { grant call w with waiters := waiters } := by
  have hmem : call ∈ w.suspended := h.awaited call (List.mem_cons_self ..) hpending
  obtain ⟨hhead, hsorted⟩ := List.pairwise_cons.mp h.sorted
  have hother {c : Nat} (hc : c ∈ waiters) : Function.update w.future call .granted c = w.future c :=
    Function.update_of_ne (Nat.ne_of_gt (hhead c hc)) ..
  constructor
  · have hcount := h.count
    have hlength := length_granted_grant hmem h.nodupSuspended (by rw [hpending]; decide)
    change w.inUse + 1 = w.holders.length + (grant call w).granted.length
    rw [hlength]
    change w.inUse = w.holders.length + w.granted.length at hcount
    omega
  · exact hsorted
  · intro c hc
    change Function.update w.future call .granted c ≠ .granted ∧ c < w.calls
    rw [hother hc]
    exact h.queued c (List.mem_cons_of_mem _ hc)
  · intro c hc hpend
    change Function.update w.future call .granted c = .pending at hpend
    have hne : c ≠ call := by
      rintro rfl
      rw [Function.update_self] at hpend
      cases hpend
    rw [Function.update_of_ne hne] at hpend
    exact (List.mem_cons.mp (h.waiting c hc hpend)).resolve_left hne
  · intro c hc hpend
    change Function.update w.future call .granted c = .pending at hpend
    rw [hother hc] at hpend
    exact h.awaited c (List.mem_cons_of_mem _ hc) hpend
  · intro g hg
    rcases List.mem_append.mp hg with hg | hg
    · exact h.below g hg
    · rw [List.mem_singleton.mp hg]
      exact ⟨hfree, h.known call (Or.inl hmem)⟩
  · change ((w.grants ++ [(⟨call, w.inUse, w.limit⟩ : Grant)]).map Grant.call).Pairwise (· < ·)
    rw [List.map_append, List.pairwise_append]
    refine ⟨h.order, List.pairwise_singleton _ _, ?_⟩
    intro a ha b hb
    obtain ⟨g, hg, rfl⟩ := List.mem_map.mp ha
    rw [List.map_singleton, List.mem_singleton] at hb
    rw [hb]
    exact h.before g hg call (List.mem_cons_self ..)
  · intro g hg c hc
    rcases List.mem_append.mp hg with hg | hg
    · exact h.before g hg c (List.mem_cons_of_mem _ hc)
    · rw [List.mem_singleton.mp hg]
      exact hhead c hc
  · exact h.known
  · exact h.nodupSuspended
  · exact h.nodupHolders
  · exact h.apart
  · exact h.refused
  · intro c hc hcancelled
    change Function.update w.future call .granted c = .cancelled at hcancelled
    by_cases heq : c = call
    · rw [heq, Function.update_self] at hcancelled
      cases hcancelled
    · rw [Function.update_of_ne heq] at hcancelled
      exact h.cancelled c hc hcancelled
  · intro c hc hrequested
    change Function.update w.future call .granted c ≠ .pending
    by_cases heq : c = call
    · rw [heq, Function.update_self]
      decide
    · rw [Function.update_of_ne heq]
      exact h.done c hc hrequested
  · intro c hc
    change c ∈ (w.grants ++ [(⟨call, w.inUse, w.limit⟩ : Grant)]).map Grant.call
    rw [List.map_append, List.mem_append, List.map_singleton, List.mem_singleton]
    by_cases heq : c = call
    · exact .inr heq
    · refine .inl (h.recorded c (hc.imp_right (And.imp_right fun hgranted => ?_)))
      exact (Function.update_of_ne heq ..).symm.trans hgranted

/-- A waiter that is done leaves the queue. -/
theorem Consistent.drop_head {call : Nat} {waiters : List Nat} (h : Consistent { w with waiters := call :: waiters })
    (hdone : w.future call ≠ .pending) : Consistent { w with waiters := waiters } where
  count := h.count
  sorted := (List.pairwise_cons.mp h.sorted).2
  queued := fun c hc => h.queued c (List.mem_cons_of_mem _ hc)
  waiting := by
    intro c hc hpending
    refine (List.mem_cons.mp (h.waiting c hc hpending)).resolve_left ?_
    rintro rfl
    exact hdone hpending
  awaited := fun c hc => h.awaited c (List.mem_cons_of_mem _ hc)
  below := h.below
  order := h.order
  before := fun g hg c hc => h.before g hg c (List.mem_cons_of_mem _ hc)
  known := h.known
  nodupSuspended := h.nodupSuspended
  nodupHolders := h.nodupHolders
  apart := h.apart
  refused := h.refused
  cancelled := h.cancelled
  done := h.done
  recorded := h.recorded

theorem wakeLoop_spec {waiters : List Nat} (h : Consistent { w with waiters := waiters }) :
    Consistent (wakeLoop waiters w) ∧ Idle (wakeLoop waiters w) := by
  induction waiters generalizing w with
  | nil => exact ⟨h, fun _ => rfl⟩
  | cons call waiters ih =>
      rw [wakeLoop]
      by_cases hfree : w.inUse < w.limit
      · rw [if_pos hfree]
        by_cases hpending : w.future call = .pending
        · rw [if_pos hpending]
          exact ih (h.grant_head hfree hpending)
        · rw [if_neg hpending]
          exact ih (h.drop_head hpending)
      · rw [if_neg hfree]
        exact ⟨h, fun hlt => absurd hlt hfree⟩

theorem wakeWaiters_spec (h : Consistent w) : Consistent (wakeWaiters w) ∧ Idle (wakeWaiters w) := wakeLoop_spec h

/-- What is known of the calls, apart from the slots that wait for their
resumption. -/
structure Ledger where
  limit : Nat
  calls : Nat
  suspended : List Nat
  cancelRequested : List Nat
  holders : List Nat

def World.ledger (w : World) : Ledger := ⟨w.limit, w.calls, w.suspended, w.cancelRequested, w.holders⟩

/-- Waking changes the queue, the slots and futures that become granted. -/
structure Woken (w t : World) : Prop where
  ledger : t.ledger = w.ledger
  grants : ∀ g ∈ t.grants, g ∈ w.grants ∨ g.limit = w.limit
  future : ∀ call, t.future call = w.future call ∨ w.future call = .pending ∧ t.future call = .granted

theorem woken_wakeLoop (waiters : List Nat) : Woken w (wakeLoop waiters w) := by
  induction waiters generalizing w with
  | nil => exact ⟨rfl, fun _ => Or.inl, fun _ => Or.inl rfl⟩
  | cons call waiters ih =>
      rw [wakeLoop]
      by_cases hfree : w.inUse < w.limit
      · rw [if_pos hfree]
        by_cases hpending : w.future call = .pending
        · rw [if_pos hpending]
          have hrest := @ih (grant call w)
          refine ⟨hrest.ledger, ?_, ?_⟩
          · intro g hg
            rcases hrest.grants g hg with hold | hnew
            · rcases List.mem_append.mp hold with hold | hfirst
              · exact .inl hold
              · exact .inr (by rw [List.mem_singleton.mp hfirst])
            · exact .inr hnew
          intro c
          by_cases hc : c = call
          · subst hc
            have hgranted : (grant c w).future c = .granted := Function.update_self ..
            refine Or.inr ⟨hpending, ?_⟩
            rcases hrest.future c with hsame | hnew
            · exact hsame.trans hgranted
            · exact hnew.2
          · have hsame : (grant call w).future c = w.future c := Function.update_of_ne hc ..
            rw [← hsame]
            exact hrest.future c
        · rw [if_neg hpending]
          exact ih
      · rw [if_neg hfree]
        exact ⟨rfl, fun _ => Or.inl, fun _ => Or.inl rfl⟩

theorem woken_wakeWaiters (w : World) : Woken w (wakeWaiters w) := woken_wakeLoop w.waiters

end Waking

section Leaving

variable {w : World} {call : Nat}

/-- Without one suspended call, one granted call is gone if it was granted. -/
theorem length_granted_erase (hmem : call ∈ w.suspended) :
    w.granted.length = ((w.suspended.erase call).filter (fun c => w.future c == .granted)).length +
      (if w.future call = .granted then 1 else 0) := by
  have hperm := ((List.perm_cons_erase hmem).filter (fun c => w.future c == .granted)).length_eq
  rw [World.granted, hperm]
  split
  · next hgranted => rw [List.filter_cons_of_pos (by simpa using hgranted), List.length_cons]
  · next hgranted => rw [List.filter_cons_of_neg (by simpa using hgranted), Nat.add_zero]

theorem Consistent.returned (h : Consistent w) (hmem : call ∈ w.suspended) (hgranted : w.future call = .granted)
    (hnot : call ∉ w.cancelRequested) : Consistent (returned call w) where
  count := by
    have hcount := h.count
    rw [length_granted_erase hmem, if_pos hgranted] at hcount
    change w.inUse = (call :: w.holders).length +
      ((w.suspended.erase call).filter (fun c => w.future c == .granted)).length
    rw [List.length_cons]
    omega
  sorted := h.sorted
  queued := h.queued
  waiting := fun c hc => h.waiting c (List.mem_of_mem_erase hc)
  awaited := by
    intro c hc hpending
    refine (List.mem_erase_of_ne ?_).mpr (h.awaited c hc hpending)
    rintro rfl
    exact (h.queued c hc).1 hgranted
  below := h.below
  order := h.order
  before := h.before
  known := by
    intro c hc
    apply h.known c
    rcases hc with hc | hc | hc
    · exact Or.inl (List.mem_of_mem_erase hc)
    · rcases List.mem_cons.mp hc with rfl | hc
      · exact Or.inl hmem
      · exact Or.inr (Or.inl hc)
    · exact Or.inr (Or.inr hc)
  nodupSuspended := h.nodupSuspended.erase _
  nodupHolders := List.nodup_cons.mpr ⟨h.apart call hmem, h.nodupHolders⟩
  apart := by
    intro c hc hholder
    rcases List.mem_cons.mp hholder with rfl | hholder
    · exact h.nodupSuspended.not_mem_erase hc
    · exact h.apart c (List.mem_of_mem_erase hc) hholder
  refused := by
    intro c hc hholder
    rcases List.mem_cons.mp hholder with rfl | hholder
    · exact hnot hc
    · exact h.refused c hc hholder
  cancelled := fun c hc => h.cancelled c (List.mem_of_mem_erase hc)
  done := fun c hc => h.done c (List.mem_of_mem_erase hc)
  recorded := by
    intro c hc
    rcases hc with hc | hc
    · rcases List.mem_cons.mp hc with rfl | hc
      · exact h.recorded c (.inr ⟨hmem, hgranted⟩)
      · exact h.recorded c (.inl hc)
    · exact h.recorded c (.inr (hc.imp_left List.mem_of_mem_erase))

/-- A call that was granted and is cancelled gives its slot back. -/
theorem Consistent.giveBack (h : Consistent w) (hmem : call ∈ w.suspended) (hgranted : w.future call = .granted) :
    Consistent { w with suspended := w.suspended.erase call, inUse := w.inUse - 1 } where
  count := by
    have hcount := h.count
    rw [length_granted_erase hmem, if_pos hgranted] at hcount
    change w.inUse - 1 = w.holders.length + ((w.suspended.erase call).filter (fun c => w.future c == .granted)).length
    omega
  sorted := h.sorted
  queued := h.queued
  waiting := fun c hc => h.waiting c (List.mem_of_mem_erase hc)
  awaited := by
    intro c hc hpending
    refine (List.mem_erase_of_ne ?_).mpr (h.awaited c hc hpending)
    rintro rfl
    exact (h.queued c hc).1 hgranted
  below := h.below
  order := h.order
  before := h.before
  known := fun c hc => h.known c (hc.imp_left List.mem_of_mem_erase)
  nodupSuspended := h.nodupSuspended.erase _
  nodupHolders := h.nodupHolders
  apart := fun c hc => h.apart c (List.mem_of_mem_erase hc)
  refused := h.refused
  cancelled := fun c hc => h.cancelled c (List.mem_of_mem_erase hc)
  done := fun c hc => h.done c (List.mem_of_mem_erase hc)
  recorded := fun c hc => h.recorded c (hc.imp_right (And.imp_left List.mem_of_mem_erase))

/-- A call that was not granted leaves the queue. -/
theorem Consistent.leave (h : Consistent w) (hmem : call ∈ w.suspended) (hnot : w.future call ≠ .granted) :
    Consistent { w with
      suspended := w.suspended.erase call
      waiters := w.waiters.erase call
      future := Function.update w.future call .cancelled } where
  count := by
    have hcount := h.count
    rw [length_granted_erase hmem, if_neg hnot] at hcount
    have hsame : (w.suspended.erase call).filter (fun c => Function.update w.future call .cancelled c == .granted) =
        (w.suspended.erase call).filter (fun c => w.future c == .granted) := by
      apply List.filter_congr
      intro c hc
      rw [Function.update_of_ne (fun heq => h.nodupSuspended.not_mem_erase (heq ▸ hc))]
    rw [World.granted]
    dsimp only
    rw [hsame]
    exact hcount
  sorted := h.sorted.sublist List.erase_sublist
  queued := by
    intro c hc
    dsimp only
    refine ⟨?_, (h.queued c (List.mem_of_mem_erase hc)).2⟩
    by_cases heq : c = call
    · rw [heq, Function.update_self]
      decide
    · rw [Function.update_of_ne heq]
      exact (h.queued c (List.mem_of_mem_erase hc)).1
  waiting := by
    intro c hc hpending
    have hne : c ≠ call := fun heq => h.nodupSuspended.not_mem_erase (heq ▸ hc)
    dsimp only at hpending
    rw [Function.update_of_ne hne] at hpending
    exact (List.mem_erase_of_ne hne).mpr (h.waiting c (List.mem_of_mem_erase hc) hpending)
  awaited := by
    intro c hc hpending
    have hne : c ≠ call := by
      rintro rfl
      dsimp only at hpending
      rw [Function.update_self] at hpending
      cases hpending
    dsimp only at hpending
    rw [Function.update_of_ne hne] at hpending
    exact (List.mem_erase_of_ne hne).mpr (h.awaited c (List.mem_of_mem_erase hc) hpending)
  below := h.below
  order := h.order
  before := fun g hg c hc => h.before g hg c (List.mem_of_mem_erase hc)
  known := fun c hc => h.known c (hc.imp_left List.mem_of_mem_erase)
  nodupSuspended := h.nodupSuspended.erase _
  nodupHolders := h.nodupHolders
  apart := fun c hc => h.apart c (List.mem_of_mem_erase hc)
  refused := h.refused
  cancelled := by
    intro c hc hcancelled
    have hne : c ≠ call := fun heq => h.nodupSuspended.not_mem_erase (heq ▸ hc)
    dsimp only at hcancelled
    rw [Function.update_of_ne hne] at hcancelled
    exact h.cancelled c (List.mem_of_mem_erase hc) hcancelled
  done := by
    intro c hc hrequested
    have hne : c ≠ call := fun heq => h.nodupSuspended.not_mem_erase (heq ▸ hc)
    dsimp only
    rw [Function.update_of_ne hne]
    exact h.done c (List.mem_of_mem_erase hc) hrequested
  recorded := by
    intro c hc
    refine h.recorded c (hc.imp_right fun hgranted => ⟨List.mem_of_mem_erase hgranted.1, ?_⟩)
    have hne : c ≠ call := fun heq => h.nodupSuspended.not_mem_erase (heq ▸ hgranted.1)
    exact (Function.update_of_ne hne ..).symm.trans hgranted.2

theorem raised_spec (h : Consistent w) (hidle : Idle w) (hmem : call ∈ w.suspended) :
    Consistent (raised call w) ∧ Idle (raised call w) := by
  rw [raised]
  dsimp only
  by_cases hgranted : w.future call = .granted
  · rw [if_pos hgranted]
    exact wakeWaiters_spec (h.giveBack hmem hgranted)
  · rw [if_neg hgranted]
    refine ⟨h.leave hmem hgranted, ?_⟩
    intro hfree
    dsimp only at hfree ⊢
    rw [hidle hfree]
    rfl

end Leaving

section Events

variable {w : World}

/-- The number of a new call is not in use, and giving its future a state changes no other. -/
structure Fresh (w : World) : Prop where
  suspended : w.calls ∉ w.suspended
  holders : w.calls ∉ w.holders
  cancelRequested : w.calls ∉ w.cancelRequested
  other : ∀ state, ∀ call < w.calls, Function.update w.future w.calls state call = w.future call
  granted : ∀ state, w.suspended.filter
    (fun call => Function.update w.future w.calls state call == .granted) = w.granted

theorem Consistent.fresh (h : Consistent w) : Fresh w where
  suspended := fun hc => Nat.lt_irrefl _ (h.known _ (Or.inl hc))
  holders := fun hc => Nat.lt_irrefl _ (h.known _ (Or.inr (Or.inl hc)))
  cancelRequested := fun hc => Nat.lt_irrefl _ (h.known _ (Or.inr (Or.inr hc)))
  other := fun _ _ hc => Function.update_of_ne (Nat.ne_of_lt hc) ..
  granted := by
    intro state
    apply List.filter_congr
    intro c hc
    rw [Function.update_of_ne (Nat.ne_of_lt (h.known c (Or.inl hc)))]

/-- A free slot without a queue goes to the new call. -/
theorem Consistent.takeFree (h : Consistent w) (hfree : w.inUse < w.limit) (hnone : w.waiters = []) :
    Consistent { grant w.calls w with calls := w.calls + 1, holders := w.calls :: w.holders } where
  count := by
    have hcount := h.count
    change w.inUse + 1 = (w.calls :: w.holders).length +
      (w.suspended.filter (fun c => Function.update w.future w.calls .granted c == .granted)).length
    rw [h.fresh.granted, List.length_cons]
    omega
  sorted := h.sorted
  queued := by
    change ∀ c ∈ w.waiters, _
    rw [hnone]
    exact List.forall_mem_nil _
  waiting := by
    intro c hc hpending
    change Function.update w.future w.calls .granted c = .pending at hpending
    rw [h.fresh.other _ c (h.known c (Or.inl hc))] at hpending
    exact h.waiting c hc hpending
  awaited := by
    change ∀ c ∈ w.waiters, _
    rw [hnone]
    exact List.forall_mem_nil _
  below := by
    intro g hg
    rcases List.mem_append.mp hg with hg | hg
    · exact (h.below g hg).imp_right Nat.lt_succ_of_lt
    · rw [List.mem_singleton.mp hg]
      exact ⟨hfree, Nat.lt_succ_self _⟩
  order := by
    change ((w.grants ++ [(⟨w.calls, w.inUse, w.limit⟩ : Grant)]).map Grant.call).Pairwise (· < ·)
    rw [List.map_append, List.pairwise_append]
    refine ⟨h.order, List.pairwise_singleton _ _, ?_⟩
    intro a ha b hb
    obtain ⟨g, hg, rfl⟩ := List.mem_map.mp ha
    rw [List.map_singleton, List.mem_singleton] at hb
    rw [hb]
    exact (h.below g hg).2
  before := by
    intro g _
    change ∀ c ∈ w.waiters, _
    rw [hnone]
    exact List.forall_mem_nil _
  known := by
    intro c hc
    rcases hc with hc | hc | hc
    · exact Nat.lt_succ_of_lt (h.known c (Or.inl hc))
    · rcases List.mem_cons.mp hc with rfl | hc
      · exact Nat.lt_succ_self _
      · exact Nat.lt_succ_of_lt (h.known c (Or.inr (Or.inl hc)))
    · exact Nat.lt_succ_of_lt (h.known c (Or.inr (Or.inr hc)))
  nodupSuspended := h.nodupSuspended
  nodupHolders := List.nodup_cons.mpr ⟨h.fresh.holders, h.nodupHolders⟩
  apart := by
    intro c hc hholder
    rcases List.mem_cons.mp hholder with rfl | hholder
    · exact h.fresh.suspended hc
    · exact h.apart c hc hholder
  refused := by
    intro c hc hholder
    rcases List.mem_cons.mp hholder with rfl | hholder
    · exact h.fresh.cancelRequested hc
    · exact h.refused c hc hholder
  cancelled := by
    intro c hc hcancelled
    refine h.cancelled c hc ((h.fresh.other .granted c (h.known c (Or.inl hc))).symm.trans ?_)
    exact hcancelled
  done := by
    intro c hc hrequested hpending
    refine h.done c hc hrequested ((h.fresh.other .granted c (h.known c (Or.inl hc))).symm.trans ?_)
    exact hpending
  recorded := by
    intro c hc
    change c ∈ (w.grants ++ [(⟨w.calls, w.inUse, w.limit⟩ : Grant)]).map Grant.call
    rw [List.map_append, List.mem_append, List.map_singleton, List.mem_singleton]
    rcases hc with hc | ⟨hc, hgranted⟩
    · rcases List.mem_cons.mp hc with hc | hc
      · exact .inr hc
      · exact .inl (h.recorded c (.inl hc))
    · have hsame := h.fresh.other .granted c (h.known c (Or.inl hc))
      exact .inl (h.recorded c (.inr ⟨hc, hsame.symm.trans hgranted⟩))

/-- A new call joins the queue at its end. -/
theorem Consistent.join (h : Consistent w) : Consistent { w with
    calls := w.calls + 1
    waiters := w.waiters ++ [w.calls]
    future := Function.update w.future w.calls .pending
    suspended := w.calls :: w.suspended } where
  count := by
    have hcount := h.count
    rw [World.granted]
    dsimp only
    rw [List.filter_cons_of_neg (by simp), h.fresh.granted]
    exact hcount
  sorted := by
    dsimp only
    rw [List.pairwise_append]
    refine ⟨h.sorted, List.pairwise_singleton _ _, ?_⟩
    intro a ha b hb
    rw [List.mem_singleton.mp hb]
    exact (h.queued a ha).2
  queued := by
    intro c hc
    dsimp only
    rcases List.mem_append.mp hc with hc | hc
    · rw [h.fresh.other _ c (h.queued c hc).2]
      exact (h.queued c hc).imp_right Nat.lt_succ_of_lt
    · rw [List.mem_singleton.mp hc, Function.update_self]
      exact ⟨by decide, Nat.lt_succ_self _⟩
  waiting := by
    intro c hc hpending
    dsimp only at hpending ⊢
    rcases List.mem_cons.mp hc with rfl | hc
    · exact List.mem_append_right _ (List.mem_singleton_self _)
    · rw [h.fresh.other _ c (h.known c (Or.inl hc))] at hpending
      exact List.mem_append_left _ (h.waiting c hc hpending)
  awaited := by
    intro c hc hpending
    dsimp only at hpending ⊢
    rcases List.mem_append.mp hc with hc | hc
    · rw [h.fresh.other _ c (h.queued c hc).2] at hpending
      exact List.mem_cons_of_mem _ (h.awaited c hc hpending)
    · rw [List.mem_singleton.mp hc]
      exact List.mem_cons_self ..
  below := fun g hg => (h.below g hg).imp_right Nat.lt_succ_of_lt
  order := h.order
  before := by
    intro g hg c hc
    rcases List.mem_append.mp hc with hc | hc
    · exact h.before g hg c hc
    · rw [List.mem_singleton.mp hc]
      exact (h.below g hg).2
  known := by
    intro c hc
    rcases hc with hc | hc
    · rcases List.mem_cons.mp hc with rfl | hc
      · exact Nat.lt_succ_self _
      · exact Nat.lt_succ_of_lt (h.known c (Or.inl hc))
    · exact Nat.lt_succ_of_lt (h.known c (Or.inr hc))
  nodupSuspended := List.nodup_cons.mpr ⟨h.fresh.suspended, h.nodupSuspended⟩
  nodupHolders := h.nodupHolders
  apart := by
    intro c hc
    rcases List.mem_cons.mp hc with rfl | hc
    · exact h.fresh.holders
    · exact h.apart c hc
  refused := h.refused
  cancelled := by
    intro c hc hcancelled
    dsimp only at hcancelled
    rcases List.mem_cons.mp hc with rfl | hc
    · rw [Function.update_self] at hcancelled
      cases hcancelled
    · rw [h.fresh.other _ c (h.known c (Or.inl hc))] at hcancelled
      exact h.cancelled c hc hcancelled
  done := by
    intro c hc hrequested
    dsimp only
    rcases List.mem_cons.mp hc with rfl | hc
    · exact absurd hrequested h.fresh.cancelRequested
    · rw [h.fresh.other _ c (h.known c (Or.inl hc))]
      exact h.done c hc hrequested
  recorded := by
    intro c hc
    dsimp only at hc
    rcases hc with hc | ⟨hc, hgranted⟩
    · exact h.recorded c (.inl hc)
    · rcases List.mem_cons.mp hc with rfl | hc
      · rw [Function.update_self] at hgranted
        cases hgranted
      · rw [h.fresh.other _ c (h.known c (Or.inl hc))] at hgranted
        exact h.recorded c (.inr ⟨hc, hgranted⟩)

theorem acquire_spec (h : Consistent w) : Consistent (acquire w) ∧ Idle (acquire w) := by
  rw [acquire]
  dsimp only
  by_cases hfast : w.inUse < w.limit ∧ w.waiters = []
  · rw [if_pos hfast]
    exact ⟨h.takeFree hfast.1 hfast.2, fun _ => hfast.2⟩
  · rw [if_neg hfast]
    obtain ⟨hconsistent, hafter⟩ := wakeWaiters_spec h.join
    have hwoken := woken_wakeWaiters { w with
      calls := w.calls + 1
      waiters := w.waiters ++ [w.calls]
      future := Function.update w.future w.calls .pending
      suspended := w.calls :: w.suspended }
    split
    · exact ⟨hconsistent, hafter⟩
    · next hdone =>
        have hgranted := (hwoken.future w.calls).resolve_left
          (fun hsame => hdone (hsame.trans (Function.update_self ..)))
        refine ⟨hconsistent.returned ?_ hgranted.2 ?_, hafter⟩
        · rw [show (wakeWaiters _).suspended = _ from congrArg Ledger.suspended hwoken.ledger]
          exact List.mem_cons_self ..
        · rw [show (wakeWaiters _).cancelRequested = _ from congrArg Ledger.cancelRequested hwoken.ledger]
          exact h.fresh.cancelRequested

theorem release_spec (call : Nat) (h : Consistent w) (hidle : Idle w) :
    Consistent (release call w) ∧ Idle (release call w) := by
  rw [release]
  by_cases hmem : call ∈ w.holders
  · rw [if_pos hmem]
    have hcount := h.count
    have hlength := List.length_erase_of_mem hmem
    have hpos := List.length_pos_of_mem hmem
    rw [if_neg (by omega)]
    apply wakeWaiters_spec
    constructor
    · change w.inUse - 1 = (w.holders.erase call).length + w.granted.length
      omega
    · exact h.sorted
    · exact h.queued
    · exact h.waiting
    · exact h.awaited
    · exact h.below
    · exact h.order
    · exact h.before
    · exact fun c hc => h.known c (hc.imp_right (Or.imp_left List.mem_of_mem_erase))
    · exact h.nodupSuspended
    · exact h.nodupHolders.erase _
    · exact fun c hc hholder => h.apart c hc (List.mem_of_mem_erase hholder)
    · exact fun c hc hholder => h.refused c hc (List.mem_of_mem_erase hholder)
    · exact h.cancelled
    · exact h.done
    · exact fun c hc => h.recorded c (hc.imp_left List.mem_of_mem_erase)
  · rw [if_neg hmem]
    exact ⟨h, hidle⟩

/-- A suspended call is to be cancelled; a future that is not done is
cancelled with it. -/
theorem Consistent.request (h : Consistent w) {call : Nat} (hmem : call ∈ w.suspended) :
    Consistent { w with
      cancelRequested := call :: w.cancelRequested
      future := if w.future call = .pending then Function.update w.future call .cancelled else w.future } := by
  -- Only the future of this call may change, and only from pending to cancelled.
  obtain ⟨future, hfuture⟩ : ∃ future, future =
      if w.future call = .pending then Function.update w.future call .cancelled else w.future := ⟨_, rfl⟩
  have hother : ∀ c, c ≠ call → future c = w.future c := by
    intro c hc
    rw [hfuture]
    split
    · exact Function.update_of_ne hc ..
    · rfl
  have hself : future call ≠ .pending ∧ (future call = .granted ↔ w.future call = .granted) := by
    rw [hfuture]
    split
    · next hpending =>
        rw [Function.update_self, hpending]
        decide
    · next hpending => exact ⟨hpending, Iff.rfl⟩
  have hgranted : ∀ c, future c = .granted ↔ w.future c = .granted := by
    intro c
    by_cases hc : c = call
    · rw [hc]
      exact hself.2
    · rw [hother c hc]
  have hpending : ∀ c, future c = .pending → w.future c = .pending := by
    intro c hc
    by_cases heq : c = call
    · rw [heq] at hc
      exact absurd hc hself.1
    · rwa [hother c heq] at hc
  rw [← hfuture]
  have hsame : w.suspended.filter (fun c => future c == .granted) = w.granted := by
    apply List.filter_congr
    intro c _
    rw [Bool.eq_iff_iff, beq_iff_eq, beq_iff_eq]
    exact hgranted c
  refine ⟨?_, h.sorted, ?_, ?_, ?_, h.below, h.order, h.before, ?_, h.nodupSuspended, h.nodupHolders, h.apart,
    ?_, ?_, ?_, ?_⟩
  · rw [World.granted]
    dsimp only
    rw [hsame]
    exact h.count
  · exact fun c hc => ⟨fun hnew => (h.queued c hc).1 ((hgranted c).mp hnew), (h.queued c hc).2⟩
  · exact fun c hc hnew => h.waiting c hc (hpending c hnew)
  · exact fun c hc hnew => h.awaited c hc (hpending c hnew)
  · intro c hc
    rcases hc with hc | hc | hc
    · exact h.known c (Or.inl hc)
    · exact h.known c (Or.inr (Or.inl hc))
    · rcases List.mem_cons.mp hc with rfl | hc
      · exact h.known c (Or.inl hmem)
      · exact h.known c (Or.inr (Or.inr hc))
  · intro c hc
    rcases List.mem_cons.mp hc with rfl | hc
    · exact h.apart c hmem
    · exact h.refused c hc
  · intro c hc hnew
    by_cases heq : c = call
    · exact heq ▸ List.mem_cons_self ..
    · dsimp only at hnew
      rw [hother c heq] at hnew
      exact List.mem_cons_of_mem _ (h.cancelled c hc hnew)
  · intro c hc hrequested
    by_cases heq : c = call
    · exact heq ▸ hself.1
    · dsimp only
      rw [hother c heq]
      exact h.done c hc ((List.mem_cons.mp hrequested).resolve_left heq)
  · exact fun c hc => h.recorded c (hc.imp_right (And.imp_right (hgranted c).mp))

theorem cancel_spec (call : Nat) (h : Consistent w) (hidle : Idle w) :
    Consistent (cancel call w) ∧ Idle (cancel call w) := by
  rw [cancel]
  by_cases hmem : call ∈ w.suspended
  · rw [if_pos hmem]
    exact ⟨h.request hmem, hidle⟩
  · rw [if_neg hmem]
    exact ⟨h, hidle⟩

theorem resume_spec (call : Nat) (h : Consistent w) (hidle : Idle w) :
    Consistent (resume call w) ∧ Idle (resume call w) := by
  rw [resume]
  by_cases hmem : call ∈ w.suspended
  · rw [if_pos hmem]
    cases hfuture : w.future call with
    | pending => exact ⟨h, hidle⟩
    | cancelled => exact raised_spec h hidle hmem
    | granted =>
        dsimp only
        by_cases hrequested : call ∈ w.cancelRequested
        · rw [if_pos hrequested]
          exact raised_spec h hidle hmem
        · rw [if_neg hrequested]
          exact ⟨h.returned hmem hfuture hrequested, hidle⟩
  · rw [if_neg hmem]
    exact ⟨h, hidle⟩

/-- A closed call cancels its future by itself. -/
theorem raised_request (call : Nat) (w : World) :
    raised call { w with
      cancelRequested := call :: w.cancelRequested
      future := if w.future call = .pending then Function.update w.future call .cancelled else w.future } =
    raised call { w with cancelRequested := call :: w.cancelRequested } := by
  by_cases hpending : w.future call = .pending
  · rw [if_pos hpending, raised, raised]
    dsimp only
    rw [if_neg (by rw [Function.update_self]; decide), if_neg (by rw [hpending]; decide), Function.update_idem]
  · rw [if_neg hpending]

theorem step_spec (e : Event) (h : Consistent w) (hidle : Idle w) : Consistent (step w e) ∧ Idle (step w e) := by
  cases e with
  | acquire => exact acquire_spec h
  | cancel call => exact cancel_spec call h hidle
  | resume call => exact resume_spec call h hidle
  | close call =>
      rw [step, close]
      by_cases hmem : call ∈ w.suspended
      · rw [if_pos hmem]
        rw [← raised_request]
        exact raised_spec (h.request hmem) hidle hmem
      · rw [if_neg hmem]
        exact ⟨h, hidle⟩
  | release call => exact release_spec call h hidle
  | setLimit limit =>
      exact wakeWaiters_spec ⟨h.count, h.sorted, h.queued, h.waiting, h.awaited, h.below, h.order, h.before,
        h.known, h.nodupSuspended,
        h.nodupHolders, h.apart, h.refused, h.cancelled, h.done, h.recorded⟩

end Events

theorem run_consistent (limit : Int) (events : List Event) :
    Consistent (run limit events) ∧ Idle (run limit events) := by
  have hrun {w : World} (h : Consistent w ∧ Idle w) : Consistent (events.foldl step w) ∧
      Idle (events.foldl step w) := by
    induction events generalizing w with
    | nil => exact h
    | cons e events ih => exact ih (step_spec e h.1 h.2)
  apply hrun
  refine ⟨⟨rfl, .nil, ?_, ?_, ?_, ?_, .nil, ?_, ?_, .nil, .nil, ?_, ?_, ?_, ?_, ?_⟩, fun _ => rfl⟩
  all_goals simp [init]

/-- What an event does to the calls. A free slot goes to a new call at once; a
call whose future is done leaves, and holds its slot unless it was cancelled. -/
def Ledger.after (w : World) : Event → Ledger
  | .acquire =>
      if w.inUse < w.limit then { w.ledger with calls := w.calls + 1, holders := w.calls :: w.holders }
      else { w.ledger with calls := w.calls + 1, suspended := w.calls :: w.suspended }
  | .cancel call =>
      if call ∈ w.suspended then { w.ledger with cancelRequested := call :: w.cancelRequested } else w.ledger
  | .resume call =>
      if call ∈ w.suspended ∧ w.future call ≠ .pending then { w.ledger with
        suspended := w.suspended.erase call
        holders := if call ∈ w.cancelRequested then w.holders else call :: w.holders }
      else w.ledger
  | .close call =>
      if call ∈ w.suspended then { w.ledger with
        suspended := w.suspended.erase call
        cancelRequested := call :: w.cancelRequested }
      else w.ledger
  | .release call => if call ∈ w.holders then { w.ledger with holders := w.holders.erase call } else w.ledger
  | .setLimit limit => { w.ledger with limit := max 1 limit.toNat }

section Ledgers

variable {w : World}

theorem ledger_raised (call : Nat) (w : World) :
    (raised call w).ledger = { w.ledger with suspended := w.suspended.erase call } := by
  rw [raised]
  dsimp only
  split
  · exact (woken_wakeWaiters _).ledger
  · rfl

theorem ledger_acquire (hidle : Idle w) : (acquire w).ledger = Ledger.after w .acquire := by
  rw [acquire, Ledger.after]
  dsimp only
  by_cases hfree : w.inUse < w.limit
  · rw [if_pos ⟨hfree, hidle hfree⟩, if_pos hfree]
    rfl
  · -- Without a free slot nobody is woken, the new call included.
    have hkeep : ∀ (waiters : List Nat) (v : World), ¬ v.inUse < v.limit → (wakeLoop waiters v).future = v.future := by
      intro waiters v hv
      cases waiters with
      | nil => rfl
      | cons call waiters => rw [wakeLoop, if_neg hv]
    rw [if_neg (fun hfast => hfree hfast.1), if_neg hfree]
    rw [if_pos]
    · exact (woken_wakeWaiters _).ledger
    · refine (congrFun (hkeep _ _ ?_) _).trans (Function.update_self ..)
      exact hfree

theorem ledger_resume (h : Consistent w) (call : Nat) : (resume call w).ledger = Ledger.after w (.resume call) := by
  rw [resume, Ledger.after]
  by_cases hmem : call ∈ w.suspended
  · rw [if_pos hmem]
    have hdone (state : FutureState) (hstate : state ≠ .pending) : call ∈ w.suspended ∧ state ≠ .pending :=
      ⟨hmem, hstate⟩
    cases hfuture : w.future call with
    | pending =>
        have hnot : ¬ (call ∈ w.suspended ∧ FutureState.pending ≠ .pending) := fun hboth => hboth.2 rfl
        rw [if_neg hnot]
    | cancelled =>
        rw [if_pos (hdone .cancelled (by decide))]
        dsimp only
        rw [if_pos (h.cancelled call hmem hfuture)]
        exact ledger_raised call w
    | granted =>
        rw [if_pos (hdone .granted (by decide))]
        dsimp only
        by_cases hrequested : call ∈ w.cancelRequested
        · rw [if_pos hrequested, if_pos hrequested]
          exact ledger_raised call w
        · rw [if_neg hrequested, if_neg hrequested]
          rfl
  · rw [if_neg hmem, if_neg (fun hdone => hmem hdone.1)]

theorem ledger_release (h : Consistent w) (call : Nat) : (release call w).ledger = Ledger.after w (.release call) := by
  rw [release, Ledger.after]
  by_cases hmem : call ∈ w.holders
  · have hcount := h.count
    have hpos := List.length_pos_of_mem hmem
    rw [if_pos hmem, if_pos hmem, if_neg (by omega)]
    exact (woken_wakeWaiters _).ledger
  · rw [if_neg hmem, if_neg hmem]

theorem ledger_step (h : Consistent w) (hidle : Idle w) (e : Event) : (step w e).ledger = Ledger.after w e := by
  cases e with
  | acquire => exact ledger_acquire hidle
  | cancel call =>
      rw [step, cancel, Ledger.after]
      split <;> rfl
  | resume call => exact ledger_resume h call
  | close call =>
      rw [step, close, Ledger.after]
      split
      · exact ledger_raised call _
      · rfl
  | release call => exact ledger_release h call
  | setLimit limit => exact (woken_wakeWaiters _).ledger

theorem grants_raised (call : Nat) (w : World) : ∀ g ∈ (raised call w).grants, g ∈ w.grants ∨ g.limit = w.limit := by
  rw [raised]
  dsimp only
  split
  · exact (woken_wakeWaiters _).grants
  · exact fun _ => Or.inl

theorem limit_after {e : Event} (h : ∀ limit, e ≠ .setLimit limit) : (Ledger.after w e).limit = w.limit := by
  cases e with
  | setLimit limit => exact absurd rfl (h limit)
  | acquire | cancel | resume | close | release =>
      rw [Ledger.after]
      split <;> rfl

/-- A new slot is given away under the limit that is set at that time. -/
theorem grants_step (e : Event) : ∀ g ∈ (step w e).grants, g ∈ w.grants ∨ g.limit = (Ledger.after w e).limit := by
  cases e with
  | acquire =>
      rw [limit_after (fun _ => Event.noConfusion), step, acquire]
      dsimp only
      split
      · intro g hg
        rcases List.mem_append.mp hg with hold | hnew
        · exact .inl hold
        · exact .inr (by rw [List.mem_singleton.mp hnew])
      · split
        · exact (woken_wakeWaiters _).grants
        · exact (woken_wakeWaiters _).grants
  | cancel call =>
      rw [step, cancel]
      split <;> exact fun _ => Or.inl
  | resume call =>
      rw [limit_after (fun _ => Event.noConfusion), step, resume]
      split
      · split
        · exact fun _ => Or.inl
        · split
          · exact grants_raised call w
          · exact fun _ => Or.inl
        · exact grants_raised call w
      · exact fun _ => Or.inl
  | close call =>
      rw [limit_after (fun _ => Event.noConfusion), step, close]
      split
      · exact grants_raised call _
      · exact fun _ => Or.inl
  | release call =>
      rw [limit_after (fun _ => Event.noConfusion), step, release]
      split
      · split
        · exact fun _ => Or.inl
        · exact (woken_wakeWaiters _).grants
      · exact fun _ => Or.inl
  | setLimit limit => exact (woken_wakeWaiters _).grants

end Ledgers

/-- What the limiter promises in every state. -/
structure Sound (w : World) : Prop where
  /-- The slots in use are those of holders and of calls that were granted one and not yet resumed. -/
  count : w.inUse = w.holders.length + w.granted.length
  belowLimit : ∀ g ∈ w.grants, g.inUse < g.limit
  recorded : ∀ call, call ∈ w.holders ∨ call ∈ w.granted → call ∈ w.grants.map Grant.call
  inOrder : (w.grants.map Grant.call).Pairwise (· < ·)
  overtakesNobody : ∀ g ∈ w.grants, ∀ call ∈ w.suspended, w.future call = .pending → g.call < call
  nobodyLeft : w.inUse < w.limit → ∀ call ∈ w.suspended, w.future call ≠ .pending
  cancelledDone : ∀ call ∈ w.suspended, call ∈ w.cancelRequested → w.future call ≠ .pending
  cancelledNever : ∀ call ∈ w.cancelRequested, call ∉ w.holders

/-- Whatever is acquired, cancelled, resumed, released and set in whatever order,
the limiter is sound, and the next event does to the calls what it is for. -/
theorem capacity_sound (limit : Int) (events : List Event) : Sound (run limit events) ∧
    ∀ e, (run limit (events ++ [e])).ledger = Ledger.after (run limit events) e ∧
      ∀ g ∈ (run limit (events ++ [e])).grants, g ∈ (run limit events).grants ∨
        g.limit = (run limit (events ++ [e])).limit := by
  obtain ⟨h, hidle⟩ := run_consistent limit events
  refine ⟨⟨h.count, fun g hg => (h.below g hg).1, ?_, h.order, ?_, ?_, h.done, h.refused⟩, ?_⟩
  · intro call hcall
    refine h.recorded call (hcall.imp_right fun hgranted => ?_)
    rwa [World.granted, List.mem_filter, beq_iff_eq] at hgranted
  · intro g hg call hmem hpending
    exact h.before g hg call (h.waiting call hmem hpending)
  · intro hfree call hmem hpending
    have hqueued := h.waiting call hmem hpending
    rw [hidle hfree] at hqueued
    cases hqueued
  · intro e
    have hstep : run limit (events ++ [e]) = step (run limit events) e := by
      rw [run, List.foldl_append]
      rfl
    have hledger := ledger_step h hidle e
    rw [hstep]
    refine ⟨hledger, ?_⟩
    have hlimit : (step (run limit events) e).limit = (Ledger.after (run limit events) e).limit :=
      congrArg Ledger.limit hledger
    rw [hlimit]
    exact grants_step e

/-- A call that is cancelled between its grant and its resumption. -/
example : (run 1 [.acquire, .acquire, .release 0, .cancel 1, .resume 1]).inUse = 0 := by decide

end BorgManager.AdjustableCapacity
