import BorgManager.Dictionaries
import BorgManager.Histories
import Mathlib.Logic.Function.Basic

namespace BorgManager.SingleFlight

open Dictionaries Histories

/-- A shared state behind a lock: what it answers without any work, and what
an observation that was made outside of the lock does to it, which may raise
with part of it done. -/
structure Service (σ κ ι ω ε α : Type) where
  lookup : σ → κ → ι → Option α
  complete : σ → κ → ω → σ × Except ε α

inductive Source
  | cached
  | led
  | joined (leader : Nat)
  deriving DecidableEq

/-- Where a call stands. A leader works outside of the lock, stores what it
has found, settles its future and takes it out of the table of flights. -/
inductive Phase (ε α : Type)
  | working
  | stored (a : α)
  | failed (e : ε)
  | settled (outcome : Except ε α)
  | waiting (leader : Nat)
  | returned (source : Source) (outcome : Except ε α)

/-- The phase with the outcome of what was done under the lock. -/
def Phase.done {ε α : Type} : Except ε α → Phase ε α
  | .ok a => .stored a
  | .error e => .failed e

def Phase.leading {ε α : Type} : Phase ε α → Bool
  | .working | .stored _ | .failed _ | .settled _ => true
  | .waiting _ | .returned _ _ => false

/-- The outcome in the future of a leader, once there is one. -/
def Phase.future {ε α : Type} : Phase ε α → Option (Except ε α)
  | .settled outcome => some outcome
  | .returned .led outcome => some outcome
  | _ => none

structure Call (κ ε α : Type) where
  key : κ
  phase : Phase ε α

structure World (σ κ ε α : Type) where
  shared : σ
  flights : Dict κ Nat
  calls : Nat → Option (Call κ ε α)

inductive Event (κ ι ω ε : Type)
  | ask (call : Nat) (key : κ) (input : ι)
  | observe (call : Nat) (observation : Except ε ω)
  | settle (call : Nat)
  | release (call : Nat)
  | resume (call : Nat)

variable {σ κ ι ω ε α : Type} [DecidableEq κ]

def World.enter (w : World σ κ ε α) (n : Nat) (key : κ) (phase : Phase ε α) : World σ κ ε α :=
  { w with calls := Function.update w.calls n (some ⟨key, phase⟩) }

/-- One step under the lock, or the settling of a future. -/
def next (service : Service σ κ ι ω ε α) (w : World σ κ ε α) : Event κ ι ω ε → Option (World σ κ ε α)
  | .ask n key input =>
      match w.calls n with
      | some _ => none
      | none =>
          match service.lookup w.shared key input with
          | some a => some (w.enter n key (.returned .cached (.ok a)))
          | none =>
              match w.flights.get? key with
              | some leader => some (w.enter n key (.waiting leader))
              | none => some { w.enter n key .working with flights := w.flights.set key n }
  | .observe n observation =>
      match w.calls n with
      | some ⟨key, .working⟩ =>
          match observation with
          | .ok o =>
              some { w.enter n key (.done (service.complete w.shared key o).2) with
                shared := (service.complete w.shared key o).1 }
          | .error e => some (w.enter n key (.failed e))
      | _ => none
  | .settle n =>
      match w.calls n with
      | some ⟨key, .stored a⟩ => some (w.enter n key (.settled (.ok a)))
      | some ⟨key, .failed e⟩ => some (w.enter n key (.settled (.error e)))
      | _ => none
  | .release n =>
      match w.calls n with
      | some ⟨key, .settled outcome⟩ =>
          some { w.enter n key (.returned .led outcome) with flights := w.flights.erase key }
      | _ => none
  | .resume n =>
      match w.calls n with
      | some ⟨key, .waiting leader⟩ =>
          match (w.calls leader).bind (fun c => c.phase.future) with
          | some outcome => some (w.enter n key (.returned (.joined leader) outcome))
          | none => none
      | _ => none

def start (shared : σ) : World σ κ ε α := ⟨shared, .empty, fun _ => none⟩

/-- What a step can do: the call it is about moves from one phase to another,
and all others stay as they are. -/
inductive Moved (service : Service σ κ ι ω ε α) (w : World σ κ ε α) : Event κ ι ω ε → World σ κ ε α → Prop
  | cached {n key input a} (hnew : w.calls n = none) (ha : service.lookup w.shared key input = some a) :
      Moved service w (.ask n key input) (w.enter n key (.returned .cached (.ok a)))
  | join {n key input leader} (hnew : w.calls n = none) (hlookup : service.lookup w.shared key input = none)
      (hflight : w.flights.get? key = some leader) :
      Moved service w (.ask n key input) (w.enter n key (.waiting leader))
  | lead {n key input} (hnew : w.calls n = none) (hlookup : service.lookup w.shared key input = none)
      (hflight : w.flights.get? key = none) :
      Moved service w (.ask n key input) { w.enter n key .working with flights := w.flights.set key n }
  | store {n key o} (h : w.calls n = some ⟨key, .working⟩) :
      Moved service w (.observe n (.ok o)) { w.enter n key (.done (service.complete w.shared key o).2) with
        shared := (service.complete w.shared key o).1 }
  | fail {n key e} (h : w.calls n = some ⟨key, .working⟩) : Moved service w (.observe n (.error e))
      (w.enter n key (.failed e))
  | settleOk {n key a} (h : w.calls n = some ⟨key, .stored a⟩) : Moved service w (.settle n)
      (w.enter n key (.settled (.ok a)))
  | settleError {n key e} (h : w.calls n = some ⟨key, .failed e⟩) :
      Moved service w (.settle n) (w.enter n key (.settled (.error e)))
  | release {n key outcome} (h : w.calls n = some ⟨key, .settled outcome⟩) :
      Moved service w (.release n) { w.enter n key (.returned .led outcome) with flights := w.flights.erase key }
  | resume {n key leader outcome} (h : w.calls n = some ⟨key, .waiting leader⟩)
      (hfuture : (w.calls leader).bind (fun c => c.phase.future) = some outcome) :
      Moved service w (.resume n) (w.enter n key (.returned (.joined leader) outcome))

variable {service : Service σ κ ι ω ε α} {w w' : World σ κ ε α} {event : Event κ ι ω ε}

theorem moved_of_next (h : next service w event = some w') : Moved service w event w' := by
  cases event with
  | ask n key input =>
      rw [next] at h
      cases hcall : w.calls n with
      | some call =>
          rw [hcall] at h
          cases h
      | none =>
          rw [hcall] at h
          cases hlookup : service.lookup w.shared key input with
          | some a =>
              rw [hlookup] at h
              cases h
              exact .cached hcall hlookup
          | none =>
              rw [hlookup] at h
              cases hflight : w.flights.get? key with
              | some leader =>
                  rw [hflight] at h
                  cases h
                  exact .join hcall hlookup hflight
              | none =>
                  rw [hflight] at h
                  cases h
                  exact .lead hcall hlookup hflight
  | observe n observation =>
      rw [next] at h
      split at h
      · next key hcall =>
          cases observation with
          | ok o =>
              cases h
              exact .store hcall
          | error e =>
              cases h
              exact .fail hcall
      · cases h
  | settle n =>
      rw [next] at h
      split at h
      · next key a hcall =>
          cases h
          exact .settleOk hcall
      · next key e hcall =>
          cases h
          exact .settleError hcall
      · cases h
  | release n =>
      rw [next] at h
      split at h
      · next key outcome hcall =>
          cases h
          exact .release hcall
      · cases h
  | resume n =>
      rw [next] at h
      split at h
      · next key leader hcall =>
          split at h
          · next outcome hfuture =>
              cases h
              exact .resume hcall hfuture
          · cases h
      · cases h

def Phase.leads : Phase ε α → Bool
  | .returned .led _ => true
  | phase => phase.leading

/-- The call has a future of its own for this key. -/
def Leads (w : World σ κ ε α) (key : κ) (n : Nat) : Prop := ∃ phase, w.calls n = some ⟨key, phase⟩ ∧ phase.leads = true

/-- The table of flights has exactly the leaders that are still at work, those
who wait do so for a leader of the same key, and what they get is in its
future. -/
structure Consistent (w : World σ κ ε α) : Prop where
  flights : ∀ key n, w.flights.get? key = some n ↔ ∃ phase, w.calls n = some ⟨key, phase⟩ ∧ phase.leading = true
  waits : ∀ n key leader, w.calls n = some ⟨key, .waiting leader⟩ → Leads w key leader
  joined : ∀ n key leader outcome, w.calls n = some ⟨key, .returned (.joined leader) outcome⟩ →
    ∃ phase, w.calls leader = some ⟨key, phase⟩ ∧ phase.future = some outcome

theorem leading_done (outcome : Except ε α) : (Phase.done outcome).leading = true := by
  cases outcome with
  | ok a => rfl
  | error e => rfl

theorem leads_of_leading {phase : Phase ε α} (h : phase.leading = true) : phase.leads = true := by
  cases phase with
  | returned source outcome => cases h
  | working => rfl
  | stored a => rfl
  | failed e => rfl
  | settled outcome => rfl
  | waiting leader => cases h

/-- The next phase of a call is not less than the one before. -/
structure Keeps (old new : Phase ε α) : Prop where
  leads : old.leads = true → new.leads = true
  future : ∀ outcome, old.future = some outcome → new.future = some outcome

omit [DecidableEq κ] in
theorem calls_enter (n m : Nat) (key : κ) (phase : Phase ε α) :
    (w.enter n key phase).calls m = if m = n then some ⟨key, phase⟩ else w.calls m :=
  Function.update_apply ..

section Moves

variable {n : Nat} {key : κ} {old new : Phase ε α} {v : World σ κ ε α}

omit [DecidableEq κ] in
/-- A world in which only one call has moved. -/
theorem Leads.move (hcall : w.calls n = some ⟨key, old⟩) (hcalls : v.calls = (w.enter n key new).calls)
    (hkeeps : Keeps old new) {k : κ} {m : Nat} (h : Leads w k m) : Leads v k m := by
  obtain ⟨phase, hm, hleads⟩ := h
  rw [Leads, hcalls]
  by_cases heq : m = n
  · subst heq
    rw [hcall] at hm
    cases hm
    exact ⟨new, by rw [calls_enter, if_pos rfl], hkeeps.leads hleads⟩
  · exact ⟨phase, by rw [calls_enter, if_neg heq, hm], hleads⟩

omit [DecidableEq κ] in
theorem future_move (hcall : w.calls n = some ⟨key, old⟩) (hcalls : v.calls = (w.enter n key new).calls)
    (hkeeps : Keeps old new) {k : κ} {m : Nat} {outcome : Except ε α}
    (h : ∃ phase, w.calls m = some ⟨k, phase⟩ ∧ phase.future = some outcome) :
    ∃ phase, v.calls m = some ⟨k, phase⟩ ∧ phase.future = some outcome := by
  obtain ⟨phase, hm, hfuture⟩ := h
  rw [hcalls]
  by_cases heq : m = n
  · subst heq
    rw [hcall] at hm
    cases hm
    exact ⟨new, by rw [calls_enter, if_pos rfl], hkeeps.future outcome hfuture⟩
  · exact ⟨phase, by rw [calls_enter, if_neg heq, hm], hfuture⟩

/-- A call moves on; the table of flights follows its leading. -/
theorem Consistent.move (h : Consistent w) (hcall : w.calls n = some ⟨key, old⟩)
    (hcalls : v.calls = (w.enter n key new).calls) (hkeeps : Keeps old new)
    (hflights : ∀ k m, v.flights.get? k = some m ↔ (m = n → new.leading = true) ∧ w.flights.get? k = some m)
    (hleading : new.leading = true → old.leading = true) (hwait : ∀ leader, new ≠ .waiting leader)
    (hjoined : ∀ leader outcome, new = .returned (.joined leader) outcome →
      ∃ phase, w.calls leader = some ⟨key, phase⟩ ∧ phase.future = some outcome) : Consistent v where
  flights := by
    intro k m
    rw [hflights, h.flights, hcalls]
    by_cases heq : m = n
    · subst heq
      rw [calls_enter, if_pos rfl, hcall]
      constructor
      · rintro ⟨hlead, phase, hm, -⟩
        cases hm
        exact ⟨new, rfl, hlead rfl⟩
      · rintro ⟨phase, hm, hlead⟩
        cases hm
        exact ⟨fun _ => hlead, old, rfl, hleading hlead⟩
    · rw [calls_enter, if_neg heq]
      exact and_iff_right (fun hm => absurd hm heq)
  waits := by
    intro m k leader hm
    rw [hcalls, calls_enter] at hm
    split at hm
    · cases hm
      exact absurd rfl (hwait leader)
    · exact (h.waits m k leader hm).move hcall hcalls hkeeps
  joined := by
    intro m k leader outcome hm
    rw [hcalls, calls_enter] at hm
    split at hm
    · cases hm
      exact future_move hcall hcalls hkeeps (hjoined leader outcome rfl)
    · exact future_move hcall hcalls hkeeps (h.joined m k leader outcome hm)

/-- A new call comes in. -/
theorem Consistent.arrive (h : Consistent w) (hnew : w.calls n = none) (hcalls : v.calls = (w.enter n key new).calls)
    (hflights : ∀ k m, v.flights.get? k = some m ↔ (k = key ∧ m = n ∧ new.leading = true) ∨ w.flights.get? k = some m)
    (hwait : ∀ leader, new = .waiting leader → Leads w key leader)
    (hjoined : ∀ leader outcome, new ≠ .returned (.joined leader) outcome) : Consistent v where
  flights := by
    intro k m
    rw [hflights, h.flights, hcalls]
    by_cases heq : m = n
    · subst heq
      rw [calls_enter, if_pos rfl, hnew]
      constructor
      · rintro (⟨rfl, -, hlead⟩ | ⟨phase, hm, -⟩)
        · exact ⟨new, rfl, hlead⟩
        · cases hm
      · rintro ⟨phase, hm, hlead⟩
        cases hm
        exact .inl ⟨rfl, rfl, hlead⟩
    · rw [calls_enter, if_neg heq]
      constructor
      · rintro (⟨-, hm, -⟩ | hm)
        · exact absurd hm heq
        · exact hm
      · exact .inr
  waits := by
    intro m k leader hm
    have hkept : ∀ j, Leads w k j → Leads v k j := by
      rintro j ⟨phase, hj, hleads⟩
      refine ⟨phase, ?_, hleads⟩
      rw [hcalls, calls_enter, if_neg, hj]
      rintro rfl
      rw [hnew] at hj
      cases hj
    rw [hcalls, calls_enter] at hm
    split at hm
    · cases hm
      exact hkept leader (hwait leader rfl)
    · exact hkept leader (h.waits m k leader hm)
  joined := by
    intro m k leader outcome hm
    rw [hcalls, calls_enter] at hm
    split at hm
    · cases hm
      exact absurd rfl (hjoined leader outcome)
    · obtain ⟨phase, hleader, hfuture⟩ := h.joined m k leader outcome hm
      refine ⟨phase, ?_, hfuture⟩
      rw [hcalls, calls_enter, if_neg, hleader]
      rintro rfl
      rw [hnew] at hleader
      cases hleader

end Moves

theorem keeps_done (outcome : Except ε α) : Keeps .working (Phase.done outcome) :=
  ⟨fun _ => leads_of_leading (leading_done outcome), by rintro out ⟨⟩⟩

theorem consistent_start (shared : σ) : Consistent (start shared : World σ κ ε α) where
  flights := by simp [start]
  waits := by rintro n key leader ⟨⟩
  joined := by rintro n key leader outcome ⟨⟩

theorem consistent_moved (h : Consistent w) (hmoved : Moved service w event w') : Consistent w' := by
  have hsame : ∀ {n : Nat} {phase : Phase ε α}, phase.leading = true → ∀ k m,
      w.flights.get? k = some m ↔ (m = n → phase.leading = true) ∧ w.flights.get? k = some m :=
    fun hlead k m => (and_iff_right (fun _ => hlead)).symm
  cases hmoved with
  | cached hnew ha =>
      exact h.arrive hnew rfl (by simp [World.enter, Phase.leading]) (by rintro leader ⟨⟩) (by rintro leader outcome ⟨⟩)
  | join hnew hlookup hflight =>
      refine h.arrive hnew rfl (by simp [World.enter, Phase.leading]) ?_ (by rintro leader outcome ⟨⟩)
      rintro leader ⟨⟩
      obtain ⟨phase, hcall, hlead⟩ := (h.flights _ _).mp hflight
      exact ⟨phase, hcall, leads_of_leading hlead⟩
  | @lead n key input hnew hlookup hflight =>
      refine h.arrive hnew rfl ?_ (by rintro leader ⟨⟩) (by rintro leader outcome ⟨⟩)
      intro k m
      rw [Dict.get?_set]
      by_cases hk : k = key
      · rw [if_pos hk, hk, hflight]
        simp [Phase.leading, eq_comm]
      · simp [hk]
  | @store n key o hcall =>
      refine h.move hcall rfl (keeps_done _) (hsame (leading_done _)) (fun _ => rfl) ?_ ?_
      · intro leader hwait
        have hleading := leading_done (service.complete w.shared key o).2
        rw [hwait] at hleading
        cases hleading
      · intro leader outcome hjoined
        have hleading := leading_done (service.complete w.shared key o).2
        rw [hjoined] at hleading
        cases hleading
  | fail hcall =>
      exact h.move hcall rfl ⟨fun _ => rfl, by rintro outcome ⟨⟩⟩ (hsame rfl) (fun _ => rfl)
        (by rintro leader ⟨⟩) (by rintro leader outcome ⟨⟩)
  | settleOk hcall =>
      exact h.move hcall rfl ⟨fun _ => rfl, by rintro outcome ⟨⟩⟩ (hsame rfl) (fun _ => rfl)
        (by rintro leader ⟨⟩) (by rintro leader outcome ⟨⟩)
  | settleError hcall =>
      exact h.move hcall rfl ⟨fun _ => rfl, by rintro outcome ⟨⟩⟩ (hsame rfl) (fun _ => rfl)
        (by rintro leader ⟨⟩) (by rintro leader outcome ⟨⟩)
  | @release n key outcome hcall =>
      refine h.move hcall rfl ⟨fun _ => rfl, fun _ hfuture => hfuture⟩ ?_ (by rintro ⟨⟩) (by rintro leader ⟨⟩)
        (by rintro leader outcome ⟨⟩)
      intro k m
      have hflight : w.flights.get? key = some n := (h.flights key n).mpr ⟨_, hcall, rfl⟩
      rw [Dict.get?_erase]
      by_cases hk : k = key
      · rw [if_pos hk, hk, hflight]
        simp [Phase.leading, eq_comm]
      · rw [if_neg hk]
        refine ⟨fun hm => ⟨?_, hm⟩, And.right⟩
        rintro rfl
        obtain ⟨phase, hother, -⟩ := (h.flights k m).mp hm
        rw [hcall] at hother
        cases hother
        exact absurd rfl hk
  | @resume n key leader outcome hcall hfuture =>
      refine h.move hcall rfl ⟨by rintro ⟨⟩, by rintro outcome ⟨⟩⟩ ?_ (by rintro ⟨⟩) (by rintro leader ⟨⟩) ?_
      · intro k m
        refine ⟨fun hm => ⟨?_, hm⟩, And.right⟩
        rintro rfl
        obtain ⟨phase, hother, hlead⟩ := (h.flights k m).mp hm
        rw [hcall] at hother
        cases hother
        cases hlead
      · rintro leader outcome ⟨⟩
        obtain ⟨phase, hleader, -⟩ := h.waits n key _ hcall
        rw [hleader, Option.bind_some] at hfuture
        exact ⟨phase, hleader, hfuture⟩

/-- The steps of a service as transitions. -/
def steps (service : Service σ κ ι ω ε α) : Transition (World σ κ ε α) (Event κ ι ω ε) :=
  fun w event w' => next service w event = some w'

theorem consistent_of_history {shared : σ} {events : List (Event κ ι ω ε)}
    (h : History (steps service) (start shared) events w) : Consistent w :=
  h.invariant Consistent (consistent_start shared) (fun _ _ _ hw hstep => consistent_moved hw (moved_of_next hstep))

/-- Two calls for one key that are both at work are the same call. -/
theorem leader_unique (h : Consistent w) {n m : Nat} {key : κ} {p q : Phase ε α} (hn : w.calls n = some ⟨key, p⟩)
    (hp : p.leading = true) (hm : w.calls m = some ⟨key, q⟩) (hq : q.leading = true) : n = m :=
  Option.some.inj (((h.flights key n).mpr ⟨p, hn, hp⟩).symm.trans ((h.flights key m).mpr ⟨q, hm, hq⟩))

/-- A property of answers that completing and looking up establish, and that
later completions keep. -/
structure Guaranteed (service : Service σ κ ι ω ε α) (Inv : σ → Prop) (P : σ → κ → α → Prop) : Prop where
  complete : ∀ s key o, Inv s → Inv (service.complete s key o).1
  result : ∀ s key o a, Inv s → (service.complete s key o).2 = .ok a → P (service.complete s key o).1 key a
  kept : ∀ s key k a o, Inv s → P s k a → P (service.complete s key o).1 k a
  lookup : ∀ s key input a, Inv s → service.lookup s key input = some a → P s key a

/-- The answer in a phase, where there is one. -/
def Phase.answer : Phase ε α → Option α
  | .stored a => some a
  | .settled (.ok a) => some a
  | .returned _ (.ok a) => some a
  | _ => none

theorem answer_done {outcome : Except ε α} {a : α} (h : (Phase.done outcome).answer = some a) : outcome = .ok a := by
  cases outcome with
  | ok b =>
      cases h
      rfl
  | error e => cases h

theorem answer_of_future {phase : Phase ε α} {a : α} (h : phase.future = some (.ok a)) : phase.answer = some a := by
  cases phase with
  | settled outcome =>
      cases h
      rfl
  | returned source outcome =>
      cases source with
      | led =>
          cases h
          rfl
      | cached => cases h
      | joined leader => cases h
  | working => cases h
  | stored b => cases h
  | failed e => cases h
  | waiting leader => cases h

/-- All answers that calls have or have given out are such answers. -/
def Answered (P : σ → κ → α → Prop) (w : World σ κ ε α) : Prop :=
  ∀ n key phase a, w.calls n = some ⟨key, phase⟩ → phase.answer = some a → P w.shared key a

omit [DecidableEq κ] in
theorem answered_enter {P : σ → κ → α → Prop} {n : Nat} {key : κ} {phase : Phase ε α} {v : World σ κ ε α}
    (h : Answered P w) (hcalls : v.calls = (w.enter n key phase).calls) (hkept : ∀ k a, P w.shared k a → P v.shared k a)
    (hphase : ∀ a, phase.answer = some a → P v.shared key a) : Answered P v := by
  intro m k q a hm hanswer
  rw [hcalls, calls_enter] at hm
  split at hm
  · cases hm
    exact hphase a hanswer
  · exact hkept k a (h m k q a hm hanswer)

theorem guaranteed_moved {Inv : σ → Prop} {P : σ → κ → α → Prop} (hg : Guaranteed service Inv P) (hc : Consistent w)
    (hinv : Inv w.shared) (h : Answered P w) (hmoved : Moved service w event w') : Inv w'.shared ∧ Answered P w' := by
  cases hmoved with
  | cached hnew ha =>
      refine ⟨hinv, answered_enter h rfl (fun _ _ hp => hp) ?_⟩
      rintro a ⟨⟩
      exact hg.lookup _ _ _ _ hinv ha
  | join hnew hlookup hflight => exact ⟨hinv, answered_enter h rfl (fun _ _ hp => hp) (by rintro a ⟨⟩)⟩
  | lead hnew hlookup hflight => exact ⟨hinv, answered_enter h rfl (fun _ _ hp => hp) (by rintro a ⟨⟩)⟩
  | @store n key o hcall =>
      refine ⟨hg.complete _ _ _ hinv, answered_enter h rfl (fun k a => hg.kept _ key k a o hinv) ?_⟩
      intro a ha
      exact hg.result _ _ _ a hinv (answer_done ha)
  | fail hcall => exact ⟨hinv, answered_enter h rfl (fun _ _ hp => hp) (by rintro a ⟨⟩)⟩
  | settleOk hcall => exact ⟨hinv, answered_enter h rfl (fun _ _ hp => hp) (fun a ha => h _ _ _ a hcall ha)⟩
  | settleError hcall => exact ⟨hinv, answered_enter h rfl (fun _ _ hp => hp) (by rintro a ⟨⟩)⟩
  | @release n key outcome hcall =>
      refine ⟨hinv, answered_enter h rfl (fun _ _ hp => hp) (fun a ha => h n key _ a hcall ?_)⟩
      cases outcome with
      | ok b => exact ha
      | error e => cases ha
  | @resume n key leader outcome hcall hfuture =>
      refine ⟨hinv, answered_enter h rfl (fun _ _ hp => hp) (fun a ha => ?_)⟩
      obtain ⟨phase, hleader, -⟩ := hc.waits n key leader hcall
      rw [hleader, Option.bind_some] at hfuture
      cases outcome with
      | ok b =>
          cases ha
          exact h leader key phase a hleader (answer_of_future hfuture)
      | error e => cases ha

theorem guaranteed_of_history {Inv : σ → Prop} {P : σ → κ → α → Prop} (hg : Guaranteed service Inv P) {shared : σ}
    (hshared : Inv shared) {events : List (Event κ ι ω ε)} (h : History (steps service) (start shared) events w) :
    Inv w.shared ∧ Answered P w := by
  have hall := h.invariant (fun w => Consistent w ∧ Inv w.shared ∧ Answered P w)
    ⟨consistent_start shared, hshared, by rintro n key phase a ⟨⟩⟩
    (fun a event b hinv hstep => by
      have hmoved := moved_of_next hstep
      exact ⟨consistent_moved hinv.1 hmoved, guaranteed_moved hg hinv.1 hinv.2.1 hinv.2.2 hmoved⟩)
  exact hall.2

/-- Nobody waits in vain: a call that waits can resume, or its leader is at
work and has a step to make. -/
theorem waiting_progress (service : Service σ κ ι ω ε α) (h : Consistent w) {n leader : Nat} {key : κ}
    (hn : w.calls n = some ⟨key, .waiting leader⟩) :
    (∃ v, next service w (.resume n : Event κ ι ω ε) = some v) ∨
      (∀ observation : Except ε ω, ∃ v, next service w (.observe leader observation) = some v) ∨
      ∃ v, next service w (.settle leader : Event κ ι ω ε) = some v := by
  obtain ⟨phase, hleader, hleads⟩ := h.waits n key leader hn
  cases phase with
  | working =>
      refine .inr (.inl fun observation => ?_)
      rw [next, hleader]
      cases observation with
      | ok o => exact ⟨_, rfl⟩
      | error e => exact ⟨_, rfl⟩
  | stored a =>
      refine .inr (.inr ?_)
      rw [next, hleader]
      exact ⟨_, rfl⟩
  | failed e =>
      refine .inr (.inr ?_)
      rw [next, hleader]
      exact ⟨_, rfl⟩
  | settled outcome =>
      refine .inl ?_
      rw [next, hn]
      dsimp only
      rw [hleader]
      exact ⟨_, rfl⟩
  | returned source outcome =>
      cases source with
      | led =>
          refine .inl ?_
          rw [next, hn]
          dsimp only
          rw [hleader]
          exact ⟨_, rfl⟩
      | cached => cases hleads
      | joined m => cases hleads
  | waiting m => cases hleads

end BorgManager.SingleFlight
