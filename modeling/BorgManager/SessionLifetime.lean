import BorgManager.Histories
import Mathlib.Logic.Function.Basic

namespace BorgManager.SessionLifetime

open Histories

/-- The columns of a session that decide about its end, in microseconds. -/
structure Session where
  expiresAt : Nat
  lastSeenAt : Nat
  deriving DecidableEq

def second : Nat := 1000000

def minute : Nat := 60 * second

/-- `_effective_session_idle_timeout_seconds` for a configured value. -/
def effectiveIdleTimeout (ttl configured : Nat) : Nat := max 60 (min ttl configured)

def idleTooLong (ttl configured now : Nat) (session : Session) : Bool :=
  decide (second * effectiveIdleTimeout ttl configured < now - session.lastSeenAt)

def expired (ttl configured now : Nat) (session : Session) : Bool :=
  decide (session.expiresAt < now) || idleTooLong ttl configured now session

/-- Where a request is that presents the token of the session, or the reload
token of the page. -/
inductive Stage
  | idle
  | selected (row : Option Session)
  | touching (previous now : Nat)
  | deleting
  | reloading (now : Nat)
  deriving DecidableEq

/-- One session. `accepted` are the times at which requests were let in, the
last one first, and `lastUse` is the last time that one came with the token of
the session itself. -/
structure System (Client : Type) where
  clock : Nat
  session : Option Session
  enabled : Bool
  stage : Client → Stage
  accepted : List Nat
  lastUse : Nat

variable {Client : Type}

def System.opened (ttl created : Nat) : System Client :=
  ⟨created, some ⟨created + second * ttl, created⟩, true, fun _ => .idle, [], created⟩

inductive Event (Client : Type)
  | tick (elapsed : Nat)
  | setEnabled (enabled : Bool)
  | select (client : Client)
  | decide (client : Client) (configured : Nat) (touch : Bool)
  | touch (client : Client) (locked : Bool)
  | remove (client : Client) (locked : Bool)
  | reload (client : Client)
  | decideReload (client : Client) (configured reloadExpires : Nat) (sameAgent : Bool)
  | cleanup (at_ configured : Nat)
  | revoke

/-- The row of an enabled user. -/
def visible (s : System Client) : Option Session := if s.enabled then s.session else none

/-- What `get_session_user` answers and still has to do. -/
def answer (ttl configured now : Nat) (touch : Bool) : Option Session → Bool × Stage
  | none => (false, .idle)
  | some session =>
      if expired ttl configured now session then (false, .deleting)
      else (true, if touch && decide (minute < now - session.lastSeenAt) then
        .touching session.lastSeenAt now else .idle)

def answerReload (ttl configured now reloadExpires : Nat) (sameAgent : Bool) : Option Session → Bool × Stage
  | none => (false, .idle)
  | some session =>
      if decide (min session.expiresAt reloadExpires < now) || idleTooLong ttl configured now session then
        (false, .deleting)
      else (sameAgent, .idle)

/-- The conditional `UPDATE`; a locked database leaves it out. -/
def touched (previous now : Nat) (locked : Bool) (session : Option Session) : Option Session :=
  session.map (fun row => if !locked && decide (row.lastSeenAt = previous) then { row with lastSeenAt := now } else row)

def logged (now : Nat) (ok : Bool) (accepted : List Nat) : List Nat := if ok then now :: accepted else accepted

variable [DecidableEq Client]

inductive Step (ttl : Nat) : Transition (System Client) (Event Client)
  | tick {s : System Client} (elapsed) : Step ttl s (.tick elapsed) { s with clock := s.clock + elapsed }
  | setEnabled {s : System Client} (enabled) : Step ttl s (.setEnabled enabled) { s with enabled := enabled }
  | select {s : System Client} {client} (idle : s.stage client = .idle) :
      Step ttl s (.select client) { s with stage := Function.update s.stage client (.selected (visible s)) }
  | decide {s : System Client} {client row} (configured touch) (selected : s.stage client = .selected row) :
      Step ttl s (.decide client configured touch)
        { s with
          stage := Function.update s.stage client (answer ttl configured s.clock touch row).2
          accepted := logged s.clock (answer ttl configured s.clock touch row).1 s.accepted
          lastUse := if (answer ttl configured s.clock touch row).1 then s.clock else s.lastUse }
  | touch {s : System Client} {client previous now} (locked) (touching : s.stage client = .touching previous now) :
      Step ttl s (.touch client locked)
        { s with
          session := touched previous now locked s.session
          stage := Function.update s.stage client .idle }
  | remove {s : System Client} {client} (locked) (deleting : s.stage client = .deleting) :
      Step ttl s (.remove client locked)
        { s with
          session := if locked then s.session else none
          stage := Function.update s.stage client .idle }
  | reload {s : System Client} {client} (idle : s.stage client = .idle) :
      Step ttl s (.reload client) { s with stage := Function.update s.stage client (.reloading s.clock) }
  | decideReload {s : System Client} {client now} (configured reloadExpires sameAgent)
      (reloading : s.stage client = .reloading now) :
      Step ttl s (.decideReload client configured reloadExpires sameAgent)
        { s with
          stage := Function.update s.stage client
            (answerReload ttl configured now reloadExpires sameAgent (visible s)).2
          accepted := logged now (answerReload ttl configured now reloadExpires sameAgent (visible s)).1 s.accepted }
  | cleanup {s : System Client} (at_ configured) (past : at_ ≤ s.clock) :
      Step ttl s (.cleanup at_ configured)
        { s with session := s.session.filter (fun row => !expired ttl configured at_ row) }
  | revoke {s : System Client} : Step ttl s .revoke { s with session := none }

section Runs

variable {ttl created idle : Nat} {s t : System Client} {es : List (Event Client)}

/-- The idle timeout that a step reads, in microseconds. -/
def idleTimeout (ttl : Nat) : Event Client → Option Nat
  | .decide _ configured _ | .decideReload _ configured _ _ | .cleanup _ configured =>
      some (second * effectiveIdleTimeout ttl configured)
  | .tick _ | .setEnabled _ | .select _ | .touch .. | .remove .. | .reload _ | .revoke => none

/-- The longest idle timeout that was in force in a run. -/
def longestIdle (ttl : Nat) (es : List (Event Client)) : Nat := (es.filterMap (idleTimeout ttl)).foldr max 0

omit [DecidableEq Client] in
theorem idleTimeout_le {e : Event Client} {timeout : Nat} (he : e ∈ es) (htimeout : idleTimeout ttl e = some timeout) :
    timeout ≤ longestIdle ttl es := by
  have hmem : timeout ∈ es.filterMap (idleTimeout ttl) := List.mem_filterMap.mpr ⟨e, he, htimeout⟩
  rw [longestIdle]
  generalize es.filterMap (idleTimeout ttl) = timeouts at hmem
  induction timeouts with
  | nil => cases hmem
  | cons first rest ih =>
      rw [List.foldr_cons]
      rcases List.mem_cons.mp hmem with rfl | hmem
      · exact Nat.le_max_left ..
      · exact Nat.le_trans (ih hmem) (Nat.le_max_right ..)

/-- Times of use, the last one first: each of them comes after another one,
or after the login, by no more than the idle timeout. -/
inductive Chained (idle created : Nat) : List Nat → Prop
  | nil : Chained idle created []
  | cons {now used accepted} (earlier : used = created ∨ used ∈ accepted) (soon : now ≤ used + idle)
      (tail : Chained idle created accepted) : Chained idle created (now :: accepted)

/-- After a pause longer than the idle timeout nothing comes any more. -/
theorem Chained.stops {idle created pause resume : Nat} {accepted : List Nat} (h : Chained idle created accepted)
    (hcreated : created ≤ pause) (hlong : pause + idle < resume) (hnone : ∀ t ∈ accepted, t ≤ pause ∨ resume ≤ t) :
    ∀ t ∈ accepted, t ≤ pause := by
  induction h with
  | nil => simp
  | @cons now used accepted earlier soon tail ih =>
      have hrest := ih (fun t ht => hnone t (List.mem_cons_of_mem _ ht))
      have hused : used ≤ pause := by
        rcases earlier with rfl | hmem
        · exact hcreated
        · exact hrest used hmem
      intro t ht
      rcases List.mem_cons.mp ht with rfl | ht
      · rcases hnone t (List.mem_cons_self ..) with hle | hle
        · exact hle
        · omega
      · exact hrest t ht

/-- Every time that is stored, or about to be, is the login or a use. -/
structure Used (ttl created idle : Nat) (s : System Client) : Prop where
  chained : Chained idle created s.accepted
  bounded : ∀ t ∈ s.accepted, t ≤ created + second * ttl
  stored : ∀ session, s.session = some session →
    session.expiresAt = created + second * ttl ∧ (session.lastSeenAt = created ∨ session.lastSeenAt ∈ s.accepted)
  selected : ∀ client session, s.stage client = .selected (some session) →
    session.expiresAt = created + second * ttl ∧ (session.lastSeenAt = created ∨ session.lastSeenAt ∈ s.accepted)
  touching : ∀ client previous now, s.stage client = .touching previous now → now ∈ s.accepted

/-- A row is let in only in time. -/
theorem in_time {configured now : Nat} {session : Session} (hidle : second * effectiveIdleTimeout ttl configured ≤ idle)
    (h : idleTooLong ttl configured now session = false) : now ≤ session.lastSeenAt + idle := by
  rw [idleTooLong, decide_eq_false_iff_not, Nat.not_lt] at h
  omega

theorem answer_ok {configured now : Nat} {touch : Bool} {row : Option Session}
    (hidle : second * effectiveIdleTimeout ttl configured ≤ idle) (h : (answer ttl configured now touch row).1 = true) :
    ∃ session, row = some session ∧ now ≤ session.expiresAt ∧ now ≤ session.lastSeenAt + idle := by
  cases row with
  | none => cases h
  | some session =>
      rw [answer] at h
      split at h
      · cases h
      · next hvalid =>
          rw [expired, Bool.or_eq_true, not_or, decide_eq_true_eq, Nat.not_lt] at hvalid
          exact ⟨session, rfl, hvalid.1, in_time hidle (Bool.eq_false_iff.mpr hvalid.2)⟩

theorem answerReload_ok {configured now reloadExpires : Nat} {sameAgent : Bool} {row : Option Session}
    (hidle : second * effectiveIdleTimeout ttl configured ≤ idle)
    (h : (answerReload ttl configured now reloadExpires sameAgent row).1 = true) :
    ∃ session, row = some session ∧ now ≤ session.expiresAt ∧ now ≤ session.lastSeenAt + idle := by
  cases row with
  | none => cases h
  | some session =>
      rw [answerReload] at h
      split at h
      · cases h
      · next hvalid =>
          rw [Bool.or_eq_true, not_or, decide_eq_true_eq, Nat.not_lt] at hvalid
          exact ⟨session, rfl, Nat.le_trans hvalid.1 (Nat.min_le_left ..),
            in_time hidle (Bool.eq_false_iff.mpr hvalid.2)⟩

theorem answer_touching {configured now : Nat} {touch : Bool} {row : Option Session} {previous at_ : Nat}
    (h : (answer ttl configured now touch row).2 = .touching previous at_) :
    at_ = now ∧ (answer ttl configured now touch row).1 = true := by
  cases row with
  | none => cases h
  | some session =>
      rw [answer] at h ⊢
      split at h
      · cases h
      · next hvalid =>
          rw [if_neg hvalid]
          dsimp only at h
          split at h
          · cases h
            exact ⟨rfl, rfl⟩
          · cases h

theorem answer_not_selected {configured now : Nat} {touch : Bool} {row other : Option Session} :
    (answer ttl configured now touch row).2 ≠ .selected other := by
  rw [answer.eq_def]
  split
  · exact Stage.noConfusion
  · split
    · exact Stage.noConfusion
    · dsimp only
      split <;> exact Stage.noConfusion

theorem answerReload_stage (configured now reloadExpires : Nat) (sameAgent : Bool) (row : Option Session) :
    (answerReload ttl configured now reloadExpires sameAgent row).2 = .idle ∨
      (answerReload ttl configured now reloadExpires sameAgent row).2 = .deleting := by
  rw [answerReload.eq_def]
  split
  · exact .inl rfl
  · split
    · exact .inr rfl
    · exact .inl rfl

theorem mem_logged {now : Nat} {ok : Bool} {accepted : List Nat} {t : Nat} (h : t ∈ accepted) :
    t ∈ logged now ok accepted := by
  rw [logged]
  split
  · exact List.mem_cons_of_mem _ h
  · exact h

omit [DecidableEq Client] in
/-- A request that is let in has seen a row that was used in time. -/
theorem Used.logged (h : Used ttl created idle s) (now lastUse : Nat) (ok : Bool) (row : Option Session)
    (hrow : ∀ session, row = some session → session.expiresAt = created + second * ttl ∧
      (session.lastSeenAt = created ∨ session.lastSeenAt ∈ s.accepted))
    (hok : ok = true → ∃ session, row = some session ∧ now ≤ session.expiresAt ∧ now ≤ session.lastSeenAt + idle) :
    Used ttl created idle { s with accepted := SessionLifetime.logged now ok s.accepted, lastUse := lastUse } := by
  refine ⟨?_, ?_, ?_, ?_, ?_⟩
  · rw [SessionLifetime.logged]
    split
    · next hok' =>
        obtain ⟨session, hsession, -, hsoon⟩ := hok hok'
        exact .cons (hrow session hsession).2 hsoon h.chained
    · exact h.chained
  · intro t ht
    rw [SessionLifetime.logged] at ht
    split at ht
    · next hok' =>
        obtain ⟨session, hsession, hend, -⟩ := hok hok'
        rcases List.mem_cons.mp ht with rfl | ht
        · exact (hrow session hsession).1 ▸ hend
        · exact h.bounded t ht
    · exact h.bounded t ht
  · exact fun session hsession => (h.stored session hsession).imp_right (Or.imp_right mem_logged)
  · exact fun client session hstage => (h.selected client session hstage).imp_right (Or.imp_right mem_logged)
  · exact fun client previous now hstage => mem_logged (h.touching client previous now hstage)

theorem Used.move (h : Used ttl created idle s) {client : Client} {next : Stage}
    (hselected : ∀ session, next = .selected (some session) → session.expiresAt = created + second * ttl ∧
      (session.lastSeenAt = created ∨ session.lastSeenAt ∈ s.accepted))
    (htouching : ∀ previous now, next = .touching previous now → now ∈ s.accepted) :
    Used ttl created idle { s with stage := Function.update s.stage client next } := by
  refine { h with selected := ?_, touching := ?_ }
  · intro c session hstage
    by_cases hc : c = client
    · simp only [hc, Function.update_self] at hstage
      exact hselected session hstage
    · simp only [Function.update_of_ne hc] at hstage
      exact h.selected c session hstage
  · intro c previous now hstage
    by_cases hc : c = client
    · simp only [hc, Function.update_self] at hstage
      exact htouching previous now hstage
    · simp only [Function.update_of_ne hc] at hstage
      exact h.touching c previous now hstage

omit [DecidableEq Client] in
theorem Used.store (h : Used ttl created idle s) {session : Option Session}
    (hstored : ∀ row, session = some row → row.expiresAt = created + second * ttl ∧
      (row.lastSeenAt = created ∨ row.lastSeenAt ∈ s.accepted)) :
    Used ttl created idle { s with session := session } :=
  { h with stored := hstored }

omit [DecidableEq Client] in
theorem visible_eq_some {session : Session} (h : visible s = some session) : s.session = some session := by
  rw [visible] at h
  split at h
  · exact h
  · cases h

theorem Used.step {e : Event Client} (h : Used ttl created idle s)
    (hidle : ∀ timeout, idleTimeout ttl e = some timeout → timeout ≤ idle) (hstep : Step ttl s e t) :
    Used ttl created idle t := by
  cases hstep with
  | tick elapsed => exact { h with }
  | setEnabled enabled => exact { h with }
  | select idle =>
      refine h.move (fun session hsession => h.stored session (visible_eq_some (Stage.selected.inj hsession))) ?_
      intro previous now htouching
      cases htouching
  | @decide _ client row configured touch selected =>
      have hlogged := h.logged s.clock (if (answer ttl configured s.clock touch row).1 then s.clock else s.lastUse)
        (answer ttl configured s.clock touch row).1 row
          (fun session hsession => h.selected client session (by rw [selected, hsession]))
        (answer_ok (hidle _ rfl))
      refine hlogged.move (fun session hsession => absurd hsession answer_not_selected) fun previous now htouching => ?_
      obtain ⟨rfl, hok⟩ := answer_touching htouching
      dsimp only
      rw [SessionLifetime.logged, if_pos hok]
      exact List.mem_cons_self ..
  | @touch _ client previous now locked touching =>
      have hidle : Used ttl created idle { s with stage := Function.update s.stage client .idle } :=
        h.move (by simp) (by simp)
      refine hidle.store fun row hrow => ?_
      rw [touched, Option.map_eq_some_iff] at hrow
      obtain ⟨session, hsession, rfl⟩ := hrow
      split
      · exact ⟨(h.stored session hsession).1, .inr (h.touching client previous now touching)⟩
      · exact h.stored session hsession
  | @remove _ client locked deleting =>
      have hidle : Used ttl created idle { s with stage := Function.update s.stage client .idle } :=
        h.move (by simp) (by simp)
      refine hidle.store fun row hrow => ?_
      split at hrow
      · exact h.stored row hrow
      · cases hrow
  | reload idle => exact h.move (by simp) (by simp)
  | @decideReload _ client now configured reloadExpires sameAgent reloading =>
      have hlogged := h.logged now s.lastUse
        (answerReload ttl configured now reloadExpires sameAgent (visible s)).1 (visible s)
        (fun session hsession => h.stored session (visible_eq_some hsession)) (answerReload_ok (hidle _ rfl))
      refine hlogged.move (fun session hsession => ?_) fun previous now' htouching => ?_
      · rcases answerReload_stage configured now reloadExpires sameAgent (visible s) with hstage | hstage <;>
          rw [hstage] at hsession <;>
          cases hsession
      · rcases answerReload_stage configured now reloadExpires sameAgent (visible s) with hstage | hstage <;>
          rw [hstage] at htouching <;>
          cases htouching
  | cleanup at_ configured past =>
      refine h.store fun row hrow => ?_
      rw [Option.filter_eq_some_iff] at hrow
      exact h.stored row hrow.1
  | revoke =>
      refine h.store fun row hrow => ?_
      cases hrow

omit [DecidableEq Client] in
theorem used_opened : Used ttl created idle (System.opened ttl created : System Client) := by
  refine ⟨.nil, ?_, ?_, ?_, ?_⟩
  · intro t ht
    cases ht
  · intro session hsession
    cases hsession
    exact ⟨rfl, .inl rfl⟩
  · intro client session hstage
    cases hstage
  · intro client previous now hstage
    cases hstage

theorem not_too_long {configured now : Nat} {session : Session}
    (hidle : idle ≤ second * effectiveIdleTimeout ttl configured) (hsoon : now ≤ session.lastSeenAt + idle) :
    idleTooLong ttl configured now session = false := by
  rw [idleTooLong, decide_eq_false_iff_not]
  omega

theorem not_expired {configured now : Nat} {session : Session}
    (hidle : idle ≤ second * effectiveIdleTimeout ttl configured) (hend : now ≤ session.expiresAt)
    (hsoon : now ≤ session.lastSeenAt + idle) : expired ttl configured now session = false := by
  rw [expired, not_too_long hidle hsoon, Bool.or_false, decide_eq_false_iff_not]
  omega

theorem answer_in_time {configured now : Nat} {session : Session}
    (hidle : idle ≤ second * effectiveIdleTimeout ttl configured) (hend : now ≤ session.expiresAt)
    (hsoon : now ≤ session.lastSeenAt + idle) : answer ttl configured now true (some session) =
      (true, if minute < now - session.lastSeenAt then .touching session.lastSeenAt now else .idle) := by
  rw [answer, not_expired hidle hend hsoon, if_neg Bool.false_ne_true, Bool.true_and]
  by_cases hlate : minute < now - session.lastSeenAt <;> simp [hlate]

/-- However requests overlap and whatever the timeout is set to meanwhile: a
session that was left alone for longer than the longest timeout that was in
force is never let in again, and no session is let in after its end. -/
theorem session_ends (h : History (Step ttl) (System.opened ttl created : System Client) es s) {pause resume : Nat}
    (hcreated : created ≤ pause) (hlong : pause + longestIdle ttl es < resume)
    (hnone : ∀ t ∈ s.accepted, t ≤ pause ∨ resume ≤ t) :
    ∀ t ∈ s.accepted, t ≤ pause ∧ t ≤ created + second * ttl := by
  have hused := h.invariant_of_mem (Used ttl created (longestIdle ttl es)) used_opened
    (fun _ _ _ he hs hstep => hs.step (fun _ htimeout => idleTimeout_le he htimeout) hstep)
  exact fun t ht => ⟨hused.chained.stops hcreated hlong hnone t ht, hused.bounded t ht⟩

/-- Two requests in time, and one after a pause that is longer than the
timeouts of ninety and of eighty seconds. -/
def pausedRuns : List (Event Unit) :=
  [.tick 65000000, .select (), .decide () 90 true, .touch () false, .tick 65000000, .select (), .decide () 80 true,
    .touch () false, .tick 120000000, .select (), .decide () 90 true]

theorem session_ends_paused : ∃ s : System Unit, History (Step 86400) (System.opened 86400 0) pausedRuns s ∧
    s.accepted = [130000000, 65000000] ∧ longestIdle 86400 pausedRuns = 90000000 ∧
    ∀ t ∈ s.accepted, t ≤ 130000000 ∧ t ≤ 0 + second * 86400 := by
  obtain ⟨s, h, hs⟩ : ∃ s, History (Step 86400) (System.opened 86400 0 : System Unit) pausedRuns s ∧
      s.accepted = [130000000, 65000000] :=
    ⟨_, .cons (.tick 65000000)
      (.cons (.select rfl) (.cons (.decide 90 true rfl) (.cons (@Step.touch _ _ _ _ () 0 65000000 false (by decide))
      (.cons (.tick 65000000) (.cons (.select rfl)
        (.cons (.decide 80 true rfl) (.cons (@Step.touch _ _ _ _ () 65000000 130000000 false (by decide))
        (.cons (.tick 120000000) (.cons (.select rfl) (.single (.decide 90 true rfl))))))))))), rfl⟩
  have hnone : ∀ t ∈ s.accepted, t ≤ 130000000 ∨ 250000000 ≤ t := by simp [hs]
  exact ⟨s, h, hs, by decide, session_ends h (by decide) (by decide) hnone⟩

/-- Requests are answered at once. Those with the token of the session come a
minute before the timeout at the latest, those with a reload token as long as
it is valid; the user stays enabled and logged in and the database is not
locked. -/
def Regular (ttl created idle : Nat) (s : System Client) : Event Client → Prop
  | .tick elapsed => (∀ client, s.stage client = .idle) ∧ s.clock + elapsed + minute ≤ s.lastUse + idle ∧
      s.clock + elapsed ≤ created + second * ttl
  | .setEnabled enabled => enabled = true
  | .select _ | .remove .. | .reload _ => True
  | .decide _ configured touch => touch = true ∧ idle ≤ second * effectiveIdleTimeout ttl configured
  | .touch _ locked => locked = false
  | .decideReload _ configured reloadExpires _ =>
      s.clock ≤ reloadExpires ∧ idle ≤ second * effectiveIdleTimeout ttl configured
  | .cleanup _ configured => idle ≤ second * effectiveIdleTimeout ttl configured
  | .revoke => False

/-- The row is as late as the last use, give or take a minute, or a request
is about to make it so. -/
structure Kept (ttl created idle : Nat) (s : System Client) (row : Session) : Prop where
  session : s.session = some row
  enabled : s.enabled = true
  expires : row.expiresAt = created + second * ttl
  inTime : s.clock ≤ row.expiresAt ∧ s.clock ≤ row.lastSeenAt + idle
  used : s.lastUse ≤ s.clock
  fresh : s.lastUse ≤ row.lastSeenAt + minute ∨
    s.lastUse = s.clock ∧ ∃ client, s.stage client = .touching row.lastSeenAt s.clock
  selected : ∀ client other, s.stage client = .selected other → ∃ copy, other = some copy ∧
    copy.expiresAt = row.expiresAt ∧ s.clock ≤ copy.lastSeenAt + idle ∧
    (copy.lastSeenAt = row.lastSeenAt ∨ row.lastSeenAt = s.clock)
  touching : ∀ client previous now, s.stage client = .touching previous now → now = s.clock
  reloading : ∀ client now, s.stage client = .reloading now → now = s.clock
  others : ∀ client, s.stage client ≠ .deleting

theorem answerReload_in_time {configured now reloadExpires : Nat} {sameAgent : Bool} {session : Session}
    (hidle : idle ≤ second * effectiveIdleTimeout ttl configured) (hend : now ≤ session.expiresAt)
    (hreload : now ≤ reloadExpires) (hsoon : now ≤ session.lastSeenAt + idle) :
    answerReload ttl configured now reloadExpires sameAgent (some session) = (sameAgent, .idle) := by
  have hvalid : ¬ min session.expiresAt reloadExpires < now := Nat.not_lt.mpr (Nat.le_min.mpr ⟨hend, hreload⟩)
  rw [answerReload, not_too_long hidle hsoon, decide_eq_false hvalid]
  rfl

/-- A request that moves on, when what its new stage holds fits the row. -/
theorem Kept.move {client : Client} {next : Stage} {accepted : List Nat} {lastUse : Nat} {row : Session}
    (h : Kept ttl created idle s row) (hused : lastUse ≤ s.clock)
    (hfresh : lastUse ≤ row.lastSeenAt + minute ∨
      lastUse = s.clock ∧ ∃ c, Function.update s.stage client next c = .touching row.lastSeenAt s.clock)
    (hselected : ∀ other, next = .selected other → ∃ copy, other = some copy ∧ copy.expiresAt = row.expiresAt ∧
      s.clock ≤ copy.lastSeenAt + idle ∧ (copy.lastSeenAt = row.lastSeenAt ∨ row.lastSeenAt = s.clock))
    (htouching : ∀ previous now, next = .touching previous now → now = s.clock)
    (hreloading : ∀ now, next = .reloading now → now = s.clock) (hdeleting : next ≠ .deleting) :
    Kept ttl created idle
      { s with stage := Function.update s.stage client next, accepted := accepted, lastUse := lastUse } row := by
  have hcase : ∀ {c stage}, Function.update s.stage client next c = stage → next = stage ∨ s.stage c = stage := by
    intro c stage hstage
    by_cases hc : c = client
    · rw [hc, Function.update_self] at hstage
      exact .inl hstage
    · rw [Function.update_of_ne hc] at hstage
      exact .inr hstage
  refine ⟨h.session, h.enabled, h.expires, h.inTime, hused, hfresh, ?_, ?_, ?_, ?_⟩
  · exact fun c other hstage => (hcase hstage).elim (hselected other) (h.selected c other)
  · exact fun c previous now hstage => (hcase hstage).elim (htouching previous now) (h.touching c previous now)
  · exact fun c now hstage => (hcase hstage).elim (hreloading now) (h.reloading c now)
  · exact fun c hstage => (hcase hstage).elim hdeleting (h.others c)

/-- The request that is about to store the last use is another one. -/
theorem Kept.fresh_move {client : Client} {row : Session} (h : Kept ttl created idle s row)
    (hclient : s.stage client ≠ .touching row.lastSeenAt s.clock) (next : Stage) :
    s.lastUse ≤ row.lastSeenAt + minute ∨
      s.lastUse = s.clock ∧ ∃ c, Function.update s.stage client next c = .touching row.lastSeenAt s.clock := by
  refine h.fresh.imp_right (And.imp_right ?_)
  rintro ⟨c, htouching⟩
  have hc : c ≠ client := by
    rintro rfl
    exact hclient htouching
  exact ⟨c, (Function.update_of_ne hc ..).trans htouching⟩

omit [DecidableEq Client] in
theorem Kept.tick {elapsed : Nat} {row : Session} (h : Kept ttl created idle s row)
    (hidle : ∀ client, s.stage client = .idle) (hsoon : s.clock + elapsed + minute ≤ s.lastUse + idle)
    (hend : s.clock + elapsed ≤ created + second * ttl) :
    Kept ttl created idle { s with clock := s.clock + elapsed } row := by
  have hbusy : ∀ {client stage}, stage ≠ .idle → s.stage client ≠ stage := by
    intro client stage hne hstage
    exact hne (hstage.symm.trans (hidle client))
  have hfresh : s.lastUse ≤ row.lastSeenAt + minute := by
    rcases h.fresh with hfresh | ⟨-, client, htouching⟩
    · exact hfresh
    · exact absurd htouching (hbusy Stage.noConfusion)
  refine ⟨h.session, h.enabled, h.expires, ⟨h.expires ▸ hend, ?_⟩, Nat.le_add_right_of_le h.used, .inl hfresh,
    ?_, ?_, ?_, h.others⟩
  · dsimp only
    omega
  · exact fun client other hstage => absurd hstage (hbusy Stage.noConfusion)
  · exact fun client previous now hstage => absurd hstage (hbusy Stage.noConfusion)
  · exact fun client now hstage => absurd hstage (hbusy Stage.noConfusion)

omit [DecidableEq Client] in
theorem Kept.visible {row : Session} (h : Kept ttl created idle s row) : visible s = some row := by
  rw [SessionLifetime.visible, if_pos h.enabled, h.session]

theorem Kept.select {client : Client} {row : Session} (h : Kept ttl created idle s row)
    (hidle : s.stage client = .idle) :
    Kept ttl created idle
      { s with stage := Function.update s.stage client (.selected (SessionLifetime.visible s)) } row := by
  refine h.move h.used (h.fresh_move (by rw [hidle]; exact Stage.noConfusion) _) ?_ (by simp)
    (by simp) Stage.noConfusion
  rintro other ⟨⟩
  exact ⟨row, h.visible, rfl, h.inTime.2, .inl rfl⟩

theorem Kept.decide {configured : Nat} {client : Client} {row : Session} {selected : Option Session}
    (h : Kept ttl created idle s row) (hselected : s.stage client = .selected selected)
    (hidle : idle ≤ second * effectiveIdleTimeout ttl configured) :
    Kept ttl created idle
      { s with
        stage := Function.update s.stage client (answer ttl configured s.clock true selected).2
        accepted := logged s.clock (answer ttl configured s.clock true selected).1 s.accepted
        lastUse := if (answer ttl configured s.clock true selected).1 then s.clock else s.lastUse } row := by
  obtain ⟨copy, rfl, hend, hsoon, hcopy⟩ := h.selected client selected hselected
  rw [answer_in_time hidle (hend.symm ▸ h.inTime.1) hsoon]
  by_cases hlate : minute < s.clock - copy.lastSeenAt
  · rw [if_pos hlate]
    refine h.move (Nat.le_refl _) ?_ (by simp) ?_ (by simp) Stage.noConfusion
    · rcases hcopy with hcopy | hcopy
      · exact .inr ⟨rfl, client, by rw [Function.update_self, hcopy]⟩
      · exact .inl (Nat.le_add_right_of_le (Nat.le_of_eq hcopy.symm))
    · rintro previous now ⟨⟩
      rfl
  · rw [if_neg hlate]
    refine h.move (Nat.le_refl _) (.inl ?_) (by simp) (by simp) (by simp) Stage.noConfusion
    change s.clock ≤ row.lastSeenAt + minute
    omega

theorem Kept.touch {previous now : Nat} {client : Client} {row : Session} (h : Kept ttl created idle s row)
    (htouching : s.stage client = .touching previous now) :
    ∃ row', Kept ttl created idle
      { s with session := touched previous now false s.session, stage := Function.update s.stage client .idle }
        row' := by
  obtain rfl := h.touching client previous now htouching
  have hsession : touched previous s.clock false s.session =
      some (if row.lastSeenAt = previous then { row with lastSeenAt := s.clock } else row) := by
    rw [touched, h.session, Option.map_some]
    simp
  by_cases hprevious : row.lastSeenAt = previous
  · -- The row becomes as late as it can be, so nothing is asked of the others.
    rw [if_pos hprevious] at hsession
    have hstored : Kept ttl created idle { s with session := touched previous s.clock false s.session }
        { row with lastSeenAt := s.clock } := by
      refine ⟨hsession, h.enabled, h.expires, ⟨h.inTime.1, Nat.le_add_right ..⟩, h.used,
        .inl (Nat.le_add_right_of_le h.used), ?_, h.touching, h.reloading, h.others⟩
      intro c other hstage
      obtain ⟨copy, hcopy, hend, hsoon, -⟩ := h.selected c other hstage
      exact ⟨copy, hcopy, hend, hsoon, .inr rfl⟩
    exact ⟨_, hstored.move h.used (.inl (Nat.le_add_right_of_le h.used)) (by simp) (by simp)
      (by simp) Stage.noConfusion⟩
  · rw [if_neg hprevious] at hsession
    have hstored : Kept ttl created idle { s with session := touched previous s.clock false s.session } row :=
      { h with session := hsession }
    have hclient : s.stage client ≠ .touching row.lastSeenAt s.clock := by
      rw [htouching]
      exact fun heq => hprevious (Stage.touching.inj heq).1.symm
    exact ⟨row, hstored.move h.used (h.fresh_move hclient _) (by simp) (by simp) (by simp) Stage.noConfusion⟩

/-- A valid reload token opens the session without a trace in its row. -/
theorem Kept.decideReload {configured reloadExpires now : Nat} {sameAgent : Bool} {client : Client} {row : Session}
    (h : Kept ttl created idle s row) (hreloading : s.stage client = .reloading now) (hvalid : s.clock ≤ reloadExpires)
    (hidle : idle ≤ second * effectiveIdleTimeout ttl configured) :
    Kept ttl created idle
      { s with
        stage := Function.update s.stage client
          (answerReload ttl configured now reloadExpires sameAgent (SessionLifetime.visible s)).2
        accepted := logged now (answerReload ttl configured now reloadExpires sameAgent (SessionLifetime.visible s)).1
          s.accepted } row := by
  obtain rfl := h.reloading client now hreloading
  rw [h.visible, answerReload_in_time hidle h.inTime.1 hvalid h.inTime.2]
  have hclient : s.stage client ≠ .touching row.lastSeenAt s.clock := by
    rw [hreloading]
    exact Stage.noConfusion
  exact h.move h.used (h.fresh_move hclient _) (by simp) (by simp) (by simp) Stage.noConfusion

theorem Kept.step {e : Event Client} {row : Session} (h : Kept ttl created idle s row)
    (hstep : meeting (Step ttl) (Regular ttl created idle) s e t) : ∃ row', Kept ttl created idle t row' := by
  obtain ⟨hstep, hregular⟩ := hstep
  cases hstep with
  | tick elapsed => exact ⟨row, h.tick hregular.1 hregular.2.1 hregular.2.2⟩
  | setEnabled enabled => exact ⟨row, { h with enabled := hregular }⟩
  | select hidle => exact ⟨row, h.select hidle⟩
  | decide configured touch selected =>
      obtain ⟨rfl, hidle⟩ := hregular
      exact ⟨row, h.decide selected hidle⟩
  | touch locked touching =>
      cases hregular
      exact h.touch touching
  | remove locked deleting => exact absurd deleting (h.others _)
  | reload hidle =>
      refine ⟨row, h.move h.used (h.fresh_move (by rw [hidle]; exact Stage.noConfusion) _) (by simp) (by simp) ?_
        Stage.noConfusion⟩
      rintro now ⟨⟩
      rfl
  | decideReload configured reloadExpires sameAgent reloading =>
      exact ⟨row, h.decideReload reloading hregular.1 hregular.2⟩
  | cleanup at_ configured past =>
      refine ⟨row, { h with session := ?_ }⟩
      have hvalid : expired ttl configured at_ row = false :=
        not_expired hregular (Nat.le_trans past h.inTime.1) (Nat.le_trans past h.inTime.2)
      dsimp only
      rw [h.session, Option.filter_some_pos]
      rw [hvalid]
      rfl
  | revoke => exact hregular.elim

omit [DecidableEq Client] in
theorem kept_opened :
    Kept ttl created idle (System.opened ttl created : System Client) ⟨created + second * ttl, created⟩ := by
  refine ⟨rfl, rfl, rfl, ⟨Nat.le_add_right .., Nat.le_add_right ..⟩, Nat.le_refl _, .inl (Nat.le_add_right ..),
    ?_, ?_, ?_, ?_⟩
  · intro c other hstage
    cases hstage
  · intro c previous now hstage
    cases hstage
  · intro c now hstage
    cases hstage
  · exact fun c => Stage.noConfusion

/-- A session in regular use is let in each time until its end, with its own
token as with a valid reload token, also where requests overlap. -/
theorem regular_use_accepted
    (h : History (meeting (Step ttl) (Regular ttl created idle)) (System.opened ttl created : System Client) es s)
    {configured : Nat} (hidle : idle ≤ second * effectiveIdleTimeout ttl configured) :
    (∀ client row, s.stage client = .selected row → (answer ttl configured s.clock true row).1 = true) ∧
      ∀ client now reloadExpires, s.stage client = .reloading now → s.clock ≤ reloadExpires →
        (answerReload ttl configured now reloadExpires true (visible s)).1 = true := by
  obtain ⟨kept, hkept⟩ := h.invariant (fun u => ∃ kept, Kept ttl created idle u kept) ⟨_, kept_opened⟩
    (by
      rintro _ _ _ ⟨_, hu⟩ hstep
      exact hu.step hstep)
  refine ⟨?_, ?_⟩
  · intro client row hselected
    obtain ⟨copy, rfl, hend, hsoon, -⟩ := hkept.selected client row hselected
    rw [answer_in_time hidle (hend.symm ▸ hkept.inTime.1) hsoon]
  · intro client now reloadExpires hreloading hvalid
    obtain rfl := hkept.reloading client now hreloading
    rw [hkept.visible, answerReload_in_time hidle hkept.inTime.1 hvalid hkept.inTime.2]

/-- After a use that was stored and one with a reload token, two overlapping
requests at a time that only the first of these allows. -/
theorem regular_use_accepted_overlapping :
    (answer 300 200 145000000 true (some ⟨300000000, 65000000⟩)).1 = true ∧
      (answerReload 300 200 145000000 200000000 true (some ⟨300000000, 65000000⟩)).1 = true := by
  have h : History (meeting (Step 300) (Regular 300 0 150000000)) (System.opened 300 0 : System Bool)
      [.tick 65000000, .select true, .decide true 200 true, .touch true false, .tick 20000000, .reload true,
        .decideReload true 200 200000000 true, .tick 60000000, .select false, .reload true] _ :=
    .cons ⟨.tick 65000000, fun _ => rfl, by decide, by decide⟩ (.cons ⟨.select rfl, trivial⟩
      (.cons ⟨.decide 200 true rfl, rfl, by decide⟩ (.cons ⟨@Step.touch _ _ _ _ true 0 65000000 false (by decide), rfl⟩
        (.cons ⟨.tick 20000000, fun c => by cases c <;> rfl, by decide, by decide⟩ (.cons ⟨.reload rfl, trivial⟩
          (.cons ⟨.decideReload 200 200000000 true rfl, by decide, by decide⟩
            (.cons ⟨.tick 60000000, fun c => by cases c <;> rfl, by decide, by decide⟩ (.cons ⟨.select rfl, trivial⟩
              (.single ⟨.reload rfl, trivial⟩)))))))))
  have haccepted := regular_use_accepted h (show 150000000 ≤ second * effectiveIdleTimeout 300 200 by decide)
  exact ⟨haccepted.1 false _ rfl, haccepted.2 true _ 200000000 rfl (by decide)⟩

end Runs

end BorgManager.SessionLifetime
