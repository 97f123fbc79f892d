import Mathlib.Data.List.Nodup
import Mathlib.Logic.Function.Basic
import BorgManager.Histories
import BorgManager.PythonText

namespace BorgManager.Administrators

open Histories PythonText

inductive Role
  | admin
  | user
  deriving DecidableEq

structure User where
  id : Nat
  username : String
  role : Role
  enabled : Bool
  mustChangePassword : Bool

def User.isActiveAdmin (u : User) : Bool := u.role == .admin && u.enabled

structure UserUpdateIn where
  username : String
  role : Role
  enabled : Bool

inductive UserChange
  | update (userId : Nat) (data : UserUpdateIn)
  | delete (userId : Nat)

def UserChange.userId : UserChange → Nat
  | .update id _ => id
  | .delete id => id

/-- The status code and the detail of a refused request. -/
structure Refusal where
  status : Nat
  detail : String
  deriving DecidableEq

/-- The next SQL statement of an admitted request, or its answer. -/
inductive Phase
  | selecting
  | counting
  | writing
  | answered (answer : Option Refusal)

structure UserRequest where
  current : Nat
  change : UserChange
  phase : Phase

structure SecurityStore where
  users : List User
  requests : Nat → Option UserRequest

inductive UserEvent
  | authenticate (request current : Nat) (change : UserChange)
  | select (request : Nat)
  | count (request : Nat)
  | write (request : Nat)

def isUsernameChar (c : Char) : Bool := c.isAlphanum || c == '_' || c == '.' || c == '-'

/-- `USERNAME_RE` on the stripped name. -/
def validUsername (username : String) : Bool :=
  match (strip username).toList with
  | [] => false
  | c :: cs => c.isAlphanum && cs.all isUsernameChar && decide (2 ≤ cs.length ∧ cs.length ≤ 63)

/-- The dependency `require_admin_access`, on the user that the session names. -/
def requireAdminAccess (user : Option User) : Except Refusal User :=
  match user with
  | none => .error ⟨401, "Invalid or missing session"⟩
  | some user =>
      if user.enabled = false then .error ⟨401, "Invalid or missing session"⟩
      else if user.mustChangePassword = true then .error ⟨403, "Password change required"⟩
      else if user.role ≠ .admin then .error ⟨403, "Administrator permission required"⟩
      else .ok user

/-- What `users_update` and `users_delete` check before the first statement. -/
def checkChange (current : User) : UserChange → Option Refusal
  | .update userId data =>
      if userId = current.id ∧ (data.role ≠ current.role ∨ data.enabled = false) then
        some ⟨400, "Die eigene Rolle und der eigene Aktivstatus können nicht geändert werden"⟩
      else if validUsername data.username = false then
        some ⟨400,
          "Benutzername muss 3–64 Zeichen lang sein und darf nur Buchstaben, Zahlen, Punkt, Minus und Unterstrich enthalten"⟩
      else none
  | .delete userId =>
      if userId = current.id then some ⟨400, "Das eigene Benutzerkonto kann nicht gelöscht werden"⟩ else none

def findUser (s : SecurityStore) (id : Nat) : Option User := s.users.find? (fun u => u.id == id)

def authorise (s : SecurityStore) (current : Nat) (change : UserChange) : Phase :=
  match requireAdminAccess (findUser s current) with
  | .error refusal => .answered (some refusal)
  | .ok user =>
      match checkChange user change with
      | some refusal => .answered (some refusal)
      | none => .selecting

/-- After the `SELECT` of the row: which changes of it are guarded by a count. -/
def afterSelect (row : Option User) (change : UserChange) : Phase :=
  match row, change with
  | none, _ => .answered (some ⟨404, "Benutzer nicht gefunden"⟩)
  | some row, .update _ data =>
      if row.role = .admin ∧ row.enabled = true ∧ (data.role ≠ .admin ∨ data.enabled = false) then .counting
      else .writing
  | some row, .delete _ => if row.role = .admin then .counting else .writing

/-- `SELECT COUNT(*) FROM users WHERE role='admin' AND enabled=1`. -/
def activeAdmins (users : List User) : Nat := users.countP User.isActiveAdmin

/-- `SELECT COUNT(*) FROM users WHERE role='admin'`. -/
def administratorCount (users : List User) : Nat := users.countP (fun u => u.role == .admin)

def afterCount (users : List User) : UserChange → Phase
  | .update _ _ =>
      if activeAdmins users ≤ 1 then
        .answered (some ⟨400, "Der letzte aktive Administrator kann nicht deaktiviert oder herabgestuft werden"⟩)
      else .writing
  | .delete _ =>
      if administratorCount users ≤ 1 then
        .answered (some ⟨400, "Der letzte Administrator kann nicht gelöscht werden"⟩)
      else .writing

/-- `COLLATE NOCASE`. -/
def sameUsername (a b : String) : Bool := a.toList.map Char.toLower == b.toList.map Char.toLower

/-- The `UPDATE` gives a row a name that another row has. -/
def violatesUnique (users : List User) : UserChange → Bool
  | .update userId data =>
      users.any (fun u => u.id == userId) &&
        users.any (fun u => u.id != userId && sameUsername u.username (strip data.username))
  | .delete _ => false

def applyChange (users : List User) : UserChange → List User
  | .update userId data =>
      users.map fun u =>
        if u.id = userId then { u with username := strip data.username, role := data.role, enabled := data.enabled }
        else u
  | .delete userId => users.filter (fun u => u.id != userId)

def setPhase (s : SecurityStore) (request : Nat) (q : UserRequest) (phase : Phase) : SecurityStore :=
  { s with requests := Function.update s.requests request (some { q with phase := phase }) }

/-- The writing statement of `update_user` or `delete_user`. -/
def commitChange (s : SecurityStore) (request : Nat) (q : UserRequest) : SecurityStore :=
  if violatesUnique s.users q.change then
    setPhase s request q (.answered (some ⟨400, "Benutzername ist bereits vorhanden"⟩))
  else setPhase { s with users := applyChange s.users q.change } request q (.answered none)

def userNext (s : SecurityStore) : UserEvent → Option SecurityStore
  | .authenticate request current change =>
      if (s.requests request).isNone then
        some (setPhase s request ⟨current, change, .selecting⟩ (authorise s current change))
      else none
  | .select request =>
      match s.requests request with
      | some ⟨current, change, .selecting⟩ =>
          some (setPhase s request ⟨current, change, .selecting⟩ (afterSelect (findUser s change.userId) change))
      | _ => none
  | .count request =>
      match s.requests request with
      | some ⟨current, change, .counting⟩ =>
          some (setPhase s request ⟨current, change, .counting⟩ (afterCount s.users change))
      | _ => none
  | .write request =>
      match s.requests request with
      | some ⟨current, change, .writing⟩ => some (commitChange s request ⟨current, change, .writing⟩)
      | _ => none

def HasActiveAdmin (s : SecurityStore) : Prop := ∃ u ∈ s.users, u.isActiveAdmin = true

instance (s : SecurityStore) : Decidable (HasActiveAdmin s) :=
  inferInstanceAs (Decidable (∃ u ∈ s.users, u.isActiveAdmin = true))

/-- The change leaves its user without an enabled administrator account. -/
def withdraws : UserChange → Bool
  | .update _ data => data.role != .admin || !data.enabled
  | .delete _ => true

/-- A statement that takes an enabled administrator away finds that there are
still several of them. -/
def GuardHolds (s : SecurityStore) : UserEvent → Prop
  | .write request => ∀ q ∈ s.requests request,
      violatesUnique s.users q.change = false → withdraws q.change = true →
        (∃ u ∈ s.users, u.id = q.change.userId ∧ u.isActiveAdmin = true) → 1 < activeAdmins s.users
  | _ => True

theorem one_lt_activeAdmins {users : List User} (hnodup : users.Nodup) {u : User} (hu : u ∈ users)
    (hactive : u.isActiveAdmin = true) : 1 < activeAdmins users ↔ ∃ v ∈ users, v ≠ u ∧ v.isActiveAdmin = true := by
  classical
  have hcount : activeAdmins users = activeAdmins (users.erase u) + 1 := by
    rw [activeAdmins, (List.perm_cons_erase hu).countP_eq, List.countP_cons_of_pos hactive]
    rfl
  rw [hcount, Nat.lt_add_left_iff_pos, activeAdmins, List.countP_pos_iff]
  constructor
  · rintro ⟨v, hv, hactive⟩
    obtain ⟨hne, hv⟩ := hnodup.mem_erase_iff.mp hv
    exact ⟨v, hv, hne, hactive⟩
  · rintro ⟨v, hv, hne, hactive⟩
    exact ⟨v, hnodup.mem_erase_iff.mpr ⟨hne, hv⟩, hactive⟩

/-- Who is an enabled administrator after a change: everybody else as before,
and the changed user if the change leaves him one. -/
theorem active_after_change (users : List User) (change : UserChange) :
    (∃ v ∈ applyChange users change, v.isActiveAdmin = true) ↔
      (∃ u ∈ users, u.id ≠ change.userId ∧ u.isActiveAdmin = true) ∨
        (withdraws change = false ∧ ∃ u ∈ users, u.id = change.userId) := by
  cases change with
  | update userId data =>
      have hkeeps : withdraws (.update userId data) = false ↔ data.role = .admin ∧ data.enabled = true := by
        simp [withdraws]
      rw [hkeeps]
      constructor
      · rintro ⟨v, hv, hactive⟩
        obtain ⟨u, hu, rfl⟩ := List.mem_map.mp hv
        by_cases hid : u.id = userId
        · rw [if_pos hid] at hactive
          right
          refine ⟨?_, u, hu, hid⟩
          simpa [User.isActiveAdmin] using hactive
        · rw [if_neg hid] at hactive
          exact .inl ⟨u, hu, hid, hactive⟩
      · rintro (⟨u, hu, hid, hactive⟩ | ⟨⟨hrole, henabled⟩, u, hu, hid⟩)
        · refine ⟨u, List.mem_map.mpr ⟨u, hu, if_neg hid⟩, hactive⟩
        · refine ⟨_, List.mem_map.mpr ⟨u, hu, if_pos hid⟩, ?_⟩
          simp [User.isActiveAdmin, hrole, henabled]
  | delete userId =>
      constructor
      · rintro ⟨v, hv, hactive⟩
        obtain ⟨hv, hid⟩ := List.mem_filter.mp hv
        exact .inl ⟨v, hv, bne_iff_ne.mp hid, hactive⟩
      · rintro (⟨u, hu, hid, hactive⟩ | ⟨hkeeps, -⟩)
        · exact ⟨u, List.mem_filter.mpr ⟨hu, bne_iff_ne.mpr hid⟩, hactive⟩
        · nomatch hkeeps

/-- The ids of the users are different, as the primary key makes them. -/
def Keyed (users : List User) : Prop := (users.map User.id).Nodup

theorem Keyed.eq_of_id {users : List User} (h : Keyed users) {u v : User} (hu : u ∈ users) (hv : v ∈ users)
    (hid : u.id = v.id) : u = v := List.inj_on_of_nodup_map h hu hv hid

theorem Keyed.applyChange {users : List User} (h : Keyed users) (change : UserChange) :
    Keyed (applyChange users change) := by
  cases change with
  | update userId data =>
      rw [Keyed, Administrators.applyChange, List.map_map]
      have hsame : (User.id ∘ fun u : User =>
          if u.id = userId then { u with username := strip data.username, role := data.role, enabled := data.enabled }
          else u) = User.id := by
        funext u
        simp only [Function.comp_apply]
        split <;> rfl
      rw [hsame]
      exact h
  | delete userId => exact h.sublist (List.filter_sublist.map User.id)

/-- A change keeps an enabled administrator exactly if it takes none away or
finds several. -/
theorem active_after_change_iff {users : List User} (hkeyed : Keyed users)
    (hactive : ∃ u ∈ users, u.isActiveAdmin = true) (change : UserChange) :
    (∃ v ∈ applyChange users change, v.isActiveAdmin = true) ↔
      (withdraws change = true → (∃ u ∈ users, u.id = change.userId ∧ u.isActiveAdmin = true) →
        1 < activeAdmins users) := by
  have hnodup : users.Nodup := List.Nodup.of_map User.id hkeyed
  rw [active_after_change]
  constructor
  · rintro (⟨v, hv, hid, hv'⟩ | ⟨hkeeps, -⟩) hwithdraws ⟨u, hu, huid, hu'⟩
    · refine (one_lt_activeAdmins hnodup hu hu').mpr ⟨v, hv, ?_, hv'⟩
      rintro rfl
      exact hid huid
    · rw [hkeeps] at hwithdraws
      nomatch hwithdraws
  · intro hseveral
    obtain ⟨a, ha, ha'⟩ := hactive
    by_cases hid : a.id = change.userId
    · cases hwithdraws : withdraws change with
      | false => exact .inr ⟨rfl, a, ha, hid⟩
      | true =>
          obtain ⟨v, hv, hne, hv'⟩ := (one_lt_activeAdmins hnodup ha ha').mp (hseveral hwithdraws ⟨a, ha, hid, ha'⟩)
          refine .inl ⟨v, hv, ?_, hv'⟩
          intro hvid
          exact hne (hkeyed.eq_of_id hv ha (hvid.trans hid.symm))
    · exact .inl ⟨a, ha, hid, ha'⟩

variable {s t : SecurityStore} {e : UserEvent}

/-- A step either moves one request on and leaves the users alone, or writes
the change of a request that has passed its checks. -/
inductive Moves (s : SecurityStore) : UserEvent → SecurityStore → Prop
  | authenticate {request current change} (free : s.requests request = none) :
      Moves s (.authenticate request current change)
        (setPhase s request ⟨current, change, .selecting⟩ (authorise s current change))
  | select {request current change} (found : s.requests request = some ⟨current, change, .selecting⟩) :
      Moves s (.select request)
        (setPhase s request ⟨current, change, .selecting⟩ (afterSelect (findUser s change.userId) change))
  | count {request current change} (found : s.requests request = some ⟨current, change, .counting⟩) :
      Moves s (.count request) (setPhase s request ⟨current, change, .counting⟩ (afterCount s.users change))
  | write {request current change} (found : s.requests request = some ⟨current, change, .writing⟩) :
      Moves s (.write request) (commitChange s request ⟨current, change, .writing⟩)

theorem moves_of_next (h : userNext s e = some t) : Moves s e t := by
  cases e with
  | authenticate request current change =>
      rw [userNext] at h
      split at h
      · next hfree => cases h; exact .authenticate (Option.isNone_iff_eq_none.mp hfree)
      · nomatch h
  | select request =>
      rw [userNext] at h
      split at h
      · next hfound => cases h; exact .select hfound
      · nomatch h
  | count request =>
      rw [userNext] at h
      split at h
      · next hfound => cases h; exact .count hfound
      · nomatch h
  | write request =>
      rw [userNext] at h
      split at h
      · next hfound => cases h; exact .write hfound
      · nomatch h

theorem Moves.keyed (h : Moves s e t) (hkeyed : Keyed s.users) : Keyed t.users := by
  cases h with
  | authenticate => exact hkeyed
  | select => exact hkeyed
  | count => exact hkeyed
  | write found =>
      rw [commitChange]
      split
      · exact hkeyed
      · exact hkeyed.applyChange _

/-- One step keeps an enabled administrator exactly if the guard holds at it. -/
theorem Moves.hasActiveAdmin_iff (h : Moves s e t) (hkeyed : Keyed s.users) (hactive : HasActiveAdmin s) :
    HasActiveAdmin t ↔ GuardHolds s e := by
  cases h with
  | authenticate => exact iff_of_true hactive trivial
  | select => exact iff_of_true hactive trivial
  | count => exact iff_of_true hactive trivial
  | @write request current change found =>
      have hguard : GuardHolds s (.write request) ↔ (violatesUnique s.users change = false → withdraws change = true →
          (∃ u ∈ s.users, u.id = change.userId ∧ u.isActiveAdmin = true) → 1 < activeAdmins s.users) := by
        rw [GuardHolds, found]
        simp
      rw [hguard, commitChange]
      split
      · next hviolates =>
        refine iff_of_true hactive ?_
        intro hfree
        rw [hviolates] at hfree
        nomatch hfree
      · next hfree =>
        simp only [Bool.not_eq_true] at hfree
        rw [hfree]
        simp only [true_implies]
        exact active_after_change_iff hkeyed hactive change

/-- A request that is still at work does not withdraw its own user. -/
def NotSelf (s : SecurityStore) : Prop :=
  ∀ request current change phase, s.requests request = some ⟨current, change, phase⟩ →
    (∀ answer, phase ≠ .answered answer) → withdraws change = true → current ≠ change.userId

theorem requireAdminAccess_ok {found : Option User} {user : User} (h : requireAdminAccess found = .ok user) :
    found = some user ∧ user.role = .admin := by
  cases found with
  | none => nomatch h
  | some v =>
      simp only [requireAdminAccess] at h
      split at h
      · nomatch h
      split at h
      · nomatch h
      split at h
      · nomatch h
      · next hrole =>
        cases h
        exact ⟨rfl, not_not.mp hrole⟩

theorem notSelf_of_authorise {current : Nat} {change : UserChange}
    (h : ∀ answer, authorise s current change ≠ .answered answer) (hwithdraws : withdraws change = true) :
    current ≠ change.userId := by
  rw [authorise] at h
  split at h
  · next refusal _ => exact absurd rfl (h (some refusal))
  · next user haccess =>
    split at h
    · next refusal _ => exact absurd rfl (h (some refusal))
    · next hcheck =>
      have hadmin := requireAdminAccess_ok haccess
      have hid : user.id = current := by simpa using List.find?_some hadmin.1
      rintro rfl
      cases change with
      | update userId data =>
          rw [checkChange] at hcheck
          split at hcheck
          · nomatch hcheck
          · next hself =>
            refine hself ⟨hid.symm, ?_⟩
            rw [hadmin.2]
            simpa [withdraws] using hwithdraws
      | delete userId =>
          have hself : userId = user.id := hid.symm
          rw [checkChange, if_pos hself] at hcheck
          nomatch hcheck

theorem notSelf_setPhase (h : NotSelf s) {request current : Nat} {change : UserChange} {phase phase' : Phase}
    (hself : (∀ answer, phase' ≠ .answered answer) → withdraws change = true → current ≠ change.userId) :
    NotSelf (setPhase s request ⟨current, change, phase⟩ phase') := by
  intro r current' change' phase'' hr hopen hwithdraws
  rw [setPhase] at hr
  dsimp only at hr
  by_cases heq : r = request
  · rw [heq, Function.update_self] at hr
    cases hr
    exact hself hopen hwithdraws
  · rw [Function.update_of_ne heq] at hr
    exact h r current' change' phase'' hr hopen hwithdraws

theorem Moves.notSelf (h : Moves s e t) (hs : NotSelf s) : NotSelf t := by
  cases h with
  | authenticate => exact notSelf_setPhase hs notSelf_of_authorise
  | select found => exact notSelf_setPhase hs fun _ => hs _ _ _ _ found nofun
  | count found => exact notSelf_setPhase hs fun _ => hs _ _ _ _ found nofun
  | write found =>
      rw [commitChange]
      split
      · exact notSelf_setPhase hs fun hopen => absurd rfl (hopen _)
      · exact @notSelf_setPhase { s with users := _ } hs _ _ _ _ _ fun hopen => absurd rfl (hopen _)

/-- A store in which no request is under way yet. -/
structure Started (s : SecurityStore) : Prop where
  keyed : Keyed s.users
  idle : ∀ request, s.requests request = none

def userStep : Transition SecurityStore UserEvent := graph userNext

theorem Started.keeps {s₀ : SecurityStore} (h₀ : Started s₀) {es : List UserEvent} (h : History userStep s₀ es s) :
    Keyed s.users ∧ NotSelf s := by
  refine h.invariant (fun s => Keyed s.users ∧ NotSelf s) ⟨h₀.keyed, ?_⟩ ?_
  · intro request current change phase hr
    rw [h₀.idle request] at hr
    nomatch hr
  · rintro a e b ⟨hkeyed, hself⟩ hstep
    have hmoves := moves_of_next hstep
    exact ⟨hmoves.keyed hkeyed, hmoves.notSelf hself⟩

/-- The guard can only fail for a request whose own user is no enabled
administrator any more. -/
theorem guard_of_requester (hkeyed : Keyed s.users) (hself : NotSelf s) {request : Nat} {q : UserRequest}
    (hq : s.requests request = some q) (hphase : q.phase = .writing)
    (hrequester : ∃ u ∈ s.users, u.id = q.current ∧ u.isActiveAdmin = true) : GuardHolds s (.write request) := by
  intro q' hq' _ hwithdraws
  cases hq.symm.trans hq'
  rintro ⟨u, hu, hid, hu'⟩
  obtain ⟨v, hv, hvid, hv'⟩ := hrequester
  refine (one_lt_activeAdmins (List.Nodup.of_map User.id hkeyed) hu hu').mpr ⟨v, hv, ?_, hv'⟩
  rintro rfl
  obtain ⟨current, change, phase⟩ := q
  have hopen : ∀ answer, phase ≠ .answered answer := by
    rintro answer rfl
    nomatch hphase
  exact hself request current change phase hq hopen hwithdraws (hvid.symm.trans hid)

/-- Some enabled administrator survives every run whose withdrawing statements
find several of them, and a run loses the last one with the first statement
that does not. A statement always finds several if its requester is still an
enabled administrator. -/
theorem last_administrator_survives {s₀ : SecurityStore} (h₀ : Started s₀) (hactive : HasActiveAdmin s₀) :
    (∀ es s, History (meeting userStep GuardHolds) s₀ es s → HasActiveAdmin s) ∧
    (∀ es s e t, History (meeting userStep GuardHolds) s₀ es s → userStep s e t →
      (HasActiveAdmin t ↔ GuardHolds s e)) ∧
    ∀ es s request q, History userStep s₀ es s → s.requests request = some q → q.phase = .writing →
      (∃ u ∈ s.users, u.id = q.current ∧ u.isActiveAdmin = true) → GuardHolds s (.write request) := by
  have hsurvives : ∀ es s, History (meeting userStep GuardHolds) s₀ es s → Keyed s.users ∧ HasActiveAdmin s := by
    intro es s h
    refine h.invariant (fun s => Keyed s.users ∧ HasActiveAdmin s) ⟨h₀.keyed, hactive⟩ ?_
    rintro a e b ⟨hkeyed, ha⟩ ⟨hstep, hguard⟩
    have hmoves := moves_of_next hstep
    exact ⟨hmoves.keyed hkeyed, (hmoves.hasActiveAdmin_iff hkeyed ha).mpr hguard⟩
  refine ⟨fun es s h => (hsurvives es s h).2, ?_, ?_⟩
  · intro es s e t h hstep
    obtain ⟨hkeyed, ha⟩ := hsurvives es s h
    exact (moves_of_next hstep).hasActiveAdmin_iff hkeyed ha
  · intro es s request q h hq hphase hrequester
    obtain ⟨hkeyed, hself⟩ := h₀.keeps h
    exact guard_of_requester hkeyed hself hq hphase hrequester

def alice : User := ⟨1, "alice", .admin, true, false⟩

def bob : User := ⟨2, "bobby", .admin, true, false⟩

def twoAdmins : SecurityStore := ⟨[alice, bob], fun _ => none⟩

theorem twoAdmins_started : Started twoAdmins :=
  ⟨show (twoAdmins.users.map User.id).Nodup by decide, fun _ => rfl⟩

/-- Alice disables Bob. -/
def disableBob : List UserEvent :=
  [.authenticate 1 1 (.update 2 ⟨"bobby", .admin, false⟩), .select 1, .count 1]

def readyToDisable : SecurityStore := (exec userNext twoAdmins disableBob).get (by decide)

def bobDisabled : SecurityStore := (userNext readyToDisable (.write 1)).get (by decide)

theorem last_administrator_survives_disabling :
    HasActiveAdmin bobDisabled ∧ (HasActiveAdmin bobDisabled ↔ GuardHolds readyToDisable (.write 1)) ∧
      GuardHolds readyToDisable (.write 1) := by
  have hsurvives := last_administrator_survives twoAdmins_started ⟨alice, .head _, rfl⟩
  have hready : History userStep twoAdmins disableBob readyToDisable := history_of_exec (Option.some_get _).symm
  have hwrite : userStep readyToDisable (.write 1) bobDisabled := (Option.some_get _).symm
  have hguard := hsurvives.2.2 _ _ 1 _ hready rfl rfl ⟨alice, .head _, rfl, rfl⟩
  have hmeets : History (meeting userStep GuardHolds) twoAdmins disableBob readyToDisable :=
    .cons ⟨rfl, trivial⟩ (.cons ⟨rfl, trivial⟩ (.cons ⟨rfl, trivial⟩ (.nil _)))
  exact ⟨hsurvives.1 _ _ (hmeets.snoc ⟨hwrite, hguard⟩), hsurvives.2.1 _ _ _ _ hmeets hwrite, hguard⟩

/-- Alice and Bob disable each other. Both count before either writes. -/
def disableEachOther : List UserEvent :=
  [.authenticate 1 1 (.update 2 ⟨"bobby", .admin, false⟩), .authenticate 2 2 (.update 1 ⟨"alice", .admin, false⟩),
    .select 1, .select 2, .count 1, .count 2, .write 1, .write 2]

def nobodyLeft : SecurityStore := (exec userNext twoAdmins disableEachOther).get (by decide)

theorem no_administrator_left :
    ¬ ∀ s₀ es s, Started s₀ → HasActiveAdmin s₀ → History userStep s₀ es s → HasActiveAdmin s := by
  intro hclaim
  have hrun : History userStep twoAdmins disableEachOther nobodyLeft := history_of_exec (Option.some_get _).symm
  have hnobody : ¬ HasActiveAdmin nobodyLeft := by decide
  exact hnobody (hclaim _ _ _ twoAdmins_started (by decide) hrun)

end BorgManager.Administrators
