import Mathlib.Data.List.Nodup
import Mathlib.Logic.Function.Basic
import BorgManager.Histories
import BorgManager.PythonText

namespace BorgManager.CredentialStore

open Histories PythonText

/-- What the store takes from other libraries: password and code checks, the
vault, whose refusals have a text, and digests. -/
structure Runtime where
  verifyPassword : String → String → Bool
  decryptValue : String → Except String String
  verifyTotp : String → String → Int → Bool
  normalizeRecoveryCode : String → String
  hashRecoveryCode : String → String
  sha256 : String → String
  sessionTtl : Int
  idleTimeout : Int

/-- A row of `users`, with the list that its column of recovery codes holds. -/
structure Account where
  id : Nat
  username : String
  passwordHash : String
  role : String
  enabled : Bool
  mustChangePassword : Bool
  language : Option String
  appearance : Option String
  twoFactorEnabled : Bool
  twoFactorSecret : Option String
  recoveryCodes : List String

structure AuthUser where
  id : Nat
  username : String
  role : String
  enabled : Bool
  mustChangePassword : Bool
  language : String
  appearance : String
  twoFactorEnabled : Bool

def rowUser (row : Account) : AuthUser where
  id := row.id
  username := row.username
  role := row.role
  enabled := row.enabled
  mustChangePassword := row.mustChangePassword
  language := (truthy row.language).getD "de"
  appearance := (truthy row.appearance).getD "auto"
  twoFactorEnabled := row.twoFactorEnabled

structure Session where
  id : Nat
  tokenHash : String
  userId : Nat
  expiresAt : Int
  lastSeenAt : Int

structure ReloadToken where
  tokenHash : String
  sessionId : Nat
  userAgentHash : String
  expiresAt : Int

structure LoginIn where
  username : String
  password : String
  secondFactor : Option String
  userAgent : Option String

inductive LoginAnswer
  | challenge
  | refused (detail : String)
  | opened (user : AuthUser) (recoveryCodeUsed : Bool)

/-- How far a login has come. A recovery code that it has accepted stays with
the list that is to be written back. -/
inductive LoginPhase
  | selected
  | verified (consumed : Option (String × List String))
  | authenticated
  | sessionOpen
  | answered (answer : LoginAnswer)
  | failed

structure Login where
  input : LoginIn
  row : Option Account
  phase : LoginPhase
  recovery : Option String
  token : Option String
  reloadToken : Option String

inductive CredentialChange
  | setPassword (userId : Nat) (encoded : String) (mustChangePassword : Bool)
  | changeOwnPassword (userId : Nat) (currentPassword encoded : String)
  | beginTwoFactorSetup (userId : Nat) (currentPassword encryptedSecret : String) (codes : List String)
  | confirmTwoFactorSetup (userId : Nat) (code : String)
  | disableTwoFactor (userId : Nat) (currentPassword : String)
  | resetTwoFactor (userId : Nat)
  | regenerateRecoveryCodes (userId : Nat) (currentPassword code : String) (codes : List String)

inductive ChangeError
  | unknownUser (userId : Nat)
  | invalid (detail : String)

inductive ChangePhase
  | checking
  | loading
  | writing
  | revoking
  | answered (answer : Option ChangeError)
  | failed

structure Change where
  change : CredentialChange
  phase : ChangePhase

inductive Request
  | login (login : Login)
  | change (change : Change)

/-- The committed tables, the digests of all tokens and the hashes of all
recovery codes ever drawn at random, and the requests. -/
structure Store where
  accounts : List Account
  sessions : List Session
  reloadTokens : List ReloadToken
  nextAccount : Nat
  nextSession : Nat
  drawnTokens : List String
  drawnCodes : List String
  requests : Nat → Option Request

inductive Event
  | select (request : Nat) (input : LoginIn)
  | verify (request : Nat) (now : Int)
  | commit (request : Nat)
  | openSession (request : Nat) (token : String) (now : Int)
  | openReload (request : Nat) (token : String) (now : Int)
  | begin (request : Nat) (change : CredentialChange)
  | check (request : Nat)
  | load (request : Nat) (now : Int)
  | write (request : Nat)
  | revoke (request : Nat)
  | abandon (request : Nat)
  | logout (token : String)
  | logoutReload (token : String)
  | expire (sessionId : Nat)
  | touch (sessionId : Nat) (previous now : Int)
  | createUser (username encoded role : String) (mustChangePassword : Bool)
  | updateUser (userId : Nat) (username role : String) (enabled : Bool)
  | deleteUser (userId : Nat)

def CredentialChange.userId : CredentialChange → Nat
  | .setPassword userId _ _ => userId
  | .changeOwnPassword userId _ _ => userId
  | .beginTwoFactorSetup userId _ _ _ => userId
  | .confirmTwoFactorSetup userId _ => userId
  | .disableTwoFactor userId _ => userId
  | .resetTwoFactor userId => userId
  | .regenerateRecoveryCodes userId _ _ _ => userId

/-- The changes after which `revoke_user_sessions` runs. -/
def CredentialChange.revokes : CredentialChange → Bool
  | .beginTwoFactorSetup _ _ _ _ => false
  | .regenerateRecoveryCodes _ _ _ _ => false
  | _ => true

/-- The password that `verify_user_password` checks first. -/
def CredentialChange.checkedPassword : CredentialChange → Option String
  | .beginTwoFactorSetup _ password _ _ => some password
  | .disableTwoFactor _ password => some password
  | .regenerateRecoveryCodes _ password _ _ => some password
  | _ => none

/-- The codes that `generate_recovery_codes` has drawn for a change. -/
def CredentialChange.codes : CredentialChange → List String
  | .beginTwoFactorSetup _ _ _ codes => codes
  | .regenerateRecoveryCodes _ _ _ codes => codes
  | _ => []

variable (rt : Runtime)

/-- `COLLATE NOCASE`. -/
def sameUsername (a b : String) : Bool := a.toList.map Char.toLower == b.toList.map Char.toLower

def findByName (s : Store) (username : String) : Option Account :=
  s.accounts.find? (fun row => sameUsername row.username (strip username))

def findAccount (s : Store) (id : Nat) : Option Account := s.accounts.find? (fun row => row.id == id)

/-- Whether the code is valid, and the recovery code that it uses up with the
list that remains. -/
def verifySecondFactorRow (row : Account) (code : String) (now : Int) : Bool × Option (String × List String) :=
  if row.twoFactorEnabled = false then (true, none)
  else
    match (truthy row.twoFactorSecret).map rt.decryptValue with
    | none => (false, none)
    | some (.error _) => (false, none)
    | some (.ok secret) =>
        if rt.verifyTotp secret code now then (true, none)
        else if rt.normalizeRecoveryCode code = "" then (false, none)
        else if rt.hashRecoveryCode (rt.normalizeRecoveryCode code) ∈ row.recoveryCodes then
          (true, some (rt.hashRecoveryCode (rt.normalizeRecoveryCode code),
            row.recoveryCodes.erase (rt.hashRecoveryCode (rt.normalizeRecoveryCode code))))
        else (false, none)

def wrongCredentials : LoginPhase := .answered (.refused "Benutzername oder Passwort ist falsch")

def wrongSecondFactor : LoginPhase :=
  .answered (.refused "Der Zwei-Faktor-Code oder Wiederherstellungscode ist ungültig")

/-- `authenticate_user` between its `SELECT` and its first `UPDATE`. -/
def authenticateUser (input : LoginIn) (now : Int) : Option Account → LoginPhase
  | none => wrongCredentials
  | some row =>
      if row.enabled = false ∨ rt.verifyPassword input.password row.passwordHash = false then wrongCredentials
      else if row.twoFactorEnabled = true then
        match truthy input.secondFactor with
        | none => .answered .challenge
        | some code =>
            match verifySecondFactorRow rt row code now with
            | (true, consumed) => .verified consumed
            | (false, _) => wrongSecondFactor
      else .verified none

def setLogin (s : Store) (request : Nat) (login : Login) : Store :=
  { s with requests := Function.update s.requests request (some (.login login)) }

def setChange (s : Store) (request : Nat) (change : Change) : Store :=
  { s with requests := Function.update s.requests request (some (.change change)) }

/-- The `UPDATE` of one row by its id. -/
def updateAccount (s : Store) (id : Nat) (f : Account → Account) : Store :=
  { s with accounts := s.accounts.map (fun row => if row.id = id then f row else row) }

/-- The write transaction of a login: the list of recovery codes as it has been
read and shortened, and columns that nothing here reads. -/
def commitLogin (s : Store) (request : Nat) (login : Login) (row : Account) : Option (String × List String) → Store
  | none => setLogin s request { login with phase := .authenticated }
  | some (code, rest) =>
      setLogin (updateAccount s row.id (fun current => { current with recoveryCodes := rest })) request
        { login with phase := .authenticated, recovery := some code }

/-- The transaction of `create_session`; the foreign key refuses a session of a
deleted user. -/
def createSession (s : Store) (request : Nat) (login : Login) (row : Account) (token : String) (now : Int) : Store :=
  if (findAccount s row.id).isSome then
    setLogin { s with
      sessions := s.sessions ++ [⟨s.nextSession, rt.sha256 token, row.id, now + rt.sessionTtl, now⟩]
      nextSession := s.nextSession + 1
      drawnTokens := s.drawnTokens ++ [rt.sha256 token] } request
      { login with phase := .sessionOpen, token := some token }
  else setLogin s request { login with phase := .failed }

def userAgentHash (userAgent : Option String) : String := rt.sha256 (userAgent.getD "")

/-- `create_session_reload_token` up to its `INSERT`, which the foreign key
refuses as the `SELECT` before it does when the session is gone. -/
def createReloadToken (s : Store) (request : Nat) (login : Login) (row : Account) (sessionToken token : String)
    (now : Int) :
    Store :=
  match s.sessions.find? (fun session => session.tokenHash == rt.sha256 sessionToken) with
  | none => setLogin s request { login with phase := .failed }
  | some session =>
      setLogin { s with
        reloadTokens := s.reloadTokens ++ [⟨rt.sha256 token, session.id, userAgentHash rt login.input.userAgent,
          min session.expiresAt (now + rt.sessionTtl)⟩]
        drawnTokens := s.drawnTokens ++ [rt.sha256 token] } request
        { login with phase := .answered (.opened (rowUser row) login.recovery.isSome), reloadToken := some token }

/-- `DELETE FROM sessions`, with the cascade to the reload tokens. -/
def deleteSessions (s : Store) (p : Session → Bool) : Store :=
  { s with
    sessions := s.sessions.filter (fun session => !p session)
    reloadTokens := s.reloadTokens.filter
      (fun token => !s.sessions.any (fun session => p session && session.id == token.sessionId)) }

def firstPhase (change : CredentialChange) : ChangePhase :=
  match change.checkedPassword, change with
  | some _, _ => .checking
  | none, .setPassword _ _ _ => .writing
  | none, _ => .loading

/-- `verify_user_password`. -/
def afterCheck (s : Store) (userId : Nat) (password : String) : ChangePhase :=
  if (findAccount s userId).any (fun row => rt.verifyPassword password row.passwordHash) then .loading
  else .answered (some (.invalid "Aktuelles Passwort ist falsch"))

/-- What a change checks on the row that it has loaded. -/
def afterLoad (now : Int) (row : Account) : CredentialChange → ChangePhase
  | .changeOwnPassword _ currentPassword _ =>
      if rt.verifyPassword currentPassword row.passwordHash then .writing
      else .answered (some (.invalid "Aktuelles Passwort ist falsch"))
  | .beginTwoFactorSetup _ _ _ _ =>
      if row.twoFactorEnabled then .answered (some (.invalid "Zwei-Faktor-Authentifizierung ist bereits aktiviert"))
      else .writing
  | .confirmTwoFactorSetup _ code =>
      match (truthy row.twoFactorSecret).map rt.decryptValue with
      | none => .answered (some (.invalid "Der 2FA-Code ist ungültig"))
      | some (.error detail) => .answered (some (.invalid detail))
      | some (.ok secret) =>
          if rt.verifyTotp secret code now then .writing
          else .answered (some (.invalid "Der 2FA-Code ist ungültig"))
  | .regenerateRecoveryCodes _ _ code _ =>
      if (verifySecondFactorRow rt row code now).1 then .writing
      else .answered (some (.invalid "Der 2FA-Code ist ungültig"))
  | _ => .writing

def afterSelect (s : Store) (now : Int) (change : CredentialChange) : ChangePhase :=
  match findAccount s change.userId with
  | none => .answered (some (.unknownUser change.userId))
  | some row => afterLoad rt now row change

/-- The columns that a change writes. The shortened list that the check of a
recovery code writes is overwritten in the same transaction. -/
def applyChange (current : Account) : CredentialChange → Account
  | .setPassword _ encoded mustChangePassword =>
      { current with passwordHash := encoded, mustChangePassword := mustChangePassword }
  | .changeOwnPassword _ _ encoded => { current with passwordHash := encoded, mustChangePassword := false }
  | .beginTwoFactorSetup _ _ encryptedSecret codes =>
      { current with
        twoFactorEnabled := false
        twoFactorSecret := some encryptedSecret
        recoveryCodes := codes.map rt.hashRecoveryCode }
  | .confirmTwoFactorSetup _ _ => { current with twoFactorEnabled := true }
  | .disableTwoFactor _ _ => { current with twoFactorEnabled := false, twoFactorSecret := none, recoveryCodes := [] }
  | .resetTwoFactor _ => { current with twoFactorEnabled := false, twoFactorSecret := none, recoveryCodes := [] }
  | .regenerateRecoveryCodes _ _ _ codes => { current with recoveryCodes := codes.map rt.hashRecoveryCode }

/-- Only `set_user_password` looks at the number of rows. -/
def afterWrite (s : Store) (change : CredentialChange) : ChangePhase :=
  match change, findAccount s change.userId with
  | .setPassword userId _ _, none => .answered (some (.unknownUser userId))
  | change, _ => if change.revokes then .revoking else .answered none

def beginChange (s : Store) (request : Nat) (change : CredentialChange) : Store :=
  setChange { s with drawnCodes := s.drawnCodes ++ change.codes.map rt.hashRecoveryCode } request
    ⟨change, firstPhase change⟩

/-- Codes that no request has drawn before and that differ from each other. -/
def FreshCodes (s : Store) (codes : List String) : Prop :=
  (codes.map rt.hashRecoveryCode).Nodup ∧ ∀ code ∈ codes.map rt.hashRecoveryCode, code ∉ s.drawnCodes

instance (s : Store) (codes : List String) : Decidable (FreshCodes rt s codes) := by
  unfold FreshCodes
  infer_instance

def touchSession (sessionId : Nat) (previous now : Int) (session : Session) : Session :=
  if session.id = sessionId ∧ session.lastSeenAt = previous then { session with lastSeenAt := now } else session

def abandonRequest (s : Store) (request : Nat) : Request → Store
  | .login login => setLogin s request { login with phase := .failed }
  | .change change => setChange s request { change with phase := .failed }

/-- The system's steps. A write transaction is one step: it holds the write lock
from its first `UPDATE` to its commit, and until then others read the rows as
they were. An exception may end a request before any of its steps. -/
def next (s : Store) : Event → Option Store
  | .select request input =>
      if (s.requests request).isNone then
        some (setLogin s request ⟨input, findByName s input.username, .selected, none, none, none⟩)
      else none
  | .verify request now =>
      match s.requests request with
      | some (.login ⟨input, row, .selected, recovery, token, reloadToken⟩) =>
          some (setLogin s request ⟨input, row, authenticateUser rt input now row, recovery, token, reloadToken⟩)
      | _ => none
  | .commit request =>
      match s.requests request with
      | some (.login ⟨input, some row, .verified consumed, recovery, token, reloadToken⟩) =>
          some (commitLogin s request ⟨input, some row, .verified consumed, recovery, token, reloadToken⟩ row consumed)
      | _ => none
  | .openSession request token now =>
      match s.requests request with
      | some (.login ⟨input, some row, .authenticated, recovery, none, reloadToken⟩) =>
          if rt.sha256 token ∈ s.drawnTokens then none
          else some (createSession rt s request ⟨input, some row, .authenticated, recovery, none, reloadToken⟩
            row token now)
      | _ => none
  | .openReload request token now =>
      match s.requests request with
      | some (.login ⟨input, some row, .sessionOpen, recovery, some sessionToken, reloadToken⟩) =>
          if rt.sha256 token ∈ s.drawnTokens then none
          else some (createReloadToken rt s request
            ⟨input, some row, .sessionOpen, recovery, some sessionToken, reloadToken⟩ row sessionToken token now)
      | _ => none
  | .begin request change =>
      if (s.requests request).isNone ∧ FreshCodes rt s change.codes then
        some (beginChange rt s request change) else none
  | .check request =>
      match s.requests request with
      | some (.change ⟨change, .checking⟩) =>
          change.checkedPassword.map (fun password =>
            setChange s request ⟨change, afterCheck rt s change.userId password⟩)
      | _ => none
  | .load request now =>
      match s.requests request with
      | some (.change ⟨change, .loading⟩) => some (setChange s request ⟨change, afterSelect rt s now change⟩)
      | _ => none
  | .write request =>
      match s.requests request with
      | some (.change ⟨change, .writing⟩) =>
          some (setChange (updateAccount s change.userId (fun current => applyChange rt current change)) request
            ⟨change, afterWrite s change⟩)
      | _ => none
  | .revoke request =>
      match s.requests request with
      | some (.change ⟨change, .revoking⟩) =>
          some (setChange (deleteSessions s (fun session => session.userId == change.userId)) request
            ⟨change, .answered none⟩)
      | _ => none
  | .abandon request => (s.requests request).map (abandonRequest s request)
  | .logout token => some (deleteSessions s (fun session => session.tokenHash == rt.sha256 token))
  | .logoutReload token =>
      (s.reloadTokens.find? (fun row => row.tokenHash == rt.sha256 token)).map (fun row =>
        deleteSessions s (fun session => session.id == row.sessionId))
  | .expire sessionId => some (deleteSessions s (fun session => session.id == sessionId))
  | .touch sessionId previous now => some { s with sessions := s.sessions.map (touchSession sessionId previous now) }
  | .createUser username encoded role mustChangePassword =>
      if s.accounts.any (fun row => sameUsername row.username (strip username)) then none
      else some { s with
        accounts := s.accounts ++
          [⟨s.nextAccount, strip username, encoded, role, true, mustChangePassword, some "de", some "auto",
            false, none, []⟩]
        nextAccount := s.nextAccount + 1 }
  | .updateUser userId username role enabled =>
      if s.accounts.any (fun row => row.id != userId && sameUsername row.username (strip username)) then none
      else some (updateAccount s userId (fun current =>
        { current with username := strip username, role := role, enabled := enabled }))
  | .deleteUser userId =>
      some (deleteSessions { s with accounts := s.accounts.filter (fun row => row.id != userId) }
        (fun session => session.userId == userId))

/-- `get_session_user`, without the clean-up it may start. -/
def getSessionUser (s : Store) (token : String) (now : Int) : Option AuthUser :=
  if token = "" then none
  else
    match s.sessions.find? (fun session => session.tokenHash == rt.sha256 token) with
    | none => none
    | some session =>
        match findAccount s session.userId with
        | none => none
        | some row =>
            if row.enabled = false then none
            else if session.expiresAt < now ∨ rt.idleTimeout < now - session.lastSeenAt then none
            else some (rowUser row)

def getSessionUserByReloadToken (s : Store) (token : String) (userAgent : Option String) (now : Int) :
    Option AuthUser :=
  if token = "" then none
  else
    match s.reloadTokens.find? (fun row => row.tokenHash == rt.sha256 token) with
    | none => none
    | some reload =>
        match s.sessions.find? (fun session => session.id == reload.sessionId) with
        | none => none
        | some session =>
            match findAccount s session.userId with
            | none => none
            | some row =>
                if row.enabled = false then none
                else if min session.expiresAt reload.expiresAt < now ∨
                    rt.idleTimeout < now - session.lastSeenAt then none
                else if reload.userAgentHash = userAgentHash rt userAgent then some (rowUser row)
                else none

variable {rt} {s t : Store} {e : Event}

theorem setLogin_requests (s : Store) (r : Nat) (login : Login) (r' : Nat) :
    (setLogin s r login).requests r' = if r' = r then some (.login login) else s.requests r' := Function.update_apply ..

theorem setChange_requests (s : Store) (r : Nat) (change : Change) (r' : Nat) :
    (setChange s r change).requests r' = if r' = r then some (.change change) else s.requests r' :=
  Function.update_apply ..

/-- What each step does, with what it needs. -/
inductive Steps (rt : Runtime) (s : Store) : Event → Store → Prop
  | select {r input} (free : s.requests r = none) :
      Steps rt s (.select r input) (setLogin s r ⟨input, findByName s input.username, .selected, none, none, none⟩)
  | verify {r now input row recovery token reload}
      (found : s.requests r = some (.login ⟨input, row, .selected, recovery, token, reload⟩)) :
      Steps rt s (.verify r now) (setLogin s r ⟨input, row, authenticateUser rt input now row, recovery, token, reload⟩)
  | commit {r input row consumed recovery token reload}
      (found : s.requests r = some (.login ⟨input, some row, .verified consumed, recovery, token, reload⟩)) :
      Steps rt s (.commit r)
        (commitLogin s r ⟨input, some row, .verified consumed, recovery, token, reload⟩ row consumed)
  | openSession {r token now input row recovery reload}
      (found : s.requests r = some (.login ⟨input, some row, .authenticated, recovery, none, reload⟩))
      (fresh : rt.sha256 token ∉ s.drawnTokens) :
      Steps rt s (.openSession r token now)
        (createSession rt s r ⟨input, some row, .authenticated, recovery, none, reload⟩ row token now)
  | openReload {r token now input row recovery sessionToken reload}
      (found : s.requests r = some (.login ⟨input, some row, .sessionOpen, recovery, some sessionToken, reload⟩))
      (fresh : rt.sha256 token ∉ s.drawnTokens) :
      Steps rt s (.openReload r token now) (createReloadToken rt s r
        ⟨input, some row, .sessionOpen, recovery, some sessionToken, reload⟩ row sessionToken token now)
  | begin {r change} (free : s.requests r = none) (fresh : FreshCodes rt s change.codes) :
      Steps rt s (.begin r change) (beginChange rt s r change)
  | check {r change password} (found : s.requests r = some (.change ⟨change, .checking⟩)) :
      Steps rt s (.check r) (setChange s r ⟨change, afterCheck rt s change.userId password⟩)
  | load {r now change} (found : s.requests r = some (.change ⟨change, .loading⟩)) :
      Steps rt s (.load r now) (setChange s r ⟨change, afterSelect rt s now change⟩)
  | write {r change} (found : s.requests r = some (.change ⟨change, .writing⟩)) :
      Steps rt s (.write r) (setChange (updateAccount s change.userId (fun current => applyChange rt current change)) r
        ⟨change, afterWrite s change⟩)
  | revoke {r change} (found : s.requests r = some (.change ⟨change, .revoking⟩)) :
      Steps rt s (.revoke r)
        (setChange (deleteSessions s (fun session => session.userId == change.userId)) r ⟨change, .answered none⟩)
  | abandonLogin {r login} (found : s.requests r = some (.login login)) :
      Steps rt s (.abandon r) (setLogin s r { login with phase := .failed })
  | abandonChange {r change} (found : s.requests r = some (.change change)) :
      Steps rt s (.abandon r) (setChange s r { change with phase := .failed })
  | logout {token} : Steps rt s (.logout token) (deleteSessions s (fun session => session.tokenHash == rt.sha256 token))
  | logoutReload {token row} : Steps rt s (.logoutReload token) (deleteSessions s (fun session => session.id == row))
  | expire {id} : Steps rt s (.expire id) (deleteSessions s (fun session => session.id == id))
  | touch {id previous now} :
      Steps rt s (.touch id previous now) { s with sessions := s.sessions.map (touchSession id previous now) }
  | createUser {username encoded role must} : Steps rt s (.createUser username encoded role must)
      { s with
        accounts := s.accounts ++
          [⟨s.nextAccount, strip username, encoded, role, true, must, some "de", some "auto", false, none, []⟩]
        nextAccount := s.nextAccount + 1 }
  | updateUser {id username role enabled} : Steps rt s (.updateUser id username role enabled)
      (updateAccount s id (fun current =>
        { current with username := strip username, role := role, enabled := enabled }))
  | deleteUser {id} : Steps rt s (.deleteUser id)
      (deleteSessions { s with accounts := s.accounts.filter (fun row => row.id != id) }
        (fun session => session.userId == id))

theorem steps_of_next (h : next rt s e = some t) : Steps rt s e t := by
  cases e with
  | select r input =>
      obtain ⟨hfree, heq⟩ := Option.ite_none_right_eq_some.mp h
      cases heq
      exact .select (Option.isNone_iff_eq_none.mp hfree)
  | verify r now =>
      rw [next] at h
      split at h
      · next hfound => cases h; exact .verify hfound
      · nomatch h
  | commit r =>
      rw [next] at h
      split at h
      · next hfound => cases h; exact .commit hfound
      · nomatch h
  | openSession r token now =>
      rw [next] at h
      split at h
      · next hfound =>
          obtain ⟨hfresh, heq⟩ := Option.ite_none_left_eq_some.mp h
          cases heq
          exact .openSession hfound hfresh
      · nomatch h
  | openReload r token now =>
      rw [next] at h
      split at h
      · next hfound =>
          obtain ⟨hfresh, heq⟩ := Option.ite_none_left_eq_some.mp h
          cases heq
          exact .openReload hfound hfresh
      · nomatch h
  | begin r change =>
      obtain ⟨⟨hfree, hfresh⟩, heq⟩ := Option.ite_none_right_eq_some.mp h
      cases heq
      exact .begin (Option.isNone_iff_eq_none.mp hfree) hfresh
  | check r =>
      rw [next] at h
      split at h
      · next hfound =>
          obtain ⟨password, -, rfl⟩ := Option.map_eq_some_iff.mp h
          exact .check hfound
      · nomatch h
  | load r now =>
      rw [next] at h
      split at h
      · next hfound => cases h; exact .load hfound
      · nomatch h
  | write r =>
      rw [next] at h
      split at h
      · next hfound => cases h; exact .write hfound
      · nomatch h
  | revoke r =>
      rw [next] at h
      split at h
      · next hfound => cases h; exact .revoke hfound
      · nomatch h
  | abandon r =>
      obtain ⟨request, hfound, rfl⟩ := Option.map_eq_some_iff.mp h
      cases request with
      | login login => exact .abandonLogin hfound
      | change change => exact .abandonChange hfound
  | logout token => cases h; exact .logout
  | logoutReload token =>
      obtain ⟨row, -, rfl⟩ := Option.map_eq_some_iff.mp h
      exact .logoutReload
  | expire id => cases h; exact .expire
  | touch id previous now => cases h; exact .touch
  | createUser username encoded role must =>
      obtain ⟨-, heq⟩ := Option.ite_none_left_eq_some.mp h
      cases heq
      exact .createUser
  | updateUser id username role enabled =>
      obtain ⟨-, heq⟩ := Option.ite_none_left_eq_some.mp h
      cases heq
      exact .updateUser
  | deleteUser id => cases h; exact .deleteUser

end BorgManager.CredentialStore
