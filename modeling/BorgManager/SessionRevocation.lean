import BorgManager.CredentialStore

namespace BorgManager.SessionRevocation

open CredentialStore Histories

variable {rt : Runtime} {s t s' : Store} {e : Event} {r c : Nat}

def loginOf : Option Request → Option Login
  | some (.login login) => some login
  | _ => none

/-- The account that a login has read. -/
def loginUser (s : Store) (r : Nat) : Option Nat :=
  (loginOf (s.requests r)).bind (fun login => login.row.map Account.id)

def issuedToken (s : Store) (r : Nat) : Option String := (loginOf (s.requests r)).bind Login.token

def issuedReload (s : Store) (r : Nat) : Option String := (loginOf (s.requests r)).bind Login.reloadToken

def changeUser (s : Store) (c : Nat) : Option Nat :=
  match s.requests c with
  | some (.change change) => some change.change.userId
  | _ => none

inductive Label
  | selects (r : Nat)
  | writes (c : Nat)
  | revokes (c : Nat)
  deriving DecidableEq

def label : Event → Option Label
  | .select r _ => some (.selects r)
  | .write c => some (.writes c)
  | .revoke c => some (.revokes c)
  | _ => none

def trace (es : List Event) : List Label := es.filterMap label

/-- The login has read its row before the change was written, and the change
has revoked the sessions. -/
def Outdated (es : List Event) (r c : Nat) : Prop := [Label.selects r, .writes c, .revokes c].Sublist (trace es)

instance (es : List Event) (r c : Nat) : Decidable (Outdated es r c) :=
  inferInstanceAs (Decidable ([Label.selects r, .writes c, .revokes c].Sublist (trace es)))

/-- No login that was verified before a finished credential change of its
account has a session or a reload token that is accepted. -/
def LoginsEnded (rt : Runtime) (es : List Event) (s : Store) : Prop :=
  ∀ r c user token, loginUser s r = some user → changeUser s c = some user → Outdated es r c →
    issuedToken s r = some token →
      (∀ now, getSessionUser rt s token now = none) ∧
        ∀ reload, issuedReload s r = some reload →
          ∀ userAgent now, getSessionUserByReloadToken rt s reload userAgent now = none

/-- A login inserts its session before any change of its account, written since
the login has read the row, has revoked the sessions. -/
def InTime : List Event × Store → Event → Prop
  | (past, s), .openSession r _ _ => ∀ c, changeUser s c = loginUser s r → ¬ Outdated past r c
  | _, _ => True

/-- No requests and no sessions, as after the start of a new installation. -/
structure Started (s : Store) : Prop where
  requests : ∀ r, s.requests r = none
  sessions : s.sessions = []
  reloadTokens : s.reloadTokens = []

/-- The requests of a later state know what they have read and asked for. -/
def Persists (s t : Store) : Prop :=
  ∀ r, s.requests r ≠ none → t.requests r ≠ none ∧ loginUser t r = loginUser s r ∧ changeUser t r = changeUser s r

theorem persists_same (h : t.requests = s.requests) : Persists s t := by
  intro r hr
  rw [loginUser, changeUser, loginUser, changeUser, h]
  exact ⟨hr, rfl, rfl⟩

theorem persists_setLogin {login : Login} (h : s'.requests = s.requests)
    (hold : s.requests r = none ∨ ∃ old, s.requests r = some (.login old) ∧ old.row = login.row) :
    Persists s (setLogin s' r login) := by
  intro r' hr'
  rw [loginUser, changeUser, setLogin_requests, h]
  by_cases heq : r' = r
  · subst heq
    rcases hold with hnone | ⟨old, hfound, hrow⟩
    · exact absurd hnone hr'
    · rw [if_pos rfl, loginUser, changeUser, hfound, loginOf, loginOf, Option.bind_some, Option.bind_some, hrow]
      exact ⟨Option.some_ne_none _, rfl, rfl⟩
  · rw [if_neg heq]
    exact ⟨hr', rfl, rfl⟩

theorem persists_setChange {change : Change} (h : s'.requests = s.requests)
    (hold : s.requests r = none ∨ ∃ old, s.requests r = some (.change old) ∧ old.change = change.change) :
    Persists s (setChange s' r change) := by
  intro r' hr'
  rw [loginUser, changeUser, setChange_requests, h]
  by_cases heq : r' = r
  · subst heq
    rcases hold with hnone | ⟨old, hfound, hchange⟩
    · exact absurd hnone hr'
    · rw [if_pos rfl, loginUser, changeUser, hfound]
      exact ⟨Option.some_ne_none _, rfl, congrArg (fun change => some change.userId) hchange.symm⟩
  · rw [if_neg heq]
    exact ⟨hr', rfl, rfl⟩

theorem persists_of_step (h : Steps rt s e t) : Persists s t := by
  cases h with
  | select free => exact persists_setLogin rfl (.inl free)
  | verify found => exact persists_setLogin rfl (.inr ⟨_, found, rfl⟩)
  | @commit _ _ _ consumed _ _ _ found =>
      cases consumed with
      | none => exact persists_setLogin rfl (.inr ⟨_, found, rfl⟩)
      | some pair => exact persists_setLogin rfl (.inr ⟨_, found, rfl⟩)
  | openSession found fresh =>
      rw [createSession]
      split <;> exact persists_setLogin rfl (.inr ⟨_, found, rfl⟩)
  | openReload found fresh =>
      rw [createReloadToken]
      split <;> exact persists_setLogin rfl (.inr ⟨_, found, rfl⟩)
  | begin free fresh => exact persists_setChange rfl (.inl free)
  | check found => exact persists_setChange rfl (.inr ⟨_, found, rfl⟩)
  | load found => exact persists_setChange rfl (.inr ⟨_, found, rfl⟩)
  | write found => exact persists_setChange rfl (.inr ⟨_, found, rfl⟩)
  | revoke found => exact persists_setChange rfl (.inr ⟨_, found, rfl⟩)
  | abandonLogin found => exact persists_setLogin rfl (.inr ⟨_, found, rfl⟩)
  | abandonChange found => exact persists_setChange rfl (.inr ⟨_, found, rfl⟩)
  | logout | logoutReload | expire | touch | createUser | updateUser | deleteUser => exact persists_same rfl

/-- A step that opens no session and no reload token. -/
structure Follows (s t : Store) : Prop where
  sessions : ∀ x ∈ t.sessions, ∃ y ∈ s.sessions, y.id = x.id ∧ y.tokenHash = x.tokenHash ∧ y.userId = x.userId
  reloadTokens : ∀ x ∈ t.reloadTokens, x ∈ s.reloadTokens
  nextSession : t.nextSession = s.nextSession
  drawn : t.drawnTokens = s.drawnTokens
  issued : ∀ r, issuedToken t r = issuedToken s r
  issuedReload : ∀ r, issuedReload t r = issuedReload s r

structure Opens (rt : Runtime) (s : Store) (r : Nat) (token : String) (session : Session) (t : Store) : Prop where
  sessions : t.sessions = s.sessions ++ [session]
  hash : session.tokenHash = rt.sha256 token
  id : session.id = s.nextSession
  user : loginUser s r = some session.userId
  reloadTokens : t.reloadTokens = s.reloadTokens
  nextSession : t.nextSession = s.nextSession + 1
  fresh : rt.sha256 token ∉ s.drawnTokens
  drawn : t.drawnTokens = s.drawnTokens ++ [rt.sha256 token]
  unissued : issuedToken s r = none
  issued : ∀ r', issuedToken t r' = if r' = r then some token else issuedToken s r'
  issuedReload : ∀ r', issuedReload t r' = issuedReload s r'

structure OpensReload (rt : Runtime) (s : Store) (r : Nat) (sessionToken token : String) (session : Session)
    (reload : ReloadToken) (t : Store) : Prop where
  sessions : t.sessions = s.sessions
  found : session ∈ s.sessions
  sessionHash : session.tokenHash = rt.sha256 sessionToken
  sessionToken : issuedToken s r = some sessionToken
  reloadTokens : t.reloadTokens = s.reloadTokens ++ [reload]
  hash : reload.tokenHash = rt.sha256 token
  sessionId : reload.sessionId = session.id
  nextSession : t.nextSession = s.nextSession
  fresh : rt.sha256 token ∉ s.drawnTokens
  drawn : t.drawnTokens = s.drawnTokens ++ [rt.sha256 token]
  issued : ∀ r', issuedToken t r' = issuedToken s r'
  issuedReload : ∀ r', issuedReload t r' = if r' = r then some token else issuedReload s r'

theorem loginOf_setLogin (s : Store) (r : Nat) (login : Login) (r' : Nat) :
    loginOf ((setLogin s r login).requests r') = if r' = r then some login else loginOf (s.requests r') := by
  rw [setLogin_requests]
  split <;> rfl

theorem loginOf_setChange (s : Store) (r : Nat) (change : Change) (r' : Nat) :
    loginOf ((setChange s r change).requests r') = if r' = r then none else loginOf (s.requests r') := by
  rw [setChange_requests]
  split <;> rfl

/-- The tables of a step that neither opens nor issues anything. -/
structure SameTables (s t : Store) : Prop where
  sessions : ∀ x ∈ t.sessions, ∃ y ∈ s.sessions, y.id = x.id ∧ y.tokenHash = x.tokenHash ∧ y.userId = x.userId
  reloadTokens : ∀ x ∈ t.reloadTokens, x ∈ s.reloadTokens
  nextSession : t.nextSession = s.nextSession
  drawn : t.drawnTokens = s.drawnTokens
  requests : t.requests = s.requests

theorem SameTables.refl (s : Store) : SameTables s s :=
  ⟨fun x hx => ⟨x, hx, rfl, rfl, rfl⟩, fun _ hx => hx, rfl, rfl, rfl⟩

theorem sameTables_updateAccount (s : Store) (id : Nat) (f : Account → Account) : SameTables s (updateAccount s id f) :=
  ⟨fun x hx => ⟨x, hx, rfl, rfl, rfl⟩, fun _ hx => hx, rfl, rfl, rfl⟩

theorem SameTables.deleteSessions (h : SameTables s t) (p : Session → Bool) : SameTables s (deleteSessions t p) :=
  ⟨fun x hx => h.sessions x (List.mem_of_mem_filter hx), fun x hx => h.reloadTokens x (List.mem_of_mem_filter hx),
    h.nextSession, h.drawn, h.requests⟩

theorem SameTables.follows (h : SameTables s t) : Follows s t where
  sessions := h.sessions
  reloadTokens := h.reloadTokens
  nextSession := h.nextSession
  drawn := h.drawn
  issued r := by rw [issuedToken, issuedToken, h.requests]
  issuedReload r := by rw [SessionRevocation.issuedReload, SessionRevocation.issuedReload, h.requests]

theorem SameTables.setLogin {login : Login} (h : SameTables s t)
    (hold : loginOf (s.requests r) = none ∧ login.token = none ∧ login.reloadToken = none ∨
      ∃ old, loginOf (s.requests r) = some old ∧ login.token = old.token ∧ login.reloadToken = old.reloadToken) :
    Follows s (setLogin t r login) where
  sessions := h.sessions
  reloadTokens := h.reloadTokens
  nextSession := h.nextSession
  drawn := h.drawn
  issued r' := by
    rw [issuedToken, issuedToken, loginOf_setLogin, h.requests]
    split
    · next heq =>
        subst heq
        rcases hold with ⟨hnone, htoken, -⟩ | ⟨old, hfound, htoken, -⟩
        · rw [hnone, Option.bind_some, htoken]
          rfl
        · rw [hfound, Option.bind_some, htoken]
          rfl
    · rfl
  issuedReload r' := by
    rw [SessionRevocation.issuedReload, SessionRevocation.issuedReload, loginOf_setLogin, h.requests]
    split
    · next heq =>
        subst heq
        rcases hold with ⟨hnone, -, htoken⟩ | ⟨old, hfound, -, htoken⟩
        · rw [hnone, Option.bind_some, htoken]
          rfl
        · rw [hfound, Option.bind_some, htoken]
          rfl
    · rfl

theorem SameTables.setChange {change : Change} (h : SameTables s t) (hold : loginOf (s.requests r) = none) :
    Follows s (setChange t r change) where
  sessions := h.sessions
  reloadTokens := h.reloadTokens
  nextSession := h.nextSession
  drawn := h.drawn
  issued r' := by
    rw [issuedToken, issuedToken, loginOf_setChange, h.requests]
    split
    · next heq =>
        subst heq
        rw [hold]
    · rfl
  issuedReload r' := by
    rw [SessionRevocation.issuedReload, SessionRevocation.issuedReload, loginOf_setChange, h.requests]
    split
    · next heq =>
        subst heq
        rw [hold]
    · rfl

/-- Every step follows the tables it finds or opens one session or one reload
token. -/
theorem step_cases (h : Steps rt s e t) :
    Follows s t ∨ (∃ r token now session, e = .openSession r token now ∧ Opens rt s r token session t) ∨
      ∃ r sessionToken token session reload, OpensReload rt s r sessionToken token session reload t := by
  have hlogin {r : Nat} {old : Login} (hfound : s.requests r = some (.login old)) :
      loginOf (s.requests r) = some old := by
    rw [hfound]
    rfl
  have hchange {r : Nat} {old : Change} (hfound : s.requests r = some (.change old)) :
      loginOf (s.requests r) = none := by
    rw [hfound]
    rfl
  have hfree {r : Nat} (hfound : s.requests r = none) : loginOf (s.requests r) = none := by
    rw [hfound]
    rfl
  cases h with
  | select free => exact .inl ((SameTables.refl s).setLogin (.inl ⟨hfree free, rfl, rfl⟩))
  | verify found => exact .inl ((SameTables.refl s).setLogin (.inr ⟨_, hlogin found, rfl, rfl⟩))
  | @commit _ _ _ consumed _ _ _ found =>
      left
      cases consumed with
      | none => exact (SameTables.refl s).setLogin (.inr ⟨_, hlogin found, rfl, rfl⟩)
      | some pair => exact (sameTables_updateAccount ..).setLogin (.inr ⟨_, hlogin found, rfl, rfl⟩)
  | @openSession r token now input row recovery reload found fresh =>
      rw [createSession]
      split
      · right
        left
        refine ⟨r, token, now, _, rfl, rfl, rfl, rfl, ?_, rfl, rfl, fresh, rfl, ?_, fun r' => ?_, fun r' => ?_⟩
        · rw [loginUser, hlogin found]
          rfl
        · rw [issuedToken, hlogin found]
          rfl
        · rw [issuedToken, issuedToken, loginOf_setLogin]
          split <;> rfl
        · rw [SessionRevocation.issuedReload, SessionRevocation.issuedReload, loginOf_setLogin]
          split
          · next heq =>
              rw [heq, hlogin found]
              rfl
          · rfl
      · exact .inl ((SameTables.refl s).setLogin (.inr ⟨_, hlogin found, rfl, rfl⟩))
  | @openReload r token now input row recovery sessionToken reload found fresh =>
      rw [createReloadToken]
      split
      · exact .inl ((SameTables.refl s).setLogin (.inr ⟨_, hlogin found, rfl, rfl⟩))
      · next session hsession =>
          right
          right
          refine ⟨r, sessionToken, token, session, _, rfl, List.mem_of_find?_eq_some hsession, ?_, ?_, rfl, rfl, rfl,
            rfl, fresh, rfl, fun r' => ?_, fun r' => ?_⟩
          · have hhash := List.find?_some hsession
            exact beq_iff_eq.mp hhash
          · rw [issuedToken, hlogin found]
            rfl
          · rw [issuedToken, issuedToken, loginOf_setLogin]
            split
            · next heq =>
                rw [heq, hlogin found]
                rfl
            · rfl
          · rw [SessionRevocation.issuedReload, SessionRevocation.issuedReload, loginOf_setLogin]
            split <;> rfl
  | begin free fresh =>
      exact .inl
        (SameTables.setChange ⟨fun x hx => ⟨x, hx, rfl, rfl, rfl⟩, fun _ hx => hx, rfl, rfl, rfl⟩ (hfree free))
  | check found => exact .inl ((SameTables.refl s).setChange (hchange found))
  | load found => exact .inl ((SameTables.refl s).setChange (hchange found))
  | write found => exact .inl ((sameTables_updateAccount ..).setChange (hchange found))
  | revoke found => exact .inl (((SameTables.refl s).deleteSessions _).setChange (hchange found))
  | abandonLogin found => exact .inl ((SameTables.refl s).setLogin (.inr ⟨_, hlogin found, rfl, rfl⟩))
  | abandonChange found => exact .inl ((SameTables.refl s).setChange (hchange found))
  | logout | logoutReload | expire => exact .inl ((SameTables.refl s).deleteSessions _).follows
  | touch =>
      left
      apply SameTables.follows
      refine ⟨fun x hx => ?_, fun _ hx => hx, rfl, rfl, rfl⟩
      obtain ⟨y, hy, rfl⟩ := List.mem_map.mp hx
      refine ⟨y, hy, ?_⟩
      rw [touchSession]
      split <;> exact ⟨rfl, rfl, rfl⟩
  | createUser => exact .inl (SameTables.follows ⟨fun x hx => ⟨x, hx, rfl, rfl, rfl⟩, fun _ hx => hx, rfl, rfl, rfl⟩)
  | updateUser => exact .inl (sameTables_updateAccount ..).follows
  | deleteUser =>
      left
      apply SameTables.follows
      apply SameTables.deleteSessions
      exact ⟨fun x hx => ⟨x, hx, rfl, rfl, rfl⟩, fun _ hx => hx, rfl, rfl, rfl⟩

/-- Tokens are drawn once, and every session and reload token belongs to the
login whose token opens it. -/
structure TokensOwned (rt : Runtime) (s : Store) : Prop where
  issuedDrawn : ∀ r token, issuedToken s r = some token → rt.sha256 token ∈ s.drawnTokens
  issuedReloadDrawn : ∀ r token, issuedReload s r = some token → rt.sha256 token ∈ s.drawnTokens
  sessionDrawn : ∀ x ∈ s.sessions, x.tokenHash ∈ s.drawnTokens
  reloadDrawn : ∀ x ∈ s.reloadTokens, x.tokenHash ∈ s.drawnTokens
  sessionBelow : ∀ x ∈ s.sessions, x.id < s.nextSession
  reloadBelow : ∀ x ∈ s.reloadTokens, x.sessionId < s.nextSession
  sessionUnique : ∀ x ∈ s.sessions, ∀ y ∈ s.sessions, x.id = y.id → x.tokenHash = y.tokenHash
  owner : ∀ r token, issuedToken s r = some token → ∀ x ∈ s.sessions, x.tokenHash = rt.sha256 token →
    loginUser s r = some x.userId
  reloadOwner : ∀ r token, issuedReload s r = some token → ∀ x ∈ s.reloadTokens, x.tokenHash = rt.sha256 token →
    ∃ sessionToken, issuedToken s r = some sessionToken ∧
      ∀ y ∈ s.sessions, y.id = x.sessionId → y.tokenHash = rt.sha256 sessionToken

theorem tokensOwned_started (h : Started s) : TokensOwned rt s := by
  have hnone (r : Nat) : loginOf (s.requests r) = none := by rw [h.requests r]; rfl
  have hissued (r : Nat) (token : String) : issuedToken s r ≠ some token := by
    rw [issuedToken, hnone r, Option.bind_none]
    exact (Option.some_ne_none _).symm
  have hreload (r : Nat) (token : String) : issuedReload s r ≠ some token := by
    rw [issuedReload, hnone r, Option.bind_none]
    exact (Option.some_ne_none _).symm
  constructor
  · exact fun r token htoken => absurd htoken (hissued r token)
  · exact fun r token htoken => absurd htoken (hreload r token)
  · rw [h.sessions]
    exact fun x hx => absurd hx List.not_mem_nil
  · rw [h.reloadTokens]
    exact fun x hx => absurd hx List.not_mem_nil
  · rw [h.sessions]
    exact fun x hx => absurd hx List.not_mem_nil
  · rw [h.reloadTokens]
    exact fun x hx => absurd hx List.not_mem_nil
  · rw [h.sessions]
    exact fun x hx => absurd hx List.not_mem_nil
  · exact fun r token htoken => absurd htoken (hissued r token)
  · exact fun r token htoken => absurd htoken (hreload r token)

/-- A request that has issued a token is there. -/
theorem requests_of_issued {token : String} (h : issuedToken s r = some token) : s.requests r ≠ none := by
  intro hnone
  rw [issuedToken, hnone] at h
  nomatch h

theorem TokensOwned.follows (hs : TokensOwned rt s) (h : Follows s t) (hpersists : Persists s t) :
    TokensOwned rt t where
  issuedDrawn r token htoken := by
    rw [h.drawn]
    exact hs.issuedDrawn r token (h.issued r ▸ htoken)
  issuedReloadDrawn r token htoken := by
    rw [h.drawn]
    exact hs.issuedReloadDrawn r token (h.issuedReload r ▸ htoken)
  sessionDrawn x hx := by
    obtain ⟨y, hy, -, hhash, -⟩ := h.sessions x hx
    rw [h.drawn, ← hhash]
    exact hs.sessionDrawn y hy
  reloadDrawn x hx := by
    rw [h.drawn]
    exact hs.reloadDrawn x (h.reloadTokens x hx)
  sessionBelow x hx := by
    obtain ⟨y, hy, hid, -⟩ := h.sessions x hx
    rw [h.nextSession, ← hid]
    exact hs.sessionBelow y hy
  reloadBelow x hx := by
    rw [h.nextSession]
    exact hs.reloadBelow x (h.reloadTokens x hx)
  sessionUnique x hx y hy heq := by
    obtain ⟨x', hx', hid, hhash, -⟩ := h.sessions x hx
    obtain ⟨y', hy', hid', hhash', -⟩ := h.sessions y hy
    rw [← hhash, ← hhash']
    exact hs.sessionUnique x' hx' y' hy' (hid.trans (heq.trans hid'.symm))
  owner r token htoken x hx hhash := by
    rw [h.issued r] at htoken
    obtain ⟨y, hy, -, hsame, huser⟩ := h.sessions x hx
    rw [(hpersists r (requests_of_issued htoken)).2.1, ← huser]
    exact hs.owner r token htoken y hy (hsame.trans hhash)
  reloadOwner r token htoken x hx hhash := by
    rw [h.issuedReload r] at htoken
    obtain ⟨sessionToken, hissued, hsessions⟩ := hs.reloadOwner r token htoken x (h.reloadTokens x hx) hhash
    refine ⟨sessionToken, (h.issued r).trans hissued, fun y hy hid => ?_⟩
    obtain ⟨y', hy', hid', hsame, -⟩ := h.sessions y hy
    rw [← hsame]
    exact hsessions y' hy' (hid'.trans hid)

theorem TokensOwned.opens {token : String} {session : Session} (hs : TokensOwned rt s)
    (h : Opens rt s r token session t) (hpersists : Persists s t) : TokensOwned rt t := by
  have hmem (x : Session) (hx : x ∈ t.sessions) : x ∈ s.sessions ∨ x = session := by
    rw [h.sessions] at hx
    exact (List.mem_append.mp hx).imp_right List.mem_singleton.mp
  have hissued (r' : Nat) (token' : String) (htoken : issuedToken t r' = some token') :
      (r' = r ∧ token' = token) ∨ issuedToken s r' = some token' := by
    rw [h.issued r'] at htoken
    split at htoken
    · next heq => exact .inl ⟨heq, (Option.some.inj htoken).symm⟩
    · exact .inr htoken
  have hdrawn (hash : String) (hmem : hash ∈ s.drawnTokens) : hash ∈ t.drawnTokens := by
    rw [h.drawn]
    exact List.mem_append_left _ hmem
  have hnew : rt.sha256 token ∈ t.drawnTokens := by
    rw [h.drawn]
    exact List.mem_append_right _ (List.mem_singleton_self _)
  have huser : loginUser t r = some session.userId := by
    have hfound : s.requests r ≠ none := by
      intro hnone
      have huser := h.user
      rw [loginUser, hnone] at huser
      nomatch huser
    rw [(hpersists r hfound).2.1, h.user]
  constructor
  · intro r' token' htoken
    rcases hissued r' token' htoken with ⟨-, rfl⟩ | hold
    · exact hnew
    · exact hdrawn _ (hs.issuedDrawn r' token' hold)
  · intro r' token' htoken
    rw [h.issuedReload r'] at htoken
    exact hdrawn _ (hs.issuedReloadDrawn r' token' htoken)
  · intro x hx
    rcases hmem x hx with hx | rfl
    · exact hdrawn _ (hs.sessionDrawn x hx)
    · rw [h.hash]
      exact hnew
  · intro x hx
    rw [h.reloadTokens] at hx
    exact hdrawn _ (hs.reloadDrawn x hx)
  · intro x hx
    rw [h.nextSession]
    rcases hmem x hx with hx | rfl
    · exact Nat.lt_succ_of_lt (hs.sessionBelow x hx)
    · rw [h.id]
      exact Nat.lt_succ_self _
  · intro x hx
    rw [h.reloadTokens] at hx
    rw [h.nextSession]
    exact Nat.lt_succ_of_lt (hs.reloadBelow x hx)
  · intro x hx y hy heq
    have hid := h.id
    rcases hmem x hx with hx | rfl <;> rcases hmem y hy with hy | rfl
    · exact hs.sessionUnique x hx y hy heq
    · have hlt := hs.sessionBelow x hx
      omega
    · have hlt := hs.sessionBelow y hy
      omega
    · rfl
  · intro r' token' htoken x hx hhash
    rcases hissued r' token' htoken with ⟨rfl, rfl⟩ | hold
    · rcases hmem x hx with hx | rfl
      · exact absurd (hhash ▸ hs.sessionDrawn x hx) h.fresh
      · exact huser
    · rw [(hpersists r' (requests_of_issued hold)).2.1]
      rcases hmem x hx with hx | rfl
      · exact hs.owner r' token' hold x hx hhash
      · rw [h.hash] at hhash
        exact absurd (hhash ▸ hs.issuedDrawn r' token' hold) h.fresh
  · intro r' token' htoken x hx hhash
    rw [h.issuedReload r'] at htoken
    rw [h.reloadTokens] at hx
    obtain ⟨sessionToken, hold, hsessions⟩ := hs.reloadOwner r' token' htoken x hx hhash
    refine ⟨sessionToken, ?_, fun y hy hid => ?_⟩
    · rw [h.issued r', if_neg]
      · exact hold
      · rintro rfl
        rw [h.unissued] at hold
        nomatch hold
    · rcases hmem y hy with hy | rfl
      · exact hsessions y hy hid
      · have hlt := hs.reloadBelow x hx
        have hnext := h.id
        omega

theorem TokensOwned.opensReload {sessionToken token : String} {session : Session} {reload : ReloadToken}
    (hs : TokensOwned rt s) (h : OpensReload rt s r sessionToken token session reload t) (hpersists : Persists s t) :
    TokensOwned rt t := by
  have hmem (x : ReloadToken) (hx : x ∈ t.reloadTokens) : x ∈ s.reloadTokens ∨ x = reload := by
    rw [h.reloadTokens] at hx
    exact (List.mem_append.mp hx).imp_right List.mem_singleton.mp
  have hissued (r' : Nat) (token' : String) (htoken : issuedReload t r' = some token') :
      (r' = r ∧ token' = token) ∨ issuedReload s r' = some token' := by
    rw [h.issuedReload r'] at htoken
    split at htoken
    · next heq => exact .inl ⟨heq, (Option.some.inj htoken).symm⟩
    · exact .inr htoken
  have hdrawn (hash : String) (hmem : hash ∈ s.drawnTokens) : hash ∈ t.drawnTokens := by
    rw [h.drawn]
    exact List.mem_append_left _ hmem
  have hnew : rt.sha256 token ∈ t.drawnTokens := by
    rw [h.drawn]
    exact List.mem_append_right _ (List.mem_singleton_self _)
  constructor
  · intro r' token' htoken
    rw [h.issued r'] at htoken
    exact hdrawn _ (hs.issuedDrawn r' token' htoken)
  · intro r' token' htoken
    rcases hissued r' token' htoken with ⟨-, rfl⟩ | hold
    · exact hnew
    · exact hdrawn _ (hs.issuedReloadDrawn r' token' hold)
  · intro x hx
    rw [h.sessions] at hx
    exact hdrawn _ (hs.sessionDrawn x hx)
  · intro x hx
    rcases hmem x hx with hx | rfl
    · exact hdrawn _ (hs.reloadDrawn x hx)
    · rw [h.hash]
      exact hnew
  · intro x hx
    rw [h.sessions] at hx
    rw [h.nextSession]
    exact hs.sessionBelow x hx
  · intro x hx
    rw [h.nextSession]
    rcases hmem x hx with hx | rfl
    · exact hs.reloadBelow x hx
    · rw [h.sessionId]
      exact hs.sessionBelow session h.found
  · rw [h.sessions]
    exact hs.sessionUnique
  · intro r' token' htoken x hx hhash
    rw [h.issued r'] at htoken
    rw [h.sessions] at hx
    rw [(hpersists r' (requests_of_issued htoken)).2.1]
    exact hs.owner r' token' htoken x hx hhash
  · intro r' token' htoken x hx hhash
    rw [h.sessions, h.issued r']
    rcases hissued r' token' htoken with ⟨rfl, rfl⟩ | hold
    · rcases hmem x hx with hx | rfl
      · exact absurd (hhash ▸ hs.reloadDrawn x hx) h.fresh
      · refine ⟨sessionToken, h.sessionToken, fun y hy hid => ?_⟩
        rw [← h.sessionHash]
        exact hs.sessionUnique y hy session h.found (hid.trans h.sessionId)
    · rcases hmem x hx with hx | rfl
      · exact hs.reloadOwner r' token' hold x hx hhash
      · rw [h.hash] at hhash
        exact absurd (hhash ▸ hs.issuedReloadDrawn r' token' hold) h.fresh

theorem TokensOwned.step (hs : TokensOwned rt s) (h : Steps rt s e t) : TokensOwned rt t := by
  rcases step_cases h with
    hfollows | ⟨r, token, now, session, -, hopens⟩ | ⟨r, sessionToken, token, session, reload, hopens⟩
  · exact hs.follows hfollows (persists_of_step h)
  · exact hs.opens hopens (persists_of_step h)
  · exact hs.opensReload hopens (persists_of_step h)

/-- What the past of a run leaves in the store: every labelled request is there,
and no session belongs to an outdated login. -/
structure Ended (rt : Runtime) (past : List Event) (s : Store) : Prop where
  owned : TokensOwned rt s
  selected : ∀ r, Label.selects r ∈ trace past → s.requests r ≠ none
  written : ∀ c, Label.writes c ∈ trace past → s.requests c ≠ none
  closed : ∀ r c user token, loginUser s r = some user → changeUser s c = some user → Outdated past r c →
    issuedToken s r = some token → ∀ x ∈ s.sessions, x.tokenHash ≠ rt.sha256 token

theorem trace_snoc (past : List Event) (e : Event) : trace (past ++ [e]) = trace past ++ (label e).toList := by
  rw [trace, trace, List.filterMap_append, List.filterMap_cons]
  cases label e <;> rfl

theorem label_of_mem_trace_snoc {past : List Event} {l : Label} (h : l ∈ trace (past ++ [e])) :
    l ∈ trace past ∨ label e = some l := by
  rw [trace_snoc] at h
  exact (List.mem_append.mp h).imp_right Option.mem_toList.mp

/-- A change becomes a reason to end a login by its revocation only. -/
theorem outdated_snoc {past : List Event} (h : Outdated (past ++ [e]) r c) :
    Outdated past r c ∨ (e = .revoke c ∧ [Label.selects r, .writes c].Sublist (trace past)) := by
  rw [Outdated, trace_snoc] at h
  cases hlabel : label e with
  | none =>
      rw [hlabel, Option.toList_none, List.append_nil] at h
      exact .inl h
  | some l =>
      rw [hlabel, Option.toList_some] at h
      have hsnoc : ([Label.selects r, .writes c] ++ [Label.revokes c]).Sublist (trace past ++ [l]) := h
      rcases sublist_snoc hsnoc with hbefore | ⟨heq, hbefore⟩
      · exact .inl hbefore
      · right
        refine ⟨?_, hbefore⟩
        cases heq
        cases e with
        | revoke c' => cases hlabel; rfl
        | select | write => nomatch hlabel
        | verify | commit | openSession | openReload | begin | check | load | abandon | logout | logoutReload | expire
        | touch | createUser | updateUser | deleteUser => nomatch hlabel

theorem request_of_label (h : Steps rt s e t) : (∀ r, label e = some (.selects r) → t.requests r ≠ none) ∧
    ∀ c, label e = some (.writes c) → t.requests c ≠ none := by
  constructor
  · intro r hlabel
    cases h with
    | select free =>
        cases hlabel
        rw [setLogin_requests, if_pos rfl]
        exact Option.some_ne_none _
    | _ => nomatch hlabel
  · intro c hlabel
    cases h with
    | write found =>
        cases hlabel
        rw [setChange_requests, if_pos rfl]
        exact Option.some_ne_none _
    | _ => nomatch hlabel

/-- A revocation leaves no session of its user. -/
theorem revoked_sessions {user : Nat} (h : Steps rt s (.revoke c) t) (huser : changeUser t c = some user) :
    (∀ x ∈ t.sessions, x.userId ≠ user) := by
  cases h with
  | @revoke _ change found =>
      rw [changeUser, setChange_requests, if_pos rfl] at huser
      cases huser
      intro x hx heq
      have hkept : (!(x.userId == change.userId)) = true := (List.mem_filter.mp hx).2
      rw [beq_iff_eq.mpr heq] at hkept
      nomatch hkept

theorem ended_started (h : Started s) : Ended rt [] s where
  owned := tokensOwned_started h
  selected _ hr := absurd hr List.not_mem_nil
  written _ hc := absurd hc List.not_mem_nil
  closed _ _ _ _ _ _ houtdated := nomatch houtdated

theorem Ended.step {past : List Event} (hs : Ended rt past s) (h : Steps rt s e t) (hintime : InTime (past, s) e) :
    Ended rt (past ++ [e]) t := by
  have hpersists := persists_of_step h
  have howned := hs.owned.step h
  obtain ⟨hselects, hwrites⟩ := request_of_label h
  refine ⟨howned, ?_, ?_, ?_⟩
  · intro r hr
    rcases label_of_mem_trace_snoc hr with hold | hnew
    · exact (hpersists r (hs.selected r hold)).1
    · exact hselects r hnew
  · intro c hc
    rcases label_of_mem_trace_snoc hc with hold | hnew
    · exact (hpersists c (hs.written c hold)).1
    · exact hwrites c hnew
  · intro r c user token hlogin hchange houtdated hissued x hx hhash
    rcases outdated_snoc houtdated with hbefore | ⟨rfl, hbefore⟩
    · -- the change had revoked before this step
      obtain ⟨-, holdLogin, -⟩ := hpersists r (hs.selected r (hbefore.subset (List.mem_cons_self ..)))
      obtain ⟨-, -, holdChange⟩ := hpersists c
        (hs.written c (hbefore.subset (List.mem_cons_of_mem _ (List.mem_cons_self ..))))
      rw [holdLogin] at hlogin
      rw [holdChange] at hchange
      rcases step_cases h with hfollows | ⟨r', token', now, session, rfl, hopens⟩ | ⟨_, _, _, _, _, hopens⟩
      · obtain ⟨y, hy, -, hsame, -⟩ := hfollows.sessions x hx
        exact hs.closed r c user token hlogin hchange hbefore (hfollows.issued r ▸ hissued) y hy (hsame.trans hhash)
      · rw [hopens.issued r] at hissued
        split at hissued
        · next heq =>
            subst heq
            exact hintime c (hchange.trans hlogin.symm) hbefore
        · rw [hopens.sessions] at hx
          rcases List.mem_append.mp hx with hx | hx
          · exact hs.closed r c user token hlogin hchange hbefore hissued x hx hhash
          · rw [List.mem_singleton.mp hx, hopens.hash] at hhash
            exact hopens.fresh (hhash ▸ hs.owned.issuedDrawn r token hissued)
      · rw [hopens.sessions] at hx
        exact hs.closed r c user token hlogin hchange hbefore (hopens.issued r ▸ hissued) x hx hhash
    · -- this step is the revocation
      have hself := howned.owner r token hissued x hx hhash
      rw [hlogin] at hself
      exact revoked_sessions h hchange x hx (Option.some.inj hself).symm

/-- Without a session of its token no token of a login is accepted. -/
theorem not_accepted {token : String} (hs : TokensOwned rt s) (hissued : issuedToken s r = some token)
    (hclosed : ∀ x ∈ s.sessions, x.tokenHash ≠ rt.sha256 token) :
    (∀ now, getSessionUser rt s token now = none) ∧
      ∀ reload, issuedReload s r = some reload → ∀ userAgent now,
        getSessionUserByReloadToken rt s reload userAgent now = none := by
  constructor
  · intro now
    have hnone : s.sessions.find? (fun session => session.tokenHash == rt.sha256 token) = none := by
      rw [List.find?_eq_none]
      intro x hx heq
      exact hclosed x hx (beq_iff_eq.mp heq)
    rw [getSessionUser, hnone]
    exact ite_self _
  · intro reload hreload userAgent now
    rw [getSessionUserByReloadToken]
    split
    · rfl
    split
    · rfl
    next row hrow =>
    have hhash := List.find?_some hrow
    obtain ⟨sessionToken, hsession, hsessions⟩ :=
      hs.reloadOwner r reload hreload row (List.mem_of_find?_eq_some hrow) (beq_iff_eq.mp hhash)
    rw [hissued] at hsession
    cases hsession
    split
    · rfl
    next session hfound =>
    have hid := List.find?_some hfound
    have hmem := List.mem_of_find?_eq_some hfound
    exact absurd (hsessions session hmem (beq_iff_eq.mp hid)) (hclosed session hmem)

/-- As long as every login inserts its session in time, a finished change of the
credentials ends all logins that were verified before it. -/
theorem credential_changes_end_logins {s₀ : Store} (h₀ : Started s₀) {es : List Event} {past : List Event}
    (h : History (meeting (recording (graph (next rt))) InTime) ([], s₀) es (past, s)) :
    History (graph (next rt)) s₀ es s ∧ LoginsEnded rt es s := by
  obtain ⟨hpast, hhistory⟩ := h.recorded
  have hended : Ended rt past s := by
    refine h.invariant (fun a => Ended rt a.1 a.2) (ended_started h₀) ?_
    rintro ⟨fs, a⟩ e ⟨gs, b⟩ ha ⟨⟨hrecord, hstep⟩, hintime⟩
    cases hrecord
    exact ha.step (steps_of_next hstep) hintime
  cases hpast
  refine ⟨hhistory, fun r c user token hlogin hchange houtdated hissued => ?_⟩
  exact not_accepted hended.owned hissued (hended.closed r c user token hlogin hchange houtdated hissued)

/-- Passwords and codes in plain text, and sessions of twelve hours. -/
def exampleRuntime : Runtime where
  verifyPassword password encoded := encoded == password
  decryptValue := .ok
  verifyTotp secret code _ := code == secret
  normalizeRecoveryCode := id
  hashRecoveryCode := id
  sha256 := id
  sessionTtl := 43200
  idleTimeout := 43200

def exampleAccount : Account :=
  ⟨1, "admin", "old password", "admin", true, false, some "de", some "auto", false, none, []⟩

def exampleStore : Store := ⟨[exampleAccount], [], [], 2, 1, [], [], fun _ => none⟩

theorem exampleStore_started : Started exampleStore := ⟨fun _ => rfl, rfl, rfl⟩

def oldLogin : LoginIn := ⟨"admin", "old password", none, none⟩

def passwordReset : CredentialChange := .setPassword 1 "new password" true

theorem credential_changes_end_logins_reset :
    ∃ s, History (graph (next exampleRuntime)) exampleStore
        [.select 1 oldLogin, .verify 1 0, .commit 1, .openSession 1 "token" 0, .begin 2 passwordReset, .write 2,
          .revoke 2] s ∧
      LoginsEnded exampleRuntime
        [.select 1 oldLogin, .verify 1 0, .commit 1, .openSession 1 "token" 0, .begin 2 passwordReset, .write 2,
          .revoke 2] s := by
  have hintime (s : Store) :
      InTime ([.select 1 oldLogin, .verify 1 0, .commit 1], s) (.openSession 1 "token" 0) := by
    intro c _ houtdated
    have hlength := houtdated.length_le
    exact absurd (show 3 ≤ 1 from hlength) (by decide)
  exact ⟨_, credential_changes_end_logins exampleStore_started
    (.record rfl trivial (.record rfl trivial (.record rfl trivial (.record rfl (hintime _)
      (.record rfl trivial (.record rfl trivial (.record rfl trivial (.nil _))))))))⟩

/-- The password is reset, with all sessions revoked, between the commit of a
login with the old password and the insertion of its session. -/
def overtakenLogin : List Event :=
  [.select 1 oldLogin, .verify 1 0, .commit 1, .begin 2 passwordReset, .write 2, .revoke 2, .openSession 1 "token" 0]

theorem old_login_survives :
    ¬ ∀ s₀ es s, Started s₀ → History (graph (next exampleRuntime)) s₀ es s → LoginsEnded exampleRuntime es s := by
  intro hall
  let s := (exec (next exampleRuntime) exampleStore overtakenLogin).get (by decide)
  have h : History (graph (next exampleRuntime)) exampleStore overtakenLogin s :=
    history_of_exec (Option.some_get _).symm
  have hended := hall exampleStore overtakenLogin s exampleStore_started h 1 2 1 "token" (by decide)
    (by decide) (by decide)
    (by decide)
  have haccepted : (getSessionUser exampleRuntime s "token" 60).isSome = true := by decide
  rw [hended.1 60] at haccepted
  nomatch haccepted

end BorgManager.SessionRevocation
