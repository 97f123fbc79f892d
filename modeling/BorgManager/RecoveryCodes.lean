import BorgManager.SessionRevocation

namespace BorgManager.RecoveryCodes

open CredentialStore Histories SessionRevocation

variable {rt : Runtime} {s t : Store} {e : Event} {r c : Nat}

/-- The stored hashes of the codes that a request has drawn. -/
def generated (rt : Runtime) (s : Store) (c : Nat) : List String :=
  match s.requests c with
  | some (.change change) => change.change.codes.map rt.hashRecoveryCode
  | _ => []

def pendingPhase : ChangePhase → Bool
  | .checking => true
  | .loading => true
  | .writing => true
  | _ => false

/-- The change has not written yet. -/
def Pending (s : Store) (c : Nat) : Prop :=
  ∃ change, s.requests c = some (.change change) ∧ pendingPhase change.phase = true

/-- The recovery code that a login has authenticated with. -/
def usedCode (s : Store) (r : Nat) : Option String := (loginOf (s.requests r)).bind Login.recovery

def columnAsRead (s : Store) : Option Request → Bool
  | some (.login ⟨_, some row, .verified (some _), _, _, _⟩) =>
      (findAccount s row.id).any (fun account => account.recoveryCodes == row.recoveryCodes)
  | _ => true

/-- A login that writes a shortened list finds the column as it has read it. -/
def ColumnAsRead (s : Store) : Event → Prop
  | .commit r => columnAsRead s (s.requests r) = true
  | _ => True

instance (s : Store) : (e : Event) → Decidable (ColumnAsRead s e)
  | .commit r => inferInstanceAs (Decidable (columnAsRead s (s.requests r) = true))
  | .select _ _ | .verify _ _ | .openSession _ _ _ | .openReload _ _ _ | .begin _ _ | .check _ | .load _ _
  | .write _ | .revoke _
  | .abandon _ | .logout _ | .logoutReload _ | .expire _ | .touch _ _ _ | .createUser _ _ _ _ | .updateUser _ _ _ _
  | .deleteUser _ => .isTrue trivial

/-- The changes that write the whole column. -/
def CredentialChange.replacesCodes : CredentialChange → Bool
  | .setPassword _ _ _ => false
  | .changeOwnPassword _ _ _ => false
  | .confirmTwoFactorSetup _ _ => false
  | _ => true

/-- Where the column of an account comes from. -/
inductive ColumnSource (rt : Runtime) (s : Store) (e : Event) (t : Store) (a : Account) : Prop
  | kept (mem : a.recoveryCodes = [] ∨ ∃ b ∈ s.accounts, b.id = a.id ∧ b.recoveryCodes = a.recoveryCodes)
  | replaced (c : Nat) (event : e = .write c) (user : changeUser t c = some a.id)
      (codes : a.recoveryCodes = generated rt s c)
      (pending : Pending s c) (written : ¬ Pending t c)
  | consumed (r : Nat) (login : Login) (row : Account) (code : String) (rest : List String) (event : e = .commit r)
      (found : s.requests r = some (.login login)) (read : login.row = some row)
      (phase : login.phase = .verified (some (code, rest))) (own : a.id = row.id) (codes : a.recoveryCodes = rest)

theorem mem_updateAccount {id : Nat} {f : Account → Account} {a : Account} (h : a ∈ (updateAccount s id f).accounts) :
    ∃ b ∈ s.accounts, (b.id = id ∧ a = f b) ∨ (b.id ≠ id ∧ a = b) := by
  obtain ⟨b, hb, rfl⟩ := List.mem_map.mp h
  refine ⟨b, hb, ?_⟩
  by_cases hid : b.id = id
  · exact .inl ⟨hid, if_pos hid⟩
  · exact .inr ⟨hid, if_neg hid⟩

theorem applyChange_id (current : Account) (change : CredentialChange) :
    (applyChange rt current change).id = current.id := by
  cases change <;> rfl

/-- A change replaces the column by the codes it has drawn or leaves it alone. -/
theorem applyChange_codes (current : Account) (change : CredentialChange) :
    (applyChange rt current change).recoveryCodes =
      if CredentialChange.replacesCodes change then change.codes.map rt.hashRecoveryCode
        else current.recoveryCodes := by
  cases change <;> rfl

theorem not_pending_answered {change : Change} (hphase : pendingPhase change.phase = false) (s : Store) :
    ¬ Pending (setChange s c change) c := by
  rintro ⟨other, hfound, hpending⟩
  rw [setChange_requests, if_pos rfl] at hfound
  cases hfound
  rw [hphase] at hpending
  nomatch hpending

theorem afterWrite_not_pending (s : Store) (change : CredentialChange) :
    pendingPhase (afterWrite s change) = false := by
  unfold afterWrite
  split
  · rfl
  · split <;> rfl

theorem kept_of_mem {a : Account} (h : a ∈ s.accounts) : ColumnSource rt s e t a := .kept (.inr ⟨a, h, rfl, rfl⟩)

theorem column_of_step (h : Steps rt s e t) {a : Account} (ha : a ∈ t.accounts) : ColumnSource rt s e t a := by
  cases h with
  | select | verify | begin | check | load | revoke | abandonLogin | abandonChange | logout | logoutReload
  | expire | touch =>
      exact kept_of_mem ha
  | @commit r input row consumed recovery token reload found =>
      cases consumed with
      | none => exact kept_of_mem ha
      | some pair =>
          obtain ⟨b, hb, ⟨hid, rfl⟩ | ⟨-, rfl⟩⟩ := mem_updateAccount ha
          · exact .consumed r _ row pair.1 pair.2 rfl found rfl rfl hid rfl
          · exact kept_of_mem hb
  | openSession found fresh =>
      rw [createSession] at ha
      split at ha <;> exact kept_of_mem ha
  | openReload found fresh =>
      rw [createReloadToken] at ha
      split at ha <;> exact kept_of_mem ha
  | @write c change found =>
      obtain ⟨b, hb, ⟨hid, rfl⟩ | ⟨-, rfl⟩⟩ := mem_updateAccount ha
      · have hcodes : (applyChange rt b change).recoveryCodes = _ := applyChange_codes b change
        split at hcodes
        · refine .replaced c rfl ?_ ?_ ⟨_, found, rfl⟩ (not_pending_answered (afterWrite_not_pending s change) _)
          · rw [changeUser, setChange_requests, if_pos rfl, applyChange_id, hid]
          · rw [generated, found, hcodes]
        · exact .kept (.inr ⟨b, hb, (applyChange_id b change).symm, hcodes.symm⟩)
      · exact kept_of_mem hb
  | createUser =>
      rcases List.mem_append.mp ha with ha | ha
      · exact kept_of_mem ha
      · rw [List.mem_singleton.mp ha]
        exact .kept (.inl rfl)
  | updateUser =>
      obtain ⟨b, hb, ⟨-, rfl⟩ | ⟨-, rfl⟩⟩ := mem_updateAccount ha
      · exact .kept (.inr ⟨b, hb, rfl, rfl⟩)
      · exact kept_of_mem hb
  | deleteUser => exact kept_of_mem (List.mem_of_mem_filter ha)

/-- A step that draws no codes. -/
structure CodesKept (rt : Runtime) (s t : Store) : Prop where
  generated : ∀ c, generated rt t c = generated rt s c
  pending : ∀ c, Pending t c → Pending s c
  drawn : t.drawnCodes = s.drawnCodes

theorem codesKept_same {u : Store} (hrequests : u.requests = s.requests) (hdrawn : u.drawnCodes = s.drawnCodes) :
    CodesKept rt s u where
  generated c := by rw [RecoveryCodes.generated, RecoveryCodes.generated, hrequests]
  pending c := by
    rw [Pending, Pending, hrequests]
    exact id
  drawn := hdrawn

theorem codesKept_setLogin {u : Store} {login : Login} (hrequests : u.requests = s.requests)
    (hdrawn : u.drawnCodes = s.drawnCodes) (hfound : s.requests r = none ∨ ∃ old, s.requests r = some (.login old)) :
    CodesKept rt s (setLogin u r login) where
  generated c := by
    rw [RecoveryCodes.generated, RecoveryCodes.generated, setLogin_requests, hrequests]
    by_cases heq : c = r
    · rw [if_pos heq, heq]
      rcases hfound with hnone | ⟨old, hold⟩
      · rw [hnone]
      · rw [hold]
    · rw [if_neg heq]
  pending c := by
    rintro ⟨change, hchange, hpending⟩
    rw [setLogin_requests, hrequests] at hchange
    split at hchange
    · nomatch hchange
    · exact ⟨change, hchange, hpending⟩
  drawn := hdrawn

theorem codesKept_setChange {u : Store} {old change : Change} (hrequests : u.requests = s.requests)
    (hdrawn : u.drawnCodes = s.drawnCodes) (hfound : s.requests c = some (.change old))
    (hsame : change.change = old.change) (hpending : pendingPhase change.phase = true →
      pendingPhase old.phase = true) : CodesKept rt s (setChange u c change) where
  generated c' := by
    rw [RecoveryCodes.generated, RecoveryCodes.generated, setChange_requests, hrequests]
    by_cases heq : c' = c
    · rw [if_pos heq, heq, hfound]
      exact congrArg (fun change : CredentialChange => change.codes.map rt.hashRecoveryCode) hsame
    · rw [if_neg heq]
  pending c' := by
    rintro ⟨other, hother, hphase⟩
    rw [setChange_requests, hrequests] at hother
    split at hother
    · next heq =>
        subst heq
        cases hother
        exact ⟨old, hfound, hpending hphase⟩
    · exact ⟨other, hother, hphase⟩
  drawn := hdrawn

theorem codes_of_step (h : Steps rt s e t) : CodesKept rt s t ∨
    ∃ c change, s.requests c = none ∧ FreshCodes rt s change.codes ∧ t = beginChange rt s c change := by
  cases h with
  | select free => exact .inl (codesKept_setLogin rfl rfl (.inl free))
  | verify found | abandonLogin found => exact .inl (codesKept_setLogin rfl rfl (.inr ⟨_, found⟩))
  | @commit _ _ _ consumed _ _ _ found =>
      left
      cases consumed with
      | none => exact codesKept_setLogin rfl rfl (.inr ⟨_, found⟩)
      | some pair => exact codesKept_setLogin rfl rfl (.inr ⟨_, found⟩)
  | openSession found fresh =>
      left
      rw [createSession]
      split <;> exact codesKept_setLogin rfl rfl (.inr ⟨_, found⟩)
  | openReload found fresh =>
      left
      rw [createReloadToken]
      split <;> exact codesKept_setLogin rfl rfl (.inr ⟨_, found⟩)
  | @begin c change free fresh => exact .inr ⟨c, change, free, fresh, rfl⟩
  | check found | load found => exact .inl (codesKept_setChange rfl rfl found rfl (fun _ => rfl))
  | @write c change found =>
      refine .inl (codesKept_setChange rfl rfl found rfl ?_)
      intro hpending
      rw [afterWrite_not_pending] at hpending
      cases hpending
  | revoke found | abandonChange found => exact .inl (codesKept_setChange rfl rfl found rfl (by rintro ⟨⟩))
  | logout | logoutReload | expire | touch | createUser | updateUser | deleteUser => exact .inl (codesKept_same rfl rfl)

theorem generated_beginChange (s : Store) (c : Nat) (change : CredentialChange) (c' : Nat) :
    generated rt (beginChange rt s c change) c' =
      if c' = c then change.codes.map rt.hashRecoveryCode else generated rt s c' := by
  rw [generated, generated, beginChange, setChange_requests]
  by_cases heq : c' = c
  · rw [if_pos heq, if_pos heq]
  · rw [if_neg heq, if_neg heq]

/-- Codes are drawn once, for one request. -/
structure CodesDrawn (rt : Runtime) (s : Store) : Prop where
  drawn : ∀ c, ∀ code ∈ generated rt s c, code ∈ s.drawnCodes
  nodup : ∀ c, (generated rt s c).Nodup
  disjoint : ∀ c c' code, code ∈ generated rt s c → code ∈ generated rt s c' → c = c'

theorem CodesDrawn.step (hs : CodesDrawn rt s) (h : Steps rt s e t) : CodesDrawn rt t := by
  rcases codes_of_step h with hkept | ⟨c, change, hfree, ⟨hnodup, hfresh⟩, rfl⟩
  · constructor
    · intro c code hcode
      rw [hkept.drawn]
      exact hs.drawn c code (hkept.generated c ▸ hcode)
    · intro c
      rw [hkept.generated c]
      exact hs.nodup c
    · intro c c' code hcode hcode'
      exact hs.disjoint c c' code (hkept.generated c ▸ hcode) (hkept.generated c' ▸ hcode')
  · have hmem (c' : Nat) (code : String) (hcode : code ∈ generated rt (beginChange rt s c change) c') :
        (c' = c ∧ code ∈ change.codes.map rt.hashRecoveryCode) ∨ (c' ≠ c ∧ code ∈ generated rt s c') := by
      rw [generated_beginChange] at hcode
      by_cases heq : c' = c
      · rw [if_pos heq] at hcode
        exact .inl ⟨heq, hcode⟩
      · rw [if_neg heq] at hcode
        exact .inr ⟨heq, hcode⟩
    constructor
    · intro c' code hcode
      rcases hmem c' code hcode with ⟨-, hnew⟩ | ⟨-, hold⟩
      · exact List.mem_append_right _ hnew
      · exact List.mem_append_left _ (hs.drawn c' code hold)
    · intro c'
      rw [generated_beginChange]
      split
      · exact hnodup
      · exact hs.nodup c'
    · intro c₁ c₂ code hcode₁ hcode₂
      rcases hmem c₁ code hcode₁ with ⟨rfl, hnew₁⟩ | ⟨-, hold₁⟩ <;>
        rcases hmem c₂ code hcode₂ with ⟨rfl, hnew₂⟩ | ⟨-, hold₂⟩
      · rfl
      · exact absurd (hs.drawn c₂ code hold₂) (hfresh code hnew₁)
      · exact absurd (hs.drawn c₁ code hold₁) (hfresh code hnew₂)
      · exact hs.disjoint c₁ c₂ code hold₁ hold₂

/-- A finished request has drawn the code for the user. -/
def Issued (rt : Runtime) (s : Store) (user : Nat) (code : String) : Prop :=
  ∃ c, code ∈ generated rt s c ∧ ¬ Pending s c ∧ changeUser s c = some user

theorem Issued.step {user : Nat} {code : String} (hs : Issued rt s user code) (h : Steps rt s e t) :
    Issued rt t user code := by
  obtain ⟨c, hcode, hpending, huser⟩ := hs
  have hfound : s.requests c ≠ none := by
    intro hnone
    rw [changeUser, hnone] at huser
    cases huser
  refine ⟨c, ?_, ?_, (persists_of_step h c hfound).2.2.trans huser⟩
  all_goals rcases codes_of_step h with hkept | ⟨c', change, hfree, -, rfl⟩
  · rw [hkept.generated]
    exact hcode
  · rw [generated_beginChange, if_neg]
    · exact hcode
    · rintro rfl
      exact hfound hfree
  · exact fun hnew => hpending (hkept.pending c hnew)
  · rintro ⟨other, hother, hphase⟩
    rw [beginChange, setChange_requests, if_neg] at hother
    · exact hpending ⟨other, hother, hphase⟩
    · rintro rfl
      exact hfound hfree

theorem Issued.user_unique {user user' : Nat} {code : String} (hs : CodesDrawn rt s) (h : Issued rt s user code)
    (h' : Issued rt s user' code) : user = user' := by
  obtain ⟨c, hcode, -, huser⟩ := h
  obtain ⟨c', hcode', -, huser'⟩ := h'
  rw [hs.disjoint c c' code hcode hcode', huser'] at huser
  exact (Option.some.inj huser).symm

/-- The code has been issued, and no column holds it any more. -/
def Dead (rt : Runtime) (s : Store) (code : String) : Prop :=
  (∃ user, Issued rt s user code) ∧ ∀ a ∈ s.accounts, code ∉ a.recoveryCodes

/-- What a login knows of the codes. -/
inductive LoginSource (rt : Runtime) (s : Store) (e : Event) (r : Nat) (login : Login) : Prop
  | selected (recovery : login.recovery = none) (phase : ∀ consumed, login.phase ≠ .verified consumed)
  | kept (old : Login) (found : loginOf (s.requests r) = some old) (recovery : login.recovery = old.recovery)
      (phase : ∀ consumed, login.phase = .verified consumed → old.phase = .verified consumed ∧ old.row = login.row)
  | verified (old : Login) (now : Int) (found : loginOf (s.requests r) = some old)
      (recovery : login.recovery = old.recovery)
      (phase : login.phase = authenticateUser rt login.input now login.row)
  | committed (old : Login) (row : Account) (code : String) (rest : List String) (event : e = .commit r)
      (found : s.requests r = some (.login old)) (read : old.row = some row)
        (oldPhase : old.phase = .verified (some (code, rest)))
      (recovery : login.recovery = some code) (phase : login.phase = .authenticated)

theorem login_of_step (h : Steps rt s e t) {r : Nat} {login : Login} (hlogin : loginOf (t.requests r) = some login) :
    LoginSource rt s e r login := by
  have hsame (hsame : t.requests = s.requests) : LoginSource rt s e r login :=
    .kept login (hsame ▸ hlogin) rfl (fun _ hphase => ⟨hphase, rfl⟩)
  have hset {u : Store} {r' : Nat} {new : Login} (ht : t = setLogin u r' new) (hu : u.requests = s.requests)
      (hnew : LoginSource rt s e r' new) : LoginSource rt s e r login := by
    rw [ht, loginOf_setLogin, hu] at hlogin
    split at hlogin
    · next heq =>
        cases hlogin
        exact heq ▸ hnew
    · exact .kept login hlogin rfl (fun _ hphase => ⟨hphase, rfl⟩)
  have hchange {u : Store} {c : Nat} {new : Change} (ht : t = setChange u c new) (hu : u.requests = s.requests) :
      LoginSource rt s e r login := by
    rw [ht, loginOf_setChange, hu] at hlogin
    split at hlogin
    · cases hlogin
    · exact .kept login hlogin rfl (fun _ hphase => ⟨hphase, rfl⟩)
  have hfound {r' : Nat} {old : Login} (hfound : s.requests r' = some (.login old)) : loginOf (s.requests r') =
      some old := by
    rw [hfound]
    rfl
  cases h with
  | select free => exact hset rfl rfl (.selected rfl (by rintro _ ⟨⟩))
  | @verify r' now _ _ _ _ _ found => exact hset rfl rfl (.verified _ now (hfound found) rfl rfl)
  | @commit r' _ row consumed _ _ _ found =>
      cases consumed with
      | none => exact hset rfl rfl (.kept _ (hfound found) rfl (by rintro _ ⟨⟩))
      | some pair => exact hset rfl rfl (.committed _ row pair.1 pair.2 rfl found rfl rfl rfl rfl)
  | openSession found fresh =>
      rw [createSession] at hset
      split at hset <;> exact hset rfl rfl (.kept _ (hfound found) rfl (by rintro _ ⟨⟩))
  | openReload found fresh =>
      rw [createReloadToken] at hset
      split at hset <;> exact hset rfl rfl (.kept _ (hfound found) rfl (by rintro _ ⟨⟩))
  | begin | check | load | write | revoke | abandonChange => exact hchange rfl rfl
  | abandonLogin found => exact hset rfl rfl (.kept _ (hfound found) rfl (by rintro _ ⟨⟩))
  | logout | logoutReload | expire | touch | createUser | updateUser | deleteUser => exact hsame rfl

theorem verifySecondFactorRow_consumed {row : Account} {given code : String} {now : Int} {rest : List String}
    (h : (verifySecondFactorRow rt row given now).2 = some (code, rest)) :
    code ∈ row.recoveryCodes ∧ rest = row.recoveryCodes.erase code := by
  rw [verifySecondFactorRow] at h
  split at h
  · nomatch h
  split at h
  · nomatch h
  · nomatch h
  split at h
  · nomatch h
  split at h
  · nomatch h
  split at h
  · next hmem =>
      cases h
      exact ⟨hmem, rfl⟩
  · nomatch h

theorem authenticateUser_consumed {input : LoginIn} {now : Int} {row : Account} {code : String} {rest : List String}
    (h : authenticateUser rt input now (some row) = .verified (some (code, rest))) :
    code ∈ row.recoveryCodes ∧ rest = row.recoveryCodes.erase code := by
  rw [authenticateUser] at h
  split at h
  · nomatch h
  split at h
  · split at h
    · nomatch h
    · split at h
      · next consumed heq =>
          cases h
          exact verifySecondFactorRow_consumed (congrArg Prod.snd heq)
      · nomatch h
  · nomatch h

/-- A login writes back the list that it has read without the code. -/
def ReadsCode (login : Login) : Prop :=
  ∀ row code rest, login.row = some row → login.phase = .verified (some (code, rest)) →
    code ∈ row.recoveryCodes ∧ rest = row.recoveryCodes.erase code

structure CodesOwned (rt : Runtime) (s : Store) : Prop where
  drawn : CodesDrawn rt s
  column : ∀ a ∈ s.accounts, a.recoveryCodes.Nodup ∧ ∀ code ∈ a.recoveryCodes, Issued rt s a.id code
  reads : ∀ r login, loginOf (s.requests r) = some login → ReadsCode login
  used : ∀ r code, usedCode s r = some code → Dead rt s code
  single : ∀ r r' code, usedCode s r = some code → usedCode s r' = some code → r = r'

/-- The column that a login with a recovery code finds. -/
theorem column_as_read {login : Login} {row : Account} {code : String} {rest : List String}
    (hcond : ColumnAsRead s (.commit r)) (hfound : s.requests r = some (.login login)) (hrow : login.row = some row)
    (hphase : login.phase = .verified (some (code, rest))) :
    ∃ account ∈ s.accounts, account.id = row.id ∧ account.recoveryCodes = row.recoveryCodes := by
  obtain ⟨input, row', phase, recovery, token, reload⟩ := login
  cases hrow
  cases hphase
  have hcolumn : columnAsRead s (s.requests r) = true := hcond
  rw [hfound, columnAsRead, Option.any_eq_true] at hcolumn
  obtain ⟨account, haccount, hcodes⟩ := hcolumn
  have hid := List.find?_some haccount
  exact ⟨account, List.mem_of_find?_eq_some haccount, beq_iff_eq.mp hid, beq_iff_eq.mp hcodes⟩

theorem Dead.step {code : String} (hdead : Dead rt s code) (hs : CodesOwned rt s) (h : Steps rt s e t)
    (hcond : ColumnAsRead s e) : Dead rt t code := by
  obtain ⟨⟨user, hissued⟩, hcolumns⟩ := hdead
  refine ⟨⟨user, hissued.step h⟩, fun a ha hmem => ?_⟩
  cases column_of_step h ha with
  | kept hkept =>
      rcases hkept with hnil | ⟨b, hb, -, hcodes⟩
      · rw [hnil] at hmem
        exact List.not_mem_nil hmem
      · exact hcolumns b hb (hcodes ▸ hmem)
  | replaced c hevent huser hcodes hpending hwritten =>
      -- the codes of a request that has not written have not been issued
      rw [hcodes] at hmem
      obtain ⟨c', hcode, hfinished, -⟩ := hissued
      exact hfinished (hs.drawn.disjoint c' c code hcode hmem ▸ hpending)
  | consumed r login row used rest hevent hfound hrow hphase hown hcodes =>
      subst hevent
      obtain ⟨account, haccount, -, hread⟩ := column_as_read hcond hfound hrow hphase
      obtain ⟨-, hrest⟩ := hs.reads r login (by rw [hfound, loginOf]) row used rest hrow hphase
      rw [hcodes, hrest] at hmem
      exact hcolumns account haccount (hread ▸ List.mem_of_mem_erase hmem)

theorem CodesOwned.column_step (hs : CodesOwned rt s) (h : Steps rt s e t) (hcond : ColumnAsRead s e) {a : Account}
    (ha : a ∈ t.accounts) : a.recoveryCodes.Nodup ∧ ∀ code ∈ a.recoveryCodes, Issued rt t a.id code := by
  cases column_of_step h ha with
  | kept hkept =>
      rcases hkept with hnil | ⟨b, hb, hid, hcodes⟩
      · rw [hnil]
        exact ⟨List.nodup_nil, fun code hcode => absurd hcode List.not_mem_nil⟩
      · obtain ⟨hnodup, hissued⟩ := hs.column b hb
        rw [← hcodes, ← hid]
        exact ⟨hnodup, fun code hcode => (hissued code hcode).step h⟩
  | replaced c hevent huser hcodes hpending hwritten =>
      rw [hcodes]
      refine ⟨hs.drawn.nodup c, fun code hcode => ⟨c, ?_, hwritten, huser⟩⟩
      rcases codes_of_step h with hkept | ⟨c', change, hfree, -, rfl⟩
      · rw [hkept.generated]
        exact hcode
      · obtain ⟨other, hother, -⟩ := hpending
        rw [generated_beginChange, if_neg]
        · exact hcode
        · rintro rfl
          rw [hfree] at hother
          nomatch hother
  | consumed r login row used rest hevent hfound hrow hphase hown hcodes =>
      subst hevent
      obtain ⟨account, haccount, hid, hread⟩ := column_as_read hcond hfound hrow hphase
      obtain ⟨-, hrest⟩ := hs.reads r login (by rw [hfound, loginOf]) row used rest hrow hphase
      obtain ⟨hnodup, hissued⟩ := hs.column account haccount
      rw [hcodes, hrest, hown, ← hid, ← hread]
      exact ⟨hnodup.erase used, fun code hcode => (hissued code (List.mem_of_mem_erase hcode)).step h⟩

theorem readsCode_step (hs : ∀ r login, loginOf (s.requests r) = some login → ReadsCode login) (h : Steps rt s e t)
    {login : Login} (hlogin : loginOf (t.requests r) = some login) : ReadsCode login := by
  intro row code rest hrow hphase
  cases login_of_step h hlogin with
  | selected _ hnone => exact absurd hphase (hnone _)
  | kept old hfound _ hkept =>
      obtain ⟨holdPhase, holdRow⟩ := hkept _ hphase
      exact hs r old hfound row code rest (holdRow.trans hrow) holdPhase
  | verified old now hfound _ hverified =>
      rw [hverified, hrow] at hphase
      exact authenticateUser_consumed hphase
  | committed old row' code' rest' _ _ _ _ _ hdone =>
      rw [hdone] at hphase
      nomatch hphase

/-- A code is used by the login that commits, and only while a column holds it. -/
theorem used_of_step (hs : CodesOwned rt s) (h : Steps rt s e t) (hcond : ColumnAsRead s e) {code : String}
    (hused : usedCode t r = some code) :
    usedCode s r = some code ∨ (¬ Dead rt s code ∧ Dead rt t code ∧ e = .commit r) := by
  obtain ⟨login, hlogin, hrecovery⟩ := Option.bind_eq_some_iff.mp hused
  cases login_of_step h hlogin with
  | selected hnone _ =>
      rw [hnone] at hrecovery
      nomatch hrecovery
  | kept old hfound hsame _ | verified old _ hfound hsame _ =>
      left
      rw [usedCode, hfound, Option.bind_some, ← hsame, hrecovery]
  | committed old row code' rest hevent hfound hrow hphase hcode _ =>
      right
      rw [hcode] at hrecovery
      cases hrecovery
      subst hevent
      obtain ⟨account, haccount, hid, hread⟩ := column_as_read hcond hfound hrow hphase
      obtain ⟨hmem, hrest⟩ := hs.reads r old (by rw [hfound, loginOf]) row code rest hrow hphase
      rw [← hread] at hmem
      obtain ⟨hnodup, hissued⟩ := hs.column account haccount
      refine ⟨fun hdead => hdead.2 account haccount hmem, ⟨⟨_, (hissued code hmem).step h⟩, fun a ha ha' => ?_⟩, rfl⟩
      -- no other account has the code, and this one has lost it
      have hown : a.id = account.id :=
        Issued.user_unique (hs.drawn.step h) ((hs.column_step h hcond ha).2 code ha') ((hissued code hmem).step h)
      cases h with
      | @commit _ input row' consumed recovery token reload found =>
          rw [hfound] at found
          cases found
          cases hrow
          cases hphase
          obtain ⟨b, hb, ⟨-, rfl⟩ | ⟨hother, rfl⟩⟩ := mem_updateAccount ha
          · have hcode' : code ∈ rest := ha'
            rw [hrest, ← hread] at hcode'
            exact hnodup.not_mem_erase hcode'
          · exact hother (hown.trans hid)

theorem CodesOwned.step (hs : CodesOwned rt s) (h : Steps rt s e t) (hcond : ColumnAsRead s e) : CodesOwned rt t where
  drawn := hs.drawn.step h
  column a ha := hs.column_step h hcond ha
  reads r login hlogin := readsCode_step hs.reads h hlogin
  used r code hused := by
    rcases used_of_step hs h hcond hused with hold | ⟨-, hdead, -⟩
    · exact (hs.used r code hold).step hs h hcond
    · exact hdead
  single r r' code hused hused' := by
    rcases used_of_step hs h hcond hused with hold | ⟨hfresh, -, hevent⟩ <;>
      rcases used_of_step hs h hcond hused' with hold' | ⟨hfresh', -, hevent'⟩
    · exact hs.single r r' code hold hold'
    · exact absurd (hs.used r code hold) hfresh'
    · exact absurd (hs.used r' code hold') hfresh
    · rw [hevent] at hevent'
      cases hevent'
      rfl

/-- No requests and no recovery codes, as after the start of a new installation. -/
structure Installed (s : Store) : Prop where
  requests : ∀ r, s.requests r = none
  codes : ∀ a ∈ s.accounts, a.recoveryCodes = []

theorem codesOwned_installed (h : Installed s) : CodesOwned rt s := by
  have hgenerated (c : Nat) (code : String) : code ∉ generated rt s c := by
    rw [generated, h.requests c]
    exact List.not_mem_nil
  have hlogin (r : Nat) (login : Login) : loginOf (s.requests r) ≠ some login := by
    rw [h.requests r]
    exact nofun
  have hused (r : Nat) (code : String) : usedCode s r ≠ some code := by
    intro hused
    obtain ⟨login, hfound, -⟩ := Option.bind_eq_some_iff.mp hused
    exact hlogin r login hfound
  refine ⟨⟨fun c code hcode => absurd hcode (hgenerated c code), fun c => ?_,
    fun c _ code hcode => absurd hcode (hgenerated c code)⟩, fun a ha => ?_,
    fun r login hfound => absurd hfound (hlogin r login), fun r code hcode => absurd hcode (hused r code),
    fun r _ code hcode => absurd hcode (hused r code)⟩
  · rw [generated, h.requests c]
    exact List.nodup_nil
  · rw [h.codes a ha]
    exact ⟨List.nodup_nil, fun code hcode => absurd hcode List.not_mem_nil⟩

/-- The column of an account is replaced by the codes of the change. -/
def replaces (s : Store) (c : Nat) (user : Nat) : Bool :=
  match s.requests c with
  | some (.change change) => CredentialChange.replacesCodes change.change && change.change.userId == user
  | _ => false

theorem Dead.of_replaced {p u v : Store} {a : Account} {code : String} {es : List Event}
    (hbefore : History (meeting (graph (next rt)) ColumnAsRead) p es u) (hp : CodesOwned rt p) (hu : CodesOwned rt u)
    (hwrite : Steps rt u (.write c) v) (hreplaces : replaces u c a.id = true) (ha : a ∈ p.accounts)
    (hcode : code ∈ a.recoveryCodes) : Dead rt v code := by
  have hissued : Issued rt u a.id code := by
    refine hbefore.invariant (fun w => Issued rt w a.id code) ((hp.column a ha).2 code hcode) ?_
    intro x e y hx hstep
    exact hx.step (steps_of_next hstep.1)
  refine ⟨⟨a.id, hissued.step hwrite⟩, fun b hb hmem => ?_⟩
  have hown : b.id = a.id :=
    Issued.user_unique (hu.drawn.step hwrite) ((hu.column_step hwrite trivial hb).2 code hmem) (hissued.step hwrite)
  cases hwrite with
  | @write _ change found =>
      rw [replaces, found, Bool.and_eq_true] at hreplaces
      obtain ⟨hall, huser⟩ := hreplaces
      obtain ⟨b', hb', ⟨-, rfl⟩ | ⟨hother, rfl⟩⟩ := mem_updateAccount hb
      · rw [applyChange_codes, if_pos hall] at hmem
        obtain ⟨c', hcode', hfinished, -⟩ := hissued
        have hnew : code ∈ generated rt u c := by
          rw [generated, found]
          exact hmem
        exact hfinished (hu.drawn.disjoint c' c code hcode' hnew ▸ ⟨_, found, rfl⟩)
      · exact hother (hown.trans (beq_iff_eq.mp huser).symm)

/-- A dead code is used by no further login. -/
theorem Dead.run {code : String} {es : List Event} (h : History (meeting (graph (next rt)) ColumnAsRead) s es t)
    (hs : CodesOwned rt s) (hdead : Dead rt s code) :
    Dead rt t code ∧ ∀ r, usedCode t r = some code → usedCode s r = some code := by
  have hinv := h.invariant
    (fun u => CodesOwned rt u ∧ Dead rt u code ∧ ∀ r, usedCode u r = some code → usedCode s r = some code)
    ⟨hs, hdead, fun _ hused => hused⟩ ?_
  · exact hinv.2
  · rintro a e b ⟨howned, ha, hbefore⟩ ⟨hstep, hcond⟩
    have hstep := steps_of_next hstep
    refine ⟨howned.step hstep hcond, ha.step howned hstep hcond, fun r hused => ?_⟩
    rcases used_of_step howned hstep hcond hused with hold | ⟨halive, -, -⟩
    · exact hbefore r hold
    · exact absurd ha halive

/-- Each code authenticates at most one login, and no column holds a code that
has done so. -/
def SingleUse (s : Store) : Prop :=
  (∀ r r' code, usedCode s r = some code → usedCode s r' = some code → r = r') ∧
    ∀ r code, usedCode s r = some code → ∀ a ∈ s.accounts, code ∉ a.recoveryCodes

/-- A code that an account had at some time before its codes were replaced is in
no column at the end, and no login has used it since. -/
def OldCodesRefused (rt : Runtime) (s₀ : Store) (es : List Event) (s : Store) : Prop :=
  ∀ es₁ es₂ es₃ p u v c, es = es₁ ++ (es₂ ++ .write c :: es₃) → exec (next rt) s₀ es₁ = some p →
    exec (next rt) p es₂ = some u → next rt u (.write c) = some v →
      ∀ a ∈ p.accounts, replaces u c a.id = true → ∀ code ∈ a.recoveryCodes,
        (∀ b ∈ s.accounts, code ∉ b.recoveryCodes) ∧ ∀ r, usedCode s r = some code → usedCode v r = some code

theorem codesOwned_of_history {s₀ : Store} {es : List Event} (h₀ : CodesOwned rt s₀)
    (h : History (meeting (graph (next rt)) ColumnAsRead) s₀ es s) : CodesOwned rt s := by
  apply h.invariant (CodesOwned rt) h₀
  rintro a e b ha ⟨hstep, hcond⟩
  exact ha.step (steps_of_next hstep) hcond

/-- As long as every login that shortens the list finds it as it has read it,
recovery codes are single use and end with their replacement. -/
theorem recovery_codes_single_use {s₀ : Store} (h₀ : Installed s₀) {es : List Event}
    (h : History (meeting (graph (next rt)) ColumnAsRead) s₀ es s) :
    History (graph (next rt)) s₀ es s ∧ SingleUse s ∧ OldCodesRefused rt s₀ es s := by
  have howned := codesOwned_of_history (codesOwned_installed h₀) h
  refine ⟨h.forget, ⟨howned.single, fun r code hused => (howned.used r code hused).2⟩, ?_⟩
  intro es₁ es₂ es₃ p u v c hes hp hu hv a ha hreplaces code hcode
  subst hes
  obtain ⟨p', hbefore, hrest⟩ := h.split
  obtain ⟨u', hbetween, hwrite⟩ := hrest.split
  rw [exec_of_history hbefore.forget] at hp
  cases hp
  rw [exec_of_history hbetween.forget] at hu
  cases hu
  cases hwrite with
  | cons head tail =>
      obtain ⟨hhead, -⟩ := head
      rw [graph, hv] at hhead
      cases hhead
      have hownedBefore := codesOwned_of_history (codesOwned_installed h₀) hbefore
      have hownedBetween := codesOwned_of_history hownedBefore hbetween
      have hstep := steps_of_next hv
      have hdead := Dead.of_replaced hbetween hownedBefore hownedBetween hstep hreplaces ha hcode
      obtain ⟨⟨-, hcolumns⟩, hunused⟩ := hdead.run tail (hownedBetween.step hstep trivial)
      exact ⟨hcolumns, hunused⟩

def exampleSetup : CredentialChange := .beginTwoFactorSetup 1 "old password" "secret" ["first", "second"]

/-- A login of the example with its second factor. -/
def exampleLogin (code : String) : LoginIn := ⟨"admin", "old password", some code, none⟩

/-- Two-factor authentication is set up and confirmed. -/
def setupEvents : List Event :=
  [.begin 1 exampleSetup, .check 1, .load 1 0, .write 1, .begin 2 (.confirmTwoFactorSetup 1 "secret"),
    .load 2 0, .write 2]

theorem exampleStore_installed : Installed exampleStore where
  requests _ := rfl
  codes a ha := by
    rw [List.mem_singleton.mp ha]
    rfl

/-- One login after the other, each with a code of its own. -/
def orderlyLogins : List Event :=
  setupEvents ++ [.select 3 (exampleLogin "first"), .verify 3 0, .commit 3, .select 4 (exampleLogin "second"),
    .verify 4 0,
    .commit 4]

theorem recovery_codes_single_use_orderly :
    ∃ s, History (graph (next exampleRuntime)) exampleStore orderlyLogins s ∧ SingleUse s ∧
      OldCodesRefused exampleRuntime exampleStore orderlyLogins s :=
  ⟨(exec (next exampleRuntime) exampleStore orderlyLogins).get (by decide),
    recovery_codes_single_use exampleStore_installed (history_of_along (Option.some_get _).symm (by decide))⟩

/-- Two logins read the column before either writes it. -/
def racingLogins : List Event :=
  setupEvents ++ [.select 3 (exampleLogin "first"), .select 4 (exampleLogin "first"), .verify 3 0,
    .verify 4 0, .commit 3,
    .commit 4]

theorem recovery_code_used_twice :
    ¬ ∀ s₀ es s, Installed s₀ → History (graph (next exampleRuntime)) s₀ es s →
        SingleUse s ∧ OldCodesRefused exampleRuntime s₀ es s := by
  intro hall
  let s := (exec (next exampleRuntime) exampleStore racingLogins).get (by decide)
  have h : History (graph (next exampleRuntime)) exampleStore racingLogins s := history_of_exec (Option.some_get _).symm
  obtain ⟨⟨hsingle, -⟩, -⟩ := hall exampleStore racingLogins s exampleStore_installed h
  have hsame : (3 : Nat) = 4 := hsingle 3 4 "first" (by decide) (by decide)
  exact absurd hsame (by decide)

end BorgManager.RecoveryCodes
