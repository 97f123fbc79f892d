import BorgManager.Base64
import BorgManager.Blocks
import BorgManager.Histories
import BorgManager.SecretStore

namespace BorgManager.EnvironmentVault

open Dictionaries Exceptions Blocks SecretStore

/-- The letter that a pattern without case compares: besides ASCII, the long
s, the Kelvin sign and the two i of Turkish have a partner among the letters. -/
def foldCase (c : Char) : Char :=
  if c.toNat = 0x17F then 's'
  else if c.toNat = 0x212A then 'k'
  else if c.toNat = 0x130 ∨ c.toNat = 0x131 then 'i'
  else c.toLower

def sensitiveWords : List Text :=
  ["pass", "password", "passphrase", "secret", "token", "private", "credential", "key"].map String.toList

/-- `SENSITIVE_ENV_RE.search`. -/
def isSensitive (key : Text) : Bool := sensitiveWords.any (fun w => decide (w <:+: key.map foldCase))

def missingRepository : Text := "Repository muss vor der Speicherung von Geheimnissen vorhanden sein".toList

def repositoryScope (id : Option Nat) : Except Text Text :=
  match id with
  | none => .error missingRepository
  | some id => if id = 0 then .error missingRepository else .ok ("repository:".toList ++ Nat.toDigits 10 id)

/-- A value that is `None` or empty deletes the secret. -/
def setRepositorySecret (f : Fernet) (nonce : Nat) (id : Option Nat) (name : Text) (value : Option Text) (s : Store) :
    Except Text Store := do
  let scope ← repositoryScope id
  match value with
  | none | some [] => deleteSecret scope name s
  | some value => setSecret f nonce scope name value s

def getRepositorySecret (f : Fernet) (id : Option Nat) (name : Text) (s : Store) : Except Text (Option Text) := do
  let scope ← repositoryScope id
  getSecret f s scope name none

def deleteRepositorySecrets (id : Option Nat) (s : Store) : Except Text Store := do
  let scope ← repositoryScope id
  deleteSecretScope scope s

def systemScope : Text := "system".toList

def setSystemSecret (f : Fernet) (nonce : Nat) (name value : Text) (s : Store) : Except Text Store :=
  setSecret f nonce systemScope name value s

/-- The scopes of the manager's own secrets. -/
inductive ManagerScope
  | system
  | bootstrap

def ManagerScope.text : ManagerScope → Text
  | .system => systemScope
  | .bootstrap => "bootstrap".toList

/-- The notification settings delete what is no longer set, and the first login
of the administrator what the bootstrap has left. -/
def changeManagerSecret (f : Fernet) (nonce : Nat) (scope : ManagerScope) (name : Text) (value : Option Text)
    (s : Store) :
    Except Text Store :=
  match value with
  | some value => setSecret f nonce scope.text name value s
  | none => deleteSecret scope.text name s

def splitRepositoryEnvironment (values : Dict Text Text) : Dict Text Text × Dict Text Text :=
  (values.filter (fun key => !isSensitive key), values.filter isSensitive)

def envPrefix : Text := "env.".toList

/-- A statement on the store, which is committed when it ends. -/
def commit (statement : Store → Except Text Store) : Block Text Store Unit := fun s =>
  match statement s with
  | .ok t => (.ok (), t)
  | .error e => (.error e, s)

def query {α : Type} (look : Store → Except Text α) : Block Text Store α := fun s => (look s, s)

def storeRepositoryEnvironment (f : Fernet) (nonce : Text → Nat) (id : Option Nat) (values : Dict Text Text) :
    Block Text Store (Dict Text Text) := do
  let (published, sensitive) := splitRepositoryEnvironment values
  let scope ← effect (repositoryScope id)
  let names ← query (fun s => listSecretNames s scope)
  let existing := names.filter envPrefix.isPrefixOf
  let desired := sensitive.keys.map (fun key => envPrefix ++ key)
  forEach (existing.filter (fun name => !desired.contains name)) (fun stale => commit (deleteSecret scope stale))
  forEach sensitive.items (fun item => commit (setSecret f (nonce item.1) scope (envPrefix ++ item.1) item.2))
  pure published

/-- One name of the listing is read into the dictionary. -/
def loadSecret (f : Fernet) (s : Store) (scope : Text) (loaded : Dict Text Text) (name : Text) :
    Except Text (Dict Text Text) :=
  if envPrefix.isPrefixOf name then do
    match ← getSecret f s scope name none with
    | some value => pure (loaded.set (name.drop 4) value)
    | none => pure loaded
  else pure loaded

def loadRepositoryEnvironment (f : Fernet) (s : Store) (id : Option Nat) (extraEnv : Dict Text Text) :
    Except Text (Dict Text Text) := do
  let scope ← repositoryScope id
  let names ← listSecretNames s scope
  names.foldlM (loadSecret f s scope) extraEnv

/-- `[A-Z][A-Z0-9_]*`. -/
def isVariable (key : Text) : Bool :=
  match key with
  | [] => false
  | c :: cs => c.isUpper && cs.all (fun c => c.isUpper || c.isDigit || c == '_')

def reservedVariables : List Text :=
  ["BORG_REPO", "BORG_RSH", "BORG_PASSPHRASE", "BORG_PASSPHRASE_FD",
    "BORG_PASSCOMMAND", "BORG_KEY_FILE", "BORG_CACHE_DIR", "BORG_SECURITY_DIR",
    "BORG_RELOCATED_REPO_ACCESS_IS_OK", "TZ", "PATH", "HOME", "SHELL", "USER", "LOGNAME",
    "PYTHONPATH", "PYTHONHOME", "LD_PRELOAD", "LD_LIBRARY_PATH", "DYLD_INSERT_LIBRARIES",
    "ENV", "BASH_ENV", "IFS", "SSH_AUTH_SOCK", "SSH_AGENT_PID"].map String.toList

def isSingleLine (value : Text) : Bool := value.all (fun c => c != '\x00' && c != '\n' && c != '\r')

def safeEnvironment (values : Dict Text Text) : Except Text (Dict Text Text) :=
  if values.keys.any (fun key => !isVariable key) then
    .error "environment variable names must be uppercase identifiers".toList
  else if values.items.any (fun item => !isSingleLine item.2) then
    .error "environment values must be single-line strings".toList
  else if reservedVariables.any values.keys.contains then
    .error "reserved Borg environment variables cannot be overridden".toList
  else .ok values

/-- The environment of a request, which its validator let through. -/
structure Environment where
  values : Dict Text Text
  safe : safeEnvironment values = .ok values

theorem Environment.variable (e : Environment) {key : Text} (h : key ∈ e.values.keys) : isVariable key = true := by
  have hsafe := e.safe
  rw [safeEnvironment] at hsafe
  split at hsafe
  · cases hsafe
  · next hall =>
      rw [Bool.not_eq_true, List.any_eq_false] at hall
      simpa using hall key h

variable {f : Fernet} {nonce : Text → Nat} {id : Option Nat} {scope : Text} {s t : Store}

/-- The names of variables have nothing to strip, also behind the prefix. -/
theorem strip_variable {key : Text} (h : isVariable key = true) : strip (envPrefix ++ key) = envPrefix ++ key := by
  cases key with
  | nil => cases h
  | cons c cs =>
      rw [isVariable, Bool.and_eq_true] at h
      have hall : ∀ d ∈ c :: cs, (d.isAlphanum || "_.:-".toList.contains d) = true := by
        intro d hd
        rcases List.mem_cons.mp hd with rfl | hd
        · simp [Char.isAlphanum, Char.isAlpha, h.1]
        · have hchar := List.all_eq_true.mp h.2 d hd
          simp only [Bool.or_eq_true, beq_iff_eq] at hchar
          rcases hchar with (hupper | hdigit) | rfl
          · simp [Char.isAlphanum, Char.isAlpha, hupper]
          · simp [Char.isAlphanum, hdigit]
          · rfl
      apply strip_of_ends
      · rintro d ⟨⟩
        rfl
      · intro d hd
        rw [List.getLast?_append_of_ne_nil _ (List.cons_ne_nil _ _)] at hd
        exact isSpace_of_keyChar (hall d (List.mem_of_mem_getLast? hd))

theorem repositoryScope_ok (h : repositoryScope id = .ok scope) :
    ∃ n, id = some n ∧ scope = "repository:".toList ++ Nat.toDigits 10 n := by
  cases id with
  | none => cases h
  | some n =>
      rw [repositoryScope] at h
      split at h
      · cases h
      · cases h
        exact ⟨n, rfl, rfl⟩

theorem strip_repositoryScope (h : repositoryScope id = .ok scope) : strip scope = scope := by
  obtain ⟨n, -, rfl⟩ := repositoryScope_ok h
  apply strip_of_ends
  · rintro d ⟨⟩
    rfl
  · intro d hd
    rw [List.getLast?_append_of_ne_nil _ (Nat.toDigits_ne_nil)] at hd
    have hdigit := Nat.isDigit_of_mem_toDigits (by decide) (by decide) (List.mem_of_mem_getLast? hd)
    exact isSpace_of_keyChar (by simp [Char.isAlphanum, hdigit])

theorem repositoryScope_injective {id' : Option Nat} (h : repositoryScope id = .ok scope)
    (h' : repositoryScope id' = .ok scope) :
    id = id' := by
  obtain ⟨n, rfl, rfl⟩ := repositoryScope_ok h
  obtain ⟨m, rfl, heq⟩ := repositoryScope_ok h'
  have hdigits := List.append_cancel_left heq
  have hn : Nat.ofDigitChars 10 (Nat.toDigits 10 n) 0 = n := Nat.ofDigitChars_toDigits (by decide) (by decide)
  rw [← hn, hdigits, Nat.ofDigitChars_toDigits (by decide) (by decide)]

/-- What a row of the table is under its own key. -/
theorem strip_stored {k : SecretKey} (h : k ∈ s.rows.keys) : strip k.scope = k.scope ∧ strip k.name = k.name := by
  obtain ⟨-, hscope, hname⟩ := validateSecretKey_ok (s.valid k h)
  exact ⟨strip_of_isKeyPart hscope, strip_of_isKeyPart hname⟩

theorem secret_of_not_mem {k : SecretKey} (h : k ∉ s.rows.keys) : s.secret f k = .ok none := by
  rw [Store.secret, Dict.get?_eq_none.mpr h]

/-- Secrets outside of the environment of the repository are as before. -/
def Frame (f : Fernet) (scope : Text) (s t : Store) : Prop :=
  ∀ k : SecretKey, k.scope ≠ scope ∨ ¬ envPrefix <+: k.name → t.secret f k = s.secret f k

theorem Frame.refl : Frame f scope s s := fun _ _ => rfl

theorem Frame.trans {u : Store} (hst : Frame f scope s t) (htu : Frame f scope t u) : Frame f scope s u :=
  fun k hk => (htu k hk).trans (hst k hk)

/-- The environment part of the vault holds exactly these secrets. -/
def Holds (f : Fernet) (scope : Text) (s : Store) (g : Text → Option Text) : Prop :=
  ∀ key, s.secret f ⟨scope, envPrefix ++ key⟩ = .ok (g key)

theorem ends_commit {statement : Store → Except Text Store} {Q : Except Text Unit → Store → Prop}
    (hok : ∀ t, statement s = .ok t → Q (.ok ()) t) (herror : ∀ e, statement s = .error e → Q (.error e) s) :
    Ends (commit statement) s Q := by
  rw [Ends, commit]
  cases h : statement s with
  | ok t => exact hok t h
  | error e => exact herror e h

theorem frame_delete {key : Text} (hkey : strip (envPrefix ++ key) = envPrefix ++ key) (hscope : strip scope = scope)
    (h : deleteSecret scope (envPrefix ++ key) s = .ok t) : Frame f scope s t := by
  intro k hk
  rw [secret_deleteSecret h, if_neg]
  rw [hscope, hkey]
  rintro rfl
  rcases hk with hk | hk
  · exact hk rfl
  · exact hk (List.prefix_append ..)

theorem frame_set (hf : f.Lawful) {n : Nat} {key value : Text} (hkey : strip (envPrefix ++ key) = envPrefix ++ key)
    (hscope : strip scope = scope) (h : setSecret f n scope (envPrefix ++ key) value s = .ok t) :
    Frame f scope s t := by
  intro k hk
  rw [(secret_setSecret hf h).2, if_neg]
  rw [hscope, hkey]
  rintro rfl
  rcases hk with hk | hk
  · exact hk rfl
  · exact hk (List.prefix_append ..)

/-- Every name of the list is deleted, as far as the loop comes. -/
theorem ends_deletes {names : List Text} (hscope : strip scope = scope)
    (hnames : ∀ name ∈ names, ∃ key, name = envPrefix ++ key ∧ strip name = name) :
    Ends (forEach names (fun stale => commit (deleteSecret scope stale))) s (fun outcome t =>
      Frame f scope s t ∧ (outcome = .ok () → ∀ key,
        t.secret f ⟨scope, envPrefix ++ key⟩ =
          if envPrefix ++ key ∈ names then .ok none else s.secret f ⟨scope, envPrefix ++ key⟩)) := by
  have hloop : Ends (forEach names (fun stale => commit (deleteSecret scope stale))) s (fun outcome t =>
      (outcome = .ok () ∧ (∀ name ∈ [], name ∈ names) ∧ Frame f scope s t ∧ ∀ key,
        (envPrefix ++ key ∉ names → t.secret f ⟨scope, envPrefix ++ key⟩ = s.secret f ⟨scope, envPrefix ++ key⟩) ∧
        (envPrefix ++ key ∈ names → envPrefix ++ key ∈ [] ∨ t.secret f ⟨scope, envPrefix ++ key⟩ = .ok none)) ∨
      ∃ e, outcome = .error e ∧ Frame f scope s t) := by
    apply ends_forEach (I := fun rest t => (∀ name ∈ rest, name ∈ names) ∧ Frame f scope s t ∧ ∀ key,
        (envPrefix ++ key ∉ names → t.secret f ⟨scope, envPrefix ++ key⟩ = s.secret f ⟨scope, envPrefix ++ key⟩) ∧
        (envPrefix ++ key ∈ names → envPrefix ++ key ∈ rest ∨ t.secret f ⟨scope, envPrefix ++ key⟩ = .ok none))
      (E := fun _ t => Frame f scope s t)
    · rintro name rest t ⟨hrest, hframe, hsecrets⟩
      have hmem := hrest name (List.mem_cons_self ..)
      obtain ⟨key, rfl, hstrip⟩ := hnames name hmem
      apply ends_commit
      · intro u hu
        refine .inl ⟨rfl, fun n hn => hrest n (List.mem_cons_of_mem _ hn),
          hframe.trans (frame_delete hstrip hscope hu), ?_⟩
        intro other
        have hdeleted := secret_deleteSecret (f := f) hu ⟨scope, envPrefix ++ other⟩
        rw [hscope, hstrip] at hdeleted
        rw [hdeleted]
        split
        · next heq =>
            have hother : envPrefix ++ other = envPrefix ++ key := congrArg SecretKey.name heq
            rw [hother]
            exact ⟨fun hnot => absurd hmem hnot, fun _ => .inr rfl⟩
        · next hne =>
            refine ⟨(hsecrets other).1, fun hin => ?_⟩
            rcases (hsecrets other).2 hin with hlater | hgone
            · refine .inl ((List.mem_cons.mp hlater).resolve_left fun heq => hne ?_)
              rw [heq]
            · exact .inr hgone
      · exact fun e _ => .inr ⟨e, rfl, hframe⟩
    · exact ⟨fun _ hn => hn, Frame.refl, fun key => ⟨fun _ => rfl, .inl⟩⟩
  apply ends_mono hloop
  rintro outcome t (⟨-, -, hframe, hsecrets⟩ | ⟨e, rfl, hframe⟩)
  · refine ⟨hframe, fun _ key => ?_⟩
    split
    · next hin => exact ((hsecrets key).2 hin).resolve_left List.not_mem_nil
    · next hnot => exact (hsecrets key).1 hnot
  · exact ⟨hframe, by rintro ⟨⟩⟩

/-- Every item is set, as far as the loop comes. -/
theorem ends_sets (hf : f.Lawful) (d : Dict Text Text) (hscope : strip scope = scope)
    (hkeys : ∀ key ∈ d.keys, strip (envPrefix ++ key) = envPrefix ++ key) :
    Ends (forEach d.items (fun item => commit (setSecret f (nonce item.1) scope (envPrefix ++ item.1) item.2))) s
      (fun outcome t => Frame f scope s t ∧ (outcome = .ok () → ∀ key,
        t.secret f ⟨scope, envPrefix ++ key⟩ =
          match d.get? key with
          | some value => .ok (some value)
          | none => s.secret f ⟨scope, envPrefix ++ key⟩)) := by
  have hloop : Ends (forEach d.items
    (fun item => commit (setSecret f (nonce item.1) scope (envPrefix ++ item.1) item.2))) s
      (fun outcome t =>
        (outcome = .ok () ∧ (∀ item ∈ [], item ∈ d.items) ∧ Frame f scope s t ∧ ∀ key,
          (d.get? key = none → t.secret f ⟨scope, envPrefix ++ key⟩ = s.secret f ⟨scope, envPrefix ++ key⟩) ∧
          ∀ value, d.get? key = some value → (key, value) ∈ [] ∨ t.secret f ⟨scope, envPrefix ++ key⟩ =
            .ok (some value)) ∨
        ∃ e, outcome = .error e ∧ Frame f scope s t) := by
    apply ends_forEach (I := fun rest t => (∀ item ∈ rest, item ∈ d.items) ∧ Frame f scope s t ∧ ∀ key,
        (d.get? key = none → t.secret f ⟨scope, envPrefix ++ key⟩ = s.secret f ⟨scope, envPrefix ++ key⟩) ∧
        ∀ value, d.get? key = some value → (key, value) ∈ rest ∨ t.secret f ⟨scope, envPrefix ++ key⟩ =
          .ok (some value))
      (E := fun _ t => Frame f scope s t)
    · rintro item rest t ⟨hrest, hframe, hsecrets⟩
      have hitem : d.get? item.1 = some item.2 := Dict.get?_eq_some.mpr (hrest item (List.mem_cons_self ..))
      have hstrip := hkeys item.1 (Dict.mem_keys.mpr ⟨_, hitem⟩)
      apply ends_commit
      · intro u hu
        refine .inl ⟨rfl, fun i hi => hrest i (List.mem_cons_of_mem _ hi),
          hframe.trans (frame_set hf hstrip hscope hu), ?_⟩
        intro other
        have hset := (secret_setSecret hf hu).2 ⟨scope, envPrefix ++ other⟩
        rw [hscope, hstrip] at hset
        rw [hset]
        split
        · next heq =>
            have hother : other = item.1 := List.append_cancel_left (congrArg SecretKey.name heq)
            rw [hother, hitem]
            exact ⟨by rintro ⟨⟩, fun value hvalue => .inr (by cases hvalue; rfl)⟩
        · next hne =>
            refine ⟨(hsecrets other).1, fun value hvalue => ?_⟩
            rcases (hsecrets other).2 value hvalue with hlater | hdone
            · refine .inl ((List.mem_cons.mp hlater).resolve_left fun heq => hne ?_)
              rw [← heq]
            · exact .inr hdone
      · exact fun e _ => .inr ⟨e, rfl, hframe⟩
    · exact ⟨fun _ hi => hi, Frame.refl, fun key =>
        ⟨fun _ => rfl, fun value hvalue => .inl (Dict.get?_eq_some.mp hvalue)⟩⟩
  apply ends_mono hloop
  rintro outcome t (⟨-, -, hframe, hsecrets⟩ | ⟨e, rfl, hframe⟩)
  · refine ⟨hframe, fun _ key => ?_⟩
    split
    · next value hvalue => exact ((hsecrets key).2 value hvalue).resolve_left List.not_mem_nil
    · next hnone => exact (hsecrets key).1 hnone
  · exact ⟨hframe, by rintro ⟨⟩⟩

/-- What storing an environment does to the vault: outside of the environment
of the repository nothing, and inside it leaves the sensitive variables, all
of them and nothing else, when it ends well. -/
theorem ends_store (hf : f.Lawful) (e : Environment) (hscope : repositoryScope id = .ok scope) :
    Ends (storeRepositoryEnvironment f nonce id e.values) s (fun outcome t =>
      Frame f scope s t ∧ ∀ published, outcome = .ok published →
        published = e.values.filter (fun key => !isSensitive key) ∧ isKeyPart scope = true ∧
        Holds f scope t (e.values.filter isSensitive).get?) := by
  have hstrip := strip_repositoryScope hscope
  rw [storeRepositoryEnvironment, splitRepositoryEnvironment, hscope]
  dsimp only
  rw [ends_bind, ends_effect]
  dsimp only
  rw [ends_bind]
  cases hnames : listSecretNames s scope with
  | error e =>
      rw [Ends, query, hnames]
      exact ⟨Frame.refl, by rintro _ ⟨⟩⟩
  | ok names =>
      rw [Ends, query, hnames]
      dsimp only
      have hmem : ∀ name, name ∈ names ↔ ⟨scope, name⟩ ∈ s.rows.keys := by
        intro name
        rw [mem_listSecretNames hnames, hstrip]
      have hpart : isKeyPart scope = true := by
        obtain ⟨checked, hchecked, -⟩ := bind_ok hnames
        have hparts := validateScope_ok hchecked
        rw [hparts.1, hstrip] at hparts
        exact hparts.2
      rw [ends_bind]
      apply ends_mono (ends_deletes (f := f) hstrip ?_)
      · rintro outcome t ⟨hframe, hdeleted⟩
        cases outcome with
        | error e => exact ⟨hframe, by rintro _ ⟨⟩⟩
        | ok _ =>
            rw [ends_bind]
            apply ends_mono (ends_sets hf (e.values.filter isSensitive) hstrip ?_)
            · rintro outcome u ⟨hmore, hset⟩
              cases outcome with
              | error e => exact ⟨hframe.trans hmore, by rintro _ ⟨⟩⟩
              | ok _ =>
                  dsimp only
                  rw [ends_pure]
                  refine ⟨hframe.trans hmore, ?_⟩
                  rintro _ ⟨⟩
                  refine ⟨rfl, hpart, fun key => ?_⟩
                  rw [hset rfl key]
                  cases hget : (e.values.filter isSensitive).get? key with
                  | some value => rfl
                  | none =>
                      dsimp only
                      rw [hdeleted rfl key]
                      split
                      · rfl
                      · next hkept =>
                          apply secret_of_not_mem
                          intro hstored
                          apply hkept
                          rw [List.mem_filter, List.mem_filter]
                          refine ⟨⟨(hmem _).mpr hstored, List.isPrefixOf_iff_prefix.mpr (List.prefix_append ..)⟩, ?_⟩
                          simp only [Bool.not_eq_true', List.contains_eq_mem, decide_eq_false_iff_not,
                            List.mem_map, not_exists, not_and]
                          intro other hother heq
                          rw [List.append_cancel_left heq] at hother
                          exact Dict.get?_eq_none.mp hget hother
            · intro key hkey
              obtain ⟨value, hvalue⟩ := Dict.mem_keys.mp hkey
              rw [Dict.get?_filter] at hvalue
              split at hvalue
              · exact strip_variable (e.variable (Dict.mem_keys.mpr ⟨value, hvalue⟩))
              · cases hvalue
      · intro name hname
        rw [List.mem_filter, List.mem_filter] at hname
        obtain ⟨key, heq⟩ := List.isPrefixOf_iff_prefix.mp hname.1.2
        exact ⟨key, heq.symm, (strip_stored ((hmem name).mp hname.1.1)).2⟩

theorem loadSecret_env {g : Text → Option Text} (h : Holds f scope s g) {key : Text}
    (hkey : ⟨scope, envPrefix ++ key⟩ ∈ s.rows.keys) (loaded : Dict Text Text) :
    ∃ d, loadSecret f s scope loaded (envPrefix ++ key) = .ok d ∧
      ∀ k, d.get? k = if k = key then (g key).or (loaded.get? key) else loaded.get? k := by
  have hget := getSecret_eq (f := f) (s := s) (s.valid _ hkey)
  rw [h key] at hget
  rw [loadSecret, if_pos (List.isPrefixOf_iff_prefix.mpr (List.prefix_append ..)), hget]
  cases hg : g key with
  | none =>
      refine ⟨loaded, rfl, fun k => ?_⟩
      split
      · next heq => rw [heq, Option.none_or]
      · rfl
  | some value =>
      refine ⟨loaded.set key value, rfl, fun k => ?_⟩
      rw [Dict.get?_set, Option.some_or]

/-- The secrets of the environment take the place of what the column has. -/
theorem load_holds {g : Text → Option Text} (h : Holds f scope s g) (hscope : repositoryScope id = .ok scope)
    (hpart : isKeyPart scope = true) (column : Dict Text Text) :
    ∃ d, loadRepositoryEnvironment f s id column = .ok d ∧ ∀ key, d.get? key = (g key).or (column.get? key) := by
  obtain ⟨names, hnames⟩ : ∃ names, listSecretNames s scope = .ok names := by
    rw [listSecretNames, validateScope, strip_of_isKeyPart hpart, if_pos hpart]
    exact ⟨_, rfl⟩
  have hmem : ∀ name, name ∈ names ↔ ⟨scope, name⟩ ∈ s.rows.keys := by
    intro name
    rw [mem_listSecretNames hnames, strip_repositoryScope hscope]
  have hfold : ∀ (rest : List Text) (loaded : Dict Text Text), (∀ name ∈ rest, name ∈ names) →
      ∃ d, rest.foldlM (loadSecret f s scope) loaded = .ok d ∧
        ∀ key, d.get? key = if envPrefix ++ key ∈ rest then (g key).or (loaded.get? key) else loaded.get? key := by
    intro rest
    induction rest with
    | nil => exact fun loaded _ => ⟨loaded, rfl, fun key => rfl⟩
    | cons name rest ih =>
        intro loaded hrest
        have hstored := (hmem name).mp (hrest name (List.mem_cons_self ..))
        have htail := fun other hother => hrest other (List.mem_cons_of_mem name hother)
        rw [List.foldlM_cons]
        by_cases hprefix : envPrefix <+: name
        · obtain ⟨key, rfl⟩ := hprefix
          obtain ⟨d, hd, hget⟩ := loadSecret_env h hstored loaded
          obtain ⟨last, hlast, hall⟩ := ih d htail
          refine ⟨last, by rw [hd]; exact hlast, fun k => ?_⟩
          rw [hall k, hget k]
          by_cases hk : k = key
          · rw [hk, if_pos rfl, if_pos (List.mem_cons_self ..), ← Option.or_assoc, Option.or_self, ite_self]
          · have hiff : envPrefix ++ k ∈ (envPrefix ++ key) :: rest ↔ envPrefix ++ k ∈ rest :=
              ⟨fun hin => (List.mem_cons.mp hin).resolve_left (fun heq => hk (List.append_cancel_left heq)),
                List.mem_cons_of_mem _⟩
            rw [if_neg hk]
            simp only [hiff]
        · have hskip : loadSecret f s scope loaded name = .ok loaded := by
            rw [loadSecret, if_neg (fun hp => hprefix (List.isPrefixOf_iff_prefix.mp hp))]
            rfl
          obtain ⟨last, hlast, hall⟩ := ih loaded htail
          refine ⟨last, by rw [hskip]; exact hlast, fun k => ?_⟩
          have hiff : envPrefix ++ k ∈ name :: rest ↔ envPrefix ++ k ∈ rest :=
            ⟨fun hin => (List.mem_cons.mp hin).resolve_left (fun heq => hprefix ⟨k, heq⟩), List.mem_cons_of_mem _⟩
          rw [hall k]
          simp only [hiff]
  obtain ⟨d, hd, hget⟩ := hfold names column (fun _ hn => hn)
  refine ⟨d, ?_, fun key => ?_⟩
  · rw [loadRepositoryEnvironment, hscope, ok_bind, hnames]
    exact hd
  · rw [hget key]
    split
    · rfl
    · next hmissing =>
        have hnone := h key
        rw [secret_of_not_mem (fun hin => hmissing ((hmem _).mpr hin))] at hnone
        rw [← Except.ok.inj hnone, Option.none_or]

/-- The names under which the manager keeps other secrets of a repository. -/
inductive SecretName
  | passphrase
  | keyfile
  | externalSshPrivateKey
  | externalKnownHosts

def SecretName.text : SecretName → Text
  | .passphrase => "passphrase".toList
  | .keyfile => "keyfile".toList
  | .externalSshPrivateKey => "external_ssh_private_key".toList
  | .externalKnownHosts => "external_known_hosts".toList

/-- The vault and the column `extra_env_json` of each repository, and, for the
statement, what the last request for a repository that was carried out asked
for. -/
structure State where
  vault : Store
  columns : Dict Nat (Dict Text Text)
  asked : Nat → Option Environment

inductive Event
  | create (id : Nat) (nonce : Text → Nat) (environment : Environment)
  | update (id : Nat) (nonce : Text → Nat) (environment : Environment) (commits : Bool)
  | importRepository (id : Nat)
  | secret (id : Nat) (nonce : Nat) (name : SecretName) (value : Option Text)
  | manager (nonce : Nat) (scope : ManagerScope) (name : Text) (value : Option Text)
  | delete (id : Nat)

/-- The environment goes to the vault first; the column follows with the
transaction of the row, which may fail. -/
def storeColumn (f : Fernet) (s : State) (id : Nat) (nonce : Text → Nat) (e : Environment) (commits : Bool) : State :=
  match storeRepositoryEnvironment f nonce (some id) e.values s.vault with
  | (.ok published, vault) =>
      if commits then ⟨vault, s.columns.set id published, Function.update s.asked id (some e)⟩
      else ⟨vault, s.columns, Function.update s.asked id none⟩
  | (.error _, vault) => ⟨vault, s.columns, Function.update s.asked id none⟩

/-- The vault after a statement of its own, which leaves it alone where it
raises. -/
def attempt (s : Store) (statement : Store → Except Text Store) : Store :=
  match statement s with
  | .ok t => t
  | .error _ => s

def next (f : Fernet) (s : State) : Event → State
  | .create id nonce e =>
      if id ∈ s.columns.keys then s
      else storeColumn f { s with columns := s.columns.set id .empty, asked := Function.update s.asked id none }
        id nonce e true
  | .update id nonce e commits => if id ∈ s.columns.keys then storeColumn f s id nonce e commits else s
  | .importRepository id =>
      if id ∈ s.columns.keys then s
      else { s with columns := s.columns.set id .empty, asked := Function.update s.asked id none }
  | .secret id nonce name value =>
      { s with vault := attempt s.vault (setRepositorySecret f nonce (some id) name.text value) }
  | .manager nonce scope name value =>
      { s with vault := attempt s.vault (changeManagerSecret f nonce scope name value) }
  | .delete id =>
      ⟨attempt s.vault (deleteRepositorySecrets (some id)), s.columns.erase id, Function.update s.asked id none⟩

def start (vault : Store) : State := ⟨vault, .empty, fun _ => none⟩

/-- What a request that was carried out leaves behind. -/
def Settled (f : Fernet) (s : State) : Prop :=
  ∀ id e, s.asked id = some e →
    s.columns.get? id = some (e.values.filter (fun key => !isSensitive key)) ∧
      ∃ scope, repositoryScope (some id) = .ok scope ∧ isKeyPart scope = true ∧
        Holds f scope s.vault (e.values.filter isSensitive).get?

/-- No column has a variable that belongs in the vault. -/
def Published (s : State) : Prop :=
  ∀ id column, s.columns.get? id = some column → ∀ key ∈ column.keys, isSensitive key = false

/-- The environment of a repository in the vault is as before. -/
def Unchanged (f : Fernet) (id : Nat) (s t : Store) : Prop :=
  ∀ scope, repositoryScope (some id) = .ok scope → ∀ key,
    t.secret f ⟨scope, envPrefix ++ key⟩ = s.secret f ⟨scope, envPrefix ++ key⟩

theorem Unchanged.refl {n : Nat} : Unchanged f n s s := fun _ _ _ => rfl

theorem Frame.unchanged {n m : Nat} (h : Frame f scope s t) (hscope : repositoryScope (some n) = .ok scope)
    (hne : m ≠ n) :
    Unchanged f m s t := by
  intro other hother key
  refine h _ (.inl ?_)
  rintro rfl
  exact hne (Option.some.inj (repositoryScope_injective hother hscope))

theorem unchanged_attempt {n : Nat} {statement : Store → Except Text Store}
    (h : ∀ t, statement s = .ok t → Unchanged f n s t) : Unchanged f n s (attempt s statement) := by
  rw [attempt]
  cases hstatement : statement s with
  | ok t => exact h t hstatement
  | error e => exact Unchanged.refl

theorem unchanged_of_key {n : Nat} {k : SecretKey} {outcome : Except Text (Option Text)}
    (hkey : ∀ scope, repositoryScope (some n) = .ok scope → ∀ key, (⟨scope, envPrefix ++ key⟩ : SecretKey) ≠ k)
    (h : ∀ j, t.secret f j = if j = k then outcome else s.secret f j) : Unchanged f n s t := by
  intro scope hscope key
  rw [h, if_neg (hkey scope hscope key)]

theorem secretName_ne (name : SecretName) (key : Text) : envPrefix ++ key ≠ strip name.text := by
  have hname : strip name.text = name.text ∧ ¬ envPrefix <+: name.text := by
    cases name <;> decide
  intro heq
  rw [hname.1] at heq
  exact hname.2 ⟨key, heq⟩

theorem unchanged_secret (hf : f.Lawful) {n m nonce : Nat} {name : SecretName} {value : Option Text} :
    Unchanged f m s (attempt s (setRepositorySecret f nonce (some n) name.text value)) := by
  apply unchanged_attempt
  intro t h
  obtain ⟨scope, -, h⟩ := bind_ok h
  have hkey : ∀ other, repositoryScope (some m) = .ok other → ∀ key,
      (⟨other, envPrefix ++ key⟩ : SecretKey) ≠ ⟨strip scope, strip name.text⟩ :=
    fun other _ key heq => secretName_ne name key (congrArg SecretKey.name heq)
  rcases value with _ | _ | ⟨c, cs⟩
  · exact unchanged_of_key hkey (secret_deleteSecret h)
  · exact unchanged_of_key hkey (secret_deleteSecret h)
  · exact unchanged_of_key hkey (secret_setSecret hf h).2

theorem managerScope_ne (scope : ManagerScope) (n : Nat) :
    "repository:".toList ++ Nat.toDigits 10 n ≠ strip scope.text := by
  have hscope : strip scope.text = scope.text := by
    cases scope <;> decide
  rw [hscope]
  cases scope <;> rintro ⟨⟩

theorem unchanged_manager (hf : f.Lawful) {m nonce : Nat} {scope : ManagerScope} {name : Text} {value : Option Text} :
    Unchanged f m s (attempt s (changeManagerSecret f nonce scope name value)) := by
  apply unchanged_attempt
  intro t h
  have hkey : ∀ other, repositoryScope (some m) = .ok other → ∀ key,
      (⟨other, envPrefix ++ key⟩ : SecretKey) ≠ ⟨strip scope.text, strip name⟩ := by
    intro other hother key heq
    obtain ⟨n, -, rfl⟩ := repositoryScope_ok hother
    exact managerScope_ne scope n (congrArg SecretKey.scope heq)
  cases value with
  | none => exact unchanged_of_key hkey (secret_deleteSecret h)
  | some value => exact unchanged_of_key hkey (secret_setSecret hf h).2

theorem unchanged_delete {n m : Nat} (hne : m ≠ n) :
    Unchanged f m s (attempt s (deleteRepositorySecrets (some n))) := by
  apply unchanged_attempt
  intro t h
  obtain ⟨scope, hscope, h⟩ := bind_ok h
  intro other hother key
  rw [secret_deleteSecretScope h, if_neg]
  rw [strip_repositoryScope hscope]
  rintro rfl
  exact hne (Option.some.inj (repositoryScope_injective hother hscope))

variable {a b : State} {n : Nat} {e : Environment}

/-- A repository whose column and secrets are as before stays settled. -/
theorem settled_of (h : Settled f a)
    (hasked : ∀ m e, b.asked m = some e → a.asked m = some e ∧ b.columns.get? m = a.columns.get? m ∧
    Unchanged f m a.vault b.vault) : Settled f b := by
  intro m e he
  obtain ⟨hbefore, hcolumn, hvault⟩ := hasked m e he
  obtain ⟨hget, scope, hscope, hpart, hholds⟩ := h m e hbefore
  exact ⟨hcolumn.trans hget, scope, hscope, hpart, fun key => (hvault scope hscope key).trans (hholds key)⟩

/-- A repository whose request was lost is not asked for any more. -/
theorem asked_of_lost {asked : Nat → Option Environment} {m : Nat} {e : Environment}
    (h : Function.update asked n none m = some e) : asked m = some e ∧ m ≠ n := by
  by_cases hm : m = n
  · rw [hm, Function.update_self] at h
    cases h
  · rw [Function.update_of_ne hm] at h
    exact ⟨h, hm⟩

theorem invariant_storeColumn (hf : f.Lawful) {commits : Bool} (hsettled : Settled f a) (hpublished : Published a) :
    Settled f (storeColumn f a n nonce e commits) ∧ Published (storeColumn f a n nonce e commits) := by
  rw [storeColumn]
  cases hscope : repositoryScope (some n) with
  | error message =>
      have hrun : storeRepositoryEnvironment f nonce (some n) e.values a.vault = (.error message, a.vault) := by
        rw [storeRepositoryEnvironment, hscope]
        rfl
      rw [hrun]
      exact ⟨settled_of hsettled fun m e' he => ⟨(asked_of_lost he).1, rfl, Unchanged.refl⟩, hpublished⟩
  | ok scope =>
      have hends := @ends_store f nonce (some n) scope a.vault hf e hscope
      rw [Ends] at hends
      cases hrun : storeRepositoryEnvironment f nonce (some n) e.values a.vault with
      | mk outcome vault =>
          rw [hrun] at hends
          obtain ⟨hframe, hstored⟩ := hends
          have hothers : ∀ m, m ≠ n → Unchanged f m a.vault vault := fun m hm => hframe.unchanged hscope hm
          cases outcome with
          | error message =>
              refine ⟨settled_of hsettled fun m e' he => ?_, hpublished⟩
              obtain ⟨hbefore, hm⟩ := asked_of_lost he
              exact ⟨hbefore, rfl, hothers m hm⟩
          | ok published =>
              obtain ⟨rfl, hpart, hholds⟩ := hstored published rfl
              dsimp only
              cases commits with
              | false =>
                  refine ⟨settled_of hsettled fun m e' he => ?_, hpublished⟩
                  obtain ⟨hbefore, hm⟩ := asked_of_lost he
                  exact ⟨hbefore, rfl, hothers m hm⟩
              | true =>
                  refine ⟨fun m e' he => ?_, fun m column hcolumn key hkey => ?_⟩
                  · by_cases hm : m = n
                    · subst hm
                      have hasked : Function.update a.asked m (some e) m = some e' := he
                      rw [Function.update_self] at hasked
                      cases hasked
                      exact ⟨by simp, scope, hscope, hpart, hholds⟩
                    · have hbefore : a.asked m = some e' := by
                        simpa [Function.update_of_ne hm] using he
                      obtain ⟨hget, other, hother, hpart', hkept⟩ := hsettled m e' hbefore
                      refine ⟨by simpa [hm] using hget, other, hother, hpart', fun key => ?_⟩
                      exact (hothers m hm other hother key).trans (hkept key)
                  · have hcase : (if m = n then some (e.values.filter (fun key => !isSensitive key))
                        else a.columns.get? m) = some column := by
                      simpa using hcolumn
                    by_cases hm : m = n
                    · rw [if_pos hm] at hcase
                      cases hcase
                      obtain ⟨value, hvalue⟩ := Dict.mem_keys.mp hkey
                      rw [Dict.get?_filter] at hvalue
                      split at hvalue
                      · next hnot => simpa using hnot
                      · cases hvalue
                    · rw [if_neg hm] at hcase
                      exact hpublished m column hcase key hkey

/-- A new row has an empty column. -/
theorem published_empty (h : Published a) : Published { a with columns := a.columns.set n .empty } := by
  intro m column hcolumn key hkey
  have hcase : (if m = n then some .empty else a.columns.get? m) = some column := by simpa using hcolumn
  by_cases hm : m = n
  · rw [if_pos hm] at hcase
    cases hcase
    exact absurd hkey List.not_mem_nil
  · rw [if_neg hm] at hcase
    exact h m column hcase key hkey

theorem settled_empty (h : Settled f a) :
    Settled f { a with columns := a.columns.set n .empty, asked := Function.update a.asked n none } := by
  apply settled_of h
  intro m e he
  obtain ⟨hbefore, hm⟩ := asked_of_lost he
  exact ⟨hbefore, by simp [hm], Unchanged.refl⟩

theorem invariant_next (hf : f.Lawful) (event : Event) (hsettled : Settled f a) (hpublished : Published a) :
    Settled f (next f a event) ∧ Published (next f a event) := by
  cases event with
  | create n nonce e =>
      rw [next]
      split
      · exact ⟨hsettled, hpublished⟩
      · exact invariant_storeColumn hf (settled_empty hsettled) (published_empty hpublished)
  | update n nonce e commits =>
      rw [next]
      split
      · exact invariant_storeColumn hf hsettled hpublished
      · exact ⟨hsettled, hpublished⟩
  | importRepository n =>
      rw [next]
      split
      · exact ⟨hsettled, hpublished⟩
      · exact ⟨settled_empty hsettled, published_empty hpublished⟩
  | secret n nonce name value => exact ⟨settled_of hsettled fun _ _ he => ⟨he, rfl, unchanged_secret hf⟩, hpublished⟩
  | manager nonce scope name value =>
      exact ⟨settled_of hsettled fun _ _ he => ⟨he, rfl, unchanged_manager hf⟩, hpublished⟩
  | delete n =>
      refine ⟨settled_of hsettled fun m e he => ?_, fun m column hcolumn => ?_⟩
      · obtain ⟨hbefore, hm⟩ := asked_of_lost he
        exact ⟨hbefore, by simp [next, hm], unchanged_delete hm⟩
      · have hcase : (if m = n then none else a.columns.get? m) = some column := by simpa [next] using hcolumn
        split at hcase
        · cases hcase
        · exact hpublished m column hcase

/-- After any history of requests and of other changes of the vault, the
environment that Borg runs with in a repository is the one of the last request
for it, as long as that request was carried out, and no column of the manager
database has a sensitive variable. -/
theorem environment_loaded (hf : f.Lawful) {vault : Store} {events : List Event} {s : State}
    (h : Histories.History (fun a event b => next f a event = b) (start vault) events s) :
    Published s ∧ ∀ id e, s.asked id = some e → ∃ column loaded,
      s.columns.get? id = some column ∧ loadRepositoryEnvironment f s.vault (some id) column = .ok loaded ∧
        ∀ key, loaded.get? key = e.values.get? key := by
  obtain ⟨hsettled, hpublished⟩ := h.invariant (fun s => Settled f s ∧ Published s)
    ⟨by rintro _ _ ⟨⟩, by rintro _ _ ⟨⟩⟩
    (fun a event b hinv hstep => hstep ▸ invariant_next hf event hinv.1 hinv.2)
  refine ⟨hpublished, fun id e he => ?_⟩
  obtain ⟨hcolumn, scope, hscope, hpart, hholds⟩ := hsettled id e he
  obtain ⟨loaded, hloaded, hget⟩ := load_holds hholds hscope hpart (e.values.filter (fun key => !isSensitive key))
  refine ⟨_, loaded, hcolumn, hloaded, fun key => ?_⟩
  rw [hget key, Dict.get?_filter, Dict.get?_filter]
  cases isSensitive key <;> simp

/-- A cipher that only encodes. -/
def encoding : Fernet := ⟨fun _ octets => Base64.encode octets, Base64.decode⟩

theorem lawful_encoding : encoding.Lawful where
  decrypt_encrypt := fun _ octets => Base64.decode_encode octets
  ascii := fun _ octets => Base64.ascii_encode octets

def noSecrets : Store := ⟨.empty, by rintro k ⟨⟩⟩

def tokenEnvironment : Environment where
  values := ⟨[("BORG_RSH_NOTE".toList, "a b".toList), ("API_TOKEN".toList, "t'1".toList)], by decide⟩
  safe := rfl

theorem environment_loaded_token :
    ∃ column loaded, (next encoding (start noSecrets) (.create 7 (fun _ => 0) tokenEnvironment)).columns.get?
      7 = some column ∧
      loadRepositoryEnvironment encoding
        (next encoding (start noSecrets) (.create 7 (fun _ => 0) tokenEnvironment)).vault (some 7) column =
        .ok loaded ∧
      loaded.get? "API_TOKEN".toList = some "t'1".toList := by
  have hrun : Histories.History (fun a event b => next encoding a event = b) (start noSecrets)
      [.create 7 (fun _ => 0) tokenEnvironment]
        (next encoding (start noSecrets) (.create 7 (fun _ => 0) tokenEnvironment)) :=
    .single rfl
  obtain ⟨column, loaded, hcolumn, hloaded, hget⟩ := (environment_loaded lawful_encoding hrun).2 7 tokenEnvironment rfl
  exact ⟨column, loaded, hcolumn, hloaded, hget _⟩

end BorgManager.EnvironmentVault
