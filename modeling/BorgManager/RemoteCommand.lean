import BorgManager.EnvironmentVault
import BorgManager.ShellWords

namespace BorgManager.RemoteCommand

open Dictionaries Exceptions SecretStore EnvironmentVault ShellWords

structure Repository where
  id : Option Nat
  location : Text
  storagePath : Option Text
  encryptionMode : Option Text
  extraEnv : Dict Text Text

structure Host where
  name : Text
  address : Text
  port : Nat
  username : Text
  enabled : Bool
  hostKey : Option Text

/-- What the process has from outside: the scheme that `urlsplit` finds, the
time zone, the text of `_SECRET_WRAPPER`, whether it runs as root, and the
directories below `/data`. -/
structure Settings where
  urlScheme : Text → Text
  timezone : Text
  secretWrapper : Text
  isRoot : Bool
  managerCacheDir : Text
  managerSecurityDir : Text

/-- The fields of a command that are set here. -/
structure Command where
  argv : List Text
  preview : Text
  stdinData : Option (List UInt8)
  env : Option (Dict Text Text)
  tempFiles : List (Text × Text)
  stdinControlledCancel : Bool

def truthy : Option Text → Option Text
  | some [] => none
  | value => value

/-- The pattern of `user@host:path` at the start of a location. -/
def isScpLocation (location : Text) : Bool :=
  let user := location.takeWhile (fun c => !"/@:".toList.contains c)
  match location.drop user.length with
  | '@' :: rest =>
      let host := rest.takeWhile (fun c => !"/:".toList.contains c)
      match rest.drop host.length with
      | ':' :: c :: _ => user != [] && host != [] && c != '\n'
      | _ => false
  | _ => false

def repositoryUsesSsh (st : Settings) (r : Repository) : Bool :=
  st.urlScheme r.location == "ssh".toList || isScpLocation r.location

def unencryptedModes : List Text := ["none", "authenticated", "authenticated-blake2"].map String.toList

def stdinSecret : Text := "_BBM_STDIN_SECRET".toList

def keyfileContent : Text := "_BBM_KEYFILE".toList

def externalSshKey : Text := "_BBM_EXTERNAL_SSH_KEY".toList

def externalKnownHosts : Text := "_BBM_EXTERNAL_KNOWN_HOSTS".toList

def externalSshVerbose : Text := "_BBM_EXTERNAL_SSH_VERBOSE".toList

def clientCacheKey : Text := "_BBM_CLIENT_CACHE_KEY".toList

variable (st : Settings) (f : Fernet) (s : Store)

def withPassphrase (r : Repository) (env : Dict Text Text) : Except Text (Dict Text Text) := do
  match ← getRepositorySecret f r.id "passphrase".toList s with
  | some secret => pure (env.set stdinSecret secret)
  | none => pure env

def withKeyfile (r : Repository) (mode : Text) (env : Dict Text Text) : Except Text (Dict Text Text) :=
  if "keyfile".toList.isPrefixOf mode then do
    match truthy (← getRepositorySecret f r.id "keyfile".toList s) with
    | none => .error "Keyfile repository has no stored Borg key".toList
    | some keyfile =>
        pure ((env.set keyfileContent keyfile).set "_BBM_KEYFILE_NAME".toList
          ("bbm_repository_".toList ++ Nat.toDigits 10 (r.id.getD 0)))
  else pure env

def checkExtra (extra : Dict Text Text) : Except Text Unit :=
  if extra.keys.any (fun key => !isVariable key) then
    .error "Repository environment contains an invalid variable name".toList
  else if reservedVariables.any extra.keys.contains then
    .error "Repository environment attempts to override a reserved Borg variable".toList
  else pure ()

def commonRepositoryEnv (r : Repository) : Except Text (Dict Text Text) := do
  let mode := (truthy r.encryptionMode).getD "repokey-blake2".toList
  let env := (Dict.empty.set "BORG_REPO".toList r.location).set "TZ".toList st.timezone
  let env := if unencryptedModes.contains mode then
    env.set "BORG_UNKNOWN_UNENCRYPTED_REPO_ACCESS_IS_OK".toList "yes".toList else env
  let env ← withPassphrase f s r env
  let env ← withKeyfile f s r mode env
  let extra ← loadRepositoryEnvironment f s r.id r.extraEnv
  checkExtra extra
  pure (env.update extra)

def withExternalSsh (r : Repository) (verboseSsh : Bool) (env : Dict Text Text) : Except Text (Dict Text Text) := do
  let sshKey ← getRepositorySecret f r.id "external_ssh_private_key".toList s
  let knownHosts ← getRepositorySecret f r.id "external_known_hosts".toList s
  match truthy sshKey, truthy knownHosts with
  | none, _ => .error "External repository has no manager SSH key configured".toList
  | _, none => .error "External repository has no manager known_hosts entry configured".toList
  | some sshKey, some knownHosts =>
      pure (((env.set externalSshKey sshKey).set externalKnownHosts knownHosts).set externalSshVerbose
        (if verboseSsh then ['1'] else ['0']))

def repositoryIdentityFile (id : Nat) : Text :=
  "~/.ssh/bbm_repository_".toList ++ Nat.toDigits 10 id ++ "_ed25519".toList

def sshCommon : Text :=
  ("-o BatchMode=yes -o ConnectTimeout=10 -o ConnectionAttempts=1 " ++
    "-o ServerAliveInterval=10 -o ServerAliveCountMax=30").toList

def remoteEnv (r : Repository) (verboseSsh : Bool) : Except Text (Dict Text Text) := do
  let env ← commonRepositoryEnv st f s r
  match r.id with
  | none => .error "Repository must be persisted before client cache isolation is used".toList
  | some id =>
      let env := env.set clientCacheKey ("repository-".toList ++ Nat.toDigits 10 id)
      match truthy r.storagePath with
      | some _ =>
          let verbosity := if verboseSsh then " -vv".toList else []
          pure (env.set "BORG_RSH".toList
            ("ssh".toList ++ verbosity ++ " -i ".toList ++ repositoryIdentityFile id ++ [' '] ++ sshCommon ++
              " -o IdentitiesOnly=yes -o StrictHostKeyChecking=yes -o UserKnownHostsFile=~/.ssh/bbm_repository_known_hosts".toList))
      | none => if repositoryUsesSsh st r then withExternalSsh f s r verboseSsh env else pure env

/-- Characters of the ASCII range as octets. -/
def ascii (t : Text) : List UInt8 := t.map (fun c => UInt8.ofNat c.toNat)

def payloadLine : Option Text → List UInt8
  | none => ascii ['-', '\n']
  | some value => ascii (Base64.encode (utf8 value)) ++ ascii ['\n']

def payloadKeys : List Text := [externalSshKey, externalKnownHosts, keyfileContent, stdinSecret]

def secretPayload (env : Dict Text Text) (required : Bool) : Option (List UInt8) :=
  let values := payloadKeys.map env.get?
  if !required && !values.any Option.isSome then none else some (values.flatMap payloadLine)

def isPublic (key : Text) : Bool := !"_BBM_".toList.isPrefixOf key

def publicEnv (env : Dict Text Text) : Dict Text Text := env.filter isPublic

def assignments (env : Dict Text Text) : List Text := env.items.map (fun item => item.1 ++ '=' :: quote item.2)

def keyPlaceholder : Text := "__BBM_CONTROLLER_KEY__".toList

def knownPlaceholder : Text := "__BBM_CONTROLLER_KNOWN_HOSTS__".toList

/-- The parts as the device gets them: behind the wrapper, when there is a
payload for it. -/
def wrappedParts (remoteParts : List Text) (env : Dict Text Text) (supervised : Bool) : List Text :=
  let cacheKey := (env.get? clientCacheKey).getD ['-']
  match secretPayload env (supervised || cacheKey != ['-']) with
  | none => remoteParts
  | some _ =>
      ["sh".toList, "-c".toList, st.secretWrapper, "--".toList, (env.get? externalSshVerbose).getD ['0'],
        cacheKey] ++ remoteParts

def spaced (parts : List Text) : Text := List.intercalate [' '] parts

def sshArgv (host : Host) (remoteParts : List Text) (env : Dict Text Text) (supervised : Bool) :
    Except Text Command := do
  if !host.enabled then
    .error ("Host ".toList ++ host.name ++ " is disabled".toList)
  else
    let cacheKey := (env.get? clientCacheKey).getD ['-']
    let payload := secretPayload env (supervised || cacheKey != ['-'])
    let remote := spaced (assignments (publicEnv env) ++ (wrappedParts st remoteParts env supervised).map quote)
    let previewEnv :=
      match truthy (env.get? externalSshKey) with
      | some _ => (publicEnv env).set "BORG_RSH".toList
          "ssh -i [temporärer Manager-Schlüssel] -o StrictHostKeyChecking=yes".toList
      | none => publicEnv env
    let previewRemote := spaced (assignments previewEnv ++ remoteParts.map quote)
    match truthy (← getSecret f s systemScope "controller_private_key".toList none), truthy host.hostKey with
    | none, _ => .error "Controller-Schlüssel ist im Sicherheitsspeicher nicht vorhanden".toList
    | _, none => .error ("SSH-Hostkey für ".toList ++ host.name ++ " fehlt".toList)
    | some controllerKey, some hostKey =>
        let destination := host.username ++ '@' :: host.address
        pure {
          argv := ["ssh", "-i"].map String.toList ++ [keyPlaceholder] ++
            ["-o", "BatchMode=yes", "-o", "ConnectTimeout=10", "-o", "ConnectionAttempts=1",
              "-o", "ServerAliveInterval=10", "-o", "ServerAliveCountMax=30", "-o", "IdentitiesOnly=yes",
              "-o", "StrictHostKeyChecking=yes", "-o"].map String.toList ++
            ["UserKnownHostsFile=".toList ++ knownPlaceholder, "-p".toList, Nat.toDigits 10 host.port, "--".toList,
              destination, remote]
          preview := "ssh -i [temporärer Controller-Schlüssel] ".toList ++ destination ++ " -- ".toList ++ previewRemote
          stdinData := payload
          env := none
          tempFiles := [(keyPlaceholder, controllerKey), (knownPlaceholder, strip hostKey ++ ['\n'])]
          stdinControlledCancel := payload.isSome }

/-- A command on a device, as the callers put it together. -/
def deviceCommand (host : Host) (r : Repository) (remoteParts : List Text) (verboseSsh supervised : Bool) :
    Except Text Command := do
  let env ← remoteEnv st f s r verboseSsh
  sshArgv st f s host remoteParts env supervised

def managerBorgArgv (parts : List Text) : List Text :=
  if st.isRoot then ["runuser", "-u", "borg", "--"].map String.toList ++ parts else parts

/-- The repository that a command of the manager opens, and its identity. -/
def managerTarget (r : Repository) (verboseSsh : Bool) (env : Dict Text Text) : Except Text (Dict Text Text) :=
  match truthy r.storagePath with
  | some path => pure (env.set "BORG_REPO".toList path)
  | none => if repositoryUsesSsh st r then withExternalSsh f s r verboseSsh env else pure env

def managerRepositoryCommand (r : Repository) (parts : List Text) (verboseSsh : Bool) : Except Text Command := do
  let env ← commonRepositoryEnv st f s r
  match r.id with
  | none | some 0 => .error "Repository must be persisted before its cache is used".toList
  | some id =>
      let env := env.set "BORG_CACHE_DIR".toList (st.managerCacheDir ++ "/repository-".toList ++ Nat.toDigits 10 id)
      let env := env.set "BORG_SECURITY_DIR".toList st.managerSecurityDir
      let env ← managerTarget st f s r verboseSsh env
      let payload := secretPayload env false
      let argv :=
        match payload with
        | some _ =>
            ["sh".toList, "-c".toList, st.secretWrapper, "--".toList, (env.get? externalSshVerbose).getD ['0'],
              ['-']] ++ parts
        | none => parts
      let location := (truthy r.storagePath).getD r.location
      let exported := publicEnv env
      pure {
        argv := managerBorgArgv st argv
        preview := "[direkt im Manager] BORG_REPO=".toList ++ quote location ++ ' ' :: join parts
        stdinData := payload
        env := if exported.items = [] then none else some exported
        tempFiles := []
        stdinControlledCancel := payload.isSome }

variable {st f s} {r : Repository} {env extra : Dict Text Text} {verboseSsh supervised : Bool}

theorem isName_variable {key : Text} (h : isVariable key = true) : IsName key ∧ isPublic key = true := by
  cases key with
  | nil => cases h
  | cons c cs =>
      rw [isVariable, Bool.and_eq_true] at h
      have hupper : c.isAlpha = true := by rw [Char.isAlpha, h.1, Bool.true_or]
      refine ⟨⟨⟨c, rfl, by rw [isNameStart, hupper, Bool.true_or]⟩, fun d hd => ?_⟩, ?_⟩
      · rcases List.mem_cons.mp hd with rfl | hd
        · simp [isNameChar, Char.isAlphanum, hupper]
        · have hchar := List.all_eq_true.mp h.2 d hd
          simp only [Bool.or_eq_true, beq_iff_eq] at hchar
          rcases hchar with (hd' | hd') | rfl
          · simp [isNameChar, Char.isAlphanum, Char.isAlpha, hd']
          · simp [isNameChar, Char.isAlphanum, hd']
          · rfl
      · have hne : '_' ≠ c := by
          rintro rfl
          exact absurd h.1 (by decide)
        simp [isPublic, List.isPrefixOf, hne]

/-- The variables that the manager keeps for itself. -/
structure Private where
  passphrase : Option Text
  keyfile : Option Text
  ssh : Option (Text × Text × Bool)
  cacheKey : Option Text

/-- An environment consists of these exported variables and of these that the
manager keeps for itself. -/
structure Carries (env exported : Dict Text Text) (p : Private) : Prop where
  exports : publicEnv env = exported
  named : ∀ key ∈ exported.keys, IsName key
  passphrase : env.get? stdinSecret = p.passphrase
  keyfile : env.get? keyfileContent = p.keyfile
  sshKey : env.get? externalSshKey = p.ssh.map (fun ssh => ssh.1)
  knownHosts : env.get? externalKnownHosts = p.ssh.map (fun ssh => ssh.2.1)
  verbose : env.get? externalSshVerbose = p.ssh.map (fun ssh => if ssh.2.2 then ['1'] else ['0'])
  cacheKey : env.get? clientCacheKey = p.cacheKey

variable {exported : Dict Text Text} {p : Private}

theorem carries_empty : Carries .empty .empty ⟨none, none, none, none⟩ where
  exports := rfl
  named := by rintro key ⟨⟩
  passphrase := rfl
  keyfile := rfl
  sshKey := rfl
  knownHosts := rfl
  verbose := rfl
  cacheKey := rfl

/-- An exported variable changes none of those that the manager keeps. -/
theorem Carries.set (h : Carries env exported p) (key value : Text) (hname : IsName key)
    (hpublic : isPublic key = true) :
    Carries (env.set key value) (exported.set key value) p := by
  have hne : ∀ hidden, isPublic hidden = false → hidden ≠ key := by
    rintro hidden hhidden rfl
    exact Bool.false_ne_true (hhidden.symm.trans hpublic)
  constructor
  · rw [publicEnv, Dict.filter_set_of_pos hpublic, ← h.exports, publicEnv]
  · intro k hk
    rcases Dict.mem_keys_set.mp hk with rfl | hk
    · exact hname
    · exact h.named k hk
  · rw [Dict.get?_set, if_neg (hne _ rfl), h.passphrase]
  · rw [Dict.get?_set, if_neg (hne _ rfl), h.keyfile]
  · rw [Dict.get?_set, if_neg (hne _ rfl), h.sshKey]
  · rw [Dict.get?_set, if_neg (hne _ rfl), h.knownHosts]
  · rw [Dict.get?_set, if_neg (hne _ rfl), h.verbose]
  · rw [Dict.get?_set, if_neg (hne _ rfl), h.cacheKey]

/-- A variable that the manager keeps does not change what is exported. -/
theorem exported_set {key value : Text} (hhidden : isPublic key = false) :
    publicEnv (env.set key value) = publicEnv env :=
  Dict.filter_set_of_neg hhidden

theorem Carries.update (h : Carries env exported p) (hextra : ∀ key ∈ extra.keys, isVariable key = true) :
    Carries (env.update extra) (exported.update extra) p := by
  have hpublic : ∀ key ∈ extra.keys, isPublic key = true := fun key hkey => (isName_variable (hextra key hkey)).2
  have hget : ∀ hidden, isPublic hidden = false → (env.update extra).get? hidden = env.get? hidden := by
    intro hidden hhidden
    have hnone : extra.get? hidden = none :=
      Dict.get?_eq_none.mpr fun hmem => Bool.false_ne_true (hhidden.symm.trans (hpublic hidden hmem))
    rw [Dict.get?_update, hnone, Option.none_or]
  constructor
  · rw [publicEnv, Dict.filter_update hpublic, ← h.exports, publicEnv]
  · intro k hk
    rcases Dict.mem_keys_update.mp hk with hk | hk
    · exact (isName_variable (hextra k hk)).1
    · exact h.named k hk
  · rw [hget _ rfl, h.passphrase]
  · rw [hget _ rfl, h.keyfile]
  · rw [hget _ rfl, h.sshKey]
  · rw [hget _ rfl, h.knownHosts]
  · rw [hget _ rfl, h.verbose]
  · rw [hget _ rfl, h.cacheKey]

theorem carries_withPassphrase {env' : Dict Text Text} (h : Carries env exported ⟨none, none, none, none⟩)
    (hrun : withPassphrase f s r env = .ok env') :
    ∃ passphrase, getRepositorySecret f r.id "passphrase".toList s = .ok passphrase ∧
      Carries env' exported ⟨passphrase, none, none, none⟩ := by
  obtain ⟨passphrase, hsecret, hrun⟩ := bind_ok hrun
  refine ⟨passphrase, hsecret, ?_⟩
  cases passphrase with
  | none =>
      cases hrun
      exact h
  | some secret =>
      cases hrun
      constructor
      · rw [exported_set rfl, h.exports]
      · exact h.named
      · rw [Dict.get?_set, if_pos rfl]
      · rw [Dict.get?_set, if_neg (by decide), h.keyfile]
      · rw [Dict.get?_set, if_neg (by decide), h.sshKey]
      · rw [Dict.get?_set, if_neg (by decide), h.knownHosts]
      · rw [Dict.get?_set, if_neg (by decide), h.verbose]
      · rw [Dict.get?_set, if_neg (by decide), h.cacheKey]

/-- The key that a mode with a keyfile hands over. -/
def Keyfile (f : Fernet) (s : Store) (r : Repository) (mode : Text) (keyfile : Option Text) : Prop :=
  if "keyfile".toList.isPrefixOf mode then
    ∃ key, keyfile = some key ∧ key ≠ [] ∧ getRepositorySecret f r.id "keyfile".toList s = .ok (some key)
  else keyfile = none

theorem truthy_eq_some {value : Option Text} {t : Text} (h : truthy value = some t) : value = some t ∧ t ≠ [] := by
  rcases value with _ | _ | ⟨c, cs⟩
  · cases h
  · cases h
  · cases h
    exact ⟨rfl, List.cons_ne_nil c cs⟩

theorem carries_withKeyfile {env' : Dict Text Text} {passphrase : Option Text} {mode : Text}
    (h : Carries env exported ⟨passphrase, none, none, none⟩) (hrun : withKeyfile f s r mode env = .ok env') :
    ∃ keyfile, Keyfile f s r mode keyfile ∧ Carries env' exported ⟨passphrase, keyfile, none, none⟩ := by
  rw [withKeyfile] at hrun
  by_cases hmode : "keyfile".toList.isPrefixOf mode = true
  · rw [if_pos hmode] at hrun
    obtain ⟨secret, hsecret, hrun⟩ := bind_ok hrun
    cases htruthy : truthy secret with
    | none =>
        rw [htruthy] at hrun
        cases hrun
    | some key =>
        rw [htruthy] at hrun
        cases hrun
        obtain ⟨rfl, hne⟩ := truthy_eq_some htruthy
        refine ⟨some key, by rw [Keyfile, if_pos hmode]; exact ⟨key, rfl, hne, hsecret⟩, ?_⟩
        constructor
        · rw [exported_set rfl, exported_set rfl, h.exports]
        · exact h.named
        · rw [Dict.get?_set, if_neg (by decide), Dict.get?_set, if_neg (by decide), h.passphrase]
        · rw [Dict.get?_set, if_neg (by decide), Dict.get?_set, if_pos rfl]
        · rw [Dict.get?_set, if_neg (by decide), Dict.get?_set, if_neg (by decide), h.sshKey]
        · rw [Dict.get?_set, if_neg (by decide), Dict.get?_set, if_neg (by decide), h.knownHosts]
        · rw [Dict.get?_set, if_neg (by decide), Dict.get?_set, if_neg (by decide), h.verbose]
        · rw [Dict.get?_set, if_neg (by decide), Dict.get?_set, if_neg (by decide), h.cacheKey]
  · rw [if_neg hmode] at hrun
    cases hrun
    exact ⟨none, by rw [Keyfile, if_neg hmode], h⟩

theorem checkExtra_ok (h : checkExtra extra = .ok ()) : ∀ key ∈ extra.keys, isVariable key = true := by
  rw [checkExtra] at h
  split at h
  · cases h
  · next hall =>
      rw [Bool.not_eq_true, List.any_eq_false] at hall
      intro key hkey
      simpa using hall key hkey

def encryptionMode (r : Repository) : Text := (truthy r.encryptionMode).getD "repokey-blake2".toList

/-- What a command exports of a repository: no secret is among it. -/
def commonExports (st : Settings) (r : Repository) (extra : Dict Text Text) : Dict Text Text :=
  let exports := (Dict.empty.set "BORG_REPO".toList r.location).set "TZ".toList st.timezone
  let exports :=
    if unencryptedModes.contains (encryptionMode r) then
      exports.set "BORG_UNKNOWN_UNENCRYPTED_REPO_ACCESS_IS_OK".toList "yes".toList
    else exports
  exports.update extra

theorem carries_common (h : commonRepositoryEnv st f s r = .ok env) :
    ∃ extra passphrase keyfile, loadRepositoryEnvironment f s r.id r.extraEnv = .ok extra ∧
      getRepositorySecret f r.id "passphrase".toList s = .ok passphrase ∧ Keyfile f s r (encryptionMode r) keyfile ∧
      Carries env (commonExports st r extra) ⟨passphrase, keyfile, none, none⟩ := by
  rw [commonRepositoryEnv] at h
  obtain ⟨withSecret, hsecret, h⟩ := bind_ok h
  obtain ⟨withKey, hkey, h⟩ := bind_ok h
  obtain ⟨extra, hextra, h⟩ := bind_ok h
  obtain ⟨⟨⟩, hcheck, h⟩ := bind_ok h
  cases h
  have hbase : Carries ((Dict.empty.set "BORG_REPO".toList r.location).set "TZ".toList st.timezone)
      ((Dict.empty.set "BORG_REPO".toList r.location).set "TZ".toList st.timezone) ⟨none, none, none, none⟩ :=
    (carries_empty.set _ _ (by decide) rfl).set _ _ (by decide) rfl
  have hexports : Carries
      (if unencryptedModes.contains (encryptionMode r) then
        ((Dict.empty.set "BORG_REPO".toList r.location).set "TZ".toList st.timezone).set
          "BORG_UNKNOWN_UNENCRYPTED_REPO_ACCESS_IS_OK".toList "yes".toList
        else (Dict.empty.set "BORG_REPO".toList r.location).set "TZ".toList st.timezone)
      (if unencryptedModes.contains (encryptionMode r) then
        ((Dict.empty.set "BORG_REPO".toList r.location).set "TZ".toList st.timezone).set
          "BORG_UNKNOWN_UNENCRYPTED_REPO_ACCESS_IS_OK".toList "yes".toList
        else (Dict.empty.set "BORG_REPO".toList r.location).set "TZ".toList st.timezone) ⟨none, none, none, none⟩ := by
    split
    · exact hbase.set _ _ (by decide) rfl
    · exact hbase
  obtain ⟨passphrase, hpassphrase, hcarries⟩ := carries_withPassphrase hexports hsecret
  obtain ⟨keyfile, hkeyfile, hcarries⟩ := carries_withKeyfile hcarries hkey
  exact ⟨extra, passphrase, keyfile, hextra, hpassphrase, hkeyfile, hcarries.update (checkExtra_ok hcheck)⟩

/-- The identity and the known hosts of an external repository. -/
def ExternalSsh (st : Settings) (f : Fernet) (s : Store) (r : Repository) (verboseSsh : Bool)
    (ssh : Option (Text × Text × Bool)) : Prop :=
  if truthy r.storagePath = none ∧ repositoryUsesSsh st r = true then
    ∃ sshKey knownHosts, ssh = some (sshKey, knownHosts, verboseSsh) ∧ sshKey ≠ [] ∧ knownHosts ≠ [] ∧
      getRepositorySecret f r.id "external_ssh_private_key".toList s = .ok (some sshKey) ∧
      getRepositorySecret f r.id "external_known_hosts".toList s = .ok (some knownHosts)
  else ssh = none

theorem carries_withExternalSsh {env' : Dict Text Text} (h : Carries env exported { p with ssh := none })
    (hrun : withExternalSsh f s r verboseSsh env = .ok env') :
    ∃ sshKey knownHosts, sshKey ≠ [] ∧ knownHosts ≠ [] ∧
      getRepositorySecret f r.id "external_ssh_private_key".toList s = .ok (some sshKey) ∧
      getRepositorySecret f r.id "external_known_hosts".toList s = .ok (some knownHosts) ∧
      Carries env' exported { p with ssh := some (sshKey, knownHosts, verboseSsh) } := by
  obtain ⟨sshKey, hkey, hrun⟩ := bind_ok hrun
  obtain ⟨knownHosts, hhosts, hrun⟩ := bind_ok hrun
  cases htruthyKey : truthy sshKey with
  | none =>
      rw [htruthyKey] at hrun
      cases hrun
  | some key =>
      cases htruthyHosts : truthy knownHosts with
      | none =>
          rw [htruthyKey, htruthyHosts] at hrun
          cases hrun
      | some hosts =>
          rw [htruthyKey, htruthyHosts] at hrun
          cases hrun
          obtain ⟨rfl, hkeyne⟩ := truthy_eq_some htruthyKey
          obtain ⟨rfl, hhostsne⟩ := truthy_eq_some htruthyHosts
          refine ⟨key, hosts, hkeyne, hhostsne, hkey, hhosts, ?_⟩
          constructor
          · rw [exported_set rfl, exported_set rfl, exported_set rfl, h.exports]
          · exact h.named
          · rw [Dict.get?_set, if_neg (by decide), Dict.get?_set, if_neg (by decide), Dict.get?_set,
              if_neg (by decide), h.passphrase]
          · rw [Dict.get?_set, if_neg (by decide), Dict.get?_set, if_neg (by decide), Dict.get?_set,
              if_neg (by decide), h.keyfile]
          · rw [Dict.get?_set, if_neg (by decide), Dict.get?_set, if_neg (by decide), Dict.get?_set, if_pos rfl,
              Option.map_some]
          · rw [Dict.get?_set, if_neg (by decide), Dict.get?_set, if_pos rfl, Option.map_some]
          · rw [Dict.get?_set, if_pos rfl, Option.map_some]
          · rw [Dict.get?_set, if_neg (by decide), Dict.get?_set, if_neg (by decide), Dict.get?_set,
              if_neg (by decide), h.cacheKey]

/-- What a command on a device exports. -/
def remoteExports (st : Settings) (r : Repository) (id : Nat) (verboseSsh : Bool) (extra : Dict Text Text) :
    Dict Text Text :=
  match truthy r.storagePath with
  | some _ =>
      (commonExports st r extra).set "BORG_RSH".toList
        ("ssh".toList ++ (if verboseSsh then " -vv".toList else []) ++ " -i ".toList ++
          repositoryIdentityFile id ++ [' '] ++ sshCommon ++
          " -o IdentitiesOnly=yes -o StrictHostKeyChecking=yes -o UserKnownHostsFile=~/.ssh/bbm_repository_known_hosts".toList)
  | none => commonExports st r extra

theorem carries_remote (h : remoteEnv st f s r verboseSsh = .ok env) :
    ∃ id extra passphrase keyfile ssh, r.id = some id ∧ loadRepositoryEnvironment f s r.id r.extraEnv = .ok extra ∧
      getRepositorySecret f r.id "passphrase".toList s = .ok passphrase ∧ Keyfile f s r (encryptionMode r) keyfile ∧
      ExternalSsh st f s r verboseSsh ssh ∧
      Carries env (remoteExports st r id verboseSsh extra)
        ⟨passphrase, keyfile, ssh, some ("repository-".toList ++ Nat.toDigits 10 id)⟩ := by
  obtain ⟨common, hcommon, h⟩ := bind_ok h
  obtain ⟨extra, passphrase, keyfile, hextra, hpassphrase, hkeyfile, hcarries⟩ := carries_common hcommon
  cases hid : r.id with
  | none =>
      rw [hid] at h
      cases h
  | some id =>
      rw [hid] at h
      have hcache : Carries (common.set clientCacheKey ("repository-".toList ++ Nat.toDigits 10 id))
        (commonExports st r extra)
          ⟨passphrase, keyfile, none, some ("repository-".toList ++ Nat.toDigits 10 id)⟩ := by
        constructor
        · rw [exported_set rfl, hcarries.exports]
        · exact hcarries.named
        · rw [Dict.get?_set, if_neg (by decide), hcarries.passphrase]
        · rw [Dict.get?_set, if_neg (by decide), hcarries.keyfile]
        · rw [Dict.get?_set, if_neg (by decide), hcarries.sshKey]
        · rw [Dict.get?_set, if_neg (by decide), hcarries.knownHosts]
        · rw [Dict.get?_set, if_neg (by decide), hcarries.verbose]
        · rw [Dict.get?_set, if_pos rfl]
      cases hstorage : truthy r.storagePath with
      | some path =>
          rw [hstorage] at h
          cases h
          refine ⟨id, extra, passphrase, keyfile, none, rfl, hid ▸ hextra, hid ▸ hpassphrase, hkeyfile, ?_, ?_⟩
          · rw [ExternalSsh, if_neg (fun hboth => Option.some_ne_none _ (hstorage.symm.trans hboth.1))]
          · rw [remoteExports, hstorage]
            exact hcache.set _ _ (by decide) rfl
      | none =>
          rw [hstorage] at h
          by_cases hssh : repositoryUsesSsh st r = true
          · dsimp only at h
            rw [if_pos hssh] at h
            obtain ⟨sshKey, knownHosts, hkeyne, hhostsne, hkey, hhosts, hall⟩ :=
              carries_withExternalSsh
                (p := ⟨passphrase, keyfile, none, some ("repository-".toList ++ Nat.toDigits 10 id)⟩) hcache h
            refine ⟨id, extra, passphrase, keyfile, some (sshKey, knownHosts, verboseSsh), rfl, hid ▸ hextra,
              hid ▸ hpassphrase, hkeyfile, ?_, ?_⟩
            · rw [ExternalSsh, if_pos ⟨hstorage, hssh⟩]
              exact ⟨sshKey, knownHosts, rfl, hkeyne, hhostsne, hkey, hhosts⟩
            · rw [remoteExports, hstorage]
              exact hall
          · dsimp only at h
            rw [if_neg hssh] at h
            cases h
            refine ⟨id, extra, passphrase, keyfile, none, rfl, hid ▸ hextra, hid ▸ hpassphrase, hkeyfile, ?_, ?_⟩
            · rw [ExternalSsh, if_neg (fun hboth => hssh hboth.2)]
            · rw [remoteExports, hstorage]
              exact hcache

end BorgManager.RemoteCommand
