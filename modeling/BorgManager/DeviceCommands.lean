import BorgManager.RemoteCommand

namespace BorgManager.DeviceCommands

open Dictionaries Exceptions SecretStore EnvironmentVault ShellWords RemoteCommand

variable {st : Settings} {f : Fernet} {s : Store} {r : Repository} {host : Host} {parts : List Text}
  {env exported : Dict Text Text} {p : Private} {verboseSsh supervised : Bool} {command : Command}

/-- The command line that the shell of the device gets. -/
def remoteLine (st : Settings) (parts : List Text) (env : Dict Text Text) (supervised : Bool) : Text :=
  spaced (assignments (publicEnv env) ++ (wrappedParts st parts env supervised).map quote)

/-- The environment whose assignments the preview shows. -/
def previewEnv (env : Dict Text Text) : Dict Text Text :=
  match truthy (env.get? externalSshKey) with
  | some _ => (publicEnv env).set "BORG_RSH".toList
      "ssh -i [temporärer Manager-Schlüssel] -o StrictHostKeyChecking=yes".toList
  | none => publicEnv env

/-- The local arguments up to the command line of the device. -/
def sshArguments (host : Host) : List Text :=
  ["ssh", "-i"].map String.toList ++ [keyPlaceholder] ++
    ["-o", "BatchMode=yes", "-o", "ConnectTimeout=10", "-o", "ConnectionAttempts=1",
      "-o", "ServerAliveInterval=10", "-o", "ServerAliveCountMax=30", "-o", "IdentitiesOnly=yes",
      "-o", "StrictHostKeyChecking=yes", "-o"].map String.toList ++
    ["UserKnownHostsFile=".toList ++ knownPlaceholder, "-p".toList, Nat.toDigits 10 host.port, "--".toList,
      host.username ++ '@' :: host.address]

theorem sshArgv_ok (h : sshArgv st f s host parts env supervised = .ok command) :
    command.argv = sshArguments host ++ [remoteLine st parts env supervised] ∧
      command.preview = "ssh -i [temporärer Controller-Schlüssel] ".toList ++
        (host.username ++ '@' :: host.address) ++ " -- ".toList ++
        spaced (assignments (previewEnv env) ++ parts.map quote) ∧
      command.stdinData = secretPayload env (supervised || (env.get? clientCacheKey).getD ['-'] != ['-']) := by
  rw [sshArgv] at h
  split at h
  · cases h
  · obtain ⟨controllerKey, -, h⟩ := bind_ok h
    split at h
    · cases h
    · cases h
    · cases h
      exact ⟨rfl, rfl, rfl⟩

theorem secretPayload_required (env : Dict Text Text) :
    secretPayload env true = some ((payloadKeys.map env.get?).flatMap payloadLine) := rfl

variable (st parts supervised) in
/-- With a cache key of its own, a repository always runs behind the wrapper. -/
theorem wrapped_of_cacheKey {id : Nat}
    (h : env.get? clientCacheKey = some ("repository-".toList ++ Nat.toDigits 10 id)) :
    (supervised || (env.get? clientCacheKey).getD ['-'] != ['-']) = true ∧
      wrappedParts st parts env supervised =
        ["sh".toList, "-c".toList, st.secretWrapper, "--".toList, (env.get? externalSshVerbose).getD ['0'],
          "repository-".toList ++ Nat.toDigits 10 id] ++ parts := by
  have hrequired : (supervised || (env.get? clientCacheKey).getD ['-'] != ['-']) = true := by
    rw [h, Option.getD_some]
    simp
  refine ⟨hrequired, ?_⟩
  rw [wrappedParts, hrequired, secretPayload_required, h, Option.getD_some]

/-- The verbosity that the wrapper passes on to `ssh`. The manager's key is used
only for a repository that is stored elsewhere. -/
def wrapperVerbosity (st : Settings) (r : Repository) (verboseSsh : Bool) : Text :=
  if truthy r.storagePath = none ∧ repositoryUsesSsh st r = true ∧ verboseSsh = true then ['1'] else ['0']

theorem verbosity_of_carries {ssh : Option (Text × Text × Bool)} (hssh : ExternalSsh st f s r verboseSsh ssh)
    (hcarries : env.get? externalSshVerbose = ssh.map (fun ssh => if ssh.2.2 then ['1'] else ['0'])) :
    (env.get? externalSshVerbose).getD ['0'] = wrapperVerbosity st r verboseSsh := by
  rw [hcarries, wrapperVerbosity]
  rw [ExternalSsh] at hssh
  split at hssh
  · next helsewhere =>
      obtain ⟨sshKey, knownHosts, rfl, -⟩ := hssh
      simp only [helsewhere, true_and, Option.map_some, Option.getD_some]
  · next hhere =>
      subst hssh
      rw [if_neg (fun hall => hhere ⟨hall.1, hall.2.1⟩)]
      rfl

/-- Whatever characters the names, paths and values have, the shell of the
device runs the wrapper with exactly the given arguments, under exactly the
exported variables of the repository. -/
theorem device_runs (h : deviceCommand st f s host r parts verboseSsh supervised = .ok command) :
    ∃ remote id extra, command.argv = sshArguments host ++ [remote] ∧ r.id = some id ∧
      loadRepositoryEnvironment f s r.id r.extraEnv = .ok extra ∧
      runs remote = some ⟨(remoteExports st r id verboseSsh extra).items,
        ["sh".toList, "-c".toList, st.secretWrapper, "--".toList, wrapperVerbosity st r verboseSsh,
          "repository-".toList ++ Nat.toDigits 10 id] ++ parts⟩ := by
  obtain ⟨env, henv, hcommand⟩ := bind_ok h
  obtain ⟨id, extra, passphrase, keyfile, ssh, hid, hextra, -, -, hssh, hcarries⟩ := carries_remote henv
  obtain ⟨hargv, -, -⟩ := sshArgv_ok hcommand
  obtain ⟨-, hwrapped⟩ := wrapped_of_cacheKey st parts supervised hcarries.cacheKey
  refine ⟨_, id, extra, hargv, hid, hextra, ?_⟩
  have hnames : ∀ b ∈ (remoteExports st r id verboseSsh extra).items, IsName b.1 :=
    fun b hb => hcarries.named b.1 (List.mem_map.mpr ⟨b, hb, rfl⟩)
  rw [remoteLine, hwrapped, verbosity_of_carries hssh hcarries.verbose, hcarries.exports]
  exact runs_command hnames (by decide) (by decide)

/-- `read -r` up to the end of a line. -/
def readLine (stdin : List UInt8) : Option (List UInt8 × List UInt8) :=
  let line := stdin.takeWhile (fun b => b != 10)
  match stdin.drop line.length with
  | [] => none
  | _ :: rest => some (line, rest)

/-- `base64 -d`. -/
def decodeLine (line : List UInt8) : Option (List UInt8) := Base64.decode (line.map (fun b => Char.ofNat b.toNat))

/-- The files that the wrapper writes before it starts Borg. -/
structure Prepared where
  ssh : Option (List UInt8 × List UInt8)
  borgKey : Option (List UInt8)
  passphrase : Option (List UInt8)

def unlessDash (line : List UInt8) : Option (Option (List UInt8)) :=
  if line = [45] then some none else (decodeLine line).map some

/-- What the wrapper reads before it starts Borg, and the rest that its
watchdog reads. It ends early where a line or a decoding fails. -/
def prepare (stdin : List UInt8) : Option (Prepared × List UInt8) := do
  let (sshKey, rest) ← readLine stdin
  let (knownHosts, rest) ← readLine rest
  let (borgKey, rest) ← readLine rest
  let (passphrase, rest) ← readLine rest
  let ssh ←
    if sshKey = [45] then some none
    else do
      let key ← decodeLine sshKey
      let hosts ← decodeLine knownHosts
      pure (some (key, hosts))
  let borgKey ← unlessDash borgKey
  let passphrase ← unlessDash passphrase
  pure (⟨ssh, borgKey, passphrase⟩, rest)

theorem ascii_line {t : Text} (h : ∀ c ∈ t, c.toNat < 128) (hnewline : '\n' ∉ t) (rest : List UInt8) :
    readLine (ascii t ++ ascii ['\n'] ++ rest) = some (ascii t, rest) := by
  have hne : ∀ b ∈ ascii t, (b != 10) = true := by
    intro b hb
    obtain ⟨c, hc, rfl⟩ := List.mem_map.mp hb
    have hlt := h c hc
    rw [bne_iff_ne]
    intro heq
    have hten : c.toNat = 10 := by
      have hnat := congrArg UInt8.toNat heq
      rw [UInt8.toNat_ofNat', Nat.mod_eq_of_lt (by omega)] at hnat
      exact hnat
    exact hnewline (Char.toNat_inj.mp (hten.trans rfl : c.toNat = '\n'.toNat) ▸ hc)
  have htake : (ascii t ++ ascii ['\n'] ++ rest).takeWhile (fun b => b != 10) = ascii t := by
    rw [List.append_assoc, List.takeWhile_append_of_pos hne]
    simp [ascii]
  rw [readLine, htake, List.append_assoc, List.drop_left]
  rfl

theorem chars_ascii {t : Text} (h : ∀ c ∈ t, c.toNat < 128) : (ascii t).map (fun b => Char.ofNat b.toNat) = t := by
  rw [ascii, List.map_map]
  have hsame : ∀ c ∈ t, ((fun b : UInt8 => Char.ofNat b.toNat) ∘ fun c => UInt8.ofNat c.toNat) c = id c := by
    intro c hc
    have hlt := h c hc
    dsimp only [Function.comp_apply]
    rw [UInt8.toNat_ofNat', Nat.mod_eq_of_lt (by omega), Char.ofNat_toNat, id]
  rw [List.map_congr_left hsame, List.map_id]

theorem readLine_payload (value : Option Text) (rest : List UInt8) :
    readLine (payloadLine value ++ rest) =
      some (match value with | none => [45] | some v => ascii (Base64.encode (utf8 v)), rest) := by
  cases value with
  | none => exact ascii_line (t := ['-']) (List.forall_mem_singleton.mpr (by decide)) (by decide) rest
  | some v => exact ascii_line (Base64.ascii_encode _) (Base64.encode_ne (by decide) _) rest

theorem encoded_ne_dash (v : Text) : ascii (Base64.encode (utf8 v)) ≠ [45] := by
  intro heq
  have hchars := chars_ascii (Base64.ascii_encode (utf8 v))
  rw [heq] at hchars
  exact Base64.encode_ne (c := '-') (by decide) (utf8 v) (hchars ▸ by decide)

theorem decodeLine_encoded (v : Text) : decodeLine (ascii (Base64.encode (utf8 v))) = some (utf8 v) := by
  rw [decodeLine, chars_ascii (Base64.ascii_encode _), Base64.decode_encode]

theorem unlessDash_payload (value : Option Text) :
    unlessDash (match value with | none => [45] | some v => ascii (Base64.encode (utf8 v))) =
      some (value.map utf8) := by
  cases value with
  | none => rfl
  | some v =>
      dsimp only
      rw [unlessDash, if_neg (encoded_ne_dash v), decodeLine_encoded]
      rfl

/-- The wrapper reads back what the payload was made of. -/
theorem prepare_payload (h : Carries env exported p) :
    prepare ((payloadKeys.map env.get?).flatMap payloadLine) =
      some (⟨p.ssh.map (fun ssh => (utf8 ssh.1, utf8 ssh.2.1)), p.keyfile.map utf8, p.passphrase.map utf8⟩, []) := by
  have hlines : (payloadKeys.map env.get?).flatMap payloadLine =
      payloadLine (p.ssh.map (fun ssh => ssh.1)) ++ (payloadLine (p.ssh.map (fun ssh => ssh.2.1)) ++
        (payloadLine p.keyfile ++ (payloadLine p.passphrase ++ []))) := by
    simp [payloadKeys, h.sshKey, h.knownHosts, h.keyfile, h.passphrase]
  rw [hlines, prepare]
  simp only [readLine_payload, Option.bind_eq_bind, Option.bind_some, unlessDash_payload]
  cases p.ssh with
  | none => rfl
  | some ssh =>
      dsimp only [Option.map_some]
      rw [if_neg (encoded_ne_dash _), decodeLine_encoded, decodeLine_encoded]
      rfl

/-- The wrapper on the device gets the passphrase, the key of a keyfile
repository and the identity of an external one exactly as the vault has them,
and nothing is left for its watchdog to read. -/
theorem payload_prepared (h : deviceCommand st f s host r parts verboseSsh supervised = .ok command) :
    ∃ stdin passphrase keyfile ssh, command.stdinData = some stdin ∧
      getRepositorySecret f r.id "passphrase".toList s = .ok passphrase ∧ Keyfile f s r (encryptionMode r) keyfile ∧
      ExternalSsh st f s r verboseSsh ssh ∧
      prepare stdin = some (⟨ssh.map (fun ssh => (utf8 ssh.1, utf8 ssh.2.1)), keyfile.map utf8,
        passphrase.map utf8⟩, []) := by
  obtain ⟨env, henv, hcommand⟩ := bind_ok h
  obtain ⟨id, extra, passphrase, keyfile, ssh, -, -, hpassphrase, hkeyfile, hssh, hcarries⟩ := carries_remote henv
  obtain ⟨-, -, hstdin⟩ := sshArgv_ok hcommand
  obtain ⟨hrequired, -⟩ := wrapped_of_cacheKey st parts supervised hcarries.cacheKey
  rw [hrequired, secretPayload_required] at hstdin
  exact ⟨_, passphrase, keyfile, ssh, hstdin, hpassphrase, hkeyfile, hssh, prepare_payload hcarries⟩

/-- A vault with the key of the manager and a passphrase for one repository. -/
def storedPassphrase : Except Text Store := do
  let s ← setSystemSecret encoding 0 "controller_private_key".toList "key".toList noSecrets
  setRepositorySecret encoding 0 (some 3) "passphrase".toList (some "p w'".toList) s

def exampleSettings : Settings where
  urlScheme := fun _ => "ssh".toList
  timezone := "UTC".toList
  secretWrapper := "read -r a".toList
  isRoot := false
  managerCacheDir := "/data/borg-cache".toList
  managerSecurityDir := "/data/borg-security".toList

def exampleHost : Host := ⟨"nas".toList, "10.0.0.2".toList, 22, "root".toList, true, some "nas ssh-ed25519 A".toList⟩

def exampleRepository : Repository :=
  ⟨some 3, "ssh://borg@manager/./r".toList, some "/repositories/r".toList, none, .empty⟩

/-- Part of a vault in which everything is found. -/
theorem exists_command : ∃ s command, storedPassphrase = .ok s ∧
    deviceCommand exampleSettings encoding s exampleHost exampleRepository
      ["borg".toList, "a $(b) 'c'".toList] false false =
      .ok command := ⟨_, _, rfl, rfl⟩

theorem device_runs_quoted : ∃ s command remote environment, storedPassphrase = .ok s ∧
    deviceCommand exampleSettings encoding s exampleHost exampleRepository
      ["borg".toList, "a $(b) 'c'".toList] false false =
      .ok command ∧
    command.argv.getLast? = some remote ∧
    runs remote = some ⟨environment,
      ["sh".toList, "-c".toList, "read -r a".toList, "--".toList, ['0'], "repository-3".toList,
      "borg".toList, "a $(b) 'c'".toList]⟩ := by
  obtain ⟨s, command, hs, hcommand⟩ := exists_command
  obtain ⟨remote, id, extra, hargv, hid, -, hruns⟩ := device_runs hcommand
  cases hid
  refine ⟨s, command, remote, _, hs, hcommand, ?_, hruns⟩
  rw [hargv, List.getLast?_append, List.getLast?_singleton]
  rfl

theorem payload_prepared_passphrase : ∃ s command stdin passphrase, storedPassphrase = .ok s ∧
    deviceCommand exampleSettings encoding s exampleHost exampleRepository
      ["borg".toList, "a $(b) 'c'".toList] false false =
      .ok command ∧
    command.stdinData = some stdin ∧ getRepositorySecret encoding (some 3) "passphrase".toList s = .ok passphrase ∧
    (prepare stdin).map (fun read => read.1.passphrase) = some (passphrase.map utf8) := by
  obtain ⟨s, command, hs, hcommand⟩ := exists_command
  obtain ⟨stdin, passphrase, keyfile, ssh, hstdin, hpassphrase, -, -, hprepare⟩ := payload_prepared hcommand
  exact ⟨s, command, stdin, passphrase, hs, hcommand, hstdin, hpassphrase, by rw [hprepare]; rfl⟩

end BorgManager.DeviceCommands
