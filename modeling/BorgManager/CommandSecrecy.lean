import BorgManager.DeviceCommands

namespace BorgManager.CommandSecrecy

open Dictionaries Exceptions SecretStore EnvironmentVault ShellWords RemoteCommand DeviceCommands

variable {st : Settings} {f : Fernet} {s s' : Store} {r : Repository} {host : Host} {parts : List Text}
  {env env' exported : Dict Text Text} {p p' : Private} {verboseSsh supervised : Bool} {command command' : Command}

/-- Whether there is an identity depends on the repository alone. -/
theorem externalSsh_alike {ssh ssh' : Option (Text × Text × Bool)} (h : ExternalSsh st f s r verboseSsh ssh)
    (h' : ExternalSsh st f s' r verboseSsh ssh') :
    ssh.map (fun ssh => ssh.2.2) = ssh'.map (fun ssh => ssh.2.2) ∧
      (truthy (ssh.map (fun ssh => ssh.1))).isSome = (truthy (ssh'.map (fun ssh => ssh.1))).isSome := by
  have htruthy : ∀ {key : Text}, key ≠ [] → truthy (some key) = some key := by
    intro key hkey
    rw [truthy]
    rintro ⟨⟩
    exact hkey rfl
  rw [ExternalSsh] at h h'
  by_cases hssh : truthy r.storagePath = none ∧ repositoryUsesSsh st r = true
  · rw [if_pos hssh] at h h'
    obtain ⟨key, hosts, rfl, hkey, -⟩ := h
    obtain ⟨key', hosts', rfl, hkey', -⟩ := h'
    refine ⟨rfl, ?_⟩
    rw [Option.map_some, Option.map_some, htruthy hkey, htruthy hkey']
    rfl
  · rw [if_neg hssh] at h h'
    rw [h, h']
    exact ⟨rfl, rfl⟩

/-- Environments that export the same differ in secrets only. -/
theorem previewEnv_alike (h : Carries env exported p) (h' : Carries env' exported p')
    (hssh : (truthy (p.ssh.map (fun ssh => ssh.1))).isSome = (truthy (p'.ssh.map (fun ssh => ssh.1))).isSome) :
    previewEnv env = previewEnv env' := by
  rw [previewEnv, previewEnv, h.exports, h'.exports, h.sshKey, h'.sshKey]
  cases hleft : truthy (p.ssh.map (fun ssh => ssh.1)) with
  | none =>
      cases hright : truthy (p'.ssh.map (fun ssh => ssh.1)) with
      | none => rfl
      | some key =>
          rw [hleft, hright] at hssh
          cases hssh
  | some key =>
      cases hright : truthy (p'.ssh.map (fun ssh => ssh.1)) with
      | none =>
          rw [hleft, hright] at hssh
          cases hssh
      | some key => rfl

theorem verbose_alike (h : Carries env exported p) (h' : Carries env' exported p')
    (hssh : p.ssh.map (fun ssh => ssh.2.2) = p'.ssh.map (fun ssh => ssh.2.2)) :
    env.get? externalSshVerbose = env'.get? externalSshVerbose := by
  have hmap : ∀ ssh : Option (Text × Text × Bool), ssh.map (fun ssh => if ssh.2.2 then ['1'] else ['0']) =
      (ssh.map (fun ssh => ssh.2.2)).map (fun verbose => if verbose then ['1'] else ['0']) := by
    intro ssh
    rw [Option.map_map]
    rfl
  rw [h.verbose, h'.verbose, hmap, hmap, hssh]

/-- A command on a device and its preview are the same whatever secrets the
vault holds, apart from the environment of the repository that is exported. -/
theorem device_command_alike
    (hload : loadRepositoryEnvironment f s r.id r.extraEnv = loadRepositoryEnvironment f s' r.id r.extraEnv)
    (h : deviceCommand st f s host r parts verboseSsh supervised = .ok command)
    (h' : deviceCommand st f s' host r parts verboseSsh supervised = .ok command') :
    command.argv = command'.argv ∧ command.preview = command'.preview := by
  obtain ⟨env, henv, hcommand⟩ := bind_ok h
  obtain ⟨env', henv', hcommand'⟩ := bind_ok h'
  obtain ⟨id, extra, passphrase, keyfile, ssh, hid, hextra, -, -, hssh, hcarries⟩ := carries_remote henv
  obtain ⟨id', extra', passphrase', keyfile', ssh', hid', hextra', -, -, hssh', hcarries'⟩ := carries_remote henv'
  obtain rfl : id = id' := Option.some.inj (hid.symm.trans hid')
  obtain rfl : extra = extra' := by
    rw [hload, hextra'] at hextra
    exact (Except.ok.inj hextra).symm
  obtain ⟨hverbose, hsome⟩ := externalSsh_alike hssh hssh'
  obtain ⟨hargv, hpreview, -⟩ := sshArgv_ok hcommand
  obtain ⟨hargv', hpreview', -⟩ := sshArgv_ok hcommand'
  obtain ⟨-, hwrapped⟩ := wrapped_of_cacheKey st parts supervised hcarries.cacheKey
  obtain ⟨-, hwrapped'⟩ := wrapped_of_cacheKey st parts supervised hcarries'.cacheKey
  constructor
  · rw [hargv, hargv', remoteLine, remoteLine, hwrapped, hwrapped', hcarries.exports, hcarries'.exports,
      verbose_alike hcarries hcarries' hverbose]
  · rw [hpreview, hpreview', previewEnv_alike hcarries hcarries' hsome]

/-- A vault with a passphrase for the repository of the example. -/
def vaultWith (passphrase : Text) : Except Text Store := do
  let s ← setSystemSecret encoding 0 "controller_private_key".toList "key".toList noSecrets
  setRepositorySecret encoding 0 (some 3) "passphrase".toList (some passphrase) s

/-- What the commands of the example need of a vault. -/
structure Ready (s : Store) (device manager : Command) : Prop where
  environment : loadRepositoryEnvironment encoding s exampleRepository.id exampleRepository.extraEnv = .ok .empty
  passphrase : (getRepositorySecret encoding exampleRepository.id "passphrase".toList s).map Option.isSome = .ok true
  device : deviceCommand exampleSettings encoding s exampleHost exampleRepository
    ["borg".toList] false false = .ok device
  manager : managerRepositoryCommand exampleSettings encoding s exampleRepository ["borg".toList] false = .ok manager

theorem exists_ready : (∃ s device manager, vaultWith "a'b".toList = .ok s ∧ Ready s device manager) ∧
    ∃ s device manager, vaultWith "c d".toList = .ok s ∧ Ready s device manager :=
  ⟨⟨_, _, _, rfl, rfl, rfl, rfl, rfl⟩, ⟨_, _, _, rfl, rfl, rfl, rfl, rfl⟩⟩

theorem device_command_alike_passphrases :
    ∃ s s' command command', vaultWith "a'b".toList = .ok s ∧ vaultWith "c d".toList = .ok s' ∧
    deviceCommand exampleSettings encoding s exampleHost exampleRepository ["borg".toList] false false = .ok command ∧
    deviceCommand exampleSettings encoding s' exampleHost exampleRepository ["borg".toList] false false = .ok command' ∧
    command.argv = command'.argv ∧ command.preview = command'.preview := by
  obtain ⟨⟨s, command, _, hs, h⟩, s', command', _, hs', h'⟩ := exists_ready
  exact ⟨s, s', command, command', hs, hs', h.device, h'.device,
    device_command_alike (h.environment.trans h'.environment.symm) h.device h'.device⟩

/-- What a command of the manager itself exports. -/
def managerExports (st : Settings) (r : Repository) (id : Nat) (extra : Dict Text Text) : Dict Text Text :=
  let exports := (commonExports st r extra).set "BORG_CACHE_DIR".toList
    (st.managerCacheDir ++ "/repository-".toList ++ Nat.toDigits 10 id)
  let exports := exports.set "BORG_SECURITY_DIR".toList st.managerSecurityDir
  match truthy r.storagePath with
  | some path => exports.set "BORG_REPO".toList path
  | none => exports

/-- The arguments behind the wrapper, where there is one. -/
def managerArguments (st : Settings) (parts : List Text) (env : Dict Text Text) : List Text :=
  match secretPayload env false with
  | some _ =>
      ["sh".toList, "-c".toList, st.secretWrapper, "--".toList, (env.get? externalSshVerbose).getD ['0'],
        ['-']] ++ parts
  | none => parts

theorem manager_command_ok (h : managerRepositoryCommand st f s r parts verboseSsh = .ok command) :
    ∃ env id extra passphrase keyfile ssh, r.id = some id ∧ loadRepositoryEnvironment f s r.id r.extraEnv = .ok extra ∧
      getRepositorySecret f r.id "passphrase".toList s = .ok passphrase ∧ Keyfile f s r (encryptionMode r) keyfile ∧
      ExternalSsh st f s r verboseSsh ssh ∧ Carries env
        (managerExports st r id extra) ⟨passphrase, keyfile, ssh, none⟩ ∧
      command.argv = managerBorgArgv st (managerArguments st parts env) ∧
      command.preview = "[direkt im Manager] BORG_REPO=".toList ++ quote
        ((truthy r.storagePath).getD r.location) ++ ' ' :: join parts ∧
      command.env = (if (publicEnv env).items = [] then none else some (publicEnv env)) := by
  obtain ⟨common, hcommon, h⟩ := bind_ok h
  obtain ⟨extra, passphrase, keyfile, hextra, hpassphrase, hkeyfile, hcarries⟩ := carries_common hcommon
  rcases hid : r.id with _ | _ | n
  · rw [hid] at h
    cases h
  · rw [hid] at h
    cases h
  · rw [hid] at h
    obtain ⟨env, hssh, h⟩ := bind_ok h
    cases h
    rw [managerTarget] at hssh
    have hcache := (hcarries.set "BORG_CACHE_DIR".toList
      (st.managerCacheDir ++ "/repository-".toList ++ Nat.toDigits 10 (n + 1)) (by decide) rfl).set
        "BORG_SECURITY_DIR".toList st.managerSecurityDir (by decide) rfl
    cases hstorage : truthy r.storagePath with
    | some path =>
        rw [hstorage] at hssh
        cases hssh
        refine ⟨_, n + 1, extra, passphrase, keyfile, none, rfl, hid ▸ hextra, hid ▸ hpassphrase, hkeyfile, ?_,
          ?_, rfl, rfl, rfl⟩
        · rw [ExternalSsh, if_neg (fun hboth => Option.some_ne_none _ (hstorage.symm.trans hboth.1))]
        · rw [managerExports, hstorage]
          exact hcache.set _ _ (by decide) rfl
    | none =>
        rw [hstorage] at hssh
        by_cases huses : repositoryUsesSsh st r = true
        · rw [if_pos huses] at hssh
          obtain ⟨sshKey, knownHosts, hkeyne, hhostsne, hkey, hhosts, hall⟩ :=
            carries_withExternalSsh (p := ⟨passphrase, keyfile, none, none⟩) hcache hssh
          refine ⟨env, n + 1, extra, passphrase, keyfile, some (sshKey, knownHosts, verboseSsh), rfl,
            hid ▸ hextra, hid ▸ hpassphrase,
            hkeyfile, ?_, ?_, rfl, rfl, rfl⟩
          · rw [ExternalSsh, if_pos ⟨hstorage, huses⟩]
            exact ⟨sshKey, knownHosts, rfl, hkeyne, hhostsne, hkey, hhosts⟩
          · rw [managerExports, hstorage]
            exact hall
        · rw [if_neg huses] at hssh
          cases hssh
          refine ⟨_, n + 1, extra, passphrase, keyfile, none, rfl, hid ▸ hextra, hid ▸ hpassphrase, hkeyfile,
            ?_, ?_, rfl, rfl, rfl⟩
          · rw [ExternalSsh, if_neg (fun hboth => huses hboth.2)]
          · rw [managerExports, hstorage]
            exact hcache

theorem keyfile_alike {mode : Text} {keyfile keyfile' : Option Text} (h : Keyfile f s r mode keyfile)
    (h' : Keyfile f s' r mode keyfile') : keyfile.isSome = keyfile'.isSome := by
  rw [Keyfile] at h h'
  split at h
  · next hmode =>
      rw [if_pos hmode] at h'
      obtain ⟨key, rfl, -⟩ := h
      obtain ⟨key', rfl, -⟩ := h'
      rfl
  · next hmode =>
      rw [if_neg hmode] at h'
      rw [h, h']

/-- Whether the wrapper is used depends on which secrets there are. -/
theorem payload_alike (h : Carries env exported p) (h' : Carries env' exported p')
    (hpassphrase : p.passphrase.isSome = p'.passphrase.isSome) (hkeyfile : p.keyfile.isSome = p'.keyfile.isSome)
    (hssh : p.ssh.map (fun ssh => ssh.2.2) = p'.ssh.map (fun ssh => ssh.2.2)) :
    (secretPayload env false).isSome = (secretPayload env' false).isSome := by
  have hany : ∀ {env : Dict Text Text} {p : Private}, Carries env exported p →
      (secretPayload env false).isSome =
        ((p.ssh.map (fun ssh => ssh.2.2)).isSome || p.keyfile.isSome || p.passphrase.isSome) := by
    intro env p h
    have hvalues : (payloadKeys.map env.get?).any Option.isSome =
        ((p.ssh.map (fun ssh => ssh.2.2)).isSome || p.keyfile.isSome || p.passphrase.isSome) := by
      simp [payloadKeys, h.sshKey, h.knownHosts, h.keyfile, h.passphrase, Bool.or_assoc]
    rw [secretPayload, hvalues]
    cases (p.ssh.map (fun ssh => ssh.2.2)).isSome || p.keyfile.isSome || p.passphrase.isSome <;> rfl
  rw [hany h, hany h', hpassphrase, hkeyfile, hssh]

/-- A command of the manager, its preview and the environment of its process
are the same whatever the secrets are, as long as there is a passphrase in both
vaults or in none. -/
theorem manager_command_alike
    (hload : loadRepositoryEnvironment f s r.id r.extraEnv = loadRepositoryEnvironment f s' r.id r.extraEnv)
    (hpresent : (getRepositorySecret f r.id "passphrase".toList s).map Option.isSome =
      (getRepositorySecret f r.id "passphrase".toList s').map Option.isSome)
    (h : managerRepositoryCommand st f s r parts verboseSsh = .ok command)
    (h' : managerRepositoryCommand st f s' r parts verboseSsh = .ok command') :
    command.argv = command'.argv ∧ command.preview = command'.preview ∧ command.env = command'.env := by
  obtain ⟨env, id, extra, passphrase, keyfile, ssh, hid, hextra, hpassphrase, hkeyfile, hssh, hcarries, hargv,
      hpreview, henv⟩ :=
    manager_command_ok h
  obtain ⟨env', id', extra', passphrase', keyfile', ssh', hid', hextra', hpassphrase', hkeyfile', hssh',
    hcarries', hargv', hpreview',
    henv'⟩ := manager_command_ok h'
  obtain rfl : id = id' := Option.some.inj (hid.symm.trans hid')
  obtain rfl : extra = extra' := by
    rw [hload, hextra'] at hextra
    exact (Except.ok.inj hextra).symm
  rw [hpassphrase, hpassphrase'] at hpresent
  obtain ⟨hverbose, -⟩ := externalSsh_alike hssh hssh'
  have hpayload := payload_alike hcarries hcarries' (Except.ok.inj hpresent) (keyfile_alike hkeyfile hkeyfile') hverbose
  have harguments : managerArguments st parts env = managerArguments st parts env' := by
    rw [managerArguments, managerArguments, verbose_alike hcarries hcarries' hverbose]
    cases hleft : secretPayload env false with
    | none =>
        cases hright : secretPayload env' false with
        | none => rfl
        | some payload =>
            rw [hleft, hright] at hpayload
            cases hpayload
    | some payload =>
        cases hright : secretPayload env' false with
        | none =>
            rw [hleft, hright] at hpayload
            cases hpayload
        | some payload => rfl
  refine ⟨?_, ?_, ?_⟩
  · rw [hargv, hargv', harguments]
  · rw [hpreview, hpreview']
  · rw [henv, henv', hcarries.exports, hcarries'.exports]

theorem manager_command_alike_passphrases :
    ∃ s s' command command', vaultWith "a'b".toList = .ok s ∧ vaultWith "c d".toList = .ok s' ∧
    managerRepositoryCommand exampleSettings encoding s exampleRepository ["borg".toList] false = .ok command ∧
    managerRepositoryCommand exampleSettings encoding s' exampleRepository ["borg".toList] false = .ok command' ∧
    command.argv = command'.argv ∧ command.preview = command'.preview ∧ command.env = command'.env := by
  obtain ⟨⟨s, _, command, hs, h⟩, s', _, command', hs', h'⟩ := exists_ready
  exact ⟨s, s', command, command', hs, hs', h.manager, h'.manager,
    manager_command_alike (h.environment.trans h'.environment.symm)
      (h.passphrase.trans h'.passphrase.symm) h.manager h'.manager⟩

end BorgManager.CommandSecrecy
