import BorgManager.ManifestAgreement
import BorgManager.OwnArchives

namespace BorgManager.DeviceArtifacts

open PythonText ArtifactPaths JsonText BackupArchives BackupArtifacts BackupChecks OwnArchives
open ClientCacheManifest hiding createCacheBackup
open ManifestAgreement (hostPart repositoryPart plain_hostPart plain_repositoryPart)

/-- The answer of a device after which its tar is written to the archive. -/
def opensCache (s : Stream) : Bool := strip s.protocol == "BBM_CLIENT_CACHE_V1" && strip s.status == "PRESENT"

def opensSecurity (s : Stream) : Bool :=
  strip s.protocol == "BBM_CLIENT_SECURITY_V1" && strip s.status == "PRESENT" && isBorgId (reportedId s)

/-- A transfer, and the tar that it leaves in the archive. One that raises may
have written a part of it. -/
structure Export (opens : Stream → Bool) where
  transfer : Transfer
  tar : Option (List UInt8)
  agrees : ∀ s, transfer = .sent s → tar.map List.length = if opens s then some s.payload else none

/-- How the exports of a target go, and when its entry is written. -/
structure TargetExport where
  collectedAt : String
  cache : Export opensCache
  security : Export opensSecurity

def TargetExport.outcome (exports : TargetExport) : Outcome :=
  ⟨exports.collectedAt, exports.cache.transfer, exports.security.transfer⟩

/-- `archive.open` for writing. -/
def openMember (compress : Content → Nat) (name : String) (tar : List UInt8) : Member :=
  writestr compress name.toList (.bytes tar)

/-- What one round of `collect_client_borg_caches` adds to the archive. The
security state is only asked for after the cache. -/
def targetMembers (compress : Content → Nat) (exports : TargetExport) (target : Target) : List Member :=
  if target.1.enabled = false then []
  else
    exports.cache.tar.toList.map (openMember compress (clientArchivePath clientCacheArchiveRoot target)) ++
      match streamOneCache exports.cache.transfer with
      | .error _ => []
      | .ok _ => exports.security.tar.toList.map
          (openMember compress (clientArchivePath clientSecurityArchiveRoot target))

def optionalText (value : Option String) : Scalar := value.elim .null .text

/-- A key that a branch sets. -/
def present (key : String) (value : Option Scalar) : List (String × Scalar) := value.toList.map (fun v => (key, v))

/-- The keys of an entry, in the order in which they are set. -/
def entryFields (raw : RawEntry) : List (String × Scalar) :=
  let status := present "status" (raw.status.map .text)
  let securityStatus := present "security_status" (raw.securityStatus.map .text)
  let reason := present "reason" (raw.reason.map .text)
  let securityReason := present "security_reason" (raw.securityReason.map .text)
  present "host_id" (raw.hostId.map .number) ++ present "host_name" (raw.hostName.map .text) ++
    present "repository_id" (raw.repositoryId.map .number) ++ present "repository_name"
      (raw.repositoryName.map .text) ++
    [("borg_version", optionalText raw.borgVersion)] ++ present "cache_path" (raw.cachePath.map .text) ++
    present "security_base_path" (raw.securityBasePath.map .text) ++ present "collected_at"
      (raw.collectedAt.map .text) ++
    if raw.status = some "skipped_disabled" ∨ raw.status = some "warning" then
      status ++ securityStatus ++ reason ++ securityReason ++ present "warning" (raw.warning.map .flag)
    else
      status ++ reason ++ present "archive_path" (raw.archivePath.map .text) ++
        present "tar_bytes" (raw.tarBytes.map (fun n => .number n)) ++ securityStatus ++
        [("borg_repository_id", optionalText raw.borgRepositoryId)] ++
        present "security_path" (raw.securityPath.map .text) ++
        present "security_archive_path" (raw.securityArchivePath.map .text) ++
        present "security_tar_bytes" (raw.securityTarBytes.map (fun n => .number n)) ++ securityReason

def isSkipped (status : String) : Bool := "skipped_".toList.isPrefixOf status.toList

/-- `client_cache_summary`, under the keys of the manifest. -/
def clientCacheSummary (entries : List RawEntry) : Document :=
  let counted (p : RawEntry → Bool) : Value := .number (entries.countP p)
  let saved (entry : RawEntry) : Bool := entry.status == some "saved"
  let securitySaved (entry : RawEntry) : Bool := entry.securityStatus == some "saved"
  let bytes (p : RawEntry → Bool) (size : RawEntry → Option Nat) : Nat :=
    ((entries.filter p).map (fun entry => (size entry).getD 0)).sum
  [("client_borg_cache_target_count", .number entries.length),
    ("client_borg_cache_saved_count", counted saved),
    ("client_borg_cache_missing_count", counted (fun entry => entry.status == some "missing")),
    ("client_borg_cache_skipped_count", counted (fun entry => isSkipped (entry.status.getD ""))),
    ("client_borg_cache_warning_count", counted (fun entry => entry.status == some "warning")),
    ("client_borg_cache_source_bytes", .number (bytes saved RawEntry.tarBytes)),
    ("client_borg_security_saved_count", counted securitySaved),
    ("client_borg_security_missing_count", counted (fun entry => entry.securityStatus == some "missing")),
    ("client_borg_security_unresolved_count", counted (fun entry => entry.securityStatus == some "unresolved")),
    ("client_borg_security_source_bytes", .number (bytes securitySaved RawEntry.securityTarBytes))]

def cacheDeviceManifest (hostId : Nat) (entries : List RawEntry) (appVersion label createdAt : String)
    (compression : Compression) : Document :=
  [("format", .text cacheBackupFormat),
    ("format_version", .number 2),
    ("backup_type", .text "cache"),
    ("cache_artifact_kind", .text "client"),
    ("app_version", .text appVersion),
    ("created_at", .text createdAt),
    ("label", .text label),
    ("encrypted", .flag false),
    ("borg_cache_included", .flag false),
    ("borg_security_included", .flag false),
    ("client_borg_cache_included", .flag true),
    ("client_borg_security_included", .flag true),
    ("compression", .text compression.name),
    ("includes", .texts ["client_borg_cache", "client_borg_security"]),
    ("client_borg_caches", .records (entries.map entryFields))] ++ clientCacheSummary entries ++
    ("source_host_id", .number hostId) ::
      ((deviceManifest (some hostId) entries).sourceHostName.toList.map (fun name => ("source_host_name", .text name)))

/-- A device and what it sends: the rows of the database, the device that is
asked for, and how the exports of its targets go. -/
structure DeviceCache where
  db : Database
  clientHostIds : List Nat
  exports : Target → TargetExport

def deviceEntries (device : DeviceCache) (hostId : Nat) : List RawEntry :=
  collectClientBorgCaches device.db (some [hostId]) (fun target => (device.exports target).outcome)

/-- The tars come as the targets are visited, with no modes to record. -/
def deviceMembers (compress : Content → Nat) (manifest : Document) (device : DeviceCache) (hostId : Nat) :
    List Member :=
  (targetRows device.db (some [hostId])).flatMap
    (fun target => targetMembers compress (device.exports target) target) ++
    closing compress manifest []

/-- `_write_cache_backup` for a device. -/
def writeDeviceBackup (codec : Codec) (device : DeviceCache) (hostId : Nat)
    (appVersion label createdAt compression : String) : Except String (Document × List Member) := do
  let compression ← compressionSettings compression
  let manifest := cacheDeviceManifest hostId (deviceEntries device hostId) appVersion label createdAt compression
  pure (manifest, deviceMembers (codec.compress compression) manifest device hostId)

/-- The one device that a backup is made of. -/
def selectedHost (device : DeviceCache) : Except String Nat :=
  match device.clientHostIds.dedup with
  | [hostId] =>
      if device.db.hosts.any (fun host => host.id == hostId) then .ok hostId
      else .error ("Ausgewähltes Gerät #" ++ toString hostId ++ " wurde nicht gefunden")
  | _ => .error "Ein Geräte-Cache-Backup benötigt genau ein ausgewähltes Gerät"

/-- `create_cache_backup` with the caches of a device. -/
def createDeviceBackup (codec : Codec) (limits : BackupLimits) (device : DeviceCache) (encrypted : Bool)
    (request : BackupRequest) : Except String Artifact :=
  sealCacheBackup codec limits encrypted request (do
    let hostId ← selectedHost device
    writeDeviceBackup codec device hostId request.appVersion (backupLabel request.label) request.createdAt
      request.compression)

/-- A number at the end of a name can be read back. -/
theorem digits_inj_of_append {a b : List Char} {c : Char} (hc : c.isDigit = false) {n m : Nat}
    (h : a ++ c :: digits n = b ++ c :: digits m) : n = m := by
  have hdigits (word : List Char) (k : Nat) :
      (word ++ c :: digits k).reverse.takeWhile Char.isDigit = (digits k).reverse := by
    rw [List.reverse_append, List.reverse_cons, List.append_assoc, List.takeWhile_append_of_pos, List.singleton_append,
      List.takeWhile_cons_of_neg (by simp [hc]), List.append_nil]
    exact fun d hd => Nat.isDigit_of_mem_toDigits (by decide) (by decide) (List.mem_reverse.mp hd)
  have hsame : digits n = digits m := by
    have hrev := hdigits a n
    rw [h, hdigits b m] at hrev
    exact (List.reverse_injective hrev).symm
  rw [← Nat.ofDigitChars_ten_toDigits (n := n), ← Nat.ofDigitChars_ten_toDigits (n := m), ← digits, hsame]
  rfl

theorem hostPart_inj {a b : Target} (h : hostPart a = hostPart b) : a.1.id = b.1.id := by
  have hshape (t : Target) : hostPart t = (archiveSlug t.1.name.toList "device".toList ++ ['-']) ++ 'h' ::
      digits t.1.id := by
    simp [hostPart]
  rw [hshape, hshape] at h
  exact digits_inj_of_append (by decide) h

theorem repositoryPart_inj {a b : Target} (h : repositoryPart a = repositoryPart b) : a.2.id = b.2.id := by
  have hshape (t : Target) : repositoryPart t =
      ((archiveSlug t.2.name.toList "repository".toList ++ ['-']) ++ 'r' :: digits t.2.id) ++ ".tar".toList := by
    simp [repositoryPart]
  rw [hshape, hshape] at h
  exact digits_inj_of_append (by decide) (List.append_cancel_right h)

def tarKinds : List String := ["client-borg-cache", "client-borg-security"]

theorem plain_kinds : ∀ kind ∈ tarKinds, PlainPart kind.toList ∧ '\\' ∉ kind.toList := by
  simp only [tarKinds, List.forall_mem_cons, List.not_mem_nil, false_implies, implies_true, and_true]
  constructor <;> exact ⟨plain_of_chars (by simp) (by simp) (by simp), by simp⟩

/-- The path of a tar of a target. -/
def tarPath (target : Target) (kind : String) : List (List Char) :=
  ["data".toList, kind.toList, hostPart target, repositoryPart target]

theorem toList_clientArchivePath {root kind : String} (hroot : root.toList = "data".toList ++ '/' :: kind.toList)
    (target : Target) : (clientArchivePath root target).toList = ['/'].intercalate (tarPath target kind) := by
  rw [clientArchivePath, String.toList_ofList, tarPath, hroot]
  simp [hostPart, repositoryPart]

theorem tarPath_cache (target : Target) :
    (clientArchivePath clientCacheArchiveRoot target).toList = ['/'].intercalate (tarPath target "client-borg-cache") :=
  toList_clientArchivePath (by simp [clientCacheArchiveRoot]) target

theorem tarPath_security (target : Target) :
    (clientArchivePath clientSecurityArchiveRoot target).toList =
      ['/'].intercalate (tarPath target "client-borg-security") :=
  toList_clientArchivePath (by simp [clientSecurityArchiveRoot]) target

theorem tarPath_plain (target : Target) {kind : String} (h : kind ∈ tarKinds) :
    ∀ part ∈ tarPath target kind, PlainPart part ∧ '\\' ∉ part := by
  rw [tarPath]
  simp only [List.forall_mem_cons, List.not_mem_nil, false_implies, implies_true, and_true]
  exact ⟨plain_ownNames "data" (by decide), plain_kinds kind h, plain_hostPart target, plain_repositoryPart target⟩

theorem tarPath_inj {a b : Target} {kind other : String} (h : tarPath a kind = tarPath b other) :
    a.key = b.key ∧ kind = other := by
  simp only [tarPath, List.cons.injEq, and_true, true_and] at h
  exact ⟨Prod.ext (hostPart_inj h.2.1) (repositoryPart_inj h.2.2), String.toList_inj.mp h.1⟩

/-- The kinds of the tars that a target adds. -/
def addedKinds (exports : TargetExport) (target : Target) : List String :=
  if target.1.enabled = false then []
  else
    (if exports.cache.tar.isSome then ["client-borg-cache"] else []) ++
      if (streamOneCache exports.cache.transfer).isOk && exports.security.tar.isSome then
        ["client-borg-security"] else []

theorem addedKinds_sublist (exports : TargetExport) (target : Target) :
    (addedKinds exports target).Sublist tarKinds := by
  have hoption (c : Bool) (kind : String) : (if c then [kind] else []).Sublist [kind] := by cases c <;> simp
  rw [addedKinds]
  split
  · exact List.nil_sublist _
  · exact (hoption _ _).append (hoption _ _)

theorem targetMembers_filenames (compress : Content → Nat) (exports : TargetExport) (target : Target) :
    (targetMembers compress exports target).map Member.filename =
      ((addedKinds exports target).map (tarPath target)).map (['/'].intercalate ·) := by
  rw [targetMembers, addedKinds]
  by_cases henabled : target.1.enabled = false
  · rw [if_pos henabled, if_pos henabled]
    rfl
  · rw [if_neg henabled, if_neg henabled, List.map_append, List.map_append, List.map_append]
    refine congrArg₂ (· ++ ·) ?_ ?_
    · cases exports.cache.tar with
      | none => rfl
      | some tar =>
          simp only [Option.toList, List.map_cons, List.map_nil, openMember, writestr, Option.isSome, if_true,
            tarPath_cache]
    · cases streamOneCache exports.cache.transfer with
      | error e => rfl
      | ok sent =>
          cases exports.security.tar with
          | none => rfl
          | some tar =>
              simp only [Option.toList, List.map_cons, List.map_nil, openMember, writestr, Except.isOk, Except.toBool,
                Option.isSome, Bool.and_self, if_true, tarPath_security]

variable {compress : Content → Nat} {manifest : Document} {device : DeviceCache} {hostId : Nat}

/-- The paths of the members of a device artifact. -/
def devicePaths (device : DeviceCache) (hostId : Nat) : List (List (List Char)) :=
  (targetRows device.db (some [hostId])).flatMap (fun target =>
    (addedKinds (device.exports target) target).map (tarPath target)) ++ [[manifestName], [permissionsName]]

theorem deviceMembers_filenames (compress : Content → Nat) (manifest : Document) (device : DeviceCache) (hostId : Nat) :
    (deviceMembers compress manifest device hostId).map Member.filename =
      (devicePaths device hostId).map (['/'].intercalate ·) := by
  rw [deviceMembers, devicePaths, List.map_append, List.map_append, List.map_flatMap, List.map_flatMap]
  simp only [targetMembers_filenames]
  refine congrArg₂ (· ++ ·) rfl ?_
  simp [closing, writestr]

theorem mem_devicePaths {path : List (List Char)} :
    path ∈ devicePaths device hostId ↔
      (∃ target ∈ targetRows device.db (some [hostId]), ∃ kind ∈ addedKinds (device.exports target) target,
        path = tarPath target kind) ∨ path = [manifestName] ∨ path = [permissionsName] := by
  rw [devicePaths, List.mem_append, List.mem_flatMap]
  simp only [List.mem_map, List.mem_cons, List.not_mem_nil, or_false, eq_comm]

theorem devicePaths_plain :
    ∀ path ∈ devicePaths device hostId, path ≠ [] ∧ ∀ part ∈ path, PlainPart part ∧ '\\' ∉ part := by
  intro path hpath
  rcases mem_devicePaths.mp hpath with ⟨target, _, kind, hkind, rfl⟩ | rfl | rfl
  · exact ⟨List.cons_ne_nil _ _, tarPath_plain target ((addedKinds_sublist ..).subset hkind)⟩
  · exact ⟨List.cons_ne_nil _ _, List.forall_mem_singleton.mpr (plain_ownNames "manifest.json" (by decide))⟩
  · exact ⟨List.cons_ne_nil _ _, List.forall_mem_singleton.mpr (plain_ownNames "permissions.json" (by decide))⟩

theorem devicePaths_nodup (device : DeviceCache) (hostId : Nat) : (devicePaths device hostId).Nodup := by
  rw [devicePaths]
  refine List.Nodup.append ?_ closingPaths_nodup ?_
  · rw [List.nodup_flatMap]
    refine ⟨fun target _ => ?_, ?_⟩
    · refine List.Nodup.map (fun a b hab => (tarPath_inj hab).2) ((addedKinds_sublist ..).nodup ?_)
      decide
    · have hkeys := ManifestAgreement.unseen_nodup []
        ((((joinedRows device.db).filter
          (fun row => (some [hostId]).all (fun ids => ids.contains row.2.1.id))).insertionSort
          rowOrder).map Prod.snd)
      refine (List.pairwise_map.mp hkeys).imp (fun hne path hpath hother => ?_)
      obtain ⟨kind, _, rfl⟩ := List.mem_map.mp hpath
      obtain ⟨other, _, heq⟩ := List.mem_map.mp hother
      exact hne (tarPath_inj heq).1.symm
  · intro path hpath hmem
    obtain ⟨target, _, htarget⟩ := List.mem_flatMap.mp hpath
    obtain ⟨kind, _, rfl⟩ := List.mem_map.mp htarget
    have hlength := closingPaths_length hmem
    simp only [tarPath, List.length_cons, List.length_nil] at hlength
    omega

theorem mem_deviceMembers {member : Member} :
    member ∈ deviceMembers compress manifest device hostId ↔
      (∃ target ∈ targetRows device.db (some [hostId]),
        member ∈ targetMembers compress (device.exports target) target) ∨
        member ∈ closing compress manifest [] := by
  rw [deviceMembers, List.mem_append, List.mem_flatMap]

theorem targetMembers_regular {exports : TargetExport} {target : Target} {member : Member}
    (h : member ∈ targetMembers compress exports target) : member.fileType = .unset := by
  rw [targetMembers] at h
  split at h
  · exact (List.not_mem_nil h).elim
  · rcases List.mem_append.mp h with h | h
    · obtain ⟨tar, _, rfl⟩ := List.mem_map.mp h
      rfl
    · split at h
      · exact (List.not_mem_nil h).elim
      · obtain ⟨tar, _, rfl⟩ := List.mem_map.mp h
        rfl

theorem deviceMembers_own (compress : Content → Nat) (device : DeviceCache) (hostId : Nat) (h : Recognised manifest) :
    OwnArchive manifestStyle manifest [] (deviceMembers compress manifest device hostId) where
  toDistinct := by
    refine distinct_of_paths (deviceMembers_filenames ..) (fun path hpath => (devicePaths_plain path hpath).1)
      (fun path hpath part hpart => ((devicePaths_plain path hpath).2 part hpart).1)
        (devicePaths_nodup device hostId) ?_
    intro member hmember
    rcases mem_deviceMembers.mp hmember with ⟨target, _, htarget⟩ | hmember
    · rw [targetMembers_regular htarget]
      exact FileType.noConfusion
    · rcases mem_closing.mp hmember with rfl | rfl <;> exact FileType.noConfusion
  recognised := h
  manifestMember := ⟨_, mem_deviceMembers.mpr (.inr (mem_closing.mpr (.inl rfl))), rfl, rfl⟩
  permissionsMember := ⟨_, mem_deviceMembers.mpr (.inr (mem_closing.mpr (.inr rfl))), rfl, _, rfl⟩
  modes _ hf := (List.not_mem_nil hf).elim
  fewer := Nat.zero_le _

/-- The names of devices and repositories come into the archive as slugs. -/
theorem deviceMembers_noBackslash :
    ∀ member ∈ deviceMembers compress manifest device hostId, '\\' ∉ member.filename := by
  intro member hmember
  have hname : member.filename ∈ (devicePaths device hostId).map (['/'].intercalate ·) :=
    deviceMembers_filenames compress manifest device hostId ▸ List.mem_map_of_mem hmember
  obtain ⟨path, hpath, heq⟩ := List.mem_map.mp hname
  rw [← heq, mem_intercalate (by decide)]
  rintro ⟨part, hpart, hback⟩
  exact ((devicePaths_plain path hpath).2 part hpart).2 hback

end BorgManager.DeviceArtifacts
