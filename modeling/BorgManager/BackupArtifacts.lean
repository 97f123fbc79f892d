import BorgManager.BackupTrees
import BorgManager.ClientCacheManifest

namespace BorgManager.BackupArtifacts

open PythonText ArtifactPaths JsonText BackupArchives BackupTrees
open ClientCacheManifest (lower)

inductive Compression
  | none
  | fast
  | standard
  | maximum

def Compression.name : Compression → String
  | .none => "none"
  | .fast => "deflate-1"
  | .standard => "deflate-6"
  | .maximum => "deflate-9"

/-- `_compression_settings`. -/
def compressionSettings (value : String) : Except String Compression :=
  let normalized := lower (strip (if value = "" then "standard" else value))
  if normalized = "none" then .ok .none
  else if normalized = "fast" then .ok .fast
  else if normalized = "standard" then .ok .standard
  else if normalized = "maximum" then .ok .maximum
  else .error "Unbekannte Manager-Backup-Kompression"

/-- The compressor gives a member any compressed size, and the file of an
archive takes some bytes. -/
structure Codec where
  compress : Compression → Content → Nat
  zipSize : List Member → Nat
  zipSize_pos : ∀ members, 0 < zipSize members

/-- `archive.writestr`. -/
def writestr (compress : Content → Nat) (name : List Char) (content : Content) : Member :=
  ⟨name, content, compress content, .unset⟩

/-- `archive.write`. -/
def writeFile (compress : Content → Nat) (name : List Char) (data : List UInt8) : Member :=
  ⟨name, .bytes data, compress (.bytes data), .regular⟩

def manifestStyle : Style := ⟨false, true⟩

def permissionsStyle : Style := ⟨true, true⟩

/-- The two JSON members that every artifact ends with. -/
def closing (compress : Content → Nat) (manifest permissions : Document) : List Member :=
  [writestr compress manifestName (.json manifestStyle manifest),
    writestr compress permissionsName (.json permissionsStyle (sortKeys permissions))]

def environmentKeys : List String :=
  ["TZ", "BBM_HTTPS_PORT", "BBM_TLS_HOSTS", "BBM_SESSION_TTL_SECONDS",
    "BBM_SESSION_IDLE_TIMEOUT_SECONDS", "BBM_SESSION_COOKIE_NAME", "BBM_SESSION_COOKIE_SECURE",
    "BBM_TRUSTED_PROXY_CIDRS", "BBM_LOGIN_RATE_WINDOW_SECONDS", "BBM_LOGIN_RATE_BLOCK_SECONDS",
    "BBM_LOGIN_RATE_MAX_PER_IP", "BBM_LOGIN_RATE_MAX_PER_IP_USER",
    "BBM_SECURITY_EVENT_RETENTION_DAYS", "BBM_SECURITY_EVENT_MAX_ROWS",
    "BBM_BACKUP_MAX_FILE_BYTES", "BBM_BACKUP_MAX_UNCOMPRESSED_BYTES",
    "BBM_BACKUP_MAX_ENTRIES", "BBM_BACKUP_MAX_COMPRESSION_RATIO",
    "BBM_BACKUP_CACHE_MAX_FILE_BYTES", "BBM_BACKUP_CACHE_MAX_UNCOMPRESSED_BYTES",
    "BBM_BACKUP_CACHE_MAX_ENTRIES", "BBM_BACKUP_CACHE_MAX_COMPRESSION_RATIO",
    "BBM_COMMAND_TIMEOUT", "BBM_APPEARANCE",
    "BBM_REPOSITORY_SIZE_AFTER_RUN", "BBM_REPOSITORY_PUBLIC_HOST",
    "BBM_REPOSITORY_SSH_PORT", "BBM_BORG_UID", "BBM_BORG_GID",
    "BBM_STORAGE_GUARD_ENABLED", "BBM_STORAGE_GUARD_THRESHOLD_PERCENT",
    "BBM_HEALTH_REQUIRE_SSHD", "BBM_LOG_MAX_BYTES", "BBM_LOG_ROTATIONS",
    "BBM_DATA_PATH", "BBM_REPOSITORY_PATH", "BBM_ARCHIVE_MOUNT_PATH"]

def environmentLine (environ : String → String) (key : String) : Except String (List Char) :=
  let value := (environ key).toList
  if '\n' ∈ value ∨ '\r' ∈ value then .error ("Umgebungswert " ++ key ++ " enthält einen Zeilenumbruch")
  else .ok (key.toList ++ '=' :: value)

/-- `_environment_snapshot`, in UTF-8. -/
def environmentSnapshot (environ : String → String) : Except String (List UInt8) := do
  let lines ← environmentKeys.mapM (environmentLine environ)
  pure ((['\n'].intercalate lines ++ ['\n']).flatMap String.utf8EncodeChar)

/-- The counts that `_validate_security_backup_pair` returns. -/
structure SecurityInventory where
  users : Nat
  secrets : Nat
  systemSecrets : Nat
  twoFactorUsers : Nat
  hostSshActions : Nat
  deriving DecidableEq

def SecurityInventory.fields (inventory : SecurityInventory) : List (String × Int) :=
  [("users", inventory.users), ("secrets", inventory.secrets), ("system_secrets", inventory.systemSecrets),
    ("two_factor_users", inventory.twoFactorUsers), ("host_ssh_actions", inventory.hostSshActions)]

/-- The persistent data of the manager: its files, and how the checks of the
databases go. -/
structure ManagerData where
  databaseCheck : Except String Unit
  securityPair : Except String SecurityInventory
  snapshotCheck : Except String Unit
  snapshotPair : Except String SecurityInventory
  environ : String → String
  database : List UInt8
  settings : Option (List UInt8)
  notificationSettings : Option (List UInt8)
  securityDatabase : List UInt8
  masterKey : List UInt8

def plainManifest (appVersion label createdAt : String) (compression : Compression) (inventory : SecurityInventory) :
    Document :=
  [("format", .text backupFormat),
    ("format_version", .number 7),
    ("backup_type", .text "manager"),
    ("app_version", .text appVersion),
    ("created_at", .text createdAt),
    ("label", .text label),
    ("encrypted", .flag false),
    ("repository_data_included", .flag false),
    ("run_logs_included", .flag false),
    ("borg_cache_included", .flag false),
    ("borg_security_included", .flag false),
    ("client_borg_cache_included", .flag false),
    ("compression", .text compression.name),
    ("includes", .texts [
      "database", "security_database", "master_key", "settings",
      "notification_settings", "environment_snapshot",
      "controller_keys", "repository_ssh_host_keys", "repository_credentials",
      "borg_keyfiles", "tls_material", "notification_secrets"]),
    ("security_inventory", .numbers inventory.fields),
    ("regenerable_not_included", .texts [
      "authorized_keys", "runtime_secret_files", "run_logs", "debug_logs",
      "exports", "backup_artifacts", "archive_cache", "borg_cache", "borg_security"])]

/-- The files of a manager backup, by their names below `data`, in the order in
which they are written. -/
def managerFiles (data : ManagerData) : List (List String × List UInt8) :=
  (["manager.db"], data.database) ::
    (data.settings.toList.map (fun settings => (["settings.json"], settings)) ++
      (data.notificationSettings.toList.map (fun settings => (["notifications.json"], settings)) ++
        [(["security", "security.db"], data.securityDatabase), (["security", "master.key"], data.masterKey)]))

def dataName (path : List String) : List Char := ['/'].intercalate (("data" :: path).map String.toList)

/-- All files of a manager backup have the mode 0600. -/
def managerPermissions (data : ManagerData) : Document :=
  (managerFiles data).map (fun f => (String.ofList (dataName f.1), .number 0o600))

/-- The members of a manager backup, in the order in which they are written. -/
def managerMembers (compress : Content → Nat) (environment : List UInt8) (manifest : Document) (data : ManagerData) :
    List Member :=
  writestr compress "migration.env".toList (.bytes environment) ::
    ((managerFiles data).map (fun f => writeFile compress (dataName f.1) f.2) ++
      closing compress manifest (managerPermissions data))

/-- `_write_plain_backup`: the manifest and the members of the archive. -/
def writePlainBackup (codec : Codec) (data : ManagerData) (appVersion label createdAt compression : String) :
    Except String (Document × List Member) := do
  data.databaseCheck
  let inventory ← data.securityPair
  data.snapshotCheck
  let compression ← compressionSettings compression
  let environment ← environmentSnapshot data.environ
  let snapshotInventory ← data.snapshotPair
  if snapshotInventory ≠ inventory then
    .error "Security-Datenbank-Snapshot stimmt nicht mit dem Ausgangsbestand überein"
  let manifest := plainManifest appVersion label createdAt compression inventory
  pure (manifest, managerMembers (codec.compress compression) environment manifest data)

/-- The local Borg state of the manager. -/
structure ManagerCache where
  cache : Option Directory
  security : Option Directory

def cacheFiles (state : ManagerCache) : List Found := treeFiles state.cache true

def securityFiles (state : ManagerCache) : List Found := treeFiles state.security false

def cacheTree : List Char := "borg-cache".toList

def securityTree : List Char := "borg-security".toList

def cacheManifest (state : ManagerCache) (appVersion label createdAt : String) (compression : Compression) : Document :=
  [("format", .text cacheBackupFormat),
    ("format_version", .number 2),
    ("backup_type", .text "cache"),
    ("cache_artifact_kind", .text "manager"),
    ("app_version", .text appVersion),
    ("created_at", .text createdAt),
    ("label", .text label),
    ("encrypted", .flag false),
    ("borg_cache_included", .flag true),
    ("borg_security_included", .flag true),
    ("client_borg_cache_included", .flag false),
    ("client_borg_security_included", .flag false),
    ("compression", .text compression.name),
    ("includes", .texts ["borg_cache", "borg_security"]),
    ("borg_cache_files", .number (treeTotals (cacheFiles state)).1),
    ("borg_cache_source_bytes", .number (treeTotals (cacheFiles state)).2),
    ("borg_security_files", .number (treeTotals (securityFiles state)).1),
    ("borg_security_source_bytes", .number (treeTotals (securityFiles state)).2)]

def cachePermissions (state : ManagerCache) : Document :=
  treePermissions cacheTree (cacheFiles state) ++ treePermissions securityTree (securityFiles state)

def cacheMembers (compress : Content → Nat) (manifest : Document) (state : ManagerCache) : List Member :=
  treeMembers compress cacheTree (cacheFiles state) ++
    (treeMembers compress securityTree (securityFiles state) ++ closing compress manifest (cachePermissions state))

/-- `_write_cache_backup` for the manager. -/
def writeCacheBackup (codec : Codec) (state : ManagerCache) (appVersion label createdAt compression : String) :
    Except String (Document × List Member) := do
  let compression ← compressionSettings compression
  let manifest := cacheManifest state appVersion label createdAt compression
  pure (manifest, cacheMembers (codec.compress compression) manifest state)

/-- An artifact on disk. What is sealed in an encrypted one comes out with the
passphrase that it was sealed with. -/
inductive Artifact
  | zip (members : List Member)
  | encrypted (header : Document) (passphrase : String) (members : List Member)

def backupMagicLength : Nat := 13

def headerStyle : Style := ⟨true, false⟩

/-- `json.dumps(header, separators=(",", ":"), sort_keys=True)`, in bytes. -/
def headerLength (header : Document) : Nat := byteSize (dumps headerStyle (sortKeys header))

def tagBytes : Nat := 16

def Artifact.fileSize (codec : Codec) : Artifact → Nat
  | .zip members => codec.zipSize members
  | .encrypted header _ members => backupMagicLength + 4 + headerLength header + codec.zipSize members + tagBytes

/-- `_validate_backup_file_size`. -/
def validateBackupFileSize (limits : Limits) (size : Nat) : Except String Unit :=
  if size = 0 then .error "Backup-Datei ist leer"
  else if limits.maxFileBytes < size then
    .error ("Backup-Datei überschreitet die zulässige Größe von " ++ toString limits.maxFileBytes ++ " Bytes")
  else .ok ()

/-- The random values of an encryption, in Base64. -/
structure Nonces where
  salt : String
  nonce : String

/-- `int(manifest.get(key) or 0)` of a field with a number. -/
def countOf (manifest : Document) (key : String) : Value := .number ((get manifest key).toInt?.getD 0)

def flagOf (manifest : Document) (key : String) : Value := .flag (get manifest key).truthy

def envelopeHeader (manifest : Document) (nonces : Nonces) : Document :=
  [("format", .text "borgbackup-manager-encrypted-backup"),
    ("format_version", .number 2),
    ("app_version", get manifest "app_version"),
    ("created_at", get manifest "created_at"),
    ("label", get manifest "label"),
    ("backup_type", .text (if (get manifest "format").textOr = cacheBackupFormat then "cache" else "manager")),
    ("content_format", get manifest "format"),
    ("encrypted", .flag true),
    ("cipher", .text "AES-256-GCM-stream"),
    ("kdf", .text "scrypt-n32768-r8-p1"),
    ("salt", .text nonces.salt),
    ("nonce", .text nonces.nonce),
    ("tag_bytes", .number tagBytes),
    ("borg_cache_included", flagOf manifest "borg_cache_included"),
    ("borg_security_included", flagOf manifest "borg_security_included"),
    ("client_borg_cache_included", flagOf manifest "client_borg_cache_included"),
    ("client_borg_cache_target_count", countOf manifest "client_borg_cache_target_count"),
    ("client_borg_cache_saved_count", countOf manifest "client_borg_cache_saved_count"),
    ("client_borg_cache_missing_count", countOf manifest "client_borg_cache_missing_count"),
    ("client_borg_cache_skipped_count", countOf manifest "client_borg_cache_skipped_count"),
    ("client_borg_cache_warning_count", countOf manifest "client_borg_cache_warning_count"),
    ("client_borg_security_included", flagOf manifest "client_borg_security_included"),
    ("client_borg_security_saved_count", countOf manifest "client_borg_security_saved_count"),
    ("client_borg_security_missing_count", countOf manifest "client_borg_security_missing_count"),
    ("client_borg_security_unresolved_count", countOf manifest "client_borg_security_unresolved_count"),
    ("cache_artifact_kind", get manifest "cache_artifact_kind"),
    ("source_host_id", get manifest "source_host_id"),
    ("source_host_name", get manifest "source_host_name"),
    ("compression", (manifest.lookup "compression").getD (.text "deflate-6"))]

/-- `_encrypt_backup`. -/
def encryptBackup (manifest : Document) (members : List Member) (passphrase : String) (nonces : Nonces) :
    Except String Artifact :=
  if passphrase.toList.length < 12 then
    .error "Verschlüsselte Backups benötigen eine Passphrase mit mindestens 12 Zeichen"
  else if passphrase.toList.any (fun c => c == '\x00' || c == '\r' || c == '\n') then
    .error "Die Backup-Passphrase muss einzeilig sein"
  else .ok (.encrypted (envelopeHeader manifest nonces) passphrase members)

/-- The label, or a name for a backup without one. -/
def backupLabel (label : String) : String :=
  let stripped := strip label
  if stripped = "" then "Manuell" else stripped

/-- What a request for a backup says, and the values that are drawn for it. -/
structure BackupRequest where
  appVersion : String
  label : String
  passphrase : Option String
  compression : String
  createdAt : String
  nonces : Nonces

/-- `create_full_backup`. -/
def createFullBackup (codec : Codec) (limits : BackupLimits) (data : ManagerData) (request : BackupRequest) :
    Except String Artifact := do
  let some passphrase := truthy request.passphrase | .error "Neue Manager-Backups müssen verschlüsselt werden"
  let (manifest, members) ←
    writePlainBackup codec data request.appVersion (backupLabel request.label) request.createdAt request.compression
  let artifact ← encryptBackup manifest members passphrase request.nonces
  validateBackupFileSize limits.manager (artifact.fileSize codec)
  pure artifact

/-- `create_cache_backup`, around the writing of its archive. -/
def sealCacheBackup (codec : Codec) (limits : BackupLimits) (encrypted : Bool) (request : BackupRequest)
    (write : Except String (Document × List Member)) : Except String Artifact := do
  if encrypted ∧ truthy request.passphrase = none then
    .error "Für ein verschlüsseltes Cache-Backup ist eine Passphrase erforderlich"
  if encrypted = false ∧ truthy request.passphrase ≠ none then
    .error "Eine Passphrase ist nur bei aktivierter Cache-Backup-Verschlüsselung zulässig"
  let (manifest, members) ← write
  let artifact ←
    if encrypted then encryptBackup manifest members (request.passphrase.getD "") request.nonces
    else .ok (.zip members)
  validateBackupFileSize limits.cache (artifact.fileSize codec)
  pure artifact

/-- `create_cache_backup` with the manager's cache. -/
def createCacheBackup (codec : Codec) (limits : BackupLimits) (state : ManagerCache) (encrypted : Bool)
    (request : BackupRequest) : Except String Artifact :=
  sealCacheBackup codec limits encrypted request
    (writeCacheBackup codec state request.appVersion (backupLabel request.label) request.createdAt request.compression)

/-- `_read_encrypted_header` and `_decrypt_backup`. -/
def decryptBackup (codec : Codec) (limits : BackupLimits) (header : Document) (sealedWith : String)
    (members : List Member) (passphrase : Option String) : Except String (List Member) := do
  let some passphrase := truthy passphrase | .error "Für dieses Backup ist die Backup-Passphrase erforderlich"
  if headerLength header < 32 ∨ headerLength header > 65536 then .error "Backup-Header hat eine ungültige Größe"
  if (get header "format").textOr ≠ "borgbackup-manager-encrypted-backup" then
    .error "Datei ist kein verschlüsseltes BorgBackup-Manager-Backup"
  requireSupportedBackupVersion header
  if (get header "format_version").numberOr ≠ 2 ∨ (get header "cipher").textOr ≠ "AES-256-GCM-stream" then
    .error "Backup verwendet ein nicht mehr unterstütztes Verschlüsselungsformat"
  validateBackupFileSize (limits.of (includesCache header))
    ((Artifact.encrypted header sealedWith members).fileSize codec)
  if passphrase.toList.length < 8 then .error "Die Backup-Passphrase muss mindestens 8 Zeichen lang sein"
  if (get header "tag_bytes").numberOr ≠ tagBytes then .error "Backup-Header enthält eine ungültige GCM-Tag-Größe"
  if codec.zipSize members = 0 then .error "Verschlüsseltes Backup ist unvollständig"
  if passphrase ≠ sealedWith then .error "Backup-Passphrase ist falsch oder das Backup wurde verändert"
  pure members

/-- `plain_backup_file`: the members of the archive of an artifact. -/
def plainBackupFile (codec : Codec) (limits : BackupLimits) (artifact : Artifact) (passphrase : Option String) :
    Except String (List Member) :=
  match artifact with
  | .zip members => do
      let manifest ← readAnyBackupManifest members
      let cache := includesCache manifest || (get manifest "format").textOr == cacheBackupFormat
      validateBackupFileSize (limits.of cache) (artifact.fileSize codec)
      pure members
  | .encrypted header sealedWith members => decryptBackup codec limits header sealedWith members passphrase

def skipExtractPrefixes : List (List Char) := ["data/client-borg-cache/".toList, "data/client-borg-security/".toList]

/-- The archive of an artifact, extracted to the staging directory. -/
def unpackBackup (codec : Codec) (limits : BackupLimits) (staging : Staging) (artifact : Artifact)
    (passphrase : Option String) : Except String (Document × List Member) := do
  let members ← plainBackupFile codec limits artifact passphrase
  safeExtract limits staging skipExtractPrefixes members

/-- `prepare_full_backup_restore`, as far as the archive is read and checked. -/
def prepareFullBackupRestore (codec : Codec) (limits : BackupLimits) (staging : Staging) (artifact : Artifact)
    (passphrase : Option String) : Except String (Document × List Member) := do
  let (manifest, files) ← unpackBackup codec limits staging artifact passphrase
  if (get manifest "format").textOr ≠ backupFormat then
    .error "Cache-Backup kann nicht als Manager-Backup wiederhergestellt werden"
  pure (manifest, files)

/-- `restore_manager_borg_cache_from_backup`, as far as the archive is read and
checked. -/
def restoreManagerBorgCacheFromBackup (codec : Codec) (limits : BackupLimits) (staging : Staging) (artifact : Artifact)
    (passphrase : Option String) : Except String (Document × List Member) := do
  let members ← plainBackupFile codec limits artifact passphrase
  let manifest ← readCacheBackupManifest members
  if (get manifest "borg_cache_included").truthy = false then .error "Cache-Backup enthält keinen Manager-Borg-Cache"
  safeExtract limits staging skipExtractPrefixes members

end BorgManager.BackupArtifacts
