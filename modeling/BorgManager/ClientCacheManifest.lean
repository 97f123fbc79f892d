import BorgManager.ArtifactPaths
import Mathlib.Data.List.Sort
import Mathlib.Data.List.Dedup

namespace BorgManager.ClientCacheManifest

open PythonText Patterns ArtifactPaths

/-- A device. The database counts its keys from one. -/
structure Host where
  id : Nat
  name : String
  enabled : Bool
  borgVersion : Option String
  positive : 0 < id

structure Repository where
  id : Nat
  name : String
  positive : 0 < id

structure Job where
  id : Nat
  hostId : Nat
  repositoryId : Nat

structure Database where
  hosts : List Host
  repositories : List Repository
  jobs : List Job

abbrev Target : Type := Host × Repository

def Target.key (target : Target) : Nat × Nat := (target.1.id, target.2.id)

/-- `ORDER BY hosts.name, hosts.id, repositories.name, repositories.id, jobs.id`. -/
def rowOrder (a b : Job × Target) : Prop :=
  (compareOn (fun row : Job × Target => row.2.1.name) a b).then
    ((compareOn (fun row : Job × Target => row.2.1.id) a b).then
      ((compareOn (fun row : Job × Target => row.2.2.name) a b).then
        ((compareOn (fun row : Job × Target => row.2.2.id) a b).then
          (compareOn (fun row : Job × Target => row.1.id) a b)))) ≠ .gt

instance : DecidableRel rowOrder := fun _ _ => inferInstanceAs (Decidable (_ ≠ _))

def joinedRows (db : Database) : List (Job × Target) :=
  db.jobs.flatMap (fun job =>
    (db.hosts.filter (fun host => host.id == job.hostId)).flatMap (fun host =>
      (db.repositories.filter (fun repository => repository.id == job.repositoryId)).map (fun repository =>
        (job, host, repository))))

/-- The first row of every device and repository. -/
def unseen (seen : List (Nat × Nat)) : List Target → List Target
  | [] => []
  | target :: rest => if target.key ∈ seen then unseen seen rest else target :: unseen (target.key :: seen) rest

/-- `_target_rows`. -/
def targetRows (db : Database) (hostIds : Option (List Nat)) : List Target :=
  let rows := (joinedRows db).filter (fun row => hostIds.all (fun ids => ids.contains row.2.1.id))
  unseen [] ((rows.insertionSort rowOrder).map Prod.snd)

def isSlugChar (c : Char) : Bool := c.isAlphanum || c == '_' || c == '-'

/-- `re.sub(r"[^A-Za-z0-9_-]+", "-", …)`: one dash for a run of other
characters. -/
def dashRuns (inRun : Bool) : List Char → List Char
  | [] => []
  | c :: cs =>
      if isSlugChar c then c :: dashRuns false cs
      else if inRun then dashRuns true cs
      else '-' :: dashRuns true cs

/-- `_archive_slug`. -/
def archiveSlug (value fallback : List Char) : List Char :=
  let cleaned := (stripWhile (· == '-') (dashRuns false (stripWhile isSpace value))).take 64
  if cleaned = [] then fallback else cleaned

def clientCacheArchiveRoot : String := "data/client-borg-cache"

def clientSecurityArchiveRoot : String := "data/client-borg-security"

def digits (n : Nat) : List Char := Nat.toDigits 10 n

/-- `_client_archive_paths`, for one of the two roots. -/
def clientArchivePath (root : String) (target : Target) : String :=
  let hostPart := archiveSlug target.1.name.toList "device".toList ++ "-h".toList ++ digits target.1.id
  let repositoryPart :=
    archiveSlug target.2.name.toList "repository".toList ++ "-r".toList ++ digits target.2.id ++ ".tar".toList
  String.ofList (root.toList ++ '/' :: (hostPart ++ '/' :: repositoryPart))

/-- What an export command on a device sends back: the lines of the header, the
bytes that follow them, and how the process ends. -/
structure Stream where
  protocol : String
  status : String
  repositoryId : String
  payload : Nat
  timeout : Nat
  timedOut : Bool
  returncode : Int
  error : String

/-- A transfer raises when its command cannot be built or run or its data not
be stored. -/
inductive Transfer
  | raised (text : String)
  | sent (stream : Stream)

/-- `_safe_error_text`. -/
def safeErrorText (value : String) : String :=
  let text := stripWhile isSpace (value.toList.filter (· != '\x00'))
  if text = [] then "Unbekannter SSH-/Tar-Fehler" else String.ofList (text.drop (text.length - 4000))

/-- `_stream_one_cache`. -/
def streamOneCache : Transfer → Except String (String × Nat)
  | .raised text => .error text
  | .sent s =>
      let status := strip s.status
      if strip s.protocol ≠ "BBM_CLIENT_CACHE_V1" ∨ ¬ (status = "PRESENT" ∨ status = "MISSING") then
        .error ("Ungültige Antwort beim Lesen des Client-Caches: " ++ safeErrorText s.error)
      else if s.timedOut then
        .error ("Client-Cache-Übertragung hat das Zeitlimit von " ++ toString s.timeout ++ " Sekunden überschritten")
      else if s.returncode ≠ 0 then
        .error ("Client-Cache-Übertragung fehlgeschlagen (rc " ++ toString s.returncode ++ "): " ++
          safeErrorText s.error)
      else if status = "PRESENT" then .ok ("present", s.payload)
      else .ok ("missing", 0)

def hexDigits : List Char := ['0', '1', '2', '3', '4', '5', '6', '7', '8', '9', 'a', 'b', 'c', 'd', 'e', 'f']

/-- The check of a Borg repository id, the same for the writer and the reader. -/
def isBorgId (id : String) : Bool := id.toList.length == 64 && id.toList.all hexDigits.contains

def lower (s : String) : String := String.ofList (s.toList.map Char.toLower)

def reportedId (s : Stream) : String :=
  let id := lower (strip s.repositoryId)
  if id = "-" then "" else id

/-- `_stream_one_security`. -/
def streamOneSecurity : Transfer → Except String (String × Option String × Nat)
  | .raised text => .error text
  | .sent s =>
      let status := strip s.status
      if strip s.protocol ≠ "BBM_CLIENT_SECURITY_V1" ∨
          ¬ (status = "PRESENT" ∨ status = "MISSING" ∨ status = "UNRESOLVED" ∨ status = "ERROR") then
        .error ("Ungültige Antwort beim Lesen des Client-Borg-Sicherheitsstatus: " ++ safeErrorText s.error)
      else if reportedId s ≠ "" ∧ isBorgId (reportedId s) = false then
        .error "Client meldet eine ungültige Borg-Repository-ID für den Sicherheitsstatus"
      else if status = "PRESENT" ∧ reportedId s = "" then
        .error "Client-Sicherheitsstatus enthält keine Borg-Repository-ID"
      else if s.timedOut then
        .error ("Client-Sicherheitsstatus-Übertragung hat das Zeitlimit von " ++ toString s.timeout ++
          " Sekunden überschritten")
      else if s.returncode ≠ 0 ∨ status = "ERROR" then
        .error ("Client-Sicherheitsstatus-Übertragung fehlgeschlagen (rc " ++ toString s.returncode ++ "): " ++
          safeErrorText s.error)
      else if status = "PRESENT" then .ok ("saved", truthy (some (reportedId s)), s.payload)
      else if status = "MISSING" then .ok ("missing", truthy (some (reportedId s)), 0)
      else .ok ("unresolved", truthy (some (reportedId s)), 0)

/-- How the two exports of a target go, and when its entry is written. -/
structure Outcome where
  collectedAt : String
  cache : Transfer
  security : Transfer

/-- One object of `client_borg_caches` in a manifest. A key that is absent or
null is `none`. -/
structure RawEntry where
  hostId : Option Int := none
  hostName : Option String := none
  repositoryId : Option Int := none
  repositoryName : Option String := none
  borgVersion : Option String := none
  cachePath : Option String := none
  securityBasePath : Option String := none
  collectedAt : Option String := none
  status : Option String := none
  reason : Option String := none
  tarBytes : Option Nat := none
  archivePath : Option String := none
  securityStatus : Option String := none
  securityReason : Option String := none
  borgRepositoryId : Option String := none
  securityPath : Option String := none
  securityArchivePath : Option String := none
  securityTarBytes : Option Nat := none
  warning : Option Bool := none

def baseCachePath (repositoryId : Nat) : String :=
  "$HOME/.cache/borgbackup-manager/repository-" ++ toString repositoryId

def securityBasePath : String := "$HOME/.config/borg/security"

/-- `_base_metadata`. -/
def baseMetadata (target : Target) (collectedAt : String) : RawEntry where
  hostId := some target.1.id
  hostName := some target.1.name
  repositoryId := some target.2.id
  repositoryName := some target.2.name
  borgVersion := target.1.borgVersion
  cachePath := some (baseCachePath target.2.id)
  securityBasePath := some securityBasePath
  collectedAt := some collectedAt

def skippedEntry (metadata : RawEntry) : RawEntry :=
  { metadata with
    status := some "skipped_disabled"
    securityStatus := some "skipped_disabled"
    reason := some "Gerät ist deaktiviert und wurde für das Cache-Backup nicht kontaktiert." }

def warningEntry (target : Target) (metadata : RawEntry) (text : String) : RawEntry :=
  let reason := "Client-Borg-Zustand von Gerät „" ++ target.1.name ++ "“ / Repository „" ++ target.2.name ++
    "“ konnte nicht gesichert werden: " ++ text
  { metadata with
    status := some "warning"
    securityStatus := some "warning"
    reason := some reason
    securityReason := some reason
    warning := some true }

def withCache (target : Target) (metadata : RawEntry) (status : String) (tarBytes : Nat) : RawEntry :=
  if status = "missing" then
    { metadata with
      status := some "missing"
      reason := some "Auf dem Gerät ist für dieses Repository noch kein BBM-Borg-Cache vorhanden." }
  else
    { metadata with
      status := some "saved"
      archivePath := some (clientArchivePath clientCacheArchiveRoot target)
      tarBytes := some tarBytes }

def securityReasonOf (securityStatus : String) : Option String :=
  if securityStatus = "missing" then
    some "Für dieses Repository ist auf dem Client noch kein Borg-Sicherheitsstatus vorhanden."
  else if securityStatus = "unresolved" then
    some "Der Borg-Sicherheitsstatus konnte keinem Repository eindeutig zugeordnet werden und wurde nicht gesichert."
  else none

def withSecurity (target : Target) (metadata : RawEntry) (securityStatus : String) (borgRepositoryId : Option String)
    (securityTarBytes : Nat) : RawEntry :=
  let found :=
    { metadata with
      securityStatus := some securityStatus
      borgRepositoryId := borgRepositoryId
      securityPath := borgRepositoryId.map (fun id => securityBasePath ++ "/" ++ id) }
  if securityStatus = "saved" then
    { found with
      securityArchivePath := some (clientArchivePath clientSecurityArchiveRoot target)
      securityTarBytes := some securityTarBytes }
  else { found with securityReason := securityReasonOf securityStatus }

/-- Both exports of a target, the cache first. -/
def exportTarget (outcome : Outcome) : Except String ((String × Nat) × String × Option String × Nat) := do
  let cache ← streamOneCache outcome.cache
  let security ← streamOneSecurity outcome.security
  pure (cache, security)

/-- One round of `collect_client_borg_caches`. -/
def collectTarget (outcome : Outcome) (target : Target) : RawEntry :=
  let metadata := baseMetadata target outcome.collectedAt
  if target.1.enabled = false then skippedEntry metadata
  else
    match exportTarget outcome with
    | .error text => warningEntry target metadata text
    | .ok ((status, tarBytes), securityStatus, borgRepositoryId, securityTarBytes) =>
        withSecurity target (withCache target metadata status tarBytes) securityStatus borgRepositoryId securityTarBytes

def collectClientBorgCaches (db : Database) (hostIds : Option (List Nat)) (outcomes : Target → Outcome) :
    List RawEntry :=
  (targetRows db hostIds).map (fun target => collectTarget (outcomes target) target)

/-- The parts of a cache manifest that tell what is in its artifact. -/
structure CacheManifest where
  cacheArtifactKind : String
  borgCacheIncluded : Bool
  clientBorgCacheIncluded : Bool
  clientBorgCaches : List RawEntry
  sourceHostId : Option Nat
  sourceHostName : Option String

def deviceManifest (sourceHostId : Option Nat) (entries : List RawEntry) : CacheManifest where
  cacheArtifactKind := "client"
  borgCacheIncluded := false
  clientBorgCacheIncluded := true
  clientBorgCaches := entries
  sourceHostId := sourceHostId
  sourceHostName := sourceHostId.bind (fun id => entries.head?.map (fun entry =>
    (truthy entry.hostName).getD ("Gerät-" ++ toString id)))

def managerManifest : CacheManifest where
  cacheArtifactKind := "manager"
  borgCacheIncluded := true
  clientBorgCacheIncluded := false
  clientBorgCaches := []
  sourceHostId := none
  sourceHostName := none

/-- `create_cache_backup`, up to the manifest of its artifact. -/
def createCacheBackup (db : Database) (includeManager includeClient : Bool) (clientHostIds : List Nat)
    (outcomes : Target → Outcome) : Except String CacheManifest :=
  if includeManager = includeClient then
    .error "Cache-Artefakte werden getrennt als Manager- oder Geräte-Backup erstellt"
  else if includeManager then .ok managerManifest
  else
    match clientHostIds.dedup with
    | [hostId] =>
        if db.hosts.any (fun host => host.id == hostId) then
          .ok (deviceManifest (some hostId) (collectClientBorgCaches db (some [hostId]) outcomes))
        else .error ("Ausgewähltes Gerät #" ++ toString hostId ++ " wurde nicht gefunden")
    | _ => .error "Ein Geräte-Cache-Backup benötigt genau ein ausgewähltes Gerät"

/-- An entry as the reader gives it on. -/
structure Item where
  hostId : Nat
  hostName : String
  repositoryId : Nat
  repositoryName : String
  borgVersion : Option String
  cachePath : String
  securityBasePath : String
  collectedAt : Option String
  status : String
  reason : Option String
  tarBytes : Nat
  securityStatus : String
  securityReason : Option String
  borgRepositoryId : Option String
  securityTarBytes : Nat
  archivePath : Option String
  securityArchivePath : Option String
  securityPath : Option String

def allowedStatus : List String := ["saved", "missing", "skipped_disabled", "warning"]

def allowedSecurityStatus : List String := ["saved", "missing", "unresolved", "skipped_disabled", ""]

def invalidIds : String := "Client-Cache-Metadaten enthalten ungültige IDs"

def readKey (raw : RawEntry) : Except String (Nat × Nat) :=
  match raw.hostId, raw.repositoryId with
  | some hostId, some repositoryId =>
      if hostId ≤ 0 ∨ repositoryId ≤ 0 then .error invalidIds else .ok (hostId.toNat, repositoryId.toNat)
  | _, _ => .error invalidIds

def checkNew (seen : List (Nat × Nat)) (key : Nat × Nat) : Except String Unit :=
  if key ∈ seen then .error "Client-Cache-Metadaten enthalten doppelte Geräte-/Repository-Zuordnungen" else .ok ()

def readStatus (raw : RawEntry) : Except String String :=
  let status := raw.status.getD ""
  if status ∈ allowedStatus then .ok status else .error "Client-Cache-Metadaten enthalten einen ungültigen Status"

def readSecurityStatus (raw : RawEntry) : Except String String :=
  let status := raw.securityStatus.getD ""
  if status ∈ allowedSecurityStatus then .ok status
  else .error "Client-Sicherheitsstatus-Metadaten enthalten einen ungültigen Status"

def readBorgId (raw : RawEntry) : Except String (Option String) :=
  let id := truthy (some (lower (strip (raw.borgRepositoryId.getD ""))))
  if id.all isBorgId then .ok id
  else .error "Client-Sicherheitsstatus-Metadaten enthalten eine ungültige Borg-Repository-ID"

/-- `^<root>/[A-Za-z0-9_-]+-h<host>/[A-Za-z0-9_-]+-r<repository>\.tar$`. -/
def namedPathPattern (root : String) (key : Nat × Nat) : Pattern :=
  let exactly := literal (fun a b => a == b)
  anchored (sequence [
    exactly (root.toList ++ ['/']), plus true (.char isSlugChar),
    exactly ("-h".toList ++ digits key.1 ++ ['/']), plus true (.char isSlugChar),
    exactly ("-r".toList ++ digits key.2), exactly ".tar".toList])

def readPath (root message : String) (key : Nat × Nat) (path : Option String) : Except String String := do
  let archivePath := path.getD ""
  if ((namedPathPattern root key).fullmatch archivePath.toList).isNone then throw message
  let _ ← safeRelativePath archivePath.toList
  pure archivePath

def readArchivePath (key : Nat × Nat) (status : String) (raw : RawEntry) : Except String (Option String) :=
  if status = "saved" then
    some <$> readPath clientCacheArchiveRoot "Client-Cache-Metadaten enthalten einen ungültigen Archivpfad" key
      raw.archivePath
  else .ok none

def readSecurityPaths (key : Nat × Nat) (status : String) (borgRepositoryId : Option String) (raw : RawEntry) :
    Except String (Option String × Option String) :=
  if status = "saved" then
    match borgRepositoryId with
    | none => .error "Gesicherter Client-Sicherheitsstatus enthält keine Borg-Repository-ID"
    | some id => do
        let path ← readPath clientSecurityArchiveRoot
          "Client-Sicherheitsstatus-Metadaten enthalten einen ungültigen Archivpfad" key raw.securityArchivePath
        pure (some path, some ((truthy raw.securityPath).getD (securityBasePath ++ "/" ++ id)))
  else .ok (none, none)

/-- The item of an entry, with the defaults of the reader. -/
def itemOf (raw : RawEntry) (key : Nat × Nat) (status securityStatus : String)
    (borgRepositoryId archivePath : Option String) (securityPaths : Option String × Option String) : Item where
  hostId := key.1
  hostName := (truthy raw.hostName).getD ("#" ++ toString key.1)
  repositoryId := key.2
  repositoryName := (truthy raw.repositoryName).getD ("#" ++ toString key.2)
  borgVersion := raw.borgVersion
  cachePath := (truthy raw.cachePath).getD (baseCachePath key.2)
  securityBasePath := (truthy raw.securityBasePath).getD securityBasePath
  collectedAt := raw.collectedAt
  status := status
  reason := truthy raw.reason
  tarBytes := raw.tarBytes.getD 0
  securityStatus := securityStatus
  securityReason := truthy raw.securityReason
  borgRepositoryId := borgRepositoryId
  securityTarBytes := raw.securityTarBytes.getD 0
  archivePath := archivePath
  securityArchivePath := securityPaths.1
  securityPath := securityPaths.2

/-- One round of `_client_cache_entries_from_manifest`, with the keys of the
rounds before. -/
def readEntry (seen : List (Nat × Nat)) (raw : RawEntry) : Except String Item := do
  let key ← readKey raw
  checkNew seen key
  let status ← readStatus raw
  let securityStatus ← readSecurityStatus raw
  let borgRepositoryId ← readBorgId raw
  let archivePath ← readArchivePath key status raw
  let securityPaths ← readSecurityPaths key securityStatus borgRepositoryId raw
  pure (itemOf raw key status securityStatus borgRepositoryId archivePath securityPaths)

def readEntries (seen : List (Nat × Nat)) : List RawEntry → Except String (List Item)
  | [] => .ok []
  | raw :: rest => do
      let item ← readEntry seen raw
      let items ← readEntries ((item.hostId, item.repositoryId) :: seen) rest
      pure (item :: items)

def maxManifestEntries : Nat := 10000

/-- `_client_cache_entries_from_manifest`. -/
def clientCacheEntriesFromManifest (manifest : CacheManifest) : Except String (List Item) :=
  if manifest.clientBorgCacheIncluded = false then .ok []
  else if manifest.clientBorgCaches.length > maxManifestEntries then
    .error "Client-Cache-Metadaten im Backup sind ungültig"
  else readEntries [] manifest.clientBorgCaches

end BorgManager.ClientCacheManifest
