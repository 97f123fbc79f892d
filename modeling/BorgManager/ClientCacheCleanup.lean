import BorgManager.ClientCacheScan
import BorgManager.Records

namespace BorgManager.ClientCacheCleanup

open PythonText ClientCacheScan
open ClientCacheManifest (Host Job isBorgId)
open LogFilter (splitLines normalizeNewlines)
open Records (Repository Status)

structure Database where
  hosts : List Host
  jobs : List Job
  repositories : List Repository
  runs : List Status

def assignedRepositoryIds (db : Database) (hostId : Nat) : List Nat :=
  (db.jobs.filter (fun job => job.hostId == hostId)).map Job.repositoryId

/-- `_repository_locations`. -/
def repositoryLocations (db : Database) : List (Nat × String) :=
  db.repositories.filterMap (fun repository =>
    (truthy (some (normalizeLocation repository.location))).map (fun location => (repository.id, location)))

def assignedLocations (db : Database) (hostId : Nat) : List String :=
  (assignedRepositoryIds db hostId).filterMap (fun id => (repositoryLocations db).lookup id)

def knownLocations (db : Database) : List String := (repositoryLocations db).map Prod.snd

inductive CleanupKind
  | orphan | rollback | security | securityOrphan | userCache | reset
  deriving DecidableEq

def CleanupKind.ofText (text : String) : Option CleanupKind :=
  [("orphan", CleanupKind.orphan), ("rollback", .rollback), ("security", .security),
    ("security_orphan", .securityOrphan), ("user_cache", .userCache), ("reset", .reset)].lookup text

/-- One selected entry of a request. -/
structure CleanupItem where
  hostId : Int
  name : String
  path : Option String

structure Target where
  name : String
  path : Option String

/-- The three programs that delete on a device. -/
inductive Script
  | cache | userCache | security
  deriving DecidableEq

structure Command where
  hostId : Nat
  script : Script
  names : List String

/-- The answers of the devices: to the scan of a device, and to a deletion. -/
structure Devices where
  scan : Nat → Except Failure String
  run : Command → Except Failure String

/-- What a cleanup did. An exception that leaves it is `raised`. -/
structure Outcome where
  sent : List Command
  removed : List (Nat × String)
  skipped : List (Int × String × String)
  raised : Option Failure

def hasControl (text : String) : Bool := text.toList.any (fun c => c == '\x00' || c == '\r' || c == '\n')

variable (rt : Runtime)

def validUserCache (name rawPath : String) : Bool :=
  name != "" && name != "." && name != ".." && !name.toList.contains '/' && !hasControl name &&
    decide (name.utf8ByteSize ≤ 255) && rt.lower name != "cachedir.tag" &&
    (rawPath == "" || (rawPath.toList.head? == some '/' && !hasControl rawPath))

def validName (name rawPath : String) : CleanupKind → Bool
  | .orphan | .reset => (clientCacheId name).isSome
  | .rollback => (clientCacheRollbackId name).isSome
  | .userCache => validUserCache rt name rawPath
  | .security | .securityOrphan => isBorgId name

def readItem (kind : CleanupKind) (item : CleanupItem) : Except Failure (Int × Target) :=
  let name := if kind = .userCache then item.name else rt.lower item.name
  let rawPath := strip (item.path.getD "")
  if item.hostId ≤ 0 ∨ validName rt name rawPath kind = false then .error (.valueError "Ungültige Client-Cache-Auswahl")
  else .ok (item.hostId, ⟨name, truthy (some rawPath)⟩)

/-- `requested_by_host`: the devices in the order in which they first occur. -/
def requestedByHost (items : List (Int × Target)) : List (Int × List Target) :=
  (items.map Prod.fst).eraseDups.map (fun hostId =>
    (hostId, (items.filter (fun item => item.1 == hostId)).map Prod.snd))

/-- `client_borg_cache_cleanup_command`. -/
def clientBorgCacheCleanupCommand (hostId : Nat) (names : List String) : Except Failure Command :=
  if names = [] then .error (.valueError "Keine Client-Cache-Verzeichnisse zur Bereinigung angegeben")
  else if 1000 < names.length then .error (.valueError "Zu viele Client-Cache-Verzeichnisse zur Bereinigung angegeben")
  else if names.all (fun name => (clientCacheId name).isSome || (clientCacheRollbackId name).isSome) then
    .ok ⟨hostId, .cache, names.eraseDups⟩
  else .error (.valueError "Ungültiger Client-Cache-Name zur Bereinigung")

/-- `client_borg_security_cleanup_command`. -/
def clientBorgSecurityCleanupCommand (hostId : Nat) (repositoryIds : List String) : Except Failure Command :=
  if repositoryIds = [] then
    .error (.valueError "Keine Client-Sicherheitsstatus-Verzeichnisse zur Bereinigung angegeben")
  else if 1000 < repositoryIds.length then
    .error (.valueError "Zu viele Client-Sicherheitsstatus-Verzeichnisse zur Bereinigung angegeben")
  else
    let cleaned := repositoryIds.map (fun id => rt.lower (strip id))
    if cleaned.all isBorgId then .ok ⟨hostId, .security, cleaned.eraseDups⟩
    else .error (.valueError "Ungültige Borg-Repository-ID zur Bereinigung")

def validLegacyTarget (target : String) : Bool :=
  let basename := String.ofList ((target.toList.splitOn '/').getLast?.getD [])
  target != "" && rt.lower basename != "cachedir.tag" && basename != "." && basename != ".." && !hasControl target &&
    decide (target.utf8ByteSize ≤ 4096)

/-- `client_borg_user_cache_cleanup_command`. -/
def clientBorgUserCacheCleanupCommand (hostId : Nat) (targets : List String) : Except Failure Command :=
  if targets = [] then .error (.valueError "Keine Legacy-Borg-Cache-Einträge zur Bereinigung angegeben")
  else if 1000 < targets.length then
    .error (.valueError "Zu viele Legacy-Borg-Cache-Einträge zur Bereinigung angegeben")
  else
    let cleaned := targets.map strip
    if cleaned.all (validLegacyTarget rt) then .ok ⟨hostId, .userCache, cleaned.eraseDups⟩
    else .error (.valueError "Ungültiger Legacy-Borg-Cache-Name oder -Pfad zur Bereinigung")

def cleanupCommand (hostId : Nat) (values : List String) : CleanupKind → Except Failure Command
  | .security | .securityOrphan => clientBorgSecurityCleanupCommand rt hostId values
  | .userCache => clientBorgUserCacheCleanupCommand rt hostId values
  | .orphan | .rollback | .reset => clientBorgCacheCleanupCommand hostId values

/-- `candidates[0] if len(candidates) == 1 else None` -/
def onlyEntry (entries : List Entry) (candidate : Entry → Bool) : Option Entry :=
  match entries.filter candidate with
  | [entry] => some entry
  | _ => none

/-- The cache that a reset may delete, or why it may not. -/
def resetTarget (assigned : List Nat) (entries : List Entry) (target : Target) : Except String String :=
  let candidate (entry : Entry) : Bool :=
    decide (entry.entryType = .cache) && decide (entry.kind = .active) && entry.name == target.name
  match onlyEntry entries candidate with
  | some entry =>
      if entry.repositoryId.getD 0 ∈ assigned then .ok target.name
      else .error "BBM-Client-Cache ist nicht mehr eindeutig aktiv zugeordnet und wurde nicht zurückgesetzt."
  | none => .error "BBM-Client-Cache ist nicht mehr eindeutig aktiv zugeordnet und wurde nicht zurückgesetzt."

def allowedKinds : CleanupKind → List EntryKind
  | .userCache => [.userCacheActive, .userCacheOrphan, .userCacheUnknown, .userCacheMisc]
  | .securityOrphan => [.securityOrphan]
  | _ => [.securityOrphan, .securityUnknown, .securityDuplicateOld]

/-- The entry outside the caches of the manager that a cleanup may delete. -/
def scannedTarget (kind : CleanupKind) (entries : List Entry) (target : Target) : Except String String :=
  let candidate (entry : Entry) : Bool :=
    decide (entry.entryType = if kind = .userCache then .userCache else .security) && entry.name == target.name &&
      target.path.all (fun path => entry.path.getD "" == path)
  match onlyEntry entries candidate with
  | some entry =>
      if entry.kind ∈ allowedKinds kind ∧ entry.selectable = true then
        .ok (if kind = .userCache then (truthy entry.path).getD target.name else target.name)
      else
        .error
          "Eintrag ist nicht mehr eindeutig in einer zur Löschung freigegebenen Kategorie und wurde nicht gelöscht."
  | none =>
      .error "Eintrag ist nicht mehr eindeutig in einer zur Löschung freigegebenen Kategorie und wurde nicht gelöscht."

/-- The targets that are checked against the assignments alone. -/
def namedTarget (kind : CleanupKind) (assigned : List Nat) (target : Target) : Except String String :=
  if kind = .orphan ∧ (clientCacheId target.name).any (fun id => decide (id ∈ assigned)) then
    .error "Cache ist inzwischen wieder einem Backup-Job zugeordnet und wurde nicht gelöscht."
  else .ok target.name

def checkTarget (kind : CleanupKind) (assigned : List Nat) (entries : List Entry) (target : Target) :
    Except String String :=
  match kind with
  | .reset => resetTarget assigned entries target
  | .security | .securityOrphan | .userCache => scannedTarget kind entries target
  | .orphan | .rollback => namedTarget kind assigned target

variable (db : Database) (devices : Devices)

/-- The second scan, for the kinds that need one. -/
def currentEntries (kind : CleanupKind) (hostId : Nat) : Except Failure (List Entry) :=
  match kind with
  | .reset | .security | .securityOrphan | .userCache => do
      let output ← devices.scan hostId
      parseScanOutput rt (assignedRepositoryIds db hostId) (assignedLocations db hostId) (knownLocations db) output
  | .orphan | .rollback => .ok []

def rescanReason (kind : CleanupKind) (failure : Failure) : String :=
  if kind = .reset then "Client-Zustand konnte vor dem Zurücksetzen nicht erneut geprüft werden: " ++ failure.text
  else "Client-Zustand konnte vor dem Löschen nicht erneut geprüft werden: " ++ failure.text

def skippedNames (hostId : Int) (names : List String) (reason : String) : List (Int × String × String) :=
  names.map (fun name => (hostId, name, reason))

/-- The lines that a deletion program prints. -/
def reportedLines (output : String) : List (List String) :=
  ((splitLines (normalizeNewlines output.toList)).map String.ofList).map (fun line => fields (rstripChar '\r' line))

def removedLine : List String → Option String
  | tag :: name :: _ => if tag = "REMOVED" then some name else none
  | _ => none

def skippedLine (rt : Runtime) : List String → Option (String × String)
  | tag :: name :: rest =>
      if tag = "SKIPPED" ∨ tag = "MISSING" ∨ tag = "FAILED" then some (name, rest.head?.getD (rt.lower tag)) else none
  | _ => none

/-- Sends one deletion and reads what the device reports. -/
def runCleanup (kind : CleanupKind) (hostId : Nat) (values : List String) (skipped : List (Int × String × String)) :
    Outcome :=
  let failed (sent : List Command) (failure : Failure) : Outcome :=
    if failure.caught then
      ⟨sent, [], skipped ++ skippedNames hostId values
        ("Bereinigung auf dem Gerät fehlgeschlagen: " ++ failure.text), none⟩
    else ⟨sent, [], skipped, some failure⟩
  match cleanupCommand rt hostId values kind with
  | .error failure => failed [] failure
  | .ok command =>
      match devices.run command with
      | .error failure => failed [command] failure
      | .ok output =>
          let lines := reportedLines output
          ⟨[command], (lines.filterMap removedLine).map (fun name => (hostId, name)),
            skipped ++ (lines.filterMap (skippedLine rt)).map (fun line => ((hostId : Int), line)), none⟩

def safeValue : Except String String → Option String
  | .ok value => some value
  | .error _ => none

def skipReason (target : Target) : Except String String → Option (String × String)
  | .ok _ => none
  | .error reason => some (target.name, reason)

/-- The cleanup of one device. -/
def cleanHost (kind : CleanupKind) (hostId : Int) (targets : List Target) : Outcome :=
  let skipAll (reason : String) : Outcome := ⟨[], [], skippedNames hostId (targets.map Target.name) reason, none⟩
  match db.hosts.find? (fun host => (host.id : Int) == hostId) with
  | none => skipAll "Gerät existiert nicht mehr."
  | some host =>
      if host.enabled = false then skipAll "Gerät ist deaktiviert."
      else
        match currentEntries rt db devices kind host.id with
        | .error failure =>
            if failure.caught then skipAll (rescanReason kind failure) else ⟨[], [], [], some failure⟩
        | .ok entries =>
            let check := checkTarget kind (assignedRepositoryIds db host.id) entries
            let values := targets.filterMap (fun target => safeValue (check target))
            let skipped := (targets.filterMap (fun target => skipReason target (check target))).map
              (fun skip => (hostId, skip))
            if values = [] then ⟨[], [], skipped, none⟩ else runCleanup rt devices kind host.id values skipped

def cleanHosts (kind : CleanupKind) : List (Int × List Target) → Outcome
  | [] => ⟨[], [], [], none⟩
  | group :: rest =>
      let first := cleanHost rt db devices kind group.1 group.2
      if first.raised.isSome then first
      else
        let others := cleanHosts kind rest
        ⟨first.sent ++ others.sent, first.removed ++ others.removed, first.skipped ++ others.skipped, others.raised⟩

/-- The checks before any device is contacted. -/
def readRequest (backupTaskActive : Bool) (kind : String) (requested : List CleanupItem) :
    Except Failure (CleanupKind × List (Int × List Target)) :=
  match CleanupKind.ofText kind with
  | none => .error (.valueError "Ungültige Client-Cache-Bereinigungsart")
  | some kind =>
      if requested.isEmpty then .error (.valueError "Keine Client-Cache-Einträge zur Bereinigung ausgewählt")
      else do
        let items ← requested.mapM (readItem rt kind)
        if kind = .reset ∧ db.runs.any Status.active = true then
          .error (.valueError
            "BBM-Client-Caches können nur ohne laufende oder wartende Ausführungen zurückgesetzt werden")
        else if kind = .reset ∧ backupTaskActive = true then
          .error (.valueError
            "BBM-Client-Caches können während eines laufenden Manager-/Cache-Backups nicht zurückgesetzt werden")
        else .ok (kind, requestedByHost items)

/-- `cleanup_client_borg_caches`. -/
def cleanupClientBorgCaches (backupTaskActive : Bool) (kind : String) (requested : List CleanupItem) : Outcome :=
  match readRequest rt db backupTaskActive kind requested with
  | .error failure => ⟨[], [], [], some failure⟩
  | .ok (kind, groups) => cleanHosts rt db devices kind groups

end BorgManager.ClientCacheCleanup
