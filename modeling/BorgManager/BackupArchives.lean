import BorgManager.ArtifactPaths
import BorgManager.JsonText

namespace BorgManager.BackupArchives

open PythonText Patterns ArtifactPaths JsonText

/-- What a member of an archive holds. `json.loads` gives the document of a
JSON text back. -/
inductive Content
  | bytes (data : List UInt8)
  | json (style : Style) (document : Document)

/-- The uncompressed size. A JSON text ends with a line break. -/
def Content.size : Content → Nat
  | .bytes data => data.length
  | .json style document => byteSize (dumps style document) + 1

def Content.loads : Content → Option Document
  | .bytes _ => none
  | .json _ document => some document

/-- The file type in the external attributes of a member. -/
inductive FileType
  | unset
  | regular
  | symlink
  deriving DecidableEq

structure Member where
  filename : List Char
  content : Content
  compressSize : Nat
  fileType : FileType

def Member.fileSize (member : Member) : Nat := member.content.size

/-- The limits of one kind of backup. -/
structure Limits where
  maxFileBytes : Nat
  maxUncompressedBytes : Nat
  maxEntries : Nat
  maxCompressionRatio : Nat

structure BackupLimits where
  manager : Limits
  cache : Limits

def BackupLimits.of (limits : BackupLimits) (includesCache : Bool) : Limits :=
  if includesCache then limits.cache else limits.manager

def backupFormat : String := "borgbackup-manager-full-backup"

def cacheBackupFormat : String := "borgbackup-manager-cache-backup"

def minSupportedBackupVersion : Nat × Nat × Nat := (1, 3, 5)

/-- `v?(\d+)\.(\d+)\.(\d+)(?:[-+][0-9A-Za-z.-]+)?`. -/
def versionPattern : Pattern :=
  let digits := plus true (.char Char.isDigit)
  let dot := Pattern.char (· == '.')
  sequence [
    optional (.char (· == 'v')), .group 1 digits, dot, .group 2 digits, dot, .group 3 digits,
    optional (.seq (.char (fun c => c == '-' || c == '+'))
      (plus true (.char (fun c => c.isAlphanum || c == '.' || c == '-'))))]

/-- `_version_tuple`. -/
def versionTuple (value : String) : Option (Nat × Nat × Nat) :=
  (versionPattern.fullmatch (stripWhile isSpace value.toList)).map (fun cursor =>
    let part (index : Nat) := Nat.ofDigitChars 10 ((cursor.groups.lookup index).getD []) 0
    (part 1, part 2, part 3))

def olderThan (a b : Nat × Nat × Nat) : Bool :=
  decide (a.1 < b.1 ∨ a.1 = b.1 ∧ (a.2.1 < b.2.1 ∨ a.2.1 = b.2.1 ∧ a.2.2 < b.2.2))

/-- `_require_supported_backup_version`. -/
def requireSupportedBackupVersion (metadata : Document) : Except String Unit :=
  match versionTuple (get metadata "app_version").textOr with
  | none => .error "Backup enthält keine gültige BorgBackup-Manager-Version"
  | some version =>
      if olderThan version minSupportedBackupVersion then
        .error "Backups vor BorgBackup Manager v1.3.5 werden nicht mehr unterstützt"
      else .ok ()

def manifestName : List Char := "manifest.json".toList

def permissionsName : List Char := "permissions.json".toList

/-- `ZipFile.getinfo`: of two members with one name the last one counts. -/
def getinfo (members : List Member) (name : List Char) : Option Member :=
  (members.filter (fun member => member.filename == name)).getLast?

def maxManifestBytes : Nat := 1024 * 1024

/-- `_read_any_backup_manifest`. -/
def readAnyBackupManifest (members : List Member) : Except String Document := do
  let some info := getinfo members manifestName | .error "Manifest fehlt oder ist ungültig"
  if info.fileSize < 2 ∨ info.fileSize > maxManifestBytes then .error "Manifest hat eine ungültige Größe"
  let some manifest := info.content.loads | .error "Manifest fehlt oder ist ungültig"
  let format := (get manifest "format").textOr
  if format ≠ backupFormat ∧ format ≠ cacheBackupFormat then
    .error "Datei ist kein unterstütztes BorgBackup-Manager-Backup"
  requireSupportedBackupVersion manifest
  let expected : Int := if format = backupFormat then 7 else 2
  if (get manifest "format_version").numberOr ≠ expected then
    .error "Backup verwendet ein Format vor der einmaligen BorgBackup-Manager-v1.3.5-Baseline"
  pure manifest

/-- `_read_cache_backup_manifest`. -/
def readCacheBackupManifest (members : List Member) : Except String Document := do
  let manifest ← readAnyBackupManifest members
  if (get manifest "format").textOr ≠ cacheBackupFormat then
    .error "Backup ist kein eigenständiges Borg-Cache-Backup"
  if (get manifest "format_version").numberOr ≠ 2 then
    .error "Cache-Backup verwendet ein Format vor der v1.3.5-Baseline"
  let artifactKind := (get manifest "cache_artifact_kind").textOr
  if artifactKind ≠ "manager" ∧ artifactKind ≠ "client" then
    .error "Cache-Backup enthält keinen gültigen Artefakttyp"
  if artifactKind = "manager" ∧ (get manifest "client_borg_cache_included").truthy then
    .error "Manager-Cache-Artefakt enthält unerwartete Client-Caches"
  if artifactKind = "client" ∧ (get manifest "borg_cache_included").truthy then
    .error "Client-Cache-Artefakt enthält unerwarteten Manager-Cache"
  pure manifest

/-- `_contained_target`. Without `..` and symbolic links only the directory
itself is not below it. -/
def containedTarget (parts : List (List Char)) : Except String Unit :=
  if parts = [] then
    .error ("Backup-Pfad verlässt das Wiederherstellungsverzeichnis: " ++ String.ofList (asPosix parts))
  else .ok ()

def Member.isDir (member : Member) : Bool := member.filename.getLast? == some '/'

def Member.relative (member : Member) : Except String (List (List Char)) :=
  safeRelativePath (if member.isDir then rstripWhile (· == '/') member.filename else member.filename)

/-- The names and sizes of the members so far. -/
structure Tally where
  names : List (List Char)
  uncompressed : Nat
  compressed : Nat

def exceedsRatio (limits : Limits) (size compressed : Nat) : Prop :=
  size ≠ 0 ∧ limits.maxCompressionRatio * max 1 compressed < size

instance (limits : Limits) (size compressed : Nat) : Decidable (exceedsRatio limits size compressed) :=
  inferInstanceAs (Decidable (_ ∧ _))

local instance lawfulNames : LawfulBEq (List Char) := inferInstance

/-- One round of the checks of `_safe_extract`. The source divides the sizes;
below 2^53 bytes the rounded quotient exceeds a whole number just when the
exact one does. -/
def checkMember (limits : Limits) (tally : Tally) (member : Member) : Except String Tally := do
  let parts ← member.relative
  let normalized := asPosix parts
  if normalized ∈ tally.names then .error ("Doppelter Eintrag im Backup: " ++ String.ofList normalized)
  containedTarget parts
  if member.fileType = .symlink then
    .error ("Symbolischer Link im Backup ist nicht erlaubt: " ++ String.ofList member.filename)
  if exceedsRatio limits member.fileSize member.compressSize then
    .error ("Backup-Eintrag weist ein unzulässig hohes Kompressionsverhältnis auf: " ++ String.ofList member.filename)
  let next : Tally := ⟨normalized :: tally.names, tally.uncompressed + member.fileSize,
    tally.compressed + member.compressSize⟩
  if limits.maxUncompressedBytes < next.uncompressed then
    .error ("Entpackter Backup-Inhalt überschreitet " ++ toString limits.maxUncompressedBytes ++ " Bytes")
  pure next

def checkMembers (limits : Limits) (tally : Tally) : List Member → Except String Tally
  | [] => .ok tally
  | member :: rest => do
      let next ← checkMember limits tally member
      checkMembers limits next rest

/-- The mode of a file: no more than the twelve permission bits. -/
def isMode : Value → Bool
  | .number n => decide (0 ≤ n ∧ n ≤ 0o7777)
  | _ => false

def checkPermission (f : String × Value) : Except String Unit := do
  if isMode f.2 = false then .error "Berechtigungsmanifest enthält ungültige Werte"
  let relative ← safeRelativePath f.1.toList
  containedTarget relative

def checkPermissions (limits : Limits) (permissions : Document) : Except String Unit :=
  if limits.maxEntries < permissions.length then .error "Berechtigungsmanifest enthält ungültig viele Einträge"
  else permissions.forM checkPermission

/-- The members that are written to the directory. -/
def extracted (skipPrefixes : List (List Char)) (members : List Member) : List Member :=
  members.filter (fun member =>
    match member.relative with
    | .error _ => false
    | .ok parts => !skipPrefixes.any (fun skipped => skipped.isPrefixOf (asPosix parts)))

def includesCache (document : Document) : Bool :=
  (get document "borg_cache_included").truthy || (get document "client_borg_cache_included").truthy

/-- The end of `_safe_extract`: the modes of the extracted files. -/
def applyPermissions (limits : Limits) (files : List Member) : Except String Unit :=
  match getinfo files permissionsName with
  | none => .ok ()
  | some info =>
      match info.content.loads with
      | none => .error "Berechtigungsmanifest ist ungültig"
      | some permissions => checkPermissions limits permissions

/-- The directory that a restore extracts to, and what the host says of paths
there: the longest one, with its end, and the longest name in it, in bytes. -/
structure Staging where
  directory : List Char
  pathMax : Nat
  nameMax : Nat

/-- The host opens the file of a member. -/
def Staging.opens (staging : Staging) (member : Member) : Bool :=
  decide (byteSize staging.directory + 1 + byteSize member.filename < staging.pathMax) &&
    (member.filename.splitOn '/').all (fun part => decide (byteSize part ≤ staging.nameMax))

/-- `archive.extract` of the members, one after another. -/
def extractMembers (staging : Staging) (files : List Member) : Except String Unit :=
  match files.find? (fun member => !staging.opens member) with
  | none => .ok ()
  | some member => .error ("[Errno 36] File name too long: " ++
      String.ofList (staging.directory ++ '/' :: member.filename))

/-- `_safe_extract`: the manifest, and the members it extracts. -/
def safeExtract (limits : BackupLimits) (staging : Staging) (skipPrefixes : List (List Char)) (members : List Member) :
    Except String (Document × List Member) := do
  let manifest ← readAnyBackupManifest members
  let limits := limits.of (includesCache manifest)
  if limits.maxEntries < members.length then
    .error ("Backup enthält mehr als " ++ toString limits.maxEntries ++ " Einträge")
  let tally ← checkMembers limits ⟨[], 0, 0⟩ members
  if exceedsRatio limits tally.uncompressed tally.compressed then
    .error "Backup weist ein unzulässig hohes Kompressionsverhältnis auf"
  let files := extracted skipPrefixes members
  extractMembers staging files
  applyPermissions limits files
  pure (manifest, files)

end BorgManager.BackupArchives
