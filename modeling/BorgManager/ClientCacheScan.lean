import BorgManager.ClientCacheManifest
import BorgManager.LogFilter
import BorgManager.Numerals
import BorgManager.Supersession

namespace BorgManager.ClientCacheScan

open PythonText Numerals Supersession
open ClientCacheManifest (isBorgId)
open LogFilter (splitLines normalizeNewlines)

inductive Failure
  | valueError (message : String)
  | osError (message : String)
  | overflowError
  deriving DecidableEq

def Failure.text : Failure → String
  | .valueError message | .osError message => message
  | .overflowError => "date value out of range"

/-- The handlers catch `OSError`, `ValueError` and `SubprocessError`. -/
def Failure.caught : Failure → Bool
  | .valueError _ | .osError _ => true
  | .overflowError => false

/-- What `datetime.fromisoformat` and the conversion to UTC make of a text:
`invalid` is a `ValueError`, `outOfRange` the `OverflowError` of the conversion. -/
inductive Instant
  | invalid
  | outOfRange
  | at (t : Int)

/-- The library functions that the reader calls. `decodeBase64` is the strict
decoding of ASCII text followed by the decoding of UTF-8. `str.lower` leaves
digits and lower-case letters alone. -/
structure Runtime where
  lower : String → String
  decodeBase64 : String → Option String
  fromIsoFormat : String → Instant
  lower_borgId : ∀ id, isBorgId id = true → lower id = id

/-- `^repository-([1-9][0-9]*)$` and the number in its group. -/
def clientCacheId (name : String) : Option Nat := numbered "repository-" name

/-- `[0-9]{8}-[0-9]{6}` -/
def isStamp (cs : List Char) : Bool :=
  cs.length == 15 && (cs.take 8).all Char.isDigit && cs[8]? == some '-' && (cs.drop 9).all Char.isDigit

/-- `^repository-([1-9][0-9]*)\.pre-bbm-restore-([0-9]{8}-[0-9]{6})$` and the
number in its first group. -/
def clientCacheRollbackId (name : String) : Option Nat := do
  let rest ← "repository-".toList.isPrefixOf? name.toList
  let digits := rest.takeWhile Char.isDigit
  let stamp ← ".pre-bbm-restore-".toList.isPrefixOf? (rest.dropWhile Char.isDigit)
  if isNumeral digits && isStamp stamp then some (Nat.ofDigitChars 10 digits 0) else none

def normalizeLocation (value : String) : String :=
  let text := rstripChar '/' (strip value)
  match "file://".toList.isPrefixOf? text.toList with
  | some rest => rstripChar '/' (String.ofList rest)
  | none => text

inductive EntryType
  | cache | userCache | security
  deriving DecidableEq

inductive EntryKind
  | active | orphan | rollback | unknown
  | securityActive | securityOrphan | securityUnknown | securityDuplicateOld
  | userCacheActive | userCacheOrphan | userCacheUnknown | userCacheMisc
  deriving DecidableEq

/-- An entry of the inventory. `stamp` is the manifest timestamp in UTC. -/
structure Entry where
  name : String
  path : Option String
  entryType : EntryType
  kind : EntryKind
  repositoryId : Option Nat := none
  borgRepositoryId : Option String := none
  location : Option String := none
  manifestTimestamp : Option String := none
  stamp : Option Int := none
  selectable : Bool
  defaultSelected : Bool
  deriving DecidableEq

structure RawUserCache where
  name : String
  path : Option String
  rawType : String

structure RawSecurity where
  name : String
  path : Option String
  rawType : String
  location : Option String
  manifestTimestamp : Option String

/-- What one line of a scan says. -/
inductive Row
  | entry (e : Entry)
  | userCache (raw : RawUserCache)
  | security (raw : RawSecurity)
  | cacheRepo (name borgRepositoryId : String)
  | ignored

def Row.entry? : Row → Option Entry
  | .entry e => some e
  | _ => none

def Row.userCache? : Row → Option RawUserCache
  | .userCache raw => some raw
  | _ => none

def Row.security? : Row → Option RawSecurity
  | .security raw => some raw
  | _ => none

variable (rt : Runtime)

def decodeText (value : String) : Option String :=
  if value = "" ∨ value = "-" then none
  else
    match rt.decodeBase64 value with
    | none => none
    | some text =>
        if text.toList.any (fun c => c == '\x00' || c == '\r' || c == '\n') then none
        else truthy (some (strip text))

def decodeLocation (value : String) : Option String :=
  truthy (some (normalizeLocation ((decodeText rt value).getD "")))

def parseManifestTimestamp (value : Option String) : Except Failure (Option Int) :=
  let text := strip (value.getD "")
  if text = "" then .ok none
  else
    match rt.fromIsoFormat
        (String.ofList (text.toList.flatMap (fun c => if c = 'Z' then "+00:00".toList else [c]))) with
    | .invalid => .ok none
    | .outOfRange => .error .overflowError
    | .at t => .ok (some t)

variable (assigned : List Nat)

def unknownCache (name : String) (path : Option String) : Entry where
  name := name
  path := path
  entryType := .cache
  kind := .unknown
  selectable := false
  defaultSelected := false

/-- The entry of an `ENTRY` or `ENTRY5` row. -/
def cacheEntry (name rawSize : String) (path : Option String) : Entry :=
  if rawSize = "SYMLINK" ∨ rawSize = "OTHER" then unknownCache name path
  else
    match clientCacheId name, clientCacheRollbackId name with
    | some id, _ =>
        { name := name, path := path, entryType := .cache, kind := if id ∈ assigned then .active else .orphan
          repositoryId := some id, selectable := true, defaultSelected := !decide (id ∈ assigned) }
    | none, some id =>
        { name := name, path := path, entryType := .cache, kind := .rollback
          repositoryId := some id, selectable := true, defaultSelected := true }
    | none, none => unknownCache name path

def readRow : List String → Row
  | [tag, name, second] =>
      if tag = "CACHE_REPO" then
        if (clientCacheId name).isSome ∧ isBorgId (rt.lower second) = true then .cacheRepo name (rt.lower second)
        else .ignored
      else if tag = "ENTRY" then .entry (cacheEntry assigned name second none)
      else .ignored
  | [tag, name, second, third] =>
      if tag = "ENTRY5" then .entry (cacheEntry assigned name second (decodeText rt third))
      else if tag = "USER_CACHE" then .userCache ⟨name, none, third⟩
      else .ignored
  | [tag, name, _, rawType, last] =>
      if tag = "USER_CACHE5" then .userCache ⟨name, decodeText rt last, rawType⟩
      else if tag = "SECURITY" then .security ⟨rt.lower name, none, rawType, decodeLocation rt last, decodeText rt "-"⟩
      else .ignored
  | [tag, name, _, rawType, location, manifest] =>
      if tag = "SECURITY" then
        .security ⟨rt.lower name, none, rawType, decodeLocation rt location, decodeText rt manifest⟩
      else .ignored
  | [tag, name, _, rawType, location, manifest, path] =>
      if tag = "SECURITY5" then
        .security ⟨rt.lower name, decodeText rt path, rawType, decodeLocation rt location, decodeText rt manifest⟩
      else .ignored
  | _ => .ignored

/-- `dict[name] = value` -/
def setItem (dict : List (String × String)) (name value : String) : List (String × String) :=
  if dict.any (fun item => item.1 == name) then
    dict.map (fun item => if item.1 = name then (name, value) else item)
  else dict ++ [(name, value)]

def recordRow (dict : List (String × String)) : Row → List (String × String)
  | .cacheRepo name borgRepositoryId => setItem dict name borgRepositoryId
  | _ => dict

/-- `cache_repo_ids`. -/
def cacheRepoIds (rows : List Row) : List (String × String) := rows.foldl recordRow []

def activeBorgIds (dict : List (String × String)) : List String :=
  (dict.filter (fun item => (clientCacheId item.1).any (fun id => decide (id ∈ assigned)))).map Prod.snd

def orphanBorgIds (dict : List (String × String)) : List String :=
  ((dict.filter (fun item => (clientCacheId item.1).any (fun id => !decide (id ∈ assigned)))).map Prod.snd).filter
    (fun id => !decide (id ∈ activeBorgIds assigned dict))

def withRecordedId (dict : List (String × String)) (entry : Entry) : Entry :=
  match dict.lookup entry.name with
  | some id => { entry with borgRepositoryId := some id }
  | none => entry

def securityKind (active orphan assignedLocations knownLocations : List String) (raw : RawSecurity) : EntryKind :=
  if raw.name ∈ active ∨ raw.location.any (fun location => decide (location ∈ assignedLocations)) then .securityActive
  else if raw.name ∈ orphan ∨
      raw.location.any (fun location => decide (location ∈ knownLocations ∧ location ∉ assignedLocations)) then
    .securityOrphan
  else .securityUnknown

def securityEntry (active orphan assignedLocations knownLocations : List String) (raw : RawSecurity) :
    Except Failure Entry := do
  let stamp ← parseManifestTimestamp rt raw.manifestTimestamp
  if raw.rawType = "DIR" ∧ isBorgId raw.name = true then
    let kind := securityKind active orphan assignedLocations knownLocations raw
    return { name := raw.name, path := raw.path, entryType := .security, kind := kind
             borgRepositoryId := some raw.name, location := raw.location
             manifestTimestamp := raw.manifestTimestamp, stamp := stamp
             selectable := decide (kind ≠ .securityActive), defaultSelected := decide (kind = .securityOrphan) }
  else
    return { name := raw.name, path := raw.path, entryType := .security, kind := .securityUnknown
             borgRepositoryId := if isBorgId raw.name then some raw.name else none, location := raw.location
             manifestTimestamp := raw.manifestTimestamp, stamp := stamp
             selectable := false, defaultSelected := false }

/-- The location under which a security entry competes with others. -/
def sharedLocation (entry : Entry) : Option String :=
  if entry.borgRepositoryId.isSome then entry.location else none

/-- An entry whose location has a newer security state. -/
def superseded (active : List String) (entry : Entry) : Entry :=
  if entry.kind = .securityActive ∧ entry.name ∈ active then
    { entry with selectable := false, defaultSelected := false }
  else { entry with kind := .securityDuplicateOld, selectable := true, defaultSelected := true }

/-- The pass over `by_location`. The groups depend only on data that the pass
leaves alone, so every entry is judged by itself. -/
def markDuplicates (active : List String) (entries : List Entry) : List Entry :=
  entries.map (fun entry =>
    if outdated sharedLocation Entry.stamp entries entry then superseded active entry else entry)

/-- `security_by_id`: of several entries with one id the last one stays. -/
def securityById (security : List Entry) (id : String) : Option Entry :=
  security.reverse.find? (fun entry => entry.borgRepositoryId == some id)

def userCacheEntry (active orphan : List String) (security : List Entry) (raw : RawUserCache) : Entry :=
  let normalizedName := rt.lower raw.name
  let validId := isBorgId normalizedName
  let regular := raw.rawType = "DIR" ∧ validId = true
  let known := if validId then securityById security normalizedName else none
  let hasKind (kinds : List EntryKind) := known.any (fun entry => decide (entry.kind ∈ kinds))
  let kind : EntryKind :=
    if regular ∧ (normalizedName ∈ active ∨ hasKind [.securityActive] = true) then .userCacheActive
    else if regular ∧ (normalizedName ∈ orphan ∨ hasKind [.securityOrphan, .securityDuplicateOld] = true) then
      .userCacheOrphan
    else if regular then .userCacheUnknown
    else .userCacheMisc
  { name := if validId then normalizedName else raw.name
    path := raw.path
    entryType := .userCache
    kind := kind
    borgRepositoryId := if validId then some normalizedName else none
    location := known.bind Entry.location
    selectable := decide (raw.rawType = "DIR" ∨ raw.rawType = "FILE")
    defaultSelected := decide (kind = .userCacheOrphan) }

def protocols : List String :=
  ["BBM_CLIENT_CACHE_SCAN_V1", "BBM_CLIENT_CACHE_SCAN_V2", "BBM_CLIENT_CACHE_SCAN_V3", "BBM_CLIENT_CACHE_SCAN_V4",
    "BBM_CLIENT_CACHE_SCAN_V5"]

def scanLines (output : String) : List String :=
  (((splitLines (normalizeNewlines output.toList)).map String.ofList).filter (fun line => strip line != "")).map
    (rstripChar '\r')

def fields (line : String) : List String := (line.toList.splitOn '\t').map String.ofList

/-- The rows that follow the line with the protocol. -/
def scanRows (output : String) : List (List String) := (scanLines output).tail.map fields

def normalized (locations : List String) : List String :=
  (locations.map normalizeLocation).filter (fun location => location != "")

/-- The entries that the rows of a scan make up. -/
def inventory (assignedLocations knownLocations : List String) (rows : List Row) : Except Failure (List Entry) := do
  let dict := cacheRepoIds rows
  let active := activeBorgIds assigned dict
  let orphan := orphanBorgIds assigned dict
  let security ← (rows.filterMap Row.security?).mapM
    (securityEntry rt active orphan (normalized assignedLocations) (normalized knownLocations))
  let security := markDuplicates active security
  let userCaches := (rows.filterMap Row.userCache?).map (userCacheEntry rt active orphan security)
  return (rows.filterMap Row.entry?).map (withRecordedId dict) ++ userCaches ++ security

/-- `_parse_scan_output`. -/
def parseScanOutput (assignedLocations knownLocations : List String) (output : String) : Except Failure (List Entry) :=
  if (scanLines output).head?.all (fun header => !decide (header ∈ protocols)) then
    .error (.valueError "Ungültige Antwort bei der Client-Cache-Prüfung")
  else inventory rt assigned assignedLocations knownLocations ((scanRows output).map (readRow rt assigned))

end BorgManager.ClientCacheScan
