import BorgManager.ClientCacheScan
import BorgManager.Records

namespace BorgManager.ManagerCacheCleanup

open PythonText Numerals Supersession
open ClientCacheManifest (isBorgId)
open ClientCacheScan (Failure Instant Runtime normalizeLocation parseManifestTimestamp)
open Records (Repository)

inductive FileKind
  | directory | symlink | other
  deriving DecidableEq

/-- An entry of the cache of one repository. `unreadable` is an entry that cannot
be examined. -/
structure Child where
  name : String
  kind : FileKind
  unreadable : Bool

/-- An entry of the cache root. The listing of `unreadable` raises an `OSError`. -/
structure CacheEntry where
  name : String
  kind : FileKind
  unreadable : Bool
  children : List Child

/-- A small file inside a security directory. Only a regular file is read. -/
inductive SmallFile
  | absent
  | unreadable
  | text (content : String)

structure SecurityEntry where
  name : String
  kind : FileKind
  location : SmallFile
  manifestTimestamp : SmallFile

/-- The two directories of the manager. The names in a directory are distinct. -/
structure Disk where
  cacheRoot : String
  securityRoot : String
  cacheUnreadable : Bool
  securityUnreadable : Bool
  cacheEntries : List CacheEntry
  securityEntries : List SecurityEntry
  cacheNames : (cacheEntries.map CacheEntry.name).Nodup
  securityNames : (securityEntries.map SecurityEntry.name).Nodup

/-- `^repository-([1-9][0-9]*)$` -/
def scopedCacheId (name : String) : Option Nat := numbered "repository-" name

def scopedCacheName (repositoryId : Nat) : String := "repository-" ++ toString repositoryId

/-- `_normalized_locations`. -/
def normalizedLocations (repository : Repository) : List String :=
  [normalizeLocation repository.location, normalizeLocation (repository.storagePath.getD "")].filter
    (fun text => text != "")

/-- `_read_small_text`. -/
def readSmallText : SmallFile → String
  | .absent | .unreadable => ""
  | .text content => strip content

def SecurityEntry.locationText (entry : SecurityEntry) : String := normalizeLocation (readSmallText entry.location)

/-- `_security_location` of a name in the security root. -/
def securityLocation (disk : Disk) (name : String) : String :=
  match disk.securityEntries.find? (fun entry => entry.name == name) with
  | some entry => entry.locationText
  | none => ""

/-- The ids that a listing yields before an entry that cannot be examined. -/
def listedIds : List Child → List String
  | [] => []
  | child :: children =>
      if child.unreadable then []
      else if child.kind = .directory ∧ isBorgId child.name = true then child.name :: listedIds children
      else listedIds children

/-- The ids that are read from the cache of a repository. -/
def scopedIds (disk : Disk) (repositoryId : Nat) : List String :=
  match disk.cacheEntries.find? (fun entry => entry.name == scopedCacheName repositoryId) with
  | some entry =>
      if entry.kind = .directory then
        if entry.unreadable then [] else listedIds entry.children
      else []
  | none => []

structure Context where
  managerIds : List Nat
  locations : List String
  borgIds : List String

/-- `managed_repository_id`, where it is called and does not raise. -/
def managedIds (managedRepositoryId : Repository → Option String) (repository : Repository) : List String :=
  if (truthy repository.storagePath).isSome then (managedRepositoryId repository).toList else []

inductive ItemKind
  | managerCacheOrphan | legacyCacheOrphan
  | securityUnknown | securityActive | securityOrphan | securityDuplicateOld
  deriving DecidableEq

inductive ItemType
  | managerCache | managerSecurity
  deriving DecidableEq

structure Item where
  kind : ItemKind
  entryType : ItemType
  name : String
  path : String
  location : String := ""
  manifestTimestamp : String := ""
  stamp : Option Int := none
  selectable : Bool
  defaultSelected : Bool
  deriving DecidableEq

def entryPath (root name : String) : String := root ++ "/" ++ name

variable (rt : Runtime) (managedRepositoryId : Repository → Option String)
variable (repositories : List Repository) (disk : Disk)

/-- `_active_context`. -/
def activeContext : Context where
  managerIds := repositories.map Repository.id
  locations := repositories.flatMap normalizedLocations
  borgIds := repositories.flatMap (fun repository =>
    managedIds managedRepositoryId repository ++ scopedIds disk repository.id)

def orphanItem (kind : ItemKind) (name : String) : Item where
  kind := kind
  entryType := .managerCache
  name := name
  path := entryPath disk.cacheRoot name
  selectable := true
  defaultSelected := true

/-- The item of one entry of the cache root, if it is offered. -/
def cacheItem (context : Context) (entry : CacheEntry) : Option Item :=
  if entry.kind ≠ .directory then none
  else
    match scopedCacheId entry.name with
    | some id => if id ∈ context.managerIds then none else some (orphanItem disk .managerCacheOrphan entry.name)
    | none =>
        if isBorgId entry.name = true ∧ entry.name ∉ context.borgIds then
          let location := securityLocation disk entry.name
          if location ≠ "" ∧ location ∈ context.locations then none
          else some (orphanItem disk .legacyCacheOrphan entry.name)
        else none

def unknownItem (entry : SecurityEntry) : Item where
  kind := .securityUnknown
  entryType := .managerSecurity
  name := entry.name
  path := entryPath disk.securityRoot entry.name
  selectable := false
  defaultSelected := false

/-- The item of a regular security directory with its timestamp in UTC. -/
def regularItem (context : Context) (entry : SecurityEntry) (stamp : Option Int) : Item :=
  let location := entry.locationText
  let active := decide (entry.name ∈ context.borgIds ∨ (location ≠ "" ∧ location ∈ context.locations))
  { kind := if active then .securityActive else .securityOrphan
    entryType := .managerSecurity
    name := entry.name
    path := entryPath disk.securityRoot entry.name
    location := location
    manifestTimestamp := readSmallText entry.manifestTimestamp
    stamp := stamp
    selectable := !active
    defaultSelected := !active }

def securityItem (context : Context) (entry : SecurityEntry) : Except Failure Item :=
  if entry.kind ≠ .directory ∨ isBorgId entry.name = false then .ok (unknownItem disk entry)
  else do
    let stamp ← parseManifestTimestamp rt (some (readSmallText entry.manifestTimestamp))
    return regularItem disk context entry stamp

def sharedLocation (item : Item) : Option String := truthy (some item.location)

/-- An item whose location has a newer security state. -/
def superseded (context : Context) (item : Item) : Item :=
  if item.kind = .securityActive ∧ item.name ∈ context.borgIds then
    { item with selectable := false, defaultSelected := false }
  else { item with kind := .securityDuplicateOld, selectable := true, defaultSelected := true }

def markDuplicates (context : Context) (items : List Item) : List Item :=
  items.map (fun item => if outdated sharedLocation Item.stamp items item then superseded context item else item)

/-- The items of `manager_borg_cache_status`. -/
def managerBorgCacheStatus : Except Failure (List Item) := do
  let context := activeContext managedRepositoryId repositories disk
  let cacheEntries := if disk.cacheUnreadable then [] else disk.cacheEntries
  let securityEntries := if disk.securityUnreadable then [] else disk.securityEntries
  let securityItems ← securityEntries.mapM (securityItem rt disk context)
  return cacheEntries.filterMap (cacheItem disk context) ++ markDuplicates context securityItems

/-- What a cleanup did. `removed` are the entries that were handed to `rmtree`. -/
structure Cleanup where
  removed : List Item
  skipped : List (String × String)
  raised : Option Failure

/-- `candidates.get(raw_path)`: of several items with one path the last one stays. -/
def candidate (items : List Item) (path : String) : Option Item :=
  (items.filter Item.selectable).reverse.find? (fun item => item.path == path)

def removeSelected (rmtree : String → Option Failure) (items : List Item) (gone : List String) : List String → Cleanup
  | [] => ⟨[], [], none⟩
  | path :: paths =>
      match candidate items path with
      | none =>
          let rest := removeSelected rmtree items gone paths
          { rest with skipped := (path, "Eintrag ist nicht mehr zur Bereinigung freigegeben.") :: rest.skipped }
      | some item =>
          if path ∈ gone then
            let rest := removeSelected rmtree items gone paths
            { rest with skipped := (path, "Eintrag existiert nicht mehr.") :: rest.skipped }
          else
            match rmtree path with
            | some failure => ⟨[item], [], some failure⟩
            | none =>
                let rest := removeSelected rmtree items (path :: gone) paths
                { rest with removed := item :: rest.removed }

/-- `requested_paths or list(candidates)` -/
def selectedPaths (items : List Item) : Option (List String) → List String
  | some (path :: paths) => path :: paths
  | _ => ((items.filter Item.selectable).map Item.path).eraseDups

/-- `cleanup_orphaned_manager_borg_data`. -/
def cleanupOrphanedManagerBorgData (rmtree : String → Option Failure) (requestedPaths : Option (List String)) :
    Cleanup :=
  match managerBorgCacheStatus rt managedRepositoryId repositories disk with
  | .error failure => ⟨[], [], some failure⟩
  | .ok items => removeSelected rmtree items [] (selectedPaths items requestedPaths)

end BorgManager.ManagerCacheCleanup
