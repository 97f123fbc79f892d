import BorgManager.CleanupSelection
import BorgManager.ManagerCacheProtection

namespace BorgManager.CacheProtection

open ClientCacheScan ClientCacheCleanup ClientCacheProtection CleanupSelection
open ManagerCacheCleanup ManagerCacheProtection
open Records (Repository)

variable {rt : Runtime} {db : Database} {devices : Devices}

/-- An inventory neither offers nor preselects the security state of an active
cache, and preselects no cache of an assigned repository. -/
def InventoryProtects (rt : Runtime) (assigned : List Nat) (assignedLocations knownLocations : List String)
    (output : String) : Prop :=
  WellFormed output → ∀ entries, parseScanOutput rt assigned assignedLocations knownLocations output = .ok entries →
    ∀ entry ∈ entries,
      (entry.entryType = .security → Recorded rt assigned output entry.name →
        entry.selectable = false ∧ entry.defaultSelected = false) ∧
      (entry.entryType = .cache → ∀ id ∈ assigned, entry.name = cacheName id → entry.defaultSelected = false)

/-- What a deletion may name, by the kind of the cleanup. -/
def DeletionProtects (rt : Runtime) (db : Database) (devices : Devices) (kind : String) (command : Command) : Prop :=
  let assigned := assignedRepositoryIds db command.hostId
  (kind = "security" ∨ kind = "security_orphan" → ∀ output, devices.scan command.hostId = .ok output →
    ∀ id ∈ command.names, ¬ Recorded rt assigned output id) ∧
  (kind = "orphan" ∨ kind = "rollback" → ∀ id ∈ assigned, cacheName id ∉ command.names) ∧
  (kind = "reset" → ∀ name ∈ command.names, ∃ id ∈ assigned, name = cacheName id)

/-- Whatever a client selects, the deletions that are sent protect active caches. -/
def CleanupProtects (rt : Runtime) (db : Database) (devices : Devices) : Prop :=
  (∀ hostId output, devices.scan hostId = .ok output → WellFormed output) →
    ∀ backupTaskActive kind requested,
      ∀ command ∈ (cleanupClientBorgCaches rt db devices backupTaskActive kind requested).sent,
        DeletionProtects rt db devices kind command

/-- Caches and security states of active repositories are never deletable, on
the devices and on the manager. -/
structure CachesProtected (rt : Runtime) (db : Database) (devices : Devices)
    (managedRepositoryId : Repository → Option String) (disk : Disk) : Prop where
  inventory : ∀ assigned assignedLocations knownLocations output,
    InventoryProtects rt assigned assignedLocations knownLocations output
  cleanup : CleanupProtects rt db devices
  manager : ManagerProtects rt managedRepositoryId db.repositories disk

theorem inventory_protects (assigned : List Nat) (assignedLocations knownLocations : List String) (output : String) :
    InventoryProtects rt assigned assignedLocations knownLocations output :=
  fun hwf _ hparse _ hentry =>
    ⟨recorded_not_offered hwf hparse hentry, fun htype _ => assigned_not_preselected hwf hparse hentry htype⟩

theorem cleanup_protects : CleanupProtects rt db devices := by
  intro hwf backupTaskActive text requested command hsent
  rw [cleanupClientBorgCaches] at hsent
  split at hsent
  · exact absurd hsent List.not_mem_nil
  · next kind groups hrequest =>
      obtain ⟨hkind, hvalid⟩ := readRequest_ok hrequest
      obtain ⟨group, hgroup, hhost⟩ := cleanHosts_sent hsent
      have hread (expected : CleanupKind) {name : String} (htext : text = name)
        (hname : CleanupKind.ofText name = some expected) :
          kind = expected := Option.some.inj (hkind.symm.trans (htext ▸ hname))
      refine ⟨fun htext output hscan => ?_, fun htext => ?_, fun htext => ?_⟩
      · exact security_sent (htext.imp (hread _ · rfl) (hread _ · rfl)) (hvalid group hgroup) hhost hscan
          (hwf _ output hscan)
      · exact named_sent (htext.imp (hread _ · rfl) (hread _ · rfl)) (hvalid group hgroup) hhost
      · rw [hread .reset htext rfl] at hhost
        exact reset_sent hhost (hwf command.hostId)

/-- Active caches and security states are protected exactly when the manager can
read each Borg id that a cache of an existing repository records and that no
known location protects. -/
theorem caches_protected_iff (rt : Runtime) (db : Database) (devices : Devices)
    (managedRepositoryId : Repository → Option String) (disk : Disk) :
    CachesProtected rt db devices managedRepositoryId disk ↔
      (Convertible rt disk → ∀ id, RecordedByCache db.repositories disk id → NeedsId rt db.repositories disk id →
        Readable managedRepositoryId db.repositories disk id) :=
  ⟨fun h => manager_protects_iff.mp h.manager,
    fun h => ⟨inventory_protects, cleanup_protects, manager_protects_iff.mpr h⟩⟩

def plainRuntime : Runtime where
  lower := ClientCacheManifest.lower
  decodeBase64 := fun _ => none
  fromIsoFormat := fun _ => .invalid
  lower_borgId := fun _ => ManifestAgreement.lower_borgId

def movedRepository : Repository where
  id := 1
  name := "main"
  enabled := true
  location := "ssh://borg@storage/./main"
  storagePath := none
  initialized := true
  externalStoragePath := none

def borgId : String := String.ofList (List.replicate 64 'a')

/-- The cache of the repository cannot be listed, and the security state still
shows the location before a move. -/
def unlistedDisk : Disk where
  cacheRoot := "/data/borg-cache"
  securityRoot := "/data/borg-security"
  cacheUnreadable := false
  securityUnreadable := false
  cacheEntries := [⟨"repository-1", .directory, true, [⟨borgId, .directory, false⟩]⟩]
  securityEntries := [⟨borgId, .directory, .text "ssh://borg@storage/./old", .absent⟩]
  cacheNames := List.nodup_singleton _
  securityNames := List.nodup_singleton _

theorem borgId_valid : ClientCacheManifest.isBorgId borgId = true := by decide

theorem unlisted_unread : ¬ Readable (fun _ => none) [movedRepository] unlistedDisk borgId := by
  rintro ⟨repository, hrepository, ⟨hpath, -⟩ | ⟨entry, hentry, -, -, hreadable, -⟩⟩
  · rw [List.mem_singleton.mp hrepository] at hpath
    cases hpath
  · rw [List.mem_singleton.mp hentry] at hreadable
    cases hreadable

theorem unlisted_location :
    ¬ KnownLocation [movedRepository] (normalizeLocation (readSmallText (.text "ssh://borg@storage/./old"))) := by
  rintro ⟨-, repository, hrepository, h⟩
  rw [List.mem_singleton.mp hrepository] at h
  exact absurd h (by decide)

theorem caches_exposed : ¬ ∀ (rt : Runtime) (db : Database) (devices : Devices)
    (managedRepositoryId : Repository → Option String) (disk : Disk),
    CachesProtected rt db devices managedRepositoryId disk := by
  intro h
  have hprotected :=
    (h plainRuntime ⟨[], [], [movedRepository], []⟩ ⟨fun _ => .error (.osError ""), fun _ => .error (.osError "")⟩
    (fun _ => none) unlistedDisk).manager
  have hconvertible : Convertible plainRuntime unlistedDisk := by
    intro _ entry hentry _ failure hfailure
    rw [List.mem_singleton.mp hentry] at hfailure
    cases hfailure
  refine unlisted_unread (manager_protects_iff.mp hprotected hconvertible borgId ?_ ?_)
  · exact ⟨movedRepository, List.mem_singleton_self _, _, List.mem_singleton_self _, rfl, rfl, _,
      List.mem_singleton_self _,
      rfl, rfl, borgId_valid⟩
  · exact .inr ⟨rfl, _, List.mem_singleton_self _, rfl, rfl, .inl unlisted_location⟩

end BorgManager.CacheProtection
