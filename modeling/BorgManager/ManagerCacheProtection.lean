import BorgManager.ManagerCacheCleanup
import BorgManager.ManifestAgreement
import Mathlib.Data.List.Nodup

namespace BorgManager.ManagerCacheProtection

open Exceptions PythonText Numerals Supersession ManagerCacheCleanup
open ClientCacheManifest (isBorgId)
open ManifestAgreement (isBorgId_spec)
open ClientCacheScan (Failure Runtime normalizeLocation parseManifestTimestamp)
open Records (Repository)

/-- The cache of an existing repository contains a directory for the Borg id. -/
def RecordedByCache (repositories : List Repository) (disk : Disk) (id : String) : Prop :=
  ∃ repository ∈ repositories, ∃ entry ∈ disk.cacheEntries,
    entry.name = scopedCacheName repository.id ∧ entry.kind = .directory ∧
      ∃ child ∈ entry.children, child.name = id ∧ child.kind = .directory ∧ isBorgId id = true

/-- A directory that a listing reaches: nothing up to it is unreadable. -/
def Reached (children : List Child) (id : String) : Prop :=
  ∃ before child after, children = before ++ child :: after ∧ child.name = id ∧ child.kind = .directory ∧
    ∀ other ∈ before ++ [child], other.unreadable = false

/-- A Borg id that the manager can read, from a managed repository or from the
cache of a repository. -/
def Readable (managedRepositoryId : Repository → Option String) (repositories : List Repository) (disk : Disk)
    (id : String) : Prop :=
  ∃ repository ∈ repositories,
    ((truthy repository.storagePath).isSome = true ∧ managedRepositoryId repository = some id) ∨
      ∃ entry ∈ disk.cacheEntries, entry.name = scopedCacheName repository.id ∧ entry.kind = .directory ∧
        entry.unreadable = false ∧ isBorgId id = true ∧ Reached entry.children id

/-- The normalized location of an existing repository. -/
def KnownLocation (repositories : List Repository) (location : String) : Prop :=
  location ≠ "" ∧ ∃ repository ∈ repositories,
    location = normalizeLocation repository.location ∨ location = normalizeLocation (repository.storagePath.getD "")

/-- An entry that the inspection takes for a security state. -/
def regular (entry : SecurityEntry) : Bool := decide (entry.kind = .directory) && isBorgId entry.name

def readStamp (rt : Runtime) (entry : SecurityEntry) : Except Failure (Option Int) :=
  parseManifestTimestamp rt (some (readSmallText entry.manifestTimestamp))

/-- No security state that is listed has a timestamp outside the range of UTC. -/
def Convertible (rt : Runtime) (disk : Disk) : Prop :=
  disk.securityUnreadable = false →
    ∀ entry ∈ disk.securityEntries, regular entry = true → ∀ failure, readStamp rt entry ≠ .error failure

def competing (entry : SecurityEntry) : Option String :=
  if regular entry then truthy (some entry.locationText) else none

def recordedStamp (rt : Runtime) (entry : SecurityEntry) : Option Int :=
  if regular entry then (readStamp rt entry).toOption.join else none

/-- Only its id protects the cache or the security state: the location that is
recorded for it is unknown, or another state alone is newest for the location. -/
def NeedsId (rt : Runtime) (repositories : List Repository) (disk : Disk) (id : String) : Prop :=
  (disk.cacheUnreadable = false ∧ (∃ entry ∈ disk.cacheEntries, entry.name = id ∧ entry.kind = .directory) ∧
      ¬ KnownLocation repositories (securityLocation disk id)) ∨
    (disk.securityUnreadable = false ∧ ∃ entry ∈ disk.securityEntries, entry.name = id ∧ entry.kind = .directory ∧
      (¬ KnownLocation repositories entry.locationText ∨
        outdated competing (recordedStamp rt) disk.securityEntries entry = true))

theorem mem_listedIds {children : List Child} {id : String} :
    id ∈ listedIds children ↔ isBorgId id = true ∧ Reached children id := by
  induction children with
  | nil =>
      refine ⟨fun h => absurd h List.not_mem_nil, ?_⟩
      rintro ⟨-, before, child, after, h, -⟩
      exact absurd h (by simp)
  | cons child children ih =>
      have hreached : child.unreadable = false → (Reached (child :: children) id ↔
          (child.name = id ∧ child.kind = .directory) ∨ Reached children id) := by
        intro hreadable
        constructor
        · rintro ⟨before, found, after, heq, hname, hkind, hall⟩
          cases before with
          | nil =>
              cases heq
              exact .inl ⟨hname, hkind⟩
          | cons first before =>
              obtain ⟨-, htail⟩ := List.cons.inj heq
              exact .inr ⟨before, found, after, htail, hname, hkind, fun o ho => hall o (List.mem_cons_of_mem _ ho)⟩
        · rintro (⟨hname, hkind⟩ | ⟨before, found, after, heq, hname, hkind, hall⟩)
          · exact ⟨[], child, children, rfl, hname, hkind,
              fun o ho => by rw [List.mem_singleton.mp ho]; exact hreadable⟩
          · refine ⟨child :: before, found, after, by rw [heq]; rfl, hname, hkind, fun o ho => ?_⟩
            rcases List.mem_cons.mp ho with heq | ho
            · rw [heq]
              exact hreadable
            · exact hall o ho
      rw [listedIds]
      split
      · next hunreadable =>
          refine ⟨fun h => absurd h List.not_mem_nil, ?_⟩
          rintro ⟨-, before, found, after, heq, -, -, hall⟩
          have hfirst : child ∈ before ++ [found] := by
            cases before with
            | nil => cases heq; exact List.mem_singleton_self _
            | cons first before => rw [(List.cons.inj heq).1]; exact List.mem_cons_self ..
          rw [hall child hfirst] at hunreadable
          cases hunreadable
      · next hreadable =>
          rw [hreached (Bool.eq_false_iff.mpr hreadable)]
          split
          · next hborg =>
              rw [List.mem_cons, ih]
              constructor
              · rintro (heq | ⟨hid, hrest⟩)
                · exact ⟨heq ▸ hborg.2, .inl ⟨heq.symm, hborg.1⟩⟩
                · exact ⟨hid, .inr hrest⟩
              · rintro ⟨hid, ⟨hname, -⟩ | hrest⟩
                · exact .inl hname.symm
                · exact .inr ⟨hid, hrest⟩
          · next hother =>
              rw [ih]
              refine and_congr_right (fun hid => ⟨.inr, ?_⟩)
              rintro (⟨hname, hkind⟩ | hrest)
              · exact absurd ⟨hkind, hname ▸ hid⟩ hother
              · exact hrest

/-- Distinct names make a lookup by name a search for the entry. -/
theorem find?_name {α : Type} {name : α → String} {entries : List α} (h : (entries.map name).Nodup) {entry : α}
    (hentry : entry ∈ entries) : entries.find? (fun other => name other == name entry) = some entry := by
  rcases hfind : entries.find? (fun other => name other == name entry) with _ | found
  · have hnone := List.find?_eq_none.mp hfind entry hentry
    simp at hnone
  · have hname : name found = name entry := by simpa using List.find?_some hfind
    rw [List.inj_on_of_nodup_map h (List.mem_of_find?_eq_some hfind) hentry hname]

variable {rt : Runtime} {managedRepositoryId : Repository → Option String}
variable {repositories : List Repository} {disk : Disk}

theorem mem_scopedIds {repositoryId : Nat} {id : String} :
    id ∈ scopedIds disk repositoryId ↔
      ∃ entry ∈ disk.cacheEntries, entry.name = scopedCacheName repositoryId ∧ entry.kind = .directory ∧
        entry.unreadable = false ∧ isBorgId id = true ∧ Reached entry.children id := by
  rw [scopedIds]
  constructor
  · intro h
    split at h
    · next entry hentry =>
        have hname : entry.name = scopedCacheName repositoryId := by simpa using List.find?_some hentry
        split_ifs at h with hkind hreadable
        · exact absurd h List.not_mem_nil
        · exact ⟨entry, List.mem_of_find?_eq_some hentry, hname, hkind, Bool.eq_false_iff.mpr hreadable,
            mem_listedIds.mp h⟩
        · exact absurd h List.not_mem_nil
    · exact absurd h List.not_mem_nil
  · rintro ⟨entry, hentry, hname, hkind, hreadable, hid⟩
    have hfind := find?_name disk.cacheNames hentry
    rw [hname] at hfind
    simp only [hfind, hkind, if_true, hreadable, Bool.false_eq_true, if_false]
    exact mem_listedIds.mpr hid

theorem mem_borgIds {id : String} :
    id ∈ (activeContext managedRepositoryId repositories disk).borgIds ↔
      Readable managedRepositoryId repositories disk id := by
  simp only [activeContext, List.mem_flatMap, List.mem_append, mem_scopedIds, Readable]
  refine exists_congr (fun repository => and_congr_right (fun _ => or_congr_left ?_))
  rw [managedIds]
  split
  · next hpath => simp only [Option.mem_toList, hpath, true_and]
  · next hpath => exact ⟨fun h => absurd h List.not_mem_nil, fun h => absurd h.1 hpath⟩

theorem mem_locations {location : String} :
    (location ≠ "" ∧ location ∈ (activeContext managedRepositoryId repositories disk).locations) ↔
      KnownLocation repositories location := by
  refine and_congr_right (fun hne => ?_)
  simp only [activeContext, List.mem_flatMap, normalizedLocations, List.mem_filter, List.mem_cons, List.not_mem_nil,
    or_false, bne_iff_ne, ne_eq, hne, not_false_eq_true, and_true]

theorem borgId_ne_scopedName {id : String} (h : isBorgId id = true) (n : Nat) : id ≠ scopedCacheName n := by
  intro heq
  have hmem : 'r' ∈ id.toList := by
    rw [heq, scopedCacheName, String.toList_append]
    exact List.mem_append_left _ (by decide)
  exact absurd ((isBorgId_spec h).2 'r' hmem) (by decide)

theorem borgId_not_scoped {id : String} (h : isBorgId id = true) : scopedCacheId id = none := by
  by_contra hscoped
  obtain ⟨n, hn⟩ := Option.ne_none_iff_exists'.mp hscoped
  exact borgId_ne_scopedName h n (numbered_eq_some.mp hn).2

/-- The two ways in which a directory of the cache root is offered. -/
theorem cacheItem_cases {context : Context} {entry : CacheEntry} {item : Item}
    (h : cacheItem disk context entry = some item) :
    entry.kind = .directory ∧ (∃ kind, item = orphanItem disk kind entry.name) ∧
      ((∃ n, n ∉ context.managerIds ∧ entry.name = scopedCacheName n) ∨
        (isBorgId entry.name = true ∧ entry.name ∉ context.borgIds ∧
          ¬ (securityLocation disk entry.name ≠ "" ∧ securityLocation disk entry.name ∈ context.locations))) := by
  rw [cacheItem] at h
  split at h
  · cases h
  · next hkind =>
      refine ⟨not_not.mp hkind, ?_⟩
      split at h
      · next n hn =>
          split at h
          · cases h
          · next hnew => exact ⟨⟨_, (Option.some.inj h).symm⟩, .inl ⟨n, hnew, (numbered_eq_some.mp hn).2⟩⟩
      · split at h
        · next hborg =>
            obtain ⟨-, h⟩ | ⟨hlocation, h⟩ := ite_eq_iff.mp h
            · cases h
            · exact ⟨⟨_, (Option.some.inj h).symm⟩, .inr ⟨hborg.1, hborg.2, hlocation⟩⟩
        · cases h

theorem cacheItem_offer {context : Context} {entries : List CacheEntry} {id : String} (hid : isBorgId id = true) :
    (∃ item ∈ entries.filterMap (cacheItem disk context), item.selectable = true ∧ item.name = id) ↔
      (∃ entry ∈ entries, entry.name = id ∧ entry.kind = .directory) ∧ id ∉ context.borgIds ∧
        ¬ (securityLocation disk id ≠ "" ∧ securityLocation disk id ∈ context.locations) := by
  constructor
  · rintro ⟨item, hitem, -, hname⟩
    obtain ⟨entry, hentry, hoffer⟩ := List.mem_filterMap.mp hitem
    obtain ⟨hkind, ⟨kind, heq⟩, hcases⟩ := cacheItem_cases hoffer
    have hsame : entry.name = id := by rw [← hname, heq]; rfl
    rw [hsame] at hcases
    rcases hcases with ⟨n, -, hscoped⟩ | ⟨-, hunread, hlocation⟩
    · exact absurd hscoped (borgId_ne_scopedName hid n)
    · exact ⟨⟨entry, hentry, hsame, hkind⟩, hunread, hlocation⟩
  · rintro ⟨⟨entry, hentry, hname, hkind⟩, hunread, hlocation⟩
    refine ⟨orphanItem disk .legacyCacheOrphan entry.name, List.mem_filterMap.mpr ⟨entry, hentry, ?_⟩, rfl, hname⟩
    rw [cacheItem, hname, borgId_not_scoped hid]
    simp only [hkind, ne_eq, not_true_eq_false, if_false, hid, hunread, not_false_eq_true, and_self, if_true]
    rw [if_neg hlocation]

/-- The item of an entry whose timestamp can be read. -/
def itemOf (rt : Runtime) (disk : Disk) (context : Context) (entry : SecurityEntry) : Item :=
  if regular entry then regularItem disk context entry (recordedStamp rt entry) else unknownItem disk entry

theorem regular_iff {entry : SecurityEntry} :
    regular entry = true ↔ ¬ (entry.kind ≠ .directory ∨ isBorgId entry.name = false) := by
  simp [regular]

theorem securityItem_ok {context : Context} {entry : SecurityEntry}
    (h : regular entry = true → ∀ failure, readStamp rt entry ≠ .error failure) :
    securityItem rt disk context entry = .ok (itemOf rt disk context entry) := by
  rw [securityItem, itemOf]
  by_cases hregular : regular entry = true
  · rw [if_neg (regular_iff.mp hregular), if_pos hregular, recordedStamp, if_pos hregular]
    change (do let stamp ← readStamp rt entry; return regularItem disk context entry stamp) = _
    cases hstamp : readStamp rt entry with
    | error failure => exact absurd hstamp (h hregular failure)
    | ok stamp => rfl
  · rw [if_neg hregular, if_pos (not_not.mp (mt regular_iff.mpr hregular))]

theorem securityItem_error {context : Context} {entry : SecurityEntry} {failure : Failure}
    (hregular : regular entry = true) (h : readStamp rt entry = .error failure) :
    securityItem rt disk context entry = .error failure := by
  rw [securityItem, if_neg (regular_iff.mp hregular)]
  change (do let stamp ← readStamp rt entry; return regularItem disk context entry stamp) = _
  rw [h]
  rfl

theorem itemOf_name (context : Context) (entry : SecurityEntry) : (itemOf rt disk context entry).name = entry.name := by
  rw [itemOf]
  split <;> rfl

theorem sharedLocation_itemOf (context : Context) (entry : SecurityEntry) :
    sharedLocation (itemOf rt disk context entry) = competing entry := by
  rw [itemOf, competing]
  split
  · simp only [sharedLocation, regularItem]
  · simp only [sharedLocation, unknownItem, truthy]

theorem stamp_itemOf (context : Context) (entry : SecurityEntry) :
    (itemOf rt disk context entry).stamp = recordedStamp rt entry := by
  rw [itemOf]
  split
  · rfl
  · next hregular => rw [recordedStamp, if_neg hregular]; rfl

theorem outdated_itemOf (context : Context) (entries : List SecurityEntry) (entry : SecurityEntry) :
    outdated sharedLocation Item.stamp (entries.map (itemOf rt disk context)) (itemOf rt disk context entry) =
      outdated competing (recordedStamp rt) entries entry := by
  rw [outdated_map]
  simp only [sharedLocation_itemOf, stamp_itemOf]

/-- The item of an entry after the duplicate pass. -/
def markedItem (rt : Runtime) (disk : Disk) (context : Context) (entries : List SecurityEntry)
    (entry : SecurityEntry) : Item :=
  if outdated competing (recordedStamp rt) entries entry then superseded context (itemOf rt disk context entry)
  else itemOf rt disk context entry

theorem markDuplicates_itemOf (context : Context) (entries : List SecurityEntry) :
    markDuplicates context (entries.map (itemOf rt disk context)) = entries.map
      (markedItem rt disk context entries) := by
  rw [markDuplicates, List.map_map]
  refine List.map_congr_left (fun entry _ => ?_)
  rw [Function.comp_apply, outdated_itemOf, markedItem]

theorem superseded_name (context : Context) (item : Item) : (superseded context item).name = item.name := by
  rw [superseded]
  split <;> rfl

theorem markedItem_name (context : Context) (entries : List SecurityEntry) (entry : SecurityEntry) :
    (markedItem rt disk context entries entry).name = entry.name := by
  rw [markedItem]
  split
  · rw [superseded_name, itemOf_name]
  · exact itemOf_name context entry

theorem markedItem_irregular {context : Context} {entries : List SecurityEntry} {entry : SecurityEntry}
    (h : regular entry = false) : (markedItem rt disk context entries entry).selectable = false := by
  have hregular : ¬ regular entry = true := Bool.eq_false_iff.mp h
  have hkey : competing entry = none := if_neg hregular
  rw [markedItem, outdated_keyless competing (recordedStamp rt) hkey, itemOf, if_neg hregular]
  rfl

/-- A security state is offered unless its id is read, or its location is known
and no other state is newest for it. -/
theorem markedItem_selectable {context : Context} {entries : List SecurityEntry} {entry : SecurityEntry}
    (h : regular entry = true) :
    (markedItem rt disk context entries entry).selectable = true ↔
      entry.name ∉ context.borgIds ∧
        (¬ (entry.locationText ≠ "" ∧ entry.locationText ∈ context.locations) ∨
          outdated competing (recordedStamp rt) entries entry = true) := by
  have hitem : itemOf rt disk context entry = regularItem disk context entry (recordedStamp rt entry) := if_pos h
  rw [markedItem, hitem]
  by_cases hread : entry.name ∈ context.borgIds
  · simp only [superseded, regularItem, hread, true_or, decide_true, if_true, and_self, Bool.not_true,
      not_true_eq_false,
      false_and, iff_false]
    split <;> simp
  · by_cases hknown : entry.locationText ≠ "" ∧ entry.locationText ∈ context.locations
    · split
      · next hnewer => simp [superseded, regularItem, hread, hnewer]
      · next hnewer => simp [regularItem, hread, hknown, hnewer]
    · split
      · next hnewer => simp [superseded, regularItem, hread, hnewer]
      · next hnewer => simp [regularItem, hread, hknown]

def listedCaches (disk : Disk) : List CacheEntry := if disk.cacheUnreadable then [] else disk.cacheEntries

def listedSecurity (disk : Disk) : List SecurityEntry := if disk.securityUnreadable then [] else disk.securityEntries

/-- The items of an inspection that reads every timestamp. -/
def inspectedItems (rt : Runtime) (managedRepositoryId : Repository → Option String) (repositories : List Repository)
    (disk : Disk) : List Item :=
  let context := activeContext managedRepositoryId repositories disk
  (listedCaches disk).filterMap (cacheItem disk context) ++
    (listedSecurity disk).map (markedItem rt disk context (listedSecurity disk))

theorem mem_listedSecurity {entry : SecurityEntry} :
    entry ∈ listedSecurity disk ↔ disk.securityUnreadable = false ∧ entry ∈ disk.securityEntries := by
  rw [listedSecurity]
  cases disk.securityUnreadable <;> simp

theorem mem_listedCaches {entry : CacheEntry} :
    entry ∈ listedCaches disk ↔ disk.cacheUnreadable = false ∧ entry ∈ disk.cacheEntries := by
  rw [listedCaches]
  cases disk.cacheUnreadable <;> simp

theorem listedSecurity_eq (h : disk.securityUnreadable = false) : listedSecurity disk = disk.securityEntries :=
  if_neg (Bool.eq_false_iff.mp h)

theorem status_ok (h : Convertible rt disk) :
    managerBorgCacheStatus rt managedRepositoryId repositories disk =
      .ok (inspectedItems rt managedRepositoryId repositories disk) := by
  have hitems : (listedSecurity disk).mapM
      (securityItem rt disk (activeContext managedRepositoryId repositories disk)) =
        .ok ((listedSecurity disk).map (itemOf rt disk (activeContext managedRepositoryId repositories disk))) := by
    refine mapM_of_ok (fun entry hentry => securityItem_ok (fun hregular => ?_))
    obtain ⟨hlisted, hmem⟩ := mem_listedSecurity.mp hentry
    exact h hlisted entry hmem hregular
  rw [managerBorgCacheStatus]
  change ((listedSecurity disk).mapM _ >>= _) = _
  rw [hitems, inspectedItems, ← markDuplicates_itemOf]
  rfl

/-- A timestamp that cannot be converted ends the inspection. -/
theorem status_error (h : ¬ Convertible rt disk) :
    ∃ failure, managerBorgCacheStatus rt managedRepositoryId repositories disk = .error failure := by
  obtain ⟨hlisted, entry, hentry, hregular, failure, hfailure⟩ :
      disk.securityUnreadable = false ∧ ∃ entry ∈ disk.securityEntries, regular entry = true ∧
        ∃ failure, readStamp rt entry = .error failure := by
    simpa [Convertible] using h
  rcases hstatus : managerBorgCacheStatus rt managedRepositoryId repositories disk with other | items
  · exact ⟨other, rfl⟩
  · rw [managerBorgCacheStatus] at hstatus
    obtain ⟨securityItems, hitems, -⟩ := bind_ok hstatus
    obtain ⟨item, hitem⟩ := ok_of_mapM_ok (x := entry) hitems (mem_listedSecurity.mpr ⟨hlisted, hentry⟩)
    rw [securityItem_error hregular hfailure] at hitem
    cases hitem

/-- A name that is a Borg id is offered exactly when the id is not read and
nothing else protects it. -/
theorem offered_iff {id : String} (hid : isBorgId id = true) :
    (∃ item ∈ inspectedItems rt managedRepositoryId repositories disk, item.selectable = true ∧ item.name = id) ↔
      ¬ Readable managedRepositoryId repositories disk id ∧ NeedsId rt repositories disk id := by
  have hcaches : (∃ item ∈ (listedCaches disk).filterMap
      (cacheItem disk (activeContext managedRepositoryId repositories disk)), item.selectable = true ∧
        item.name = id) ↔ _ :=
    cacheItem_offer hid
  rw [mem_borgIds, mem_locations] at hcaches
  have hsecurity : (∃ item ∈ (listedSecurity disk).map (markedItem rt disk
        (activeContext managedRepositoryId repositories disk) (listedSecurity disk)), item.selectable = true ∧
          item.name = id) ↔
      ¬ Readable managedRepositoryId repositories disk id ∧ ∃ entry ∈ listedSecurity disk,
        entry.name = id ∧ entry.kind = .directory ∧ (¬ KnownLocation repositories entry.locationText ∨
          outdated competing (recordedStamp rt) (listedSecurity disk) entry = true) := by
    constructor
    · rintro ⟨item, hitem, hselectable, hname⟩
      obtain ⟨entry, hentry, heq⟩ := List.mem_map.mp hitem
      rw [← heq, markedItem_name] at hname
      rw [← heq] at hselectable
      cases hregular : regular entry with
      | false =>
          rw [markedItem_irregular hregular] at hselectable
          cases hselectable
      | true =>
          obtain ⟨hunread, hexposed⟩ := (markedItem_selectable hregular).mp hselectable
          rw [hname, mem_borgIds] at hunread
          rw [mem_locations] at hexposed
          have hkind : entry.kind = .directory := by
            simp only [regular, Bool.and_eq_true, decide_eq_true_eq] at hregular
            exact hregular.1
          exact ⟨hunread, entry, hentry, hname, hkind, hexposed⟩
    · rintro ⟨hunread, entry, hentry, hname, hkind, hexposed⟩
      have hregular : regular entry = true := by rw [regular, hkind, hname, hid]; rfl
      refine ⟨_, List.mem_map_of_mem hentry, (markedItem_selectable hregular).mpr ⟨?_, ?_⟩, ?_⟩
      · rw [hname, mem_borgIds]
        exact hunread
      · rw [mem_locations]
        exact hexposed
      · rw [markedItem_name, hname]
  simp only [inspectedItems, List.mem_append, or_and_right, exists_or, hcaches, hsecurity, NeedsId]
  constructor
  · rintro (⟨⟨entry, hentry, hdirectory⟩, hunread, hlocation⟩ | ⟨hunread, entry, hentry, hname, hkind, hexposed⟩)
    · obtain ⟨hlisted, hmem⟩ := mem_listedCaches.mp hentry
      exact ⟨hunread, .inl ⟨hlisted, ⟨entry, hmem, hdirectory⟩, hlocation⟩⟩
    · obtain ⟨hlisted, hmem⟩ := mem_listedSecurity.mp hentry
      rw [listedSecurity_eq hlisted] at hexposed
      exact ⟨hunread, .inr ⟨hlisted, entry, hmem, hname, hkind, hexposed⟩⟩
  · rintro ⟨hunread, ⟨hlisted, ⟨entry, hmem, hdirectory⟩, hlocation⟩ | ⟨hlisted, entry, hmem, hname, hkind, hexposed⟩⟩
    · exact .inl ⟨⟨entry, mem_listedCaches.mpr ⟨hlisted, hmem⟩, hdirectory⟩, hunread, hlocation⟩
    · refine .inr ⟨hunread, entry, mem_listedSecurity.mpr ⟨hlisted, hmem⟩, hname, hkind, ?_⟩
      rw [listedSecurity_eq hlisted]
      exact hexposed

theorem candidate_spec {items : List Item} {path : String} {item : Item} (h : candidate items path = some item) :
    item ∈ items ∧ item.selectable = true ∧ item.path = path := by
  have hmem := List.mem_filter.mp (List.mem_reverse.mp (List.mem_of_find?_eq_some h))
  exact ⟨hmem.1, hmem.2, by simpa using List.find?_some h⟩

theorem candidate_exists {items : List Item} {item : Item} (h : item ∈ items) (hselectable : item.selectable = true) :
    ∃ found, candidate items item.path = some found := by
  rcases hfound : candidate items item.path with _ | found
  · have hnone := List.find?_eq_none.mp hfound item (List.mem_reverse.mpr (List.mem_filter.mpr ⟨h, hselectable⟩))
    simp at hnone
  · exact ⟨found, rfl⟩

/-- Only items that the inspection offers are removed. -/
theorem removed_offered {rmtree : String → Option Failure} {items : List Item} {gone paths : List String} {item : Item}
    (h : item ∈ (removeSelected rmtree items gone paths).removed) : item ∈ items ∧ item.selectable = true := by
  induction paths generalizing gone with
  | nil => exact absurd h List.not_mem_nil
  | cons path paths ih =>
      rw [removeSelected] at h
      split at h
      · exact ih h
      · next found hfound =>
          obtain ⟨hmem, hselectable, -⟩ := candidate_spec hfound
          split at h
          · exact ih h
          split at h
          · rw [List.mem_singleton.mp h]
            exact ⟨hmem, hselectable⟩
          · rcases List.mem_cons.mp h with heq | hrest
            · rw [heq]
              exact ⟨hmem, hselectable⟩
            · exact ih hrest

theorem removed_single {rmtree : String → Option Failure} {items : List Item} {path : String} {item : Item}
    (h : candidate items path = some item) : item ∈ (removeSelected rmtree items [] [path]).removed := by
  rw [removeSelected]
  simp only [h, List.not_mem_nil, if_false]
  split <;> exact List.mem_cons_self ..

theorem takeWhile_basename {root name : String} (h : '/' ∉ name.toList) :
    (entryPath root name).toList.reverse.takeWhile (· != '/') = name.toList.reverse := by
  have hall : ∀ c ∈ name.toList.reverse, (c != '/') = true := by
    intro c hc
    exact bne_iff_ne.mpr (fun heq => h (heq ▸ List.mem_reverse.mp hc))
  have htext : (entryPath root name).toList.reverse = name.toList.reverse ++ '/' :: root.toList.reverse := by
    simp [entryPath]
  rw [htext, List.takeWhile_append_of_pos hall]
  simp

theorem basename_inj {a b m n : String} (hm : '/' ∉ m.toList) (hn : '/' ∉ n.toList)
    (h : entryPath a m = entryPath b n) :
    m = n := by
  have hreverse := (takeWhile_basename hm).symm.trans (h ▸ takeWhile_basename hn)
  exact String.toList_inj.mp (List.reverse_injective hreverse)

theorem borgId_plain {id : String} (h : isBorgId id = true) : '/' ∉ id.toList :=
  fun hmem => absurd ((isBorgId_spec h).2 '/' hmem) (by decide)

theorem scopedName_plain (n : Nat) : '/' ∉ (scopedCacheName n).toList := by
  intro hmem
  rw [scopedCacheName, String.toList_append] at hmem
  rcases List.mem_append.mp hmem with hstem | hdigit
  · exact absurd hstem (by decide)
  · exact absurd (toString_digits n '/' hdigit) (by decide)

theorem markedItem_path {context : Context} (entries : List SecurityEntry) {entry : SecurityEntry}
    (h : regular entry = true) :
    (markedItem rt disk context entries entry).path = entryPath disk.securityRoot entry.name ∧
      (markedItem rt disk context entries entry).entryType = .managerSecurity := by
  rw [markedItem, itemOf, if_pos h]
  split
  · rw [superseded]
    split <;> exact ⟨rfl, rfl⟩
  · exact ⟨rfl, rfl⟩

/-- What is offered is a cache without a repository or is named by a Borg id. -/
theorem offered_cases {item : Item} (h : item ∈ inspectedItems rt managedRepositoryId repositories disk)
    (hselectable : item.selectable = true) :
    (∃ root, item.path = entryPath root item.name) ∧
      ((∃ n, n ∉ repositories.map Repository.id ∧ item.name = scopedCacheName n) ∨ isBorgId item.name = true) := by
  rcases List.mem_append.mp h with hcache | hsecurity
  · obtain ⟨entry, -, hoffer⟩ := List.mem_filterMap.mp hcache
    obtain ⟨-, ⟨kind, heq⟩, hcases⟩ := cacheItem_cases hoffer
    rw [heq]
    exact ⟨⟨disk.cacheRoot, rfl⟩, hcases.imp_right And.left⟩
  · obtain ⟨entry, -, heq⟩ := List.mem_map.mp hsecurity
    cases hregular : regular entry with
    | false =>
        rw [← heq, markedItem_irregular hregular] at hselectable
        cases hselectable
    | true =>
        rw [← heq, markedItem_name, (markedItem_path _ hregular).1]
        refine ⟨⟨disk.securityRoot, rfl⟩, .inr ?_⟩
        simp only [regular, Bool.and_eq_true] at hregular
        exact hregular.2

theorem offered_plain {item : Item} (h : item ∈ inspectedItems rt managedRepositoryId repositories disk)
    (hselectable : item.selectable = true) : '/' ∉ item.name.toList := by
  rcases (offered_cases h hselectable).2 with ⟨n, -, hname⟩ | hid
  · rw [hname]
    exact scopedName_plain n
  · exact borgId_plain hid

/-- The manager never removes the cache of an existing repository, or anything
named by a Borg id that such a cache records. -/
def ManagerProtects (rt : Runtime) (managedRepositoryId : Repository → Option String) (repositories : List Repository)
    (disk : Disk) : Prop :=
  ∀ rmtree requestedPaths,
    ∀ item ∈ (cleanupOrphanedManagerBorgData rt managedRepositoryId repositories disk rmtree requestedPaths).removed,
      (∀ repository ∈ repositories, item.name ≠ scopedCacheName repository.id) ∧
        ¬ RecordedByCache repositories disk item.name

theorem recorded_borgId {id : String} (h : RecordedByCache repositories disk id) : isBorgId id = true := by
  obtain ⟨-, -, -, -, -, -, child, -, -, -, hid⟩ := h
  exact hid

/-- The manager protects what existing repositories record exactly when it can
read each recorded id that nothing else protects. -/
theorem manager_protects_iff :
    ManagerProtects rt managedRepositoryId repositories disk ↔
      (Convertible rt disk → ∀ id, RecordedByCache repositories disk id → NeedsId rt repositories disk id →
        Readable managedRepositoryId repositories disk id) := by
  constructor
  · intro h hconvertible id hrecorded hneeds
    by_contra hunread
    obtain ⟨item, hitem, hselectable, hname⟩ := (offered_iff (recorded_borgId hrecorded)).mpr ⟨hunread, hneeds⟩
    obtain ⟨found, hfound⟩ := candidate_exists hitem hselectable
    obtain ⟨hmem, hfoundSelectable, hpath⟩ := candidate_spec hfound
    obtain ⟨⟨root, hroot⟩, -⟩ := offered_cases hitem hselectable
    obtain ⟨⟨foundRoot, hfoundRoot⟩, -⟩ := offered_cases hmem hfoundSelectable
    have hsame : found.name = item.name := basename_inj (offered_plain hmem hfoundSelectable)
      (offered_plain hitem hselectable) (hfoundRoot.symm.trans (hpath.trans hroot))
    have hremoved := h (fun _ => none) (some [item.path]) found (by
      rw [cleanupOrphanedManagerBorgData, status_ok hconvertible]
      exact removed_single hfound)
    rw [hsame, hname] at hremoved
    exact hremoved.2 hrecorded
  · intro h rmtree requestedPaths item hremoved
    rw [cleanupOrphanedManagerBorgData] at hremoved
    by_cases hconvertible : Convertible rt disk
    · rw [status_ok hconvertible] at hremoved
      obtain ⟨hitem, hselectable⟩ := removed_offered hremoved
      refine ⟨fun repository hrepository hname => ?_, fun hrecorded => ?_⟩
      · rcases (offered_cases hitem hselectable).2 with ⟨n, hn, hscoped⟩ | hid
        · have heq := append_toString_inj (hscoped.symm.trans hname)
          exact hn (heq ▸ List.mem_map_of_mem hrepository)
        · exact borgId_ne_scopedName hid repository.id hname
      · obtain ⟨hunread, hneeds⟩ := (offered_iff (recorded_borgId hrecorded)).mp ⟨item, hitem, hselectable, rfl⟩
        exact hunread (h hconvertible item.name hrecorded hneeds)
    · obtain ⟨failure, hfailure⟩ : ∃ failure, managerBorgCacheStatus rt managedRepositoryId repositories disk =
          .error failure :=
        status_error hconvertible
      rw [hfailure] at hremoved
      exact absurd hremoved List.not_mem_nil

end BorgManager.ManagerCacheProtection
