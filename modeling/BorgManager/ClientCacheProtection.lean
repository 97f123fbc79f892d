import BorgManager.ClientCacheCleanup
import BorgManager.Exceptions

namespace BorgManager.ClientCacheProtection

open Exceptions PythonText Numerals Supersession ClientCacheScan ClientCacheCleanup
open ClientCacheManifest (isBorgId)

def cacheName (repositoryId : Nat) : String := "repository-" ++ toString repositoryId

/-- What the scan program guarantees about its output: one record for each cache,
and no location for a security entry that is not a directory. -/
structure WellFormed (output : String) : Prop where
  oneRecord : ∀ name i j, ["CACHE_REPO", name, i] ∈ scanRows output → ["CACHE_REPO", name, j] ∈ scanRows output → i = j
  irregular : ∀ name size rawType location manifest path,
    ["SECURITY5", name, size, rawType, location, manifest, path] ∈ scanRows output → rawType ≠ "DIR" → location = "-"
  irregularOld : ∀ name size rawType location manifest,
    ["SECURITY", name, size, rawType, location, manifest] ∈ scanRows output → rawType ≠ "DIR" → location = "-"
  irregularOldest : ∀ name size rawType location,
    ["SECURITY", name, size, rawType, location] ∈ scanRows output → rawType ≠ "DIR" → location = "-"

/-- A Borg id that the cache row of an assigned repository records. -/
def Recorded (rt : Runtime) (assigned : List Nat) (output id : String) : Prop :=
  ∃ repositoryId ∈ assigned, 0 < repositoryId ∧
    ∃ raw, ["CACHE_REPO", cacheName repositoryId, raw] ∈ scanRows output ∧ rt.lower raw = id ∧ isBorgId id = true

variable {rt : Runtime} {assigned : List Nat} {output : String}

theorem clientCacheId_eq_some {name : String} {id : Nat} :
    clientCacheId name = some id ↔ 0 < id ∧ name = cacheName id :=
  numbered_eq_some

theorem rollback_ne_cacheName {name : String} (h : (clientCacheRollbackId name).isSome = true) (id : Nat) :
    name ≠ cacheName id := by
  intro hname
  obtain ⟨stampId, h⟩ := Option.isSome_iff_exists.mp h
  simp only [clientCacheRollbackId] at h
  obtain ⟨rest, hrest, h⟩ := Option.bind_eq_some_iff.mp h
  obtain ⟨stamp, hstamp, -⟩ := Option.bind_eq_some_iff.mp h
  have hdot : '.' ∈ rest := by
    rw [← List.takeWhile_append_dropWhile (p := Char.isDigit) (l := rest), isPrefixOf?_eq_some.mp hstamp]
    simp
  rw [isPrefixOf?_eq_some, hname, cacheName, String.toList_append] at hrest
  rw [← List.append_cancel_left hrest] at hdot
  exact absurd (toString_digits id '.' hdot) (by decide)

theorem mem_setItem {dict : List (String × String)} {name value : String} :
    (name, value) ∈ setItem dict name value := by
  rw [setItem]
  split
  · next h =>
      obtain ⟨item, hitem, heq⟩ := List.any_eq_true.mp h
      exact List.mem_map.mpr ⟨item, hitem, if_pos (beq_iff_eq.mp heq)⟩
  · exact List.mem_append_right _ (List.mem_singleton_self _)

theorem setItem_keeps {dict : List (String × String)} {item : String × String} (h : item ∈ dict) {name : String}
    (hne : item.1 ≠ name) (value : String) : item ∈ setItem dict name value := by
  rw [setItem]
  split
  · exact List.mem_map.mpr ⟨item, h, if_neg hne⟩
  · exact List.mem_append_left _ h

/-- A name keeps an entry, and only another record of the same name replaces it. -/
theorem foldl_recordRow_keeps {rows : List Row} {dict : List (String × String)} {name id : String}
    (h : (name, id) ∈ dict) :
    ∃ j, (name, j) ∈ rows.foldl recordRow dict ∧ (j = id ∨ Row.cacheRepo name j ∈ rows) := by
  induction rows generalizing dict id with
  | nil => exact ⟨id, h, .inl rfl⟩
  | cons row rows ih =>
      rw [List.foldl_cons]
      by_cases hrow : ∃ new, row = .cacheRepo name new
      · obtain ⟨new, heq⟩ := hrow
        have hset : (name, new) ∈ recordRow dict row := by
          rw [heq]
          exact mem_setItem
        obtain ⟨j, hj, hfrom⟩ := ih hset
        refine ⟨j, hj, .inr ?_⟩
        rcases hfrom with heqj | hmem
        · rw [heqj, ← heq]
          exact List.mem_cons_self ..
        · exact List.mem_cons_of_mem _ hmem
      · have hkept : (name, id) ∈ recordRow dict row := by
          cases row with
          | cacheRepo other value =>
              refine setItem_keeps h (fun heq => hrow ⟨value, ?_⟩) value
              rw [show name = other from heq]
          | entry | userCache | security | ignored => exact h
        obtain ⟨j, hj, hfrom⟩ := ih hkept
        exact ⟨j, hj, hfrom.imp_right (List.mem_cons_of_mem _)⟩

theorem foldl_recordRow_records {rows : List Row} (dict : List (String × String)) {name id : String}
    (h : Row.cacheRepo name id ∈ rows) :
    ∃ j, (name, j) ∈ rows.foldl recordRow dict ∧ Row.cacheRepo name j ∈ rows := by
  induction rows generalizing dict with
  | nil => exact absurd h List.not_mem_nil
  | cons row rows ih =>
      rw [List.foldl_cons]
      rcases List.mem_cons.mp h with heq | h
      · have hset : (name, id) ∈ recordRow dict row := by
          rw [← heq]
          exact mem_setItem
        obtain ⟨j, hj, hfrom⟩ := foldl_recordRow_keeps hset
        refine ⟨j, hj, ?_⟩
        rcases hfrom with heqj | hmem
        · rw [heqj, heq]
          exact List.mem_cons_self ..
        · exact List.mem_cons_of_mem _ hmem
      · obtain ⟨j, hj, hmem⟩ := ih (recordRow dict row) h
        exact ⟨j, hj, List.mem_cons_of_mem _ hmem⟩

/-- The rows of a scan as the reader sees them. -/
abbrev readRows (rt : Runtime) (assigned : List Nat) (output : String) : List Row :=
  (scanRows output).map (readRow rt assigned)

theorem readRow_cacheRepo {parts : List String} {name id : String}
    (h : readRow rt assigned parts = .cacheRepo name id) :
    ∃ raw, parts = ["CACHE_REPO", name, raw] ∧ rt.lower raw = id := by
  unfold readRow at h
  split at h
  case h_1 tag other second =>
      split_ifs at h with htag
      cases h
      exact ⟨second, by rw [htag], rfl⟩
  all_goals first | split_ifs at h | cases h

theorem readRow_of_record {name raw : String} (hname : (clientCacheId name).isSome = true)
    (hid : isBorgId (rt.lower raw) = true) :
    readRow rt assigned ["CACHE_REPO", name, raw] = .cacheRepo name (rt.lower raw) := by
  simp only [readRow, if_true, hname, hid, and_self]

theorem recorded_active (hwf : WellFormed output) {id : String} (h : Recorded rt assigned output id) :
    id ∈ activeBorgIds assigned (cacheRepoIds (readRows rt assigned output)) := by
  obtain ⟨repositoryId, hassigned, hpos, raw, hrow, hlower, hvalid⟩ := h
  have hname : clientCacheId (cacheName repositoryId) = some repositoryId := clientCacheId_eq_some.mpr ⟨hpos, rfl⟩
  have hread : Row.cacheRepo (cacheName repositoryId) id ∈ readRows rt assigned output := by
    refine List.mem_map.mpr ⟨_, hrow, ?_⟩
    rw [readRow_of_record (by rw [hname]; rfl) (by rw [hlower]; exact hvalid), hlower]
  obtain ⟨j, hj, hjrow⟩ := foldl_recordRow_records [] hread
  obtain ⟨parts, hparts, hpartsRow⟩ := List.mem_map.mp hjrow
  obtain ⟨other, heq, hother⟩ := readRow_cacheRepo hpartsRow
  have hsame : other = raw := hwf.oneRecord _ _ _ (heq ▸ hparts) hrow
  rw [hsame, hlower] at hother
  rw [← hother] at hj
  refine List.mem_map.mpr ⟨_, List.mem_filter.mpr ⟨hj, ?_⟩, rfl⟩
  simp only [hname, Option.any_some, hassigned, decide_true]

theorem decodeLocation_dash : decodeLocation rt "-" = none := by
  have htext : decodeText rt "-" = none := if_pos (.inr rfl)
  rw [decodeLocation, htext]
  decide

/-- A security row that is no directory has no location. -/
theorem readRow_security (hwf : WellFormed output) {parts : List String} (hparts : parts ∈ scanRows output)
    {raw : RawSecurity} (h : readRow rt assigned parts = .security raw) (hirregular : raw.rawType ≠ "DIR") :
    raw.location = none := by
  unfold readRow at h
  split at h
  case h_3 tag name size rawType last =>
      split_ifs at h with _ htag
      rw [htag] at hparts
      rw [← Row.security.inj h] at hirregular ⊢
      dsimp only at hirregular ⊢
      rw [hwf.irregularOldest _ _ _ _ hparts hirregular, decodeLocation_dash]
  case h_4 tag name size rawType location manifest =>
      split_ifs at h with htag
      rw [htag] at hparts
      rw [← Row.security.inj h] at hirregular ⊢
      dsimp only at hirregular ⊢
      rw [hwf.irregularOld _ _ _ _ _ hparts hirregular, decodeLocation_dash]
  case h_5 tag name size rawType location manifest path =>
      split_ifs at h with htag
      rw [htag] at hparts
      rw [← Row.security.inj h] at hirregular ⊢
      dsimp only at hirregular ⊢
      rw [hwf.irregular _ _ _ _ _ _ hparts hirregular, decodeLocation_dash]
  all_goals first | split_ifs at h | cases h

variable {active orphan assignedLocations knownLocations : List String}

/-- What the duplicate pass relies on: an entry with an active id is not offered,
and either it is known to be active or it does not compete for a location. -/
def Guarded (active : List String) (entry : Entry) : Prop :=
  entry.name ∈ active → isBorgId entry.name = true →
    entry.selectable = false ∧ entry.defaultSelected = false ∧
      (entry.kind = .securityActive ∨ sharedLocation entry = none)

theorem securityKind_active {raw : RawSecurity} (h : raw.name ∈ active) :
    securityKind active orphan assignedLocations knownLocations raw = .securityActive := if_pos (.inl h)

theorem securityEntry_guarded {raw : RawSecurity} {entry : Entry} (hraw : raw.rawType ≠ "DIR" → raw.location = none)
    (h : securityEntry rt active orphan assignedLocations knownLocations raw = .ok entry) :
    entry.entryType = .security ∧ Guarded active entry := by
  rw [securityEntry] at h
  obtain ⟨stamp, -, h⟩ := bind_ok h
  split at h
  · cases h
    refine ⟨rfl, fun hname _ => ?_⟩
    have hkind : securityKind active orphan assignedLocations knownLocations _ = .securityActive :=
      securityKind_active hname
    simp only [hkind, ne_eq, not_true_eq_false, decide_false, true_or, and_true, true_and]
    exact decide_eq_false (by decide)
  · next hirregular =>
      cases h
      refine ⟨rfl, fun _ hvalid => ⟨rfl, rfl, .inr ?_⟩⟩
      have htype : raw.rawType ≠ "DIR" := fun htype => hirregular ⟨htype, hvalid⟩
      simp only [sharedLocation, hraw htype, ite_self]

theorem guarded_markDuplicates {entries : List Entry}
    (h : ∀ entry ∈ entries, entry.entryType = .security ∧ Guarded active entry) {entry : Entry}
    (hentry : entry ∈ markDuplicates active entries) :
    entry.entryType = .security ∧
      (entry.name ∈ active → isBorgId entry.name = true → entry.selectable = false ∧
        entry.defaultSelected = false) := by
  obtain ⟨before, hbefore, heq⟩ := List.mem_map.mp hentry
  obtain ⟨htype, hguarded⟩ := h before hbefore
  split at heq
  · next hnewer =>
      rw [← heq, superseded]
      split
      · exact ⟨htype, fun _ _ => ⟨rfl, rfl⟩⟩
      · next hkind =>
          refine ⟨htype, fun hname hvalid => ?_⟩
          obtain ⟨-, -, hcase⟩ := hguarded hname hvalid
          rcases hcase with hcase | hcase
          · exact absurd ⟨hcase, hname⟩ hkind
          · rw [outdated_keyless sharedLocation Entry.stamp hcase] at hnewer
            cases hnewer
  · rw [← heq]
    exact ⟨htype, fun hname hvalid => ⟨(hguarded hname hvalid).1, (hguarded hname hvalid).2.1⟩⟩

/-- The three sources of the entries of an inventory. -/
theorem mem_parseScanOutput {entries : List Entry}
    (h : parseScanOutput rt assigned assignedLocations knownLocations output = .ok entries) :
    let rows := readRows rt assigned output
    let active := activeBorgIds assigned (cacheRepoIds rows)
    ∃ security, (rows.filterMap Row.security?).mapM
      (securityEntry rt active (orphanBorgIds assigned (cacheRepoIds rows))
        (normalized assignedLocations) (normalized knownLocations)) = .ok security ∧
      ∀ entry ∈ entries,
        (∃ base, Row.entry base ∈ rows ∧ entry = withRecordedId (cacheRepoIds rows) base) ∨
          entry.entryType = .userCache ∨ entry ∈ markDuplicates active security := by
  intro rows active
  rw [parseScanOutput] at h
  split at h
  · cases h
  rw [inventory] at h
  obtain ⟨security, hsecurity, h⟩ := bind_ok h
  refine ⟨security, hsecurity, ?_⟩
  cases h
  intro entry hentry
  rcases List.mem_append.mp hentry with hentry | hentry
  · rcases List.mem_append.mp hentry with hentry | hentry
    · obtain ⟨base, hbase, heq⟩ := List.mem_map.mp hentry
      obtain ⟨row, hrow, hbase⟩ := List.mem_filterMap.mp hbase
      refine .inl ⟨base, ?_, heq.symm⟩
      cases row with
      | entry e => cases hbase; exact hrow
      | userCache | security | cacheRepo | ignored => cases hbase
    · obtain ⟨raw, -, heq⟩ := List.mem_map.mp hentry
      exact .inr (.inl (heq ▸ rfl))
  · exact .inr (.inr hentry)

theorem readRow_entry {parts : List String} {base : Entry} (h : readRow rt assigned parts = .entry base) :
    ∃ name rawSize path, base = cacheEntry assigned name rawSize path := by
  unfold readRow at h
  split at h
  case h_1 tag name second =>
      split_ifs at h
      cases h
      exact ⟨name, second, none, rfl⟩
  case h_2 tag name second third =>
      split_ifs at h
      cases h
      exact ⟨name, second, _, rfl⟩
  all_goals first | split_ifs at h | cases h

theorem readRow_security_entryType {row : Row} {raw : RawSecurity} (h : row.security? = some raw) :
    row = .security raw := by
  cases row with
  | security other => rw [show other = raw from Option.some.inj h]
  | entry | userCache | cacheRepo | ignored => cases h

theorem cacheEntry_spec (name rawSize : String) (path : Option String) :
    let entry := cacheEntry assigned name rawSize path
    entry.entryType = .cache ∧
      (entry.kind = .active → ∃ id ∈ assigned, clientCacheId entry.name = some id) ∧
      (entry.defaultSelected = true →
        (∃ id, id ∉ assigned ∧ clientCacheId entry.name = some id) ∨
          (clientCacheRollbackId entry.name).isSome = true) := by
  intro entry
  simp only [entry, cacheEntry]
  split
  · exact ⟨rfl, fun hkind => (nomatch hkind), fun hselected => (nomatch hselected)⟩
  · split
    · next id hid =>
        refine ⟨rfl, fun hkind => ⟨id, ?_, hid⟩, fun hselected => .inl ⟨id, by simpa using hselected, hid⟩⟩
        by_contra hout
        rw [if_neg hout] at hkind
        cases hkind
    · next id _ hid =>
        exact ⟨rfl, fun hkind => (nomatch hkind), fun _ => .inr (by rw [hid]; rfl)⟩
    · exact ⟨rfl, fun hkind => (nomatch hkind), fun hselected => (nomatch hselected)⟩

theorem withRecordedId_eq (dict : List (String × String)) (entry : Entry) :
    ∃ id, withRecordedId dict entry = { entry with borgRepositoryId := id } := by
  rw [withRecordedId]
  split
  · exact ⟨_, rfl⟩
  · exact ⟨entry.borgRepositoryId, rfl⟩

/-- Each entry of an inventory comes from a cache, from the legacy caches, or
from the security states after the duplicate pass. -/
theorem parsed_cases (hwf : WellFormed output) {entries : List Entry}
    (h : parseScanOutput rt assigned assignedLocations knownLocations output = .ok entries) {entry : Entry}
    (hentry : entry ∈ entries) :
    (∃ name rawSize path id, entry = { cacheEntry assigned name rawSize path with borgRepositoryId := id }) ∨
      entry.entryType = .userCache ∨
      entry.entryType = .security ∧
        (Recorded rt assigned output entry.name → entry.selectable = false ∧ entry.defaultSelected = false) := by
  obtain ⟨security, hsecurity, hcases⟩ := mem_parseScanOutput h
  have hguarded : ∀ raw ∈ (readRows rt assigned output).filterMap Row.security?, raw.rawType ≠ "DIR" →
      raw.location = none := by
    intro raw hraw
    obtain ⟨row, hrow, hraw⟩ := List.mem_filterMap.mp hraw
    obtain ⟨parts, hparts, heq⟩ := List.mem_map.mp hrow
    exact readRow_security hwf hparts (heq.trans (readRow_security_entryType hraw))
  rcases hcases entry hentry with ⟨base, hbase, heq⟩ | htype | hmarked
  · obtain ⟨parts, -, hrow⟩ := List.mem_map.mp hbase
    obtain ⟨name, rawSize, path, hcache⟩ := readRow_entry hrow
    obtain ⟨id, hid⟩ := withRecordedId_eq (cacheRepoIds (readRows rt assigned output)) base
    exact .inl ⟨name, rawSize, path, id, by rw [heq, hid, hcache]⟩
  · exact .inr (.inl htype)
  · obtain ⟨htype, hkept⟩ := guarded_markDuplicates (fun e he => by
      obtain ⟨raw, hraw, hok⟩ := mem_of_mapM_ok hsecurity he
      exact securityEntry_guarded (hguarded raw hraw) hok) hmarked
    refine .inr (.inr ⟨htype, fun hrecorded => hkept (recorded_active hwf hrecorded) ?_⟩)
    obtain ⟨-, -, -, raw, -, -, hvalid⟩ := hrecorded
    exact hvalid

/-- No security entry with the id of an active cache is offered. -/
theorem recorded_not_offered (hwf : WellFormed output) {entries : List Entry}
    (h : parseScanOutput rt assigned assignedLocations knownLocations output = .ok entries) {entry : Entry}
    (hentry : entry ∈ entries) (htype : entry.entryType = .security)
    (hrecorded : Recorded rt assigned output entry.name) :
    entry.selectable = false ∧ entry.defaultSelected = false := by
  rcases parsed_cases hwf h hentry with ⟨name, rawSize, path, id, heq⟩ | huser | ⟨-, hkept⟩
  · rw [heq] at htype
    exact absurd ((cacheEntry_spec name rawSize path).1.symm.trans htype) (by decide)
  · exact absurd (huser.symm.trans htype) (by decide)
  · exact hkept hrecorded

theorem parsed_cache (hwf : WellFormed output) {entries : List Entry}
    (h : parseScanOutput rt assigned assignedLocations knownLocations output = .ok entries) {entry : Entry}
    (hentry : entry ∈ entries) (htype : entry.entryType = .cache) :
    (entry.kind = .active → ∃ id ∈ assigned, clientCacheId entry.name = some id) ∧
      (entry.defaultSelected = true →
        (∃ id, id ∉ assigned ∧ clientCacheId entry.name = some id) ∨
          (clientCacheRollbackId entry.name).isSome = true) := by
  rcases parsed_cases hwf h hentry with ⟨name, rawSize, path, id, heq⟩ | huser | ⟨hsecurity, -⟩
  · rw [heq]
    exact (cacheEntry_spec name rawSize path).2
  · exact absurd (huser.symm.trans htype) (by decide)
  · exact absurd (hsecurity.symm.trans htype) (by decide)

/-- No cache of an assigned repository is preselected. -/
theorem assigned_not_preselected (hwf : WellFormed output) {entries : List Entry}
    (h : parseScanOutput rt assigned assignedLocations knownLocations output = .ok entries) {entry : Entry}
    (hentry : entry ∈ entries) (htype : entry.entryType = .cache) {id : Nat} (hid : id ∈ assigned)
    (hname : entry.name = cacheName id) : entry.defaultSelected = false := by
  refine Bool.eq_false_iff.mpr (fun hselected => ?_)
  rcases (parsed_cache hwf h hentry htype).2 hselected with ⟨other, hother, hread⟩ | hrollback
  · have hsame : other = id := append_toString_inj ((clientCacheId_eq_some.mp hread).2.symm.trans hname)
    exact hother (hsame ▸ hid)
  · exact rollback_ne_cacheName hrollback id hname

end BorgManager.ClientCacheProtection
