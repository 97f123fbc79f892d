import BorgManager.ClientCacheProtection
import BorgManager.ManifestAgreement

namespace BorgManager.CleanupSelection

open Exceptions PythonText Numerals ClientCacheScan ClientCacheCleanup ClientCacheProtection
open ClientCacheManifest (isBorgId)
open ManifestAgreement (strip_borgId)

variable {rt : Runtime} {db : Database} {devices : Devices} {kind : CleanupKind}

theorem readItem_ok {item : CleanupItem} {hostId : Int} {target : Target}
    (h : readItem rt kind item = .ok (hostId, target)) :
    ∃ rawPath, validName rt target.name rawPath kind = true := by
  rw [readItem] at h
  obtain ⟨-, h⟩ | ⟨hvalid, h⟩ := ite_eq_iff.mp h
  · cases h
  · rw [← (Prod.mk.inj (Except.ok.inj h)).2]
    exact ⟨_, Bool.of_not_eq_false (fun hinvalid => hvalid (.inr hinvalid))⟩

theorem mem_requestedByHost {items : List (Int × Target)} {group : Int × List Target}
    (h : group ∈ requestedByHost items) {target : Target} (htarget : target ∈ group.2) : (group.1, target) ∈ items := by
  obtain ⟨hostId, -, heq⟩ := List.mem_map.mp h
  rw [← heq] at htarget ⊢
  obtain ⟨item, hitem, hsnd⟩ := List.mem_map.mp htarget
  obtain ⟨hmem, hfst⟩ := List.mem_filter.mp hitem
  rw [← hsnd, ← beq_iff_eq.mp hfst]
  exact hmem

/-- A request that passes the checks names the kind and valid targets only. -/
theorem readRequest_ok {backupTaskActive : Bool} {text : String} {requested : List CleanupItem}
    {groups : List (Int × List Target)} (h : readRequest rt db backupTaskActive text requested = .ok (kind, groups)) :
    CleanupKind.ofText text = some kind ∧
      ∀ group ∈ groups, ∀ target ∈ group.2, ∃ rawPath, validName rt target.name rawPath kind = true := by
  rw [readRequest] at h
  split at h
  · cases h
  · next other hkind =>
      obtain ⟨-, h⟩ | ⟨-, h⟩ := ite_eq_iff.mp h
      · cases h
      obtain ⟨items, hitems, h⟩ := bind_ok h
      obtain ⟨-, h⟩ | ⟨-, h⟩ := ite_eq_iff.mp h
      · cases h
      obtain ⟨-, h⟩ | ⟨-, h⟩ := ite_eq_iff.mp h
      · cases h
      obtain ⟨hsame, hgroups⟩ := Prod.mk.inj (Except.ok.inj h)
      rw [← hsame, ← hgroups]
      refine ⟨hkind, fun group hgroup target htarget => ?_⟩
      obtain ⟨item, -, hitem⟩ := mem_of_mapM_ok hitems (mem_requestedByHost hgroup htarget)
      exact readItem_ok hitem

theorem cleanHosts_sent {groups : List (Int × List Target)} {command : Command}
    (h : command ∈ (cleanHosts rt db devices kind groups).sent) :
    ∃ group ∈ groups, command ∈ (cleanHost rt db devices kind group.1 group.2).sent := by
  induction groups with
  | nil => exact absurd h List.not_mem_nil
  | cons group groups ih =>
      simp only [cleanHosts] at h
      split at h
      · exact ⟨group, List.mem_cons_self .., h⟩
      · rcases List.mem_append.mp h with hfirst | hrest
        · exact ⟨group, List.mem_cons_self .., hfirst⟩
        · obtain ⟨other, hother, hsent⟩ := ih hrest
          exact ⟨other, List.mem_cons_of_mem _ hother, hsent⟩

/-- A deletion names the values it was built from. Borg ids are sent in lower case. -/
theorem cleanupCommand_spec {hostId : Nat} {values : List String} {command : Command}
    (h : cleanupCommand rt hostId values kind = .ok command) :
    command.hostId = hostId ∧
      (kind = .orphan ∨ kind = .rollback ∨ kind = .reset → ∀ name ∈ command.names, name ∈ values) ∧
      (kind = .security ∨ kind = .securityOrphan → ∀ name ∈ command.names, ∃ value ∈ values,
        name = rt.lower (strip value)) := by
  cases kind with
  | orphan | rollback | reset =>
      simp only [cleanupCommand, clientBorgCacheCleanupCommand] at h
      split_ifs at h
      cases h
      exact ⟨rfl, fun _ name hname => List.mem_eraseDups.mp hname, fun hkind => hkind.elim (nomatch ·) (nomatch ·)⟩
  | security | securityOrphan =>
      simp only [cleanupCommand, clientBorgSecurityCleanupCommand] at h
      split_ifs at h
      cases h
      refine ⟨rfl, fun hkind => hkind.elim (nomatch ·) (fun hkind => hkind.elim (nomatch ·) (nomatch ·)),
        fun _ name hname => ?_⟩
      obtain ⟨value, hvalue, heq⟩ := List.mem_map.mp (List.mem_eraseDups.mp hname)
      exact ⟨value, hvalue, heq.symm⟩
  | userCache =>
      simp only [cleanupCommand, clientBorgUserCacheCleanupCommand] at h
      split_ifs at h
      cases h
      exact ⟨rfl, fun hkind => hkind.elim (nomatch ·) (fun hkind => hkind.elim (nomatch ·) (nomatch ·)),
        fun hkind => hkind.elim (nomatch ·) (nomatch ·)⟩

theorem runCleanup_sent {hostId : Nat} {values : List String} {skipped : List (Int × String × String)}
    {command : Command} (h : command ∈ (runCleanup rt devices kind hostId values skipped).sent) :
    cleanupCommand rt hostId values kind = .ok command := by
  simp only [runCleanup] at h
  split at h
  · split at h <;> exact absurd h List.not_mem_nil
  · next built hbuilt =>
      have hone : command = built := by
        split at h
        · split at h <;> exact List.mem_singleton.mp h
        · exact List.mem_singleton.mp h
      rw [hone]
      exact hbuilt

/-- A deletion that reaches a device carries checked targets only. -/
theorem cleanHost_sent {hostId : Int} {targets : List Target} {command : Command}
    (h : command ∈ (cleanHost rt db devices kind hostId targets).sent) :
    ∃ entries values, currentEntries rt db devices kind command.hostId = .ok entries ∧
      cleanupCommand rt command.hostId values kind = .ok command ∧
      ∀ value ∈ values, ∃ target ∈ targets,
        checkTarget kind (assignedRepositoryIds db command.hostId) entries target = .ok value := by
  simp only [cleanHost] at h
  split at h
  · exact absurd h List.not_mem_nil
  · next host hhost =>
      split at h
      · exact absurd h List.not_mem_nil
      split at h
      · split at h <;> exact absurd h List.not_mem_nil
      · next entries hentries =>
          split at h
          · exact absurd h List.not_mem_nil
          have hbuilt := runCleanup_sent h
          have hid := (cleanupCommand_spec hbuilt).1
          rw [← hid] at hentries hbuilt
          refine ⟨entries, _, hentries, hbuilt, fun value hvalue => ?_⟩
          obtain ⟨target, htarget, hsafe⟩ := List.mem_filterMap.mp hvalue
          refine ⟨target, htarget, ?_⟩
          cases hcheck : checkTarget kind (assignedRepositoryIds db command.hostId) entries target with
          | error reason => rw [hcheck] at hsafe; cases hsafe
          | ok other => rw [hcheck] at hsafe; rw [show other = value from Option.some.inj hsafe]

theorem onlyEntry_eq_some {entries : List Entry} {candidate : Entry → Bool} {entry : Entry}
    (h : onlyEntry entries candidate = some entry) : entry ∈ entries ∧ candidate entry = true := by
  rw [onlyEntry] at h
  split at h
  · next other hfilter =>
      rw [← Option.some.inj h]
      exact List.mem_filter.mp (by rw [hfilter]; exact List.mem_singleton_self _)
  · cases h

theorem scannedTarget_ok {entries : List Entry} {target : Target} {value : String}
    (hkind : kind = .security ∨ kind = .securityOrphan) (h : scannedTarget kind entries target = .ok value) :
    value = target.name ∧
      ∃ entry ∈ entries, entry.entryType = .security ∧ entry.name = target.name ∧ entry.selectable = true := by
  have huser : kind ≠ .userCache := by rcases hkind with heq | heq <;> rw [heq] <;> decide
  simp only [scannedTarget, if_neg huser] at h
  split at h
  · next entry hentry =>
      obtain ⟨hmem, hcandidate⟩ := onlyEntry_eq_some hentry
      simp only [Bool.and_eq_true, decide_eq_true_eq, beq_iff_eq] at hcandidate
      obtain ⟨hallowed, h⟩ | ⟨-, h⟩ := ite_eq_iff.mp h
      · exact ⟨(Except.ok.inj h).symm, entry, hmem, hcandidate.1.1, hcandidate.1.2, hallowed.2⟩
      · cases h
  · cases h

theorem resetTarget_ok {assigned : List Nat} {entries : List Entry} {target : Target} {value : String}
    (h : resetTarget assigned entries target = .ok value) :
    value = target.name ∧
      ∃ entry ∈ entries, entry.entryType = .cache ∧ entry.kind = .active ∧ entry.name = target.name := by
  simp only [resetTarget] at h
  split at h
  · next entry hentry =>
      obtain ⟨hmem, hcandidate⟩ := onlyEntry_eq_some hentry
      simp only [Bool.and_eq_true, decide_eq_true_eq, beq_iff_eq] at hcandidate
      obtain ⟨-, h⟩ | ⟨-, h⟩ := ite_eq_iff.mp h
      · exact ⟨(Except.ok.inj h).symm, entry, hmem, hcandidate.1.1, hcandidate.1.2, hcandidate.2⟩
      · cases h
  · cases h

theorem namedTarget_ok {assigned : List Nat} {target : Target} {value : String}
    (h : namedTarget kind assigned target = .ok value) :
    value = target.name ∧ (kind = .orphan → ∀ id ∈ assigned, clientCacheId target.name ≠ some id) := by
  rw [namedTarget] at h
  obtain ⟨-, h⟩ | ⟨hfree, h⟩ := ite_eq_iff.mp h
  · cases h
  · refine ⟨(Except.ok.inj h).symm, fun hkind id hid hread => hfree ⟨hkind, ?_⟩⟩
    simp only [hread, Option.any_some, hid, decide_true]

variable {targets : List Target} {hostId : Int} {command : Command}

/-- A deletion of security states names no id that the scan records for an
assigned repository. -/
theorem security_sent (hkind : kind = .security ∨ kind = .securityOrphan)
    (hvalid : ∀ target ∈ targets, ∃ rawPath, validName rt target.name rawPath kind = true)
    (h : command ∈ (cleanHost rt db devices kind hostId targets).sent) {output : String}
    (hscan : devices.scan command.hostId = .ok output) (hwf : WellFormed output) :
    ∀ id ∈ command.names, ¬ Recorded rt (assignedRepositoryIds db command.hostId) output id := by
  intro id hid hrecorded
  obtain ⟨entries, values, hentries, hbuilt, hchecked⟩ := cleanHost_sent h
  obtain ⟨value, hvalue, hlower⟩ := (cleanupCommand_spec hbuilt).2.2 hkind id hid
  obtain ⟨target, htarget, hcheck⟩ := hchecked value hvalue
  have hparse : parseScanOutput rt (assignedRepositoryIds db command.hostId) (assignedLocations db command.hostId)
      (knownLocations db) output = .ok entries := by
    rcases hkind with heq | heq <;> rw [heq, currentEntries, hscan] at hentries <;> exact hentries
  obtain ⟨rawPath, hname⟩ := hvalid target htarget
  have hborg : isBorgId target.name = true := by
    rcases hkind with heq | heq <;> rw [heq] at hname <;> exact hname
  have hscanned : scannedTarget kind entries target = .ok value := by
    rcases hkind with heq | heq <;> rw [heq] at hcheck ⊢ <;> exact hcheck
  obtain ⟨heq, entry, hentry, htype, hentryName, hselectable⟩ := scannedTarget_ok hkind hscanned
  rw [hlower, heq, strip_borgId hborg, rt.lower_borgId _ hborg, ← hentryName] at hrecorded
  rw [(recorded_not_offered hwf hparse hentry htype hrecorded).1] at hselectable
  cases hselectable

/-- A deletion of orphans or of safety copies names no cache of an assigned
repository. -/
theorem named_sent (hkind : kind = .orphan ∨ kind = .rollback)
    (hvalid : ∀ target ∈ targets, ∃ rawPath, validName rt target.name rawPath kind = true)
    (h : command ∈ (cleanHost rt db devices kind hostId targets).sent) :
    ∀ id ∈ assignedRepositoryIds db command.hostId, cacheName id ∉ command.names := by
  intro id hid hname
  obtain ⟨entries, values, -, hbuilt, hchecked⟩ := cleanHost_sent h
  have hvalue := (cleanupCommand_spec hbuilt).2.1 (hkind.imp_right .inl) _ hname
  obtain ⟨target, htarget, hcheck⟩ := hchecked _ hvalue
  obtain ⟨rawPath, hvalidName⟩ := hvalid target htarget
  rcases hkind with heq | heq
  · rw [heq] at hcheck hvalidName
    obtain ⟨hsame, hfree⟩ := namedTarget_ok hcheck
    obtain ⟨other, hread⟩ := Option.isSome_iff_exists.mp hvalidName
    have hother := append_toString_inj (hsame.trans (clientCacheId_eq_some.mp hread).2)
    exact hfree rfl id hid (hother ▸ hread)
  · rw [heq] at hcheck hvalidName
    exact rollback_ne_cacheName hvalidName id (namedTarget_ok hcheck).1.symm

/-- A reset names caches of assigned repositories only. -/
theorem reset_sent (h : command ∈ (cleanHost rt db devices .reset hostId targets).sent)
    (hwf : ∀ output, devices.scan command.hostId = .ok output → WellFormed output) :
    ∀ name ∈ command.names, ∃ id ∈ assignedRepositoryIds db command.hostId, name = cacheName id := by
  intro name hname
  obtain ⟨entries, values, hentries, hbuilt, hchecked⟩ := cleanHost_sent h
  have hvalue := (cleanupCommand_spec hbuilt).2.1 (.inr (.inr rfl)) name hname
  obtain ⟨target, -, hcheck⟩ := hchecked name hvalue
  obtain ⟨heq, entry, hentry, htype, hkind, hentryName⟩ := resetTarget_ok hcheck
  obtain ⟨output, hscan, hparse⟩ := bind_ok hentries
  obtain ⟨id, hid, hread⟩ := (parsed_cache (hwf output hscan) hparse hentry htype).1 hkind
  exact ⟨id, hid, by rw [heq, ← hentryName, (clientCacheId_eq_some.mp hread).2]⟩

end BorgManager.CleanupSelection
