import BorgManager.ClientCacheManifest

namespace BorgManager.ManifestAgreement

open Exceptions PythonText Patterns ArtifactPaths ClientCacheManifest

theorem slugChars_dashRuns (inRun : Bool) (cs : List Char) : ∀ c ∈ dashRuns inRun cs, isSlugChar c = true := by
  induction cs generalizing inRun with
  | nil => exact fun c hc => (List.not_mem_nil hc).elim
  | cons d cs ih =>
      intro c hc
      rw [dashRuns] at hc
      split at hc
      next hd => exact (List.mem_cons.mp hc).elim (fun heq => heq ▸ hd) (ih false c)
      next =>
        split at hc
        · exact ih true c hc
        · exact (List.mem_cons.mp hc).elim (fun heq => heq ▸ by decide) (ih true c)

theorem stripWhile_sublist (p : Char → Bool) (cs : List Char) : (stripWhile p cs).Sublist cs := by
  rw [stripWhile, rstripWhile]
  have hback := ((List.dropWhile_suffix p (l := (cs.dropWhile p).reverse)).sublist).reverse
  rw [List.reverse_reverse] at hback
  exact hback.trans (List.dropWhile_suffix p).sublist

/-- A word of a file name that the reader's patterns accept. -/
def Slug (word : List Char) : Prop := word ≠ [] ∧ ∀ c ∈ word, isSlugChar c = true

theorem slug_archiveSlug (value : List Char) {fallback : List Char} (h : Slug fallback) :
    Slug (archiveSlug value fallback) := by
  rw [archiveSlug]
  split
  next => exact h
  next hne =>
    refine ⟨hne, fun c hc => ?_⟩
    exact slugChars_dashRuns false _ c ((stripWhile_sublist _ _).subset (List.mem_of_mem_take hc))

theorem slug_device : Slug "device".toList := by
  rw [Slug]
  simp [isSlugChar]

theorem slug_repository : Slug "repository".toList := by
  rw [Slug]
  simp [isSlugChar]

def hostPart (target : Target) : List Char :=
  archiveSlug target.1.name.toList "device".toList ++ "-h".toList ++ digits target.1.id

def repositoryPart (target : Target) : List Char :=
  archiveSlug target.2.name.toList "repository".toList ++ "-r".toList ++ digits target.2.id ++ ".tar".toList

theorem namedPathPattern_matches (root : String) (target : Target) :
    ((namedPathPattern root target.key).fullmatch (clientArchivePath root target).toList).isSome = true := by
  have hhost := slug_archiveSlug target.1.name.toList slug_device
  have hrepository := slug_archiveSlug target.2.name.toList slug_repository
  have hconsumes := consumes_sequence (.cons (consumes_literal (root.toList ++ ['/']))
    (.cons (consumes_plus true hhost.1 hhost.2)
      (.cons (consumes_literal ("-h".toList ++ digits target.1.id ++ ['/']))
        (.cons (consumes_plus true hrepository.1 hrepository.2)
          (.cons (consumes_literal ("-r".toList ++ digits target.2.id))
            (.cons (consumes_literal ".tar".toList) .nil))))))
  have hmatch := fullmatch_anchored hconsumes
  rw [clientArchivePath, String.toList_ofList, namedPathPattern]
  simpa only [Target.key, List.flatten_cons, List.flatten_nil, List.append_assoc, List.cons_append, List.nil_append,
    List.append_nil] using hmatch

theorem plainPart_of_slug {word : List Char} (h : Slug word) {suffix : List Char}
    (hsuffix : ∀ c ∈ suffix, c ≠ '/' ∧ c ≠ '\x00' ∧ c ≠ '\\') :
    PlainPart (word ++ suffix) ∧ '\\' ∉ word ++ suffix := by
  obtain ⟨c, rest, rfl⟩ := List.exists_cons_of_ne_nil h.1
  have hfirst := h.2 c (List.mem_cons_self ..)
  have hdot : c ≠ '.' := by
    rintro rfl
    exact absurd hfirst (by decide)
  have hnot {d : Char} (hd : isSlugChar d = false) (hout : d ∉ suffix) : d ∉ (c :: rest) ++ suffix := by
    intro hmem
    rcases List.mem_append.mp hmem with hmem | hmem
    · rw [h.2 d hmem] at hd
      nomatch hd
    · exact hout hmem
  refine ⟨⟨by simp, by simp [hdot], by simp [hdot], ?_, ?_⟩, ?_⟩
  · exact hnot (by decide) (fun hc => (hsuffix _ hc).1 rfl)
  · exact hnot (by decide) (fun hc => (hsuffix _ hc).2.1 rfl)
  · exact hnot (by decide) (fun hc => (hsuffix _ hc).2.2 rfl)

theorem digit_plain {n : Nat} {c : Char} (h : c ∈ digits n) : c ≠ '/' ∧ c ≠ '\x00' ∧ c ≠ '\\' := by
  have hdigit := Nat.isDigit_of_mem_toDigits (by decide) (by decide) h
  refine ⟨?_, ?_, ?_⟩ <;> (rintro rfl; exact absurd hdigit (by decide))

theorem plain_hostPart (target : Target) : PlainPart (hostPart target) ∧ '\\' ∉ hostPart target := by
  rw [hostPart, List.append_assoc]
  refine plainPart_of_slug (slug_archiveSlug _ slug_device) (fun c hc => ?_)
  rcases List.mem_append.mp hc with hc | hc
  · rcases (by simpa using hc : c = '-' ∨ c = 'h') with rfl | rfl <;> decide
  · exact digit_plain hc

theorem plain_repositoryPart (target : Target) :
    PlainPart (repositoryPart target) ∧ '\\' ∉ repositoryPart target := by
  rw [repositoryPart, List.append_assoc, List.append_assoc]
  refine plainPart_of_slug (slug_archiveSlug _ slug_repository) (fun c hc => ?_)
  rcases List.mem_append.mp hc with hc | hc
  · rcases (by simpa using hc : c = '-' ∨ c = 'r') with rfl | rfl <;> decide
  · rcases List.mem_append.mp hc with hc | hc
    · exact digit_plain hc
    · rcases (by simpa using hc : c = '.' ∨ c = 't' ∨ c = 'a' ∨ c = 'r') with rfl | rfl | rfl | rfl <;> decide

/-- The root of one kind of device files in an artifact. -/
def FileRoot (root : String) : Prop :=
  ∃ top kind, root.toList = top ++ '/' :: kind ∧ (PlainPart top ∧ '\\' ∉ top) ∧ PlainPart kind ∧ '\\' ∉ kind

theorem clientArchivePath_safe {root : String} (hroot : FileRoot root) (target : Target) :
    ∃ parts, safeRelativePath (clientArchivePath root target).toList = .ok parts := by
  obtain ⟨top, kind, hroot, htop, hkind⟩ := hroot
  have hparts : ∀ part ∈ [top, kind, hostPart target, repositoryPart target], PlainPart part ∧ '\\' ∉ part := by
    simp only [List.mem_cons, List.not_mem_nil, or_false]
    rintro part (heq | heq | heq | heq) <;> rw [heq]
    exacts [htop, hkind, plain_hostPart target, plain_repositoryPart target]
  have hpath : (clientArchivePath root target).toList =
      ['/'].intercalate [top, kind, hostPart target, repositoryPart target] := by
    rw [clientArchivePath, String.toList_ofList, hroot]
    simp [hostPart, repositoryPart]
  rw [hpath, safeRelativePath_intercalate (by simp) (fun part hpart => (hparts part hpart).1), if_neg]
  · exact ⟨_, rfl⟩
  · rw [mem_intercalate (by decide)]
    rintro ⟨part, hpart, hback⟩
    exact (hparts part hpart).2 hback

theorem fileRoot_cache : FileRoot clientCacheArchiveRoot := by
  refine ⟨"data".toList, "client-borg-cache".toList, by simp [clientCacheArchiveRoot], ?_, ?_⟩ <;>
    exact ⟨⟨by simp, by simp, by simp, by simp, by simp⟩, by simp⟩

theorem fileRoot_security : FileRoot clientSecurityArchiveRoot := by
  refine ⟨"data".toList, "client-borg-security".toList, by simp [clientSecurityArchiveRoot], ?_, ?_⟩ <;>
    exact ⟨⟨by simp, by simp, by simp, by simp, by simp⟩, by simp⟩

/-- The reader accepts every path that the writer gives a target. -/
theorem readPath_clientArchivePath {root : String} (hroot : FileRoot root) (message : String) (target : Target) :
    readPath root message target.key (some (clientArchivePath root target)) = .ok (clientArchivePath root target) := by
  obtain ⟨parts, hsafe⟩ := clientArchivePath_safe hroot target
  have hmatch := namedPathPattern_matches root target
  rw [readPath]
  simp only [Option.getD_some, Option.isNone_eq_false_iff.mpr hmatch, hsafe]
  rfl

theorem hexDigits_plain : ∀ c ∈ hexDigits, isSpace c = false ∧ c.toLower = c := by
  have hall : hexDigits.all (fun c => !isSpace c && c.toLower == c) = true := by decide
  intro c hc
  simpa using List.all_eq_true.mp hall c hc

theorem isBorgId_spec {id : String} (h : isBorgId id = true) :
    id.toList.length = 64 ∧ ∀ c ∈ id.toList, c ∈ hexDigits := by
  simpa [isBorgId] using h

theorem dropWhile_none {p : Char → Bool} {cs : List Char} (h : ∀ c ∈ cs, p c = false) : cs.dropWhile p = cs := by
  cases cs with
  | nil => rfl
  | cons c cs => rw [List.dropWhile_cons_of_neg (by simp [h c (List.mem_cons_self ..)])]

theorem strip_borgId {id : String} (h : isBorgId id = true) : strip id = id := by
  have hplain (c : Char) (hc : c ∈ id.toList) : isSpace c = false := (hexDigits_plain c ((isBorgId_spec h).2 c hc)).1
  have hstrip : stripWhile isSpace id.toList = id.toList := by
    rw [stripWhile, rstripWhile, dropWhile_none hplain,
      dropWhile_none (fun c hc => hplain c (List.mem_reverse.mp hc)), List.reverse_reverse]
  rw [strip, hstrip, String.ofList_toList]

theorem lower_borgId {id : String} (h : isBorgId id = true) : lower id = id := by
  have hlower : id.toList.map Char.toLower = id.toList := by
    rw [List.map_congr_left (fun c hc => (hexDigits_plain c ((isBorgId_spec h).2 c hc)).2), List.map_id']
  rw [lower, hlower, String.ofList_toList]

/-- A Borg id is its own stripped and lower-case text. -/
theorem lower_strip_borgId {id : String} (h : isBorgId id = true) : lower (strip id) = id := by
  rw [strip_borgId h, lower_borgId h]

theorem truthy_borgId {id : String} (h : isBorgId id = true) : truthy (some id) = some id := by
  refine truthy_eq_some.mpr ⟨rfl, ?_⟩
  rintro rfl
  exact absurd (isBorgId_spec h).1 (by simp)

theorem readBorgId_ok {raw : RawEntry} (h : raw.borgRepositoryId.all isBorgId = true) :
    readBorgId raw = .ok raw.borgRepositoryId := by
  rw [readBorgId]
  cases hid : raw.borgRepositoryId with
  | none => rfl
  | some id =>
      rw [hid] at h
      simp only [Option.getD_some, lower_strip_borgId h, truthy_borgId h]
      rw [if_pos h]

/-- The device answers the export of a cache, and the command ends well. -/
def CacheAnswered : Transfer → Prop
  | .raised _ => False
  | .sent s =>
      strip s.protocol = "BBM_CLIENT_CACHE_V1" ∧ (strip s.status = "PRESENT" ∨ strip s.status = "MISSING") ∧
        s.timedOut = false ∧ s.returncode = 0

/-- The same for the export of a security directory, whose id the header
names. -/
def SecurityAnswered : Transfer → Prop
  | .raised _ => False
  | .sent s =>
      strip s.protocol = "BBM_CLIENT_SECURITY_V1" ∧
        (strip s.status = "PRESENT" ∧ reportedId s ≠ "" ∨ strip s.status = "MISSING" ∨ strip s.status = "UNRESOLVED") ∧
        (reportedId s = "" ∨ isBorgId (reportedId s) = true) ∧ s.timedOut = false ∧ s.returncode = 0

def Answered (outcome : Outcome) : Prop := CacheAnswered outcome.cache ∧ SecurityAnswered outcome.security

theorem streamOneCache_ok {t : Transfer} (h : CacheAnswered t) :
    ∃ status tarBytes, streamOneCache t = .ok (status, tarBytes) := by
  cases t with
  | raised text => exact h.elim
  | sent s =>
      obtain ⟨hprotocol, hstatus, htime, hcode⟩ := h
      rcases hstatus with hstatus | hstatus
      · exact ⟨"present", s.payload, by simp [streamOneCache, hprotocol, hstatus, htime, hcode]⟩
      · exact ⟨"missing", 0, by simp [streamOneCache, hprotocol, hstatus, htime, hcode]⟩

theorem streamOneCache_error {t : Transfer} (h : ¬ CacheAnswered t) : ∃ text, streamOneCache t = .error text := by
  cases t with
  | raised text => exact ⟨text, rfl⟩
  | sent s =>
      rw [streamOneCache]
      split_ifs with hheader htime hcode
      any_goals exact ⟨_, rfl⟩
      all_goals
        rw [not_or, not_not, not_not] at hheader
        exact (h ⟨hheader.1, hheader.2, eq_false_of_ne_true htime, not_not.mp hcode⟩).elim

/-- What a successful export of a security directory says. -/
def SecurityResult (securityStatus : String) (borgRepositoryId : Option String) : Prop :=
  borgRepositoryId.all isBorgId = true ∧
    (securityStatus = "saved" ∧ borgRepositoryId ≠ none ∨ securityStatus = "missing" ∨ securityStatus = "unresolved")

theorem reportedId_truthy {s : Stream} (h : reportedId s = "" ∨ isBorgId (reportedId s) = true) :
    (truthy (some (reportedId s))).all isBorgId = true := by
  rcases h with h | h
  · simp [h, truthy]
  · rw [truthy_borgId h, Option.all_some]
    exact h

theorem streamOneSecurity_ok {t : Transfer} (h : SecurityAnswered t) :
    ∃ status id tarBytes, streamOneSecurity t = .ok (status, id, tarBytes) ∧ SecurityResult status id := by
  cases t with
  | raised text => exact h.elim
  | sent s =>
      obtain ⟨hprotocol, hstatus, hid, htime, hcode⟩ := h
      have hvalid : ¬ (reportedId s ≠ "" ∧ isBorgId (reportedId s) = false) := by
        rintro ⟨hne, hbad⟩
        rcases hid with hid | hid
        · exact hne hid
        · rw [hid] at hbad
          nomatch hbad
      have hall := reportedId_truthy hid
      rcases hstatus with ⟨hstatus, hne⟩ | hstatus | hstatus
      · refine ⟨"saved", truthy (some (reportedId s)), s.payload, ?_, hall, .inl ⟨rfl, ?_⟩⟩
        · simp [streamOneSecurity, hprotocol, hstatus, hid.resolve_left hne, hne, htime, hcode]
        · rw [truthy_eq_some.mpr ⟨rfl, hne⟩]
          exact Option.some_ne_none _
      · refine ⟨"missing", truthy (some (reportedId s)), 0, ?_, hall, .inr (.inl rfl)⟩
        simp [streamOneSecurity, hprotocol, hstatus, hvalid, htime, hcode]
      · refine ⟨"unresolved", truthy (some (reportedId s)), 0, ?_, hall, .inr (.inr rfl)⟩
        simp [streamOneSecurity, hprotocol, hstatus, hvalid, htime, hcode]

theorem streamOneSecurity_error {t : Transfer} (h : ¬ SecurityAnswered t) :
    ∃ text, streamOneSecurity t = .error text := by
  cases t with
  | raised text => exact ⟨text, rfl⟩
  | sent s =>
      rw [streamOneSecurity]
      split_ifs with hheader hid hpresent htime hcode
      any_goals exact ⟨_, rfl⟩
      all_goals
        rw [not_or, not_not, not_not] at hheader
        rw [not_or, not_not] at hcode
        rw [not_and_or, not_not, Bool.not_eq_false] at hid
        refine (h ⟨hheader.1, ?_, hid, eq_false_of_ne_true htime, hcode.1⟩).elim
        rcases hheader.2 with hstatus | hstatus | hstatus | hstatus
        exacts [.inl ⟨hstatus, fun hempty => hpresent ⟨hstatus, hempty⟩⟩, .inr (.inl hstatus), .inr (.inr hstatus),
          (hcode.2 hstatus).elim]

/-- The reader's item has the host, the repository, the states and the paths of
the writer's entry. -/
structure Agrees (raw : RawEntry) (item : Item) : Prop where
  host : raw.hostId = some item.hostId
  repository : raw.repositoryId = some item.repositoryId
  status : raw.status = some item.status
  securityStatus : raw.securityStatus = some item.securityStatus
  archivePath : raw.archivePath = item.archivePath
  securityArchivePath : raw.securityArchivePath = item.securityArchivePath

/-- What an entry of the writer has in it when nothing failed on the way. -/
structure Consistent (target : Target) (raw : RawEntry) (status securityStatus : String) : Prop where
  host : raw.hostId = some (target.1.id : Int)
  repository : raw.repositoryId = some (target.2.id : Int)
  statusSet : raw.status = some status
  allowed : status ∈ allowedStatus
  securityStatusSet : raw.securityStatus = some securityStatus
  securityAllowed : securityStatus ∈ allowedSecurityStatus
  borgId : raw.borgRepositoryId.all isBorgId = true
  archivePath : raw.archivePath = if status = "saved" then
    some (clientArchivePath clientCacheArchiveRoot target) else none
  securityArchivePath : raw.securityArchivePath =
    if securityStatus = "saved" then some (clientArchivePath clientSecurityArchiveRoot target) else none
  identified : securityStatus = "saved" → raw.borgRepositoryId ≠ none

variable {target : Target} {raw : RawEntry} {status securityStatus : String}

theorem Consistent.readKey (h : Consistent target raw status securityStatus) : readKey raw = .ok target.key := by
  have hhost := target.1.positive
  have hrepository := target.2.positive
  rw [ClientCacheManifest.readKey, h.host, h.repository]
  simp only
  rw [if_neg (by omega)]
  rfl

theorem Consistent.readArchivePath (h : Consistent target raw status securityStatus) :
    readArchivePath target.key status raw = .ok raw.archivePath := by
  rw [ClientCacheManifest.readArchivePath, h.archivePath]
  split
  · rw [readPath_clientArchivePath fileRoot_cache]
    rfl
  · rfl

theorem Consistent.readSecurityPaths (h : Consistent target raw status securityStatus) :
    ∃ path, readSecurityPaths target.key securityStatus raw.borgRepositoryId raw = .ok
      (raw.securityArchivePath, path) := by
  rw [ClientCacheManifest.readSecurityPaths.eq_def, h.securityArchivePath]
  by_cases hsaved : securityStatus = "saved"
  · obtain ⟨id, hid⟩ := Option.ne_none_iff_exists'.mp (h.identified hsaved)
    rw [if_pos hsaved, if_pos hsaved, hid]
    simp only [readPath_clientArchivePath fileRoot_security]
    exact ⟨_, rfl⟩
  · rw [if_neg hsaved, if_neg hsaved]
    exact ⟨none, rfl⟩

/-- The reader takes a consistent entry of a target that it has not seen. -/
theorem Consistent.readEntry (h : Consistent target raw status securityStatus) {seen : List (Nat × Nat)}
    (hnew : target.key ∉ seen) :
    ∃ item, readEntry seen raw = .ok item ∧ Agrees raw item ∧ (item.hostId, item.repositoryId) = target.key := by
  obtain ⟨path, hpath⟩ := h.readSecurityPaths
  have hstatus : readStatus raw = .ok status := by
    rw [readStatus, h.statusSet, Option.getD_some, if_pos h.allowed]
  have hsecurity : readSecurityStatus raw = .ok securityStatus := by
    rw [readSecurityStatus, h.securityStatusSet, Option.getD_some, if_pos h.securityAllowed]
  refine ⟨itemOf raw target.key status securityStatus raw.borgRepositoryId raw.archivePath
    (raw.securityArchivePath, path),
    ?_, ⟨h.host, h.repository, h.statusSet, h.securityStatusSet, rfl, rfl⟩, rfl⟩
  rw [ClientCacheManifest.readEntry, h.readKey, hstatus, hsecurity, readBorgId_ok h.borgId]
  simp only [bind, Except.bind, checkNew, if_neg hnew, h.readArchivePath, hpath]
  rfl

/-- An entry with a warning is rejected, whatever came before it. -/
theorem readEntry_warning (hwarning : raw.securityStatus = some "warning") (seen : List (Nat × Nat)) (item : Item) :
    readEntry seen raw ≠ .ok item := by
  have hsecurity : readSecurityStatus raw =
      .error "Client-Sicherheitsstatus-Metadaten enthalten einen ungültigen Status" := by
    rw [readSecurityStatus, hwarning, Option.getD_some, if_neg (by decide)]
  intro h
  obtain ⟨_, _, h⟩ := bind_ok h
  obtain ⟨_, _, h⟩ := bind_ok h
  obtain ⟨_, _, h⟩ := bind_ok h
  obtain ⟨_, hstatus, _⟩ := bind_ok h
  rw [hsecurity] at hstatus
  nomatch hstatus

theorem exportTarget_ok {outcome : Outcome} (h : Answered outcome) :
    ∃ cacheStatus tarBytes securityStatus id securityTarBytes, SecurityResult securityStatus id ∧
      exportTarget outcome = .ok ((cacheStatus, tarBytes), securityStatus, id, securityTarBytes) := by
  obtain ⟨cacheStatus, tarBytes, hcache⟩ := streamOneCache_ok h.1
  obtain ⟨securityStatus, id, securityTarBytes, hsecurity, hresult⟩ := streamOneSecurity_ok h.2
  refine ⟨cacheStatus, tarBytes, securityStatus, id, securityTarBytes, hresult, ?_⟩
  rw [exportTarget, hcache, hsecurity]
  rfl

theorem exportTarget_error {outcome : Outcome} (h : ¬ Answered outcome) :
    ∃ text, exportTarget outcome = .error text := by
  rw [exportTarget]
  by_cases hcache : CacheAnswered outcome.cache
  · obtain ⟨cacheStatus, tarBytes, hok⟩ := streamOneCache_ok hcache
    obtain ⟨text, herror⟩ := streamOneSecurity_error (fun hsecurity => h ⟨hcache, hsecurity⟩)
    exact ⟨text, by rw [hok, herror]; rfl⟩
  · obtain ⟨text, herror⟩ := streamOneCache_error hcache
    exact ⟨text, by rw [herror]; rfl⟩

theorem consistent_skipped (target : Target) (collectedAt : String) :
    Consistent target (skippedEntry (baseMetadata target collectedAt)) "skipped_disabled" "skipped_disabled" where
  host := rfl
  repository := rfl
  statusSet := rfl
  allowed := by decide
  securityStatusSet := rfl
  securityAllowed := by decide
  borgId := rfl
  archivePath := rfl
  securityArchivePath := rfl
  identified := fun h => absurd h (by decide)

/-- The part of a consistent entry that the cache export decides. -/
structure CacheRecorded (target : Target) (raw : RawEntry) (status : String) : Prop where
  host : raw.hostId = some (target.1.id : Int)
  repository : raw.repositoryId = some (target.2.id : Int)
  statusSet : raw.status = some status
  allowed : status ∈ allowedStatus
  archivePath : raw.archivePath = if status = "saved" then
    some (clientArchivePath clientCacheArchiveRoot target) else none
  unsecured : raw.securityArchivePath = none

theorem cacheRecorded_withCache (target : Target) (collectedAt cacheStatus : String) (tarBytes : Nat) :
    ∃ status, CacheRecorded target
      (withCache target (baseMetadata target collectedAt) cacheStatus tarBytes) status := by
  rw [withCache]
  split
  · exact ⟨"missing", rfl, rfl, rfl, by decide, (if_neg (by decide)).symm, rfl⟩
  · exact ⟨"saved", rfl, rfl, rfl, by decide, (if_pos rfl).symm, rfl⟩

theorem consistent_withSecurity (h : CacheRecorded target raw status) {id : Option String}
    (hresult : SecurityResult securityStatus id) (securityTarBytes : Nat) :
    Consistent target (withSecurity target raw securityStatus id securityTarBytes) status securityStatus := by
  obtain ⟨hid, hstatus⟩ := hresult
  have hallowed : securityStatus ∈ allowedSecurityStatus := by
    rcases hstatus with ⟨rfl, _⟩ | rfl | rfl <;> decide
  have hidentified : securityStatus = "saved" → id ≠ none := by
    rintro rfl
    rcases hstatus with ⟨_, hne⟩ | hmissing | hunresolved
    exacts [hne, absurd hmissing (by decide), absurd hunresolved (by decide)]
  rw [withSecurity]
  split
  next hsaved =>
    exact ⟨h.host, h.repository, h.statusSet, h.allowed, rfl, hallowed, hid, h.archivePath,
      (if_pos hsaved).symm, hidentified⟩
  next hnot =>
    exact ⟨h.host, h.repository, h.statusSet, h.allowed, rfl, hallowed, hid, h.archivePath,
      h.unsecured.trans (if_neg hnot).symm, hidentified⟩

/-- Every target whose device answers gets an entry that the reader takes. -/
theorem consistent_collectTarget {outcome : Outcome} (target : Target)
    (h : target.1.enabled = true → Answered outcome) :
    ∃ status securityStatus, Consistent target (collectTarget outcome target) status securityStatus := by
  rw [collectTarget]
  by_cases henabled : target.1.enabled = false
  · rw [if_pos henabled]
    exact ⟨_, _, consistent_skipped target outcome.collectedAt⟩
  · obtain ⟨cacheStatus, tarBytes, securityStatus, id, securityTarBytes, hresult, hexport⟩ :=
      exportTarget_ok (h (Bool.not_eq_false _ ▸ henabled))
    obtain ⟨status, hrecorded⟩ := cacheRecorded_withCache target outcome.collectedAt cacheStatus tarBytes
    rw [if_neg henabled, hexport]
    exact ⟨status, securityStatus, consistent_withSecurity hrecorded hresult securityTarBytes⟩

theorem warning_collectTarget {outcome : Outcome} {target : Target} (henabled : target.1.enabled = true)
    (h : ¬ Answered outcome) : (collectTarget outcome target).securityStatus = some "warning" := by
  obtain ⟨text, herror⟩ := exportTarget_error h
  rw [collectTarget, if_neg (by simp [henabled]), herror]
  rfl

theorem mem_unseen {seen : List (Nat × Nat)} {targets : List Target} {target : Target}
    (h : target ∈ unseen seen targets) :
    target.key ∉ seen := by
  induction targets generalizing seen with
  | nil => exact (List.not_mem_nil h).elim
  | cons first rest ih =>
      rw [unseen] at h
      split at h
      · exact ih h
      next hnew =>
        rcases List.mem_cons.mp h with rfl | h
        · exact hnew
        · exact fun hmem => ih h (List.mem_cons_of_mem _ hmem)

/-- No device and repository is collected twice. -/
theorem unseen_nodup (seen : List (Nat × Nat)) (targets : List Target) :
    ((unseen seen targets).map Target.key).Nodup := by
  induction targets generalizing seen with
  | nil => exact List.nodup_nil
  | cons first rest ih =>
      rw [unseen]
      split
      · exact ih seen
      · refine List.nodup_cons.mpr ⟨fun hmem => ?_, ih _⟩
        obtain ⟨target, htarget, hkey⟩ := List.mem_map.mp hmem
        exact mem_unseen htarget (hkey ▸ List.mem_cons_self ..)

/-- The reader takes all entries, one item for each, as long as the devices of
the enabled targets answer. -/
theorem readEntries_collected {outcomes : Target → Outcome} {seen : List (Nat × Nat)} {targets : List Target}
    (hnodup : (targets.map Target.key).Nodup) (hnew : ∀ target ∈ targets, target.key ∉ seen)
    (hanswered : ∀ target ∈ targets, target.1.enabled = true → Answered (outcomes target)) :
    ∃ items, readEntries seen (targets.map (fun target => collectTarget (outcomes target) target)) = .ok items ∧
      List.Forall₂ Agrees (targets.map (fun target => collectTarget (outcomes target) target)) items := by
  induction targets generalizing seen with
  | nil => exact ⟨[], rfl, .nil⟩
  | cons target rest ih =>
      obtain ⟨hfresh, hnodup⟩ := List.nodup_cons.mp hnodup
      obtain ⟨status, securityStatus, hconsistent⟩ :=
        consistent_collectTarget target (hanswered target (List.mem_cons_self ..))
      obtain ⟨item, hitem, hagrees, hkey⟩ := hconsistent.readEntry (hnew target (List.mem_cons_self ..))
      have hnext : ∀ other ∈ rest, other.key ∉ target.key :: seen := by
        intro other hother hmem
        rcases List.mem_cons.mp hmem with heq | hmem
        · exact hfresh (heq ▸ List.mem_map_of_mem hother)
        · exact hnew other (List.mem_cons_of_mem _ hother) hmem
      obtain ⟨items, hitems, hall⟩ :=
        ih hnodup hnext (fun other hother => hanswered other (List.mem_cons_of_mem _ hother))
      refine ⟨item :: items, ?_, .cons hagrees hall⟩
      rw [List.map_cons, readEntries, hitem]
      simp only [bind, Except.bind, hkey, hitems]
      rfl

theorem readEntries_warning {raws : List RawEntry} (hmem : raw ∈ raws) (hwarning : raw.securityStatus = some "warning")
    (seen : List (Nat × Nat)) (items : List Item) : readEntries seen raws ≠ .ok items := by
  induction raws generalizing seen items with
  | nil => exact (List.not_mem_nil hmem).elim
  | cons first rest ih =>
      intro h
      obtain ⟨item, hitem, h⟩ := bind_ok h
      rcases List.mem_cons.mp hmem with rfl | hmem
      · exact readEntry_warning hwarning seen item hitem
      · obtain ⟨others, hothers, _⟩ := bind_ok h
        exact ih hmem _ others hothers

/-- The reader accepts the manifest and gives every saved entry on. -/
def ManifestRead (manifest : CacheManifest) : Prop :=
  ∃ items, clientCacheEntriesFromManifest manifest = .ok items ∧
    ∀ raw ∈ manifest.clientBorgCaches, raw.status = some "saved" → ∃ item ∈ items, Agrees raw item

theorem collected_length (db : Database) (hostIds : Option (List Nat)) (outcomes : Target → Outcome) :
    (collectClientBorgCaches db hostIds outcomes).length = (targetRows db hostIds).length := List.length_map ..

theorem entriesFromManifest_device (sourceHostId : Option Nat) (entries : List RawEntry) (items : List Item) :
    clientCacheEntriesFromManifest (deviceManifest sourceHostId entries) = .ok items ↔
      entries.length ≤ maxManifestEntries ∧ readEntries [] entries = .ok items := by
  rw [clientCacheEntriesFromManifest, if_neg (by simp [deviceManifest])]
  change (if entries.length > maxManifestEntries then _ else readEntries [] entries) = .ok items ↔ _
  by_cases hlimit : entries.length > maxManifestEntries
  · rw [if_pos hlimit]
    exact ⟨fun h => (nomatch h), fun h => absurd h.1 (Nat.not_le.mpr hlimit)⟩
  · rw [if_neg hlimit]
    exact ⟨fun h => ⟨Nat.not_lt.mp hlimit, h⟩, And.right⟩

/-- The manifest of a device artifact is read back exactly when no export of an
enabled target failed and the reader's limit holds. -/
theorem device_manifest_read_iff (db : Database) (hostIds : Option (List Nat)) (outcomes : Target → Outcome)
    (sourceHostId : Option Nat) :
    ManifestRead (deviceManifest sourceHostId (collectClientBorgCaches db hostIds outcomes)) ↔
      (∀ target ∈ targetRows db hostIds, target.1.enabled = true → Answered (outcomes target)) ∧
        (targetRows db hostIds).length ≤ maxManifestEntries := by
  rw [← collected_length db hostIds outcomes]
  constructor
  · rintro ⟨items, hread, -⟩
    obtain ⟨hlimit, hitems⟩ := (entriesFromManifest_device ..).mp hread
    refine ⟨fun target htarget henabled => ?_, hlimit⟩
    by_contra hfailed
    have hmem : collectTarget (outcomes target) target ∈ collectClientBorgCaches db hostIds outcomes :=
      List.mem_map_of_mem (f := fun target => collectTarget (outcomes target) target) htarget
    exact readEntries_warning hmem (warning_collectTarget henabled hfailed) [] items hitems
  · rintro ⟨hanswered, hlimit⟩
    have hnodup : ((targetRows db hostIds).map Target.key).Nodup := unseen_nodup [] _
    obtain ⟨items, hitems, hall⟩ := readEntries_collected hnodup (fun _ _ => List.not_mem_nil) hanswered
    refine ⟨items, (entriesFromManifest_device ..).mpr ⟨hlimit, hitems⟩, fun raw hraw _ => ?_⟩
    obtain ⟨i, hi, rfl⟩ := List.getElem_of_mem hraw
    exact ⟨_, List.getElem_mem (hall.length_eq ▸ hi), (List.forall₂_iff_get.mp hall).2 i hi _⟩

theorem createCacheBackup_ok {db : Database} {includeManager includeClient : Bool} {clientHostIds : List Nat}
    {outcomes : Target → Outcome} {manifest : CacheManifest}
    (h : createCacheBackup db includeManager includeClient clientHostIds outcomes = .ok manifest) :
    manifest = managerManifest ∨
      ∃ hostId, manifest = deviceManifest (some hostId) (collectClientBorgCaches db (some [hostId]) outcomes) := by
  rw [createCacheBackup] at h
  split at h
  · nomatch h
  · split at h
    · cases h
      exact .inl rfl
    · split at h
      · split at h
        · cases h
          exact .inr ⟨_, rfl⟩
        · nomatch h
      · nomatch h

def exampleHost : Host where
  id := 1
  name := "client"
  enabled := true
  borgVersion := none
  positive := Nat.one_pos

def exampleRepository : Repository := ⟨1, "first", Nat.one_pos⟩

def failedRepository : Repository := ⟨2, "second", Nat.two_pos⟩

def exampleDatabase : Database where
  hosts := [exampleHost]
  repositories := [exampleRepository, failedRepository]
  jobs := [⟨1, 1, 1⟩, ⟨2, 1, 2⟩]

/-- The first repository's cache and security directory arrive; the connection
for the second is refused. -/
def exampleOutcomes (target : Target) : Outcome where
  collectedAt := "2026-01-01T00:00:00+00:00"
  cache :=
    if target.2.id = 1 then .sent ⟨"BBM_CLIENT_CACHE_V1", "PRESENT", "", 10240, 900, false, 0, ""⟩
    else .raised "Connection refused"
  security := .sent ⟨"BBM_CLIENT_SECURITY_V1", "MISSING", "-", 0, 900, false, 0, ""⟩

theorem targetRows_example : targetRows exampleDatabase (some [1]) =
    [(exampleHost, exampleRepository), (exampleHost, failedRepository)] := rfl

/-- One failed export is enough to make the whole artifact unreadable. -/
theorem device_manifest_rejected : ¬ ∀ (db : Database) (hostIds : Option (List Nat)) (outcomes : Target → Outcome)
    (sourceHostId : Option Nat),
    (∃ raw ∈ collectClientBorgCaches db hostIds outcomes, raw.status = some "saved") →
      ManifestRead (deviceManifest sourceHostId (collectClientBorgCaches db hostIds outcomes)) := by
  intro h
  have hsaved : ∃ raw ∈ collectClientBorgCaches exampleDatabase (some [1]) exampleOutcomes,
      raw.status = some "saved" := by
    rw [collectClientBorgCaches, targetRows_example]
    exact ⟨_, List.mem_cons_self .., rfl⟩
  obtain ⟨items, hread, -⟩ := h exampleDatabase (some [1]) exampleOutcomes (some 1) hsaved
  have hitems := ((entriesFromManifest_device ..).mp hread).2
  rw [collectClientBorgCaches, targetRows_example] at hitems
  have hmem := List.mem_singleton_self (collectTarget (exampleOutcomes (exampleHost, failedRepository))
    (exampleHost, failedRepository))
  exact readEntries_warning (List.mem_cons_of_mem _ hmem) rfl [] items hitems

end BorgManager.ManifestAgreement
