import BorgManager.Exceptions
import BorgManager.ExecutionKeys
import Mathlib.Data.List.Sort
import Mathlib.Data.List.Dedup
import Mathlib.Data.List.ReduceOption

namespace BorgManager.HostAccess

open Exceptions PythonText Records ExecutionKeys

def isKeyChar (c : Char) : Bool :=
  ('A' ≤ c && c ≤ 'Z') || ('a' ≤ c && c ≤ 'z') || ('0' ≤ c && c ≤ '9') || c == '+' || c == '/' || c == '='

/-- `ssh-ed25519`, the only kind of key. -/
def keyKind : List Char := ['s', 's', 'h', '-', 'e', 'd', '2', '5', '5', '1', '9']

def keyText (body comment : List Char) : List Char := keyKind ++ ' ' :: (body ++ ' ' :: comment)

/-- The key of a device, with the comment of the access it is used for. -/
def normalizePublicKey (publicKey comment : String) : Except String String :=
  match splitWords publicKey.toList with
  | kind :: body :: _ =>
      if kind = keyKind ∧ body.all isKeyChar = true then
        .ok (String.ofList (keyText body comment.toList))
      else .error "Device returned an invalid repository public key"
  | _ => .error "Device returned an invalid repository public key"

structure HostRow where
  id : Nat
  enabled : Bool
  repositoryReady : Bool
  deriving DecidableEq

structure JobRow where
  hostId : Nat
  repositoryId : Nat
  deriving DecidableEq

structure HostRepositoryAccess where
  id : Nat
  hostId : Nat
  repositoryId : Nat
  publicKey : Option String
  deriving DecidableEq

def JobRow.pair (job : JobRow) : Nat × Nat := (job.hostId, job.repositoryId)

def HostRepositoryAccess.pair (access : HostRepositoryAccess) : Nat × Nat := (access.hostId, access.repositoryId)

/-- A key as the only writer of the column leaves it. -/
def Normalized (publicKey : String) : Prop := ∃ raw comment, normalizePublicKey raw comment = .ok publicKey

/-- The tables behind the repository access of the devices, with the
constraints that the database enforces. -/
structure Database where
  hosts : List HostRow
  repositories : List Repository
  jobs : List JobRow
  accesses : List HostRepositoryAccess
  hostIds : (hosts.map HostRow.id).Nodup
  repositoryIds : (repositories.map Repository.id).Nodup
  jobHosts : ∀ job ∈ jobs, job.hostId ∈ hosts.map HostRow.id
  jobRepositories : ∀ job ∈ jobs, job.repositoryId ∈ repositories.map Repository.id
  uniquePairs : (accesses.map HostRepositoryAccess.pair).Nodup
  accessHosts : ∀ access ∈ accesses, access.hostId ∈ hosts.map HostRow.id
  accessRepositories : ∀ access ∈ accesses, access.repositoryId ∈ repositories.map Repository.id
  normalized : ∀ access ∈ accesses, ∀ publicKey, access.publicKey = some publicKey → Normalized publicKey

def findHost (db : Database) (id : Nat) : Option HostRow := db.hosts.find? (fun host => host.id == id)

def findRepository (db : Database) (id : Nat) : Option Repository :=
  db.repositories.find? (fun repository => repository.id == id)

/-- The accesses that the jobs of managed repositories need. -/
def desiredPairs (db : Database) : List (Nat × Nat) :=
  ((db.jobs.filter (fun job =>
    (findRepository db job.repositoryId).any (fun repository => repository.storagePath.isSome))).map JobRow.pair).dedup

def existingPairs (existing : List HostRepositoryAccess) : List (Nat × Nat) :=
  existing.map HostRepositoryAccess.pair

def dropped (desired : List (Nat × Nat)) (existing : List HostRepositoryAccess) : List Nat :=
  (existing.filter (fun row => !desired.contains row.pair)).map HostRepositoryAccess.id

def nextAccessId (db : Database) : Nat := (db.accesses.map HostRepositoryAccess.id).max?.getD 0 + 1

def added (db : Database) (desired : List (Nat × Nat)) (existing : List HostRepositoryAccess) :
    List HostRepositoryAccess :=
  ((desired.filter (fun pair => !(existingPairs existing).contains pair)).zipIdx).map (fun entry =>
    ⟨nextAccessId db + entry.2, entry.1.1, entry.1.2, none⟩)

def assignedRows (db : Database) (desired : List (Nat × Nat)) (existing : List HostRepositoryAccess) :
    List HostRepositoryAccess :=
  db.accesses.filter (fun row => !(dropped desired existing).contains row.id) ++ added db desired existing

/-- A host is ready when it has accesses to enabled repositories and a key for
each of them. -/
def hostReady (db : Database) (rows : List HostRepositoryAccess) (host : HostRow) : HostRow :=
  let assignments := rows.filter (fun row =>
    row.hostId == host.id && (findRepository db row.repositoryId).any Repository.enabled)
  { host with
    repositoryReady := assignments != [] && assignments.all (fun row => (truthy row.publicKey).isSome) }

@[simp] theorem hostReady_ids (db : Database) (rows : List HostRepositoryAccess) :
    (db.hosts.map (hostReady db rows)).map HostRow.id = db.hosts.map HostRow.id := by
  rw [List.map_map]
  rfl

theorem added_publicKey {db : Database} {desired : List (Nat × Nat)} {existing : List HostRepositoryAccess}
    {row : HostRepositoryAccess} (h : row ∈ added db desired existing) : row.publicKey = none := by
  obtain ⟨entry, _, rfl⟩ := List.mem_map.mp h
  rfl

/-- The transaction of `sync_repository_access_assignments`, on the rows that
it has read before. `none` is a violated constraint. -/
def syncAssignments (db : Database) (desired : List (Nat × Nat)) (existing : List HostRepositoryAccess) :
    Option Database :=
  if h : ((assignedRows db desired existing).map HostRepositoryAccess.pair).Nodup ∧
      ∀ row ∈ assignedRows db desired existing,
        row.hostId ∈ db.hosts.map HostRow.id ∧ row.repositoryId ∈ db.repositories.map Repository.id then
    some { db with
      hosts := db.hosts.map (hostReady db (assignedRows db desired existing))
      accesses := assignedRows db desired existing
      hostIds := by rw [hostReady_ids]; exact db.hostIds
      jobHosts := by rw [hostReady_ids]; exact db.jobHosts
      uniquePairs := h.1
      accessHosts := by rw [hostReady_ids]; exact fun row hrow => (h.2 row hrow).1
      accessRepositories := fun row hrow => (h.2 row hrow).2
      normalized := by
        intro row hrow publicKey hkey
        rcases List.mem_append.mp hrow with hold | hnew
        · exact db.normalized row (List.mem_of_mem_filter hold) publicKey hkey
        · rw [added_publicKey hnew] at hkey
          cases hkey }
  else none

/-- The disk with the managed repositories. -/
structure Disk where
  root : Path
  resolve : String → Path

variable (disk : Disk)

def accessComment (access : HostRepositoryAccess) : String :=
  "bbm-access-h" ++ toString access.hostId ++ "-r" ++ toString access.repositoryId

def forcedLine (repositoryPath : Path) (key : String) : String :=
  "restrict,command=\"/usr/local/bin/bbm-borg-serve --repository " ++ pathText repositoryPath ++ "\" " ++ key

/-- One pass of the loop of `rebuild_repository_authorized_keys`. -/
def accessLine (db : Database) (access : HostRepositoryAccess) : Except String (Option String) :=
  match findHost db access.hostId, findRepository db access.repositoryId with
  | some host, some repository =>
      match truthy access.publicKey, truthy repository.storagePath with
      | some publicKey, some storagePath =>
          if host.enabled && repository.enabled then
            if disk.resolve storagePath = disk.root ∨ ¬ disk.root <+: disk.resolve storagePath then .ok none
            else (normalizePublicKey publicKey (accessComment access)).map (fun key =>
              some (forcedLine (disk.resolve storagePath) key))
          else .ok none
      | _, _ => .ok none
  | _, _ => .error "access without host or repository"

def accessOrder (a b : HostRepositoryAccess) : Prop :=
  a.hostId < b.hostId ∨ (a.hostId = b.hostId ∧ a.repositoryId ≤ b.repositoryId)

instance : DecidableRel accessOrder :=
  fun a b => inferInstanceAs (Decidable (a.hostId < b.hostId ∨ (a.hostId = b.hostId ∧ a.repositoryId ≤ b.repositoryId)))

def rebuildLines (db : Database) : Except String (List String) :=
  ((db.accesses.insertionSort accessOrder).mapM (accessLine disk db)).map List.reduceOption

def fileText (lines : List String) : String := String.join (lines.map (fun line => line ++ "\n"))

/-- The access has a key, its host and its repository are enabled, and the
repository lies strictly below the repository root. -/
def Entitled (db : Database) (access : HostRepositoryAccess) : Prop :=
  access.publicKey.isSome = true ∧
  (∃ host ∈ db.hosts, host.id = access.hostId ∧ host.enabled = true) ∧
  ∃ repository ∈ db.repositories, repository.id = access.repositoryId ∧ repository.enabled = true ∧
    ∃ storagePath, truthy repository.storagePath = some storagePath ∧
      disk.root <+: disk.resolve storagePath ∧ disk.resolve storagePath ≠ disk.root

/-- The line restricts the key of the access to its repository. -/
def IsAccessLine (db : Database) (access : HostRepositoryAccess) (line : String) : Prop :=
  ∃ repository ∈ db.repositories, repository.id = access.repositoryId ∧
    ∃ storagePath, truthy repository.storagePath = some storagePath ∧
      ∃ publicKey key, access.publicKey = some publicKey ∧
        normalizePublicKey publicKey (accessComment access) = .ok key ∧
        line = forcedLine (disk.resolve storagePath) key

/-- The text has one line for each entitled access, in the order of the hosts
and repositories, and no other line. -/
def FollowsDatabase (db : Database) (text : String) : Prop :=
  ∃ grants : List (HostRepositoryAccess × String), (grants.map Prod.fst).Nodup ∧
    (grants.map Prod.fst).Pairwise accessOrder ∧
    (∀ access, access ∈ grants.map Prod.fst ↔ access ∈ db.accesses ∧ Entitled disk db access) ∧
    (∀ grant ∈ grants, IsAccessLine disk db grant.1 grant.2) ∧ text = fileText (grants.map Prod.snd)

variable {disk} {db : Database}

theorem isKeyChar_not_isSpace {c : Char} (h : isKeyChar c = true) : isSpace c = false := by
  simp only [isKeyChar, Char.le_def, Bool.or_eq_true, Bool.and_eq_true, decide_eq_true_eq, beq_iff_eq,
    UInt32.le_iff_toNat_le] at h
  have hn : 43 ≤ c.toNat ∧ c.toNat ≤ 122 := by
    rcases h with ((((h | h) | h) | rfl) | rfl) | rfl
    · exact ⟨le_trans (by decide) h.1, le_trans h.2 (by decide)⟩
    · exact ⟨le_trans (by decide) h.1, le_trans h.2 (by decide)⟩
    · exact ⟨le_trans (by decide) h.1, le_trans h.2 (by decide)⟩
    · decide
    · decide
    · decide
  simp only [isSpace, Bool.or_eq_false_iff, Bool.and_eq_false_iff, decide_eq_false_iff_not, beq_eq_false_iff_ne]
  omega

theorem splitWords_keyText {body : List Char} (hne : body ≠ []) (hbody : body.all isKeyChar = true)
    (comment : List Char) :
    splitWords (keyText body comment) = keyKind :: body :: splitWords comment := by
  have hkey (c : Char) (hc : c ∈ body) : isSpace c = false :=
    isKeyChar_not_isSpace (List.all_eq_true.mp hbody c hc)
  have hkind (c : Char) (hc : c ∈ keyKind) : isSpace c = false := by
    have hall : keyKind.all (fun c => !isSpace c) = true := by decide
    simpa using List.all_eq_true.mp hall c hc
  rw [keyText, splitWords_cons (by decide) hkind (by decide), splitWords_cons hne hkey (by decide)]

theorem normalizePublicKey_eq_ok {publicKey comment key : String}
    (h : normalizePublicKey publicKey comment = .ok key) :
    ∃ body, body ≠ [] ∧ body.all isKeyChar = true ∧ key = String.ofList (keyText body comment.toList) := by
  rw [normalizePublicKey] at h
  split at h
  · next kind body rest hwords =>
      split at h
      · next hc =>
          refine ⟨body, ?_, hc.2, (Except.ok.inj h).symm⟩
          have hmem : body ∈ splitWords publicKey.toList := by simp [hwords]
          simpa using (List.mem_filter.mp hmem).2
      · cases h
  · cases h

/-- A stored key passes the check again, whatever comment it gets. -/
theorem Normalized.normalizes {publicKey : String} (h : Normalized publicKey) (comment : String) :
    ∃ key, normalizePublicKey publicKey comment = .ok key := by
  obtain ⟨raw, first, hraw⟩ := h
  obtain ⟨body, hne, hbody, rfl⟩ := normalizePublicKey_eq_ok hraw
  refine ⟨String.ofList (keyText body comment.toList), ?_⟩
  rw [normalizePublicKey, String.toList_ofList, splitWords_keyText hne hbody]
  exact if_pos ⟨rfl, hbody⟩

theorem Normalized.truthy {publicKey : String} (h : Normalized publicKey) :
    PythonText.truthy (some publicKey) = some publicKey := by
  obtain ⟨raw, comment, hraw⟩ := h
  obtain ⟨body, _, _, rfl⟩ := normalizePublicKey_eq_ok hraw
  rw [truthy_eq_some]
  refine ⟨rfl, fun he => ?_⟩
  have hnil : keyText body comment.toList = [] := by simpa using congrArg String.toList he
  exact absurd (List.append_eq_nil_iff.mp hnil).1 (by decide)

theorem findHost_eq_some {id : Nat} {host : HostRow} :
    findHost db id = some host ↔ host ∈ db.hosts ∧ host.id = id := by
  constructor
  · intro h
    exact ⟨List.mem_of_find?_eq_some h, by simpa using List.find?_some h⟩
  · rintro ⟨hm, rfl⟩
    cases hf : findHost db host.id with
    | none =>
        have := List.find?_eq_none.mp hf host hm
        simp at this
    | some other =>
        have ho : other.id = host.id := by simpa using List.find?_some hf
        rw [List.inj_on_of_nodup_map db.hostIds (List.mem_of_find?_eq_some hf) hm ho]

theorem findRepository_eq_some {id : Nat} {repository : Repository} :
    findRepository db id = some repository ↔ repository ∈ db.repositories ∧ repository.id = id := by
  constructor
  · intro h
    exact ⟨List.mem_of_find?_eq_some h, by simpa using List.find?_some h⟩
  · rintro ⟨hm, rfl⟩
    cases hf : findRepository db repository.id with
    | none =>
        have := List.find?_eq_none.mp hf repository hm
        simp at this
    | some other =>
        have ho : other.id = repository.id := by simpa using List.find?_some hf
        rw [List.inj_on_of_nodup_map db.repositoryIds (List.mem_of_find?_eq_some hf) hm ho]

theorem exists_host {access : HostRepositoryAccess} (h : access ∈ db.accesses) :
    ∃ host, findHost db access.hostId = some host := by
  obtain ⟨host, hm, hid⟩ := List.mem_map.mp (db.accessHosts access h)
  exact ⟨host, findHost_eq_some.mpr ⟨hm, hid⟩⟩

theorem exists_repository {access : HostRepositoryAccess} (h : access ∈ db.accesses) :
    ∃ repository, findRepository db access.repositoryId = some repository := by
  obtain ⟨repository, hm, hid⟩ := List.mem_map.mp (db.accessRepositories access h)
  exact ⟨repository, findRepository_eq_some.mpr ⟨hm, hid⟩⟩

/-- The entitlement of an access, read off the rows that it refers to. -/
theorem entitled_iff {access : HostRepositoryAccess} {host : HostRow} {repository : Repository}
    (hhost : findHost db access.hostId = some host)
    (hrepository : findRepository db access.repositoryId = some repository) :
    Entitled disk db access ↔ access.publicKey.isSome = true ∧ host.enabled = true ∧ repository.enabled = true ∧
      ∃ storagePath, truthy repository.storagePath = some storagePath ∧
        disk.root <+: disk.resolve storagePath ∧ disk.resolve storagePath ≠ disk.root := by
  obtain ⟨hm, hid⟩ := findHost_eq_some.mp hhost
  obtain ⟨rm, rid⟩ := findRepository_eq_some.mp hrepository
  constructor
  · rintro ⟨hkey, ⟨h', hm', hid', hen⟩, r', rm', rid', ren, hpath⟩
    have hh : h' = host := List.inj_on_of_nodup_map db.hostIds hm' hm (hid'.trans hid.symm)
    have hr : r' = repository := List.inj_on_of_nodup_map db.repositoryIds rm' rm (rid'.trans rid.symm)
    subst hh hr
    exact ⟨hkey, hen, ren, hpath⟩
  · rintro ⟨hkey, hen, ren, hpath⟩
    exact ⟨hkey, ⟨host, hm, hid, hen⟩, repository, rm, rid, ren, hpath⟩

variable (disk) in
/-- The loop gives a line to exactly the entitled accesses, and never raises. -/
theorem accessLine_spec {access : HostRepositoryAccess} (h : access ∈ db.accesses) :
    ∃ line, accessLine disk db access = .ok line ∧ (line.isSome = true ↔ Entitled disk db access) ∧
      ∀ text, line = some text → IsAccessLine disk db access text := by
  obtain ⟨host, hhost⟩ := exists_host h
  obtain ⟨repository, hrepository⟩ := exists_repository h
  obtain ⟨rm, rid⟩ := findRepository_eq_some.mp hrepository
  rw [entitled_iff hhost hrepository]
  simp only [accessLine, hhost, hrepository]
  cases hkey : access.publicKey with
  | none => exact ⟨none, rfl, by simp, nofun⟩
  | some publicKey =>
      have hnorm := db.normalized access h publicKey hkey
      rw [hnorm.truthy]
      cases hpath : truthy repository.storagePath with
      | none => exact ⟨none, rfl, by simp, nofun⟩
      | some storagePath =>
          simp only
          split
          · next hen =>
              rw [Bool.and_eq_true] at hen
              split
              · next hout =>
                  refine ⟨none, rfl, ?_, nofun⟩
                  simp only [Option.isSome_none, Bool.false_eq_true, false_iff, not_and, not_exists]
                  rintro _ _ _ _ he hbelow
                  cases he
                  rcases hout with hout | hout
                  · exact fun hne => hne hout
                  · exact absurd hbelow hout
              · next hin =>
                  obtain ⟨key, hnormal⟩ := hnorm.normalizes (accessComment access)
                  rw [not_or, not_not] at hin
                  rw [hnormal]
                  refine ⟨_, rfl, ?_, ?_⟩
                  · simp only [Option.isSome_some, true_iff]
                    exact ⟨trivial, hen.1, hen.2, storagePath, rfl, hin.2, hin.1⟩
                  · rintro _ ⟨⟩
                    exact ⟨repository, rm, rid, storagePath, hpath, publicKey, key, hkey, hnormal, rfl⟩
          · next hen =>
              refine ⟨none, rfl, ?_, nofun⟩
              simp only [Option.isSome_none, Bool.false_eq_true, false_iff, not_and]
              intro _ hh hr
              exact absurd (by rw [hh, hr]; rfl) hen

@[simp] theorem added_pairs (db : Database) (desired : List (Nat × Nat)) (existing : List HostRepositoryAccess) :
    (added db desired existing).map HostRepositoryAccess.pair =
      desired.filter (fun pair => !(existingPairs existing).contains pair) := by
  rw [added, List.map_map]
  exact List.zipIdx_map_fst 0 _

theorem desired_references {pair : Nat × Nat} (h : pair ∈ desiredPairs db) :
    pair.1 ∈ db.hosts.map HostRow.id ∧ pair.2 ∈ db.repositories.map Repository.id := by
  obtain ⟨job, hjob, rfl⟩ := List.mem_map.mp (List.mem_dedup.mp h)
  have hm := List.mem_of_mem_filter hjob
  exact ⟨db.jobHosts job hm, db.jobRepositories job hm⟩

theorem syncAssignments_current (db : Database) :
    (syncAssignments db (desiredPairs db) db.accesses).isSome = true := by
  rw [syncAssignments, dif_pos]
  · rfl
  constructor
  · rw [assignedRows, List.map_append, added_pairs]
    refine List.Nodup.append ?_ ((List.nodup_dedup _).filter _) ?_
    · exact db.uniquePairs.sublist (List.Sublist.map _ List.filter_sublist)
    · intro pair hold hnew
      obtain ⟨row, hrow, rfl⟩ := List.mem_map.mp hold
      have hnot := (List.mem_filter.mp hnew).2
      rw [Bool.not_eq_true', List.contains_eq_mem, decide_eq_false_iff_not] at hnot
      exact hnot (List.mem_map_of_mem (List.mem_of_mem_filter hrow))
  · intro row hrow
    rcases List.mem_append.mp hrow with hold | hnew
    · have hm := List.mem_of_mem_filter hold
      exact ⟨db.accessHosts row hm, db.accessRepositories row hm⟩
    · have hpair : row.pair ∈ (added db (desiredPairs db) db.accesses).map HostRepositoryAccess.pair :=
        List.mem_map_of_mem hnew
      rw [added_pairs] at hpair
      exact desired_references (List.mem_of_mem_filter hpair)

theorem filterMap_fst_sublist {α β : Type} (f : α → Option β) (xs : List α) :
    ((xs.filterMap (fun x => (f x).map (fun y => (x, y)))).map Prod.fst).Sublist xs := by
  induction xs with
  | nil => exact .slnil
  | cons x xs ih =>
      cases hx : f x with
      | none => simpa [hx] using ih.cons x
      | some y => simpa [hx] using ih.cons_cons x

instance : IsTrans HostRepositoryAccess accessOrder where
  trans a b c hab hbc := by
    simp only [accessOrder] at *
    omega

instance : Std.Total (α := HostRepositoryAccess) accessOrder where
  total a b := by
    simp only [accessOrder]
    omega

/-- A rebuild never raises, and its lines follow the database that it reads. -/
theorem rebuildLines_spec (disk : Disk) (db : Database) :
    ∃ lines, rebuildLines disk db = .ok lines ∧ FollowsDatabase disk db (fileText lines) := by
  have hmem (access : HostRepositoryAccess) :
      access ∈ db.accesses.insertionSort accessOrder ↔ access ∈ db.accesses := List.mem_insertionSort _
  have hnodup : (db.accesses.insertionSort accessOrder).Nodup :=
    (List.perm_insertionSort _ _).nodup_iff.mpr (db.uniquePairs.of_map _)
  have hline (access : HostRepositoryAccess) (h : access ∈ db.accesses.insertionSort accessOrder) :
      accessLine disk db access = .ok ((accessLine disk db access).toOption.join) := by
    obtain ⟨line, hline, _⟩ := accessLine_spec disk ((hmem access).mp h)
    rw [hline]
    rfl
  refine ⟨_, by rw [rebuildLines, mapM_of_ok hline]; rfl, ?_⟩
  refine ⟨(db.accesses.insertionSort accessOrder).filterMap (fun access =>
    ((accessLine disk db access).toOption.join).map (fun text => (access, text))), ?_, ?_, ?_, ?_, ?_⟩
  · exact hnodup.sublist (filterMap_fst_sublist _ _)
  · exact (List.pairwise_insertionSort accessOrder db.accesses).sublist (filterMap_fst_sublist _ _)
  · intro access
    simp only [List.mem_map, List.mem_filterMap, Option.map_eq_some_iff]
    constructor
    · rintro ⟨_, ⟨a, ha, text, ht, rfl⟩, rfl⟩
      obtain ⟨line, hl, hiff, _⟩ := accessLine_spec disk ((hmem a).mp ha)
      rw [hl] at ht
      exact ⟨(hmem a).mp ha, hiff.mp (by rw [show line = some text from ht]; rfl)⟩
    · rintro ⟨ha, hent⟩
      obtain ⟨line, hl, hiff, _⟩ := accessLine_spec disk ha
      obtain ⟨text, rfl⟩ := Option.isSome_iff_exists.mp (hiff.mpr hent)
      exact ⟨(access, text), ⟨access, (hmem access).mpr ha, text, by rw [hl]; rfl, rfl⟩, rfl⟩
  · intro grant hgrant
    simp only [List.mem_filterMap, Option.map_eq_some_iff] at hgrant
    obtain ⟨a, ha, text, ht, rfl⟩ := hgrant
    obtain ⟨line, hl, _, hshape⟩ := accessLine_spec disk ((hmem a).mp ha)
    rw [hl] at ht
    exact hshape text ht
  · rw [List.map_filterMap]
    simp [List.reduceOption, List.filterMap_map, Option.map_map, Function.comp_def]

theorem isAccessLine_unique {access : HostRepositoryAccess} {line line' : String}
    (h : IsAccessLine disk db access line) (h' : IsAccessLine disk db access line') : line = line' := by
  obtain ⟨r, hr, hid, path, hpath, publicKey, key, hkey, hnormal, rfl⟩ := h
  obtain ⟨r', hr', hid', path', hpath', publicKey', key', hkey', hnormal', rfl⟩ := h'
  have he : r = r' := List.inj_on_of_nodup_map db.repositoryIds hr hr' (hid.trans hid'.symm)
  subst he
  rw [hpath] at hpath'
  rw [hkey] at hkey'
  cases hpath'
  cases hkey'
  rw [hnormal] at hnormal'
  cases hnormal'
  rfl

theorem accessOrder_antisymm {a b : HostRepositoryAccess} (ha : a ∈ db.accesses) (hb : b ∈ db.accesses)
    (hab : accessOrder a b) (hba : accessOrder b a) : a = b := by
  apply List.inj_on_of_nodup_map db.uniquePairs ha hb
  simp only [accessOrder] at hab hba
  exact Prod.ext (by simp only [HostRepositoryAccess.pair]; omega) (by simp only [HostRepositoryAccess.pair]; omega)

theorem FollowsDatabase.unique {text text' : String} (h : FollowsDatabase disk db text)
    (h' : FollowsDatabase disk db text') : text = text' := by
  obtain ⟨grants, hnodup, hsorted, hmem, hlines, rfl⟩ := h
  obtain ⟨grants', hnodup', hsorted', hmem', hlines', rfl⟩ := h'
  have hperm : (grants.map Prod.fst).Perm (grants'.map Prod.fst) :=
    (List.perm_ext_iff_of_nodup hnodup hnodup').mpr (fun access => (hmem access).trans (hmem' access).symm)
  have hfst : grants.map Prod.fst = grants'.map Prod.fst := by
    refine hperm.eq_of_pairwise ?_ hsorted hsorted'
    intro a b ha hb hab hba
    exact accessOrder_antisymm ((hmem a).mp ha).1 ((hmem' b).mp hb).1 hab hba
  have hsnd : grants.map Prod.snd = grants'.map Prod.snd := by
    apply List.ext_getElem
    · simpa using congrArg List.length hfst
    · intro i hi hi'
      simp only [List.length_map] at hi hi'
      rw [List.getElem_map, List.getElem_map]
      have hi₁ : grants[i].1 = grants'[i].1 := by
        have := List.getElem_of_eq hfst (i := i) (by simpa using hi)
        rwa [List.getElem_map, List.getElem_map] at this
      refine isAccessLine_unique (hlines _ (List.getElem_mem hi)) ?_
      rw [hi₁]
      exact hlines' _ (List.getElem_mem hi')
  rw [hsnd]

end BorgManager.HostAccess
