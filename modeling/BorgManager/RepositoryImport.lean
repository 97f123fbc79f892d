import BorgManager.Blocks
import BorgManager.Histories
import BorgManager.ManifestAgreement
import BorgManager.RepositoryDiscovery
import Mathlib.Logic.Function.Basic

namespace BorgManager.RepositoryImport

open ArtifactPaths Histories PythonText RepositoryDiscovery
open Blocks (ok_bind)
open SecretStore (Text)

/-- How a request fails. `cancelled` is an `asyncio.CancelledError`, and
`unhandled` an exception that no handler of the request expects. -/
inductive Failure
  | length
  | range
  | invalid (text : Text)
  | http (status : Nat) (detail : Text)
  | permission
  | cancelled
  | unhandled
deriving DecidableEq

/-- The file system from its top down to the managed root. -/
structure Disk where
  storage : Storage
  top : Directory
  base : List Text
  root : storage.root = '/' :: joined base
  place : top.at base = some storage.directory

def unsafePart (part : Text) : Bool := part = [] || part = ['.'] || part = ['.', '.']

def trimSlashes (value : Text) : Text := stripWhile (· == '/') value

/-- `RepositoryImportIn.safe_directory_name`, with the bounds of the field. -/
def safeDirectoryName (value : Text) : Except Failure Text :=
  if value.length < 1 ∨ 255 < value.length then .error .length
  else if (SecretStore.strip value).head? = some '/' then
    .error (.invalid "directory_name must be relative to /repositories".toList)
  else
    let value := trimSlashes (SecretStore.strip value)
    if value = [] ∨ '\\' ∈ value ∨ value.any ['\x00', '\r', '\n'].contains then
      .error (.invalid "directory_name must be a safe relative path below /repositories".toList)
    else if (value.splitOn '/').any unsafePart then
      .error (.invalid "directory_name contains an unsafe path segment".toList)
    else if 12 < (value.splitOn '/').length then .error (.invalid "directory_name is nested too deeply".toList)
    else .ok (joined (value.splitOn '/'))

/-- The walk from a directory, with the names that lead to it from the top. No
link is followed: every part is asked for in turn, and a link stops the walk
before the path is resolved. -/
def walk (rt : Runtime) (top : Directory) : List Text → List Text → Except Failure (List Text × Option Directory)
  | here, [] => .ok (here, top.at here)
  | here, part :: parts =>
      if part = [] ∨ part = ['.'] then walk rt top here parts
      else
        match top.at here with
        | none =>
            -- a resolved path goes up from a file, too
            if part = ['.', '.'] then walk rt top here.dropLast parts
            else .error (.http 400 ("Repository-Browserpfad kann nicht geöffnet werden: ".toList ++ rt.notDirectory))
        | some d =>
            if !d.searchable then .error .permission
            else if part = ['.', '.'] then walk rt top here.dropLast parts
            else
              match d.entry part with
              | none => .error (.http 404 "Repository-Browserpfad ist nicht vorhanden".toList)
              | some (.leaf (.link _)) =>
                  .error (.http 400 "Symbolische Links werden im Repository-Browser nicht geöffnet".toList)
              | some _ => walk rt top (here ++ [part]) parts

def browserParts (relative : Text) : Text × List Text :=
  let raw := trimSlashes ((SecretStore.strip relative).map (fun c => if c = '\\' then '/' else c))
  (raw, if raw = [] then [] else raw.splitOn '/')

/-- `_safe_repository_browser_path`: the names below the root and the
directory there. -/
def safeRepositoryBrowserPath (rt : Runtime) (disk : Disk) (relative : Text) : Except Failure (List Text × Directory) :=
  let parts := browserParts relative
  if parts.2.any unsafePart || parts.1.contains '\x00' then
    .error (.http 400 "Ungültiger Repository-Browserpfad".toList)
  else do
    let resolved ← walk rt disk.top disk.base parts.2
    if !disk.base.isPrefixOf resolved.1 then
      .error (.http 400 "Repository-Browserpfad liegt außerhalb von /repositories".toList)
    else
      match resolved.2 with
      | none => .error (.http 400 "Repository-Browserpfad ist kein Verzeichnis".toList)
      | some d => .ok (resolved.1.drop disk.base.length, d)

structure RepositoryImportIn where
  name : Text
  enabled : Bool
  directoryName : Text
  passphrase : Option Text
  encryptionMode : Text
  keyfile : Option Text
  storageGuardEnabled : Option Bool
  storageGuardThresholdPercent : Option Int

def encryptionModes : List Text :=
  ["none".toList, "authenticated".toList, "authenticated-blake2".toList, "repokey".toList, "repokey-blake2".toList,
    "keyfile".toList, "keyfile-blake2".toList]

def lineBreaking (c : Char) : Bool := ['\x00', '\r', '\n'].contains c

def normalizeName (value : Text) : Except Failure Text :=
  if value.length < 1 ∨ 100 < value.length then .error .length
  else if SecretStore.strip value = [] ∨ (SecretStore.strip value).any lineBreaking then
    .error (.invalid "invalid repository name".toList)
  else .ok (SecretStore.strip value)

/-- An empty secret counts as none. -/
def secretValue (secret : Option Text) : Option Text := secret.filter (fun value => value ≠ [])

def validateSecrets (data : RepositoryImportIn) : Except Failure Unit :=
  let passphrase := secretValue data.passphrase
  let keyfile := secretValue data.keyfile
  if passphrase.any (fun value => value.any lineBreaking) then
    .error (.invalid "passphrase must be non-empty and single-line".toList)
  else if keyfile.any (fun value => value.contains '\x00') then .error (.invalid "keyfile must be non-empty".toList)
  else if data.encryptionMode = "none".toList ∧ passphrase.isSome then
    .error (.invalid "unencrypted repositories must not define a passphrase".toList)
  else if data.encryptionMode ≠ "none".toList ∧ passphrase = none then
    .error (.invalid "this encryption mode requires a passphrase".toList)
  else if "keyfile".toList.isPrefixOf data.encryptionMode ∧ keyfile = none then
    .error (.invalid "importing a keyfile repository requires the Borg keyfile content".toList)
  else if ¬"keyfile".toList.isPrefixOf data.encryptionMode ∧ keyfile.isSome then
    .error (.invalid "keyfile content is only valid for keyfile repositories".toList)
  else .ok ()

/-- The checks of the fields behind the directory name. -/
def checkOptions (data : RepositoryImportIn) : Except Failure Unit :=
  if !encryptionModes.contains data.encryptionMode then .error (.invalid "unsupported Borg encryption mode".toList)
  else if data.storageGuardThresholdPercent.any (fun percent => percent < 1 || 100 < percent) then .error .range
  else validateSecrets data

/-- What an import has found. -/
structure Takeover where
  disk : Disk
  names : List Text
  directory : Directory

/-- A row of `repositories`. What an import has taken over is recorded for the
statements. -/
structure Repository where
  id : Nat
  name : Text
  enabled : Bool
  location : Text
  encryptionMode : Text
  storagePath : Option Text
  initialized : Bool
  storageGuardEnabled : Option Bool
  storageGuardThresholdPercent : Option Int
  takenOver : Option Takeover

/-- The rows and the secrets in the vault, by the id of a repository. -/
structure Database where
  rows : List Repository
  secrets : Nat → Text → Option Text

def Database.storagePaths (db : Database) : List Text := db.rows.filterMap Repository.storagePath

/-- SQLite gives out the number after the largest one. -/
def Database.nextId (db : Database) : Nat := (db.rows.map Repository.id).foldr max 0 + 1

def Database.setSecret (db : Database) (id : Nat) (name : Text) (value : Option Text) : Database :=
  { db with secrets := Function.update db.secrets id (Function.update (db.secrets id) name (secretValue value)) }

/-- The row of a repository is deleted with its secrets. -/
def Database.remove (db : Database) (id : Nat) : Database where
  rows := db.rows.filter (fun row => row.id ≠ id)
  secrets := Function.update db.secrets id (fun _ => none)

/-- The address under which devices reach the manager. -/
structure Site where
  repositoryPublicHost : Text
  repositorySshPort : Nat

def managedRepositoryLocation (site : Site) (slug : Text) : Text :=
  let host := stripWhile (fun c => c = '[' || c = ']') site.repositoryPublicHost
  let host := if host.contains ':' && host.head? ≠ some '[' then '[' :: host ++ [']'] else host
  "ssh://borg@".toList ++ host ++ ':' :: Nat.toDigits 10 site.repositorySshPort ++ "/./".toList ++ slug

def notRepository : Failure :=
  .http 400 "Selected directory is not a Borg repository below the managed storage root".toList

/-- The request up to the commit of its new row. -/
def register (site : Site) (rt : Runtime) (disk : Disk) (data : RepositoryImportIn) (db : Database) :
    Except Failure Repository := do
  let name ← normalizeName data.name
  let directoryName ← safeDirectoryName data.directoryName
  checkOptions data
  let found ← safeRepositoryBrowserPath rt disk directoryName
  if found.1 = [] then .error notRepository
  else if !found.2.searchable then .error .permission
  else if found.2.config = none then .error notRepository
  else if db.storagePaths.contains (disk.storage.path found.1) then
    .error (.http 409 "Repository directory is already registered".toList)
  else if db.rows.any (fun row => row.name = name) then .error (.http 409 "Repository name already exists".toList)
  else
    .ok { id := db.nextId
          name := name
          enabled := data.enabled
          location := managedRepositoryLocation site (joined found.1)
          encryptionMode := data.encryptionMode
          storagePath := some (disk.storage.path found.1)
          initialized := false
          storageGuardEnabled := data.storageGuardEnabled
          storageGuardThresholdPercent := data.storageGuardThresholdPercent
          takenOver := some ⟨disk, found.1, found.2⟩ }

/-- How the opening of a repository goes, from the writing of its keyfile to
the answer of Borg. -/
inductive Opened
  | ended (code : Int) (summary : Text)
  | refused (text : Text)
  | unexpected (errorId : Text)
  | cancelled

def Opened.accepted : Opened → Bool
  | .ended code _ => code = 0 || code = 1
  | _ => false

def publicErrorMessage (errorId : Text) : Text :=
  "Unerwarteter interner Fehler. Details wurden im Debug-Log gespeichert. Fehler-ID: ".toList ++ errorId

def couldNotBeOpened (text : Text) : Failure := .http 400 ("Existing repository could not be opened: ".toList ++ text)

def Database.markInitialized (db : Database) (id : Nat) : Database :=
  { db with rows := db.rows.map (fun row => if row.id = id then { row with initialized := true } else row) }

/-- The request after the repository was opened, with the row that was found
then. A cancellation is caught by no handler. -/
def finish (opened : Opened) (id : Nat) (db : Database) : Except Failure Repository × Database :=
  match opened with
  | .ended code summary =>
      if code = 0 ∨ code = 1 then
        match db.rows.find? (fun row => row.id = id) with
        | some row => (.ok { row with initialized := true }, db.markInitialized id)
        | none => (.error (couldNotBeOpened "Repository registration disappeared".toList), db.remove id)
      else (.error (couldNotBeOpened summary), db.remove id)
  | .refused text => (.error (couldNotBeOpened text), db.remove id)
  | .unexpected errorId => (.error (.http 500 (publicErrorMessage errorId)), db.remove id)
  | .cancelled => (.error .cancelled, db)

/-- What decides an import besides the disk: whether the vault takes the two
secrets, and how the opening goes. -/
structure Outside where
  passphraseStored : Bool
  keyfileStored : Bool
  opened : Opened

def Database.add (db : Database) (row : Repository) : Database := { db with rows := db.rows ++ [row] }

/-- The new row and what the vault has taken of its secrets. -/
def storeSecrets (outside : Outside) (data : RepositoryImportIn) (id : Nat) (db : Database) : Option Unit × Database :=
  if !outside.passphraseStored then (none, db)
  else
    let db := db.setSecret id "passphrase".toList data.passphrase
    if !outside.keyfileStored then (none, db)
    else (some (), db.setSecret id "keyfile".toList data.keyfile)

/-- `import_repository`, when nothing else happens to the rows meanwhile. -/
def importRepository (site : Site) (rt : Runtime) (disk : Disk) (outside : Outside) (data : RepositoryImportIn)
    (db : Database) :
    Except Failure Repository × Database :=
  match register site rt disk data db with
  | .error e => (.error e, db)
  | .ok row =>
      match storeSecrets outside data row.id (db.add row) with
      | (none, db) => (.error .unhandled, db)
      | (some _, db) => finish outside.opened row.id db

/-- What can happen to the rows. Imports are in two steps, with others between
them; a new row or an edited one comes from another request. -/
inductive Event
  | register (disk : Disk) (outside : Outside) (data : RepositoryImportIn)
  | finish (opened : Opened) (id : Nat)
  | create (row : Repository)
  | edit (row : Repository)
  | delete (id : Nat)

/-- Every edit keeps the storage path. -/
def Database.edit (db : Database) (edited : Repository) : Database :=
  { db with rows := db.rows.map (fun row =>
      if row.id = edited.id then { edited with storagePath := row.storagePath, takenOver := row.takenOver } else row) }

def next (site : Site) (rt : Runtime) (db : Database) : Event → Option Database
  | .register disk outside data =>
      match register site rt disk data db with
      | .ok row => some (storeSecrets outside data row.id (db.add row)).2
      | .error _ => none
  | .finish opened id => some (finish opened id db).2
  | .create row => some (db.add { row with id := db.nextId, takenOver := none })
  | .edit row => some (db.edit row)
  | .delete id => some (db.remove id)

def steps (site : Site) (rt : Runtime) : Transition Database Event :=
  fun db event db' => next site rt db event = some db'

def emptyDatabase : Database := ⟨[], fun _ _ => none⟩

section Walks

variable {rt : Runtime} {top : Directory} {here : List Text}

theorem at_appended (d : Directory) (names more : List Text) :
    d.at (names ++ more) = (d.at names).bind (fun a => a.at more) := by
  induction names generalizing d with
  | nil => rfl
  | cons name names ih =>
      rw [List.cons_append, Directory.at, Directory.at, Option.bind_assoc]
      congr 1
      funext child
      exact ih child

theorem entry_of_child {d child : Directory} {name : Text} (h : d.child name = some child) :
    d.entry name = some (.dir child) := by
  rw [Directory.child] at h
  split at h
  · next found hfound =>
      cases h
      exact hfound
  · cases h

/-- Wherever the walk ends, it is at the directory of its path, if at any. -/
theorem walk_place {parts : List Text} {resolved : List Text × Option Directory}
    (h : walk rt top here parts = .ok resolved) :
    resolved.2 = top.at resolved.1 := by
  induction parts generalizing here with
  | nil =>
      cases h
      rfl
  | cons part parts ih =>
      rw [walk] at h
      split at h
      · exact ih h
      · split at h
        · split at h
          · exact ih h
          · cases h
        · split at h
          · cases h
          · split at h
            · exact ih h
            · split at h
              · cases h
              · cases h
              · exact ih h

/-- Parts that are names lead down, one after the other. -/
theorem walk_names {parts : List Text} {resolved : List Text × Option Directory}
    (hparts : ∀ part ∈ parts, unsafePart part = false) (h : walk rt top here parts = .ok resolved) :
    resolved.1 = here ++ parts := by
  induction parts generalizing here with
  | nil =>
      cases h
      exact (List.append_nil _).symm
  | cons part parts ih =>
      rw [List.forall_mem_cons] at hparts
      have hpart : ¬(part = [] ∨ part = ['.']) ∧ part ≠ ['.', '.'] := by simpa [unsafePart, and_assoc] using hparts.1
      rw [walk, if_neg hpart.1] at h
      split at h
      · rw [if_neg hpart.2] at h
        cases h
      · split at h
        · cases h
        · rw [if_neg hpart.2] at h
          split at h
          · cases h
          · cases h
          · rw [ih hparts.2 h, List.append_assoc, List.singleton_append]

/-- Where every directory on the way may be searched, the walk arrives. -/
theorem walk_at {d a : Directory} {names : List Text} (hhere : top.at here = some d) (hat : d.at names = some a)
    (hnames : ∀ name ∈ names, unsafePart name = false)
    (hsearch : ∀ k < names.length, ∀ b, d.at (names.take k) = some b → b.searchable = true) :
    walk rt top here names = .ok (here ++ names, some a) := by
  induction names generalizing here d with
  | nil =>
      cases hat
      rw [walk, hhere, List.append_nil]
  | cons name names ih =>
      rw [List.forall_mem_cons] at hnames
      have hname : ¬(name = [] ∨ name = ['.']) ∧ name ≠ ['.', '.'] := by simpa [unsafePart, and_assoc] using hnames.1
      have hd : d.searchable = true := hsearch 0 (Nat.succ_pos _) d rfl
      rw [Directory.at, Option.bind_eq_some_iff] at hat
      obtain ⟨child, hchild, hrest⟩ := hat
      have hnext : top.at (here ++ [name]) = some child := by
        rw [at_appended, hhere, Option.bind_some, Directory.at, hchild]
        rfl
      rw [walk, if_neg hname.1, hhere]
      dsimp only
      rw [hd, if_neg (by decide), if_neg hname.2, entry_of_child hchild, List.append_cons here name names]
      refine ih hnext hrest hnames.2 ?_
      intro k hk b hb
      refine hsearch (k + 1) (Nat.succ_lt_succ hk) b ?_
      rw [List.take_succ_cons, Directory.at, hchild]
      exact hb

end Walks

section Names

theorem unsafePart_plain {part : Text} (h : PlainPart part) : unsafePart part = false := by
  simp [unsafePart, h.nonempty, h.notDot, h.notUp]

theorem trimSlashes_joined {names : List Text} (hne : names ≠ []) (h : ∀ name ∈ names, PlainPart name) :
    trimSlashes (joined names) = joined names := by
  refine SecretStore.stripWhile_of_ends ?_ ?_
  · obtain ⟨first, rest, rfl⟩ := List.exists_cons_of_ne_nil hne
    have hfirst := h first (List.mem_cons_self ..)
    intro c hc
    rw [joined, head_intercalate hfirst.nonempty] at hc
    exact beq_eq_false_iff_ne.mpr (fun heq => hfirst.noSlash (heq ▸ List.mem_of_mem_head? hc))
  · intro c hc
    refine beq_eq_false_iff_ne.mpr ?_
    rintro rfl
    exact BackupChecks.getLast_intercalate h hc

/-- What the schema passes on is the name without blanks and slashes at its
ends. -/
theorem safeDirectoryName_ok {value name : Text} (h : safeDirectoryName value = .ok name) :
    value.length ≤ 255 ∧ name = trimSlashes (SecretStore.strip value) ∧ '\\' ∉ name ∧ '\r' ∉ name ∧ '\n' ∉ name := by
  rw [safeDirectoryName] at h
  split at h
  · cases h
  next hlength =>
    split at h
    · cases h
    · dsimp only at h
      split at h
      · cases h
      next hletters =>
        split at h
        · cases h
        · split at h
          · cases h
          · have hname : trimSlashes (SecretStore.strip value) = name := by
              rw [joined, List.intercalate_splitOn] at h
              exact Except.ok.inj h
            rw [hname] at hletters
            simp only [not_or, List.any_eq_true, not_exists, not_and, List.contains_eq_mem,
              decide_eq_true_eq] at hletters
            exact ⟨by omega, hname.symm, hletters.2.1, fun hc => hletters.2.2 _ hc (by simp),
              fun hc => hletters.2.2 _ hc (by simp)⟩

theorem unsafeParts_plain {names : List Text} (h : ∀ name ∈ names, PlainPart name) : names.any unsafePart = false := by
  refine List.any_eq_false.mpr (fun part hpart => ?_)
  rw [unsafePart_plain (h part hpart)]
  exact Bool.false_ne_true

theorem nul_notMem_joined {names : List Text} (h : ∀ name ∈ names, PlainPart name) : '\x00' ∉ joined names := by
  rw [joined, mem_intercalate (by decide)]
  rintro ⟨part, hpart, hc⟩
  exact (h part hpart).noNul hc

theorem safeDirectoryName_joined {names : List Text} (hne : names ≠ []) (h : ∀ name ∈ names, PlainPart name)
    (hshort : (joined names).length ≤ 255) (hdepth : names.length ≤ 12)
    (hstrip : SecretStore.strip (joined names) = joined names)
    (hletters : ∀ c ∈ ['\\', '\r', '\n'], c ∉ joined names) :
    safeDirectoryName (joined names) = .ok (joined names) := by
  obtain ⟨first, rest, rfl⟩ := List.exists_cons_of_ne_nil hne
  have hfirst := h first (List.mem_cons_self ..)
  have hhead : (joined (first :: rest)).head? = first.head? := head_intercalate hfirst.nonempty rest
  have hnil : joined (first :: rest) ≠ [] := by
    intro heq
    rw [heq] at hhead
    exact hfirst.nonempty (List.head?_eq_none_iff.mp hhead.symm)
  have hsplit := splitOn_joined hne h
  have hlength : ¬((joined (first :: rest)).length < 1 ∨ 255 < (joined (first :: rest)).length) := by
    have hpos := List.length_pos_iff.mpr hnil
    omega
  have hclean : ¬(joined (first :: rest) = [] ∨ '\\' ∈ joined (first :: rest) ∨
      (joined (first :: rest)).any ['\x00', '\r', '\n'].contains = true) := by
    rintro (hc | hc | hc)
    · exact hnil hc
    · exact hletters _ (List.mem_cons_self ..) hc
    · obtain ⟨c, hmem, hc⟩ := List.any_eq_true.mp hc
      simp only [List.contains_eq_mem, decide_eq_true_eq, List.mem_cons, List.not_mem_nil, or_false] at hc
      rcases hc with rfl | rfl | rfl
      · exact nul_notMem_joined h hmem
      · exact hletters _ (by simp) hmem
      · exact hletters _ (by simp) hmem
  rw [safeDirectoryName, if_neg hlength, hstrip, if_neg]
  · dsimp only
    rw [trimSlashes_joined hne h, if_neg hclean, hsplit, unsafeParts_plain h, if_neg Bool.false_ne_true,
      if_neg (by omega)]
  · rw [hhead]
    exact fun hc => hfirst.noSlash (List.mem_of_mem_head? hc)

theorem browserParts_joined {names : List Text} (hne : names ≠ []) (h : ∀ name ∈ names, PlainPart name)
    (hstrip : SecretStore.strip (joined names) = joined names) (hback : '\\' ∉ joined names) :
    browserParts (joined names) = (joined names, names) := by
  have hmap : (joined names).map (fun c => if c = '\\' then '/' else c) = joined names := by
    refine (List.map_congr_left ?_).trans (List.map_id _)
    intro c hc
    have hne : c ≠ '\\' := by
      rintro rfl
      exact hback hc
    rw [if_neg hne, id]
  have hnil : joined names ≠ [] := by
    intro heq
    have hsplit := splitOn_joined hne h
    rw [heq, List.splitOn_nil] at hsplit
    exact (h [] (hsplit ▸ List.mem_cons_self ..)).nonempty rfl
  unfold browserParts
  dsimp only
  rw [hstrip, hmap, trimSlashes_joined hne h, if_neg hnil, splitOn_joined hne h]

theorem joined_browserParts (relative : Text) : joined (browserParts relative).2 = (browserParts relative).1 := by
  unfold browserParts
  dsimp only
  split
  · next hnil =>
      rw [hnil]
      rfl
  · exact List.intercalate_splitOn '/'

end Names

section Imports

variable {site : Site} {rt : Runtime} {disk : Disk}

theorem browserPath_ok {relative : Text} {found : List Text × Directory}
    (h : safeRepositoryBrowserPath rt disk relative = .ok found) :
    found.1 = (browserParts relative).2 ∧ disk.storage.directory.at found.1 = some found.2 := by
  unfold safeRepositoryBrowserPath at h
  dsimp only at h
  split at h
  · cases h
  next hsafe =>
    rw [Bool.or_eq_true, not_or, List.any_eq_true, not_exists] at hsafe
    have hparts : ∀ part ∈ (browserParts relative).2, unsafePart part = false := by
      intro part hpart
      exact Bool.eq_false_iff.mpr (fun hunsafe => hsafe.1 part ⟨hpart, hunsafe⟩)
    cases hwalk : walk rt disk.top disk.base (browserParts relative).2 with
    | error e =>
        rw [hwalk] at h
        cases h
    | ok resolved =>
        rw [hwalk, ok_bind] at h
        split at h
        · cases h
        next hbelow =>
          have hplace := walk_place hwalk
          rw [Bool.not_eq_true', Bool.not_eq_false, List.isPrefixOf_iff_prefix] at hbelow
          obtain ⟨names, hnames⟩ := hbelow
          split at h
          · cases h
          next d hd =>
            cases h
            dsimp only
            rw [← hnames, List.drop_left]
            constructor
            · have hall := walk_names hparts hwalk
              rw [← hnames] at hall
              exact List.append_cancel_left hall
            · rw [hd, ← hnames, at_appended, disk.place] at hplace
              exact hplace.symm

/-- What a new row has passed. -/
structure Registered (site : Site) (disk : Disk) (data : RepositoryImportIn) (db : Database) (row : Repository)
    (label sent : Text) (names : List Text) (d : Directory) : Prop where
  name : normalizeName data.name = .ok label
  directoryName : safeDirectoryName data.directoryName = .ok sent
  options : checkOptions data = .ok ()
  parts : names = (browserParts sent).2
  place : disk.storage.directory.at names = some d
  below : names ≠ []
  config : d.config ≠ none
  path : disk.storage.path names ∉ db.storagePaths
  unused : ∀ other ∈ db.rows, other.name ≠ label
  row : row = ⟨db.nextId, label, data.enabled, managedRepositoryLocation site (joined names), data.encryptionMode,
    some (disk.storage.path names), false, data.storageGuardEnabled, data.storageGuardThresholdPercent,
      some ⟨disk, names, d⟩⟩

theorem register_ok {data : RepositoryImportIn} {db : Database} {row : Repository}
    (h : register site rt disk data db = .ok row) :
    ∃ label sent names d, Registered site disk data db row label sent names d := by
  unfold register at h
  cases hname : normalizeName data.name with
  | error e =>
      rw [hname] at h
      cases h
  | ok name =>
      cases hdirectory : safeDirectoryName data.directoryName with
      | error e =>
          rw [hname, ok_bind, hdirectory] at h
          cases h
      | ok directoryName =>
          cases hoptions : checkOptions data with
          | error e =>
              rw [hname, ok_bind, hdirectory, ok_bind, hoptions] at h
              cases h
          | ok checked =>
              cases hfound : safeRepositoryBrowserPath rt disk directoryName with
              | error e =>
                  rw [hname, ok_bind, hdirectory, ok_bind, hoptions, ok_bind, hfound] at h
                  cases h
              | ok found =>
                  rw [hname, ok_bind, hdirectory, ok_bind, hoptions, ok_bind, hfound, ok_bind] at h
                  obtain ⟨hnames, hat⟩ := browserPath_ok hfound
                  split at h
                  · cases h
                  next hne =>
                    split at h
                    · cases h
                    · split at h
                      · cases h
                      next hconfig =>
                        split at h
                        · cases h
                        next hnew =>
                          split at h
                          · cases h
                          next hunused =>
                            rw [List.contains_iff_mem] at hnew
                            rw [List.any_eq_true, not_exists] at hunused
                            cases h
                            refine ⟨name, directoryName, found.1, found.2, hname, hdirectory, hoptions, hnames,
                              hat, hne, hconfig, hnew,
                              ?_, rfl⟩
                            intro other hother heq
                            exact hunused other ⟨hother, by simpa using heq⟩

/-- The directory was below the root, at a path without a link, and had a Borg
configuration. -/
structure Takeover.Contained (t : Takeover) (path : Option Text) : Prop where
  below : t.names ≠ []
  plain : ∀ name ∈ t.names, PlainPart name
  place : t.disk.storage.directory.at t.names = some t.directory
  config : t.directory.config ≠ none
  path : path = some (t.disk.storage.path t.names)

/-- The path that a row was imported with. -/
def Repository.imported (row : Repository) : Option (Option Text × Takeover) :=
  row.takenOver.map (fun t => (row.storagePath, t))

def Database.imports (db : Database) : List (Option Text × Takeover) := db.rows.filterMap Repository.imported

/-- The imports that are still there were all contained, and no two of them
have one path. -/
structure Kept (db : Database) : Prop where
  contained : ∀ i ∈ db.imports, i.2.Contained i.1
  apart : (db.imports.map Prod.fst).Nodup

theorem Kept.sublist {db db' : Database} (h : Kept db) (hsub : db'.imports.Sublist db.imports) : Kept db' :=
  ⟨fun i hi => h.contained i (hsub.subset hi), h.apart.sublist (hsub.map Prod.fst)⟩

theorem imports_map {db db' : Database} {f : Repository → Repository} (hrows : db'.rows = db.rows.map f)
    (hf : ∀ row, (f row).imported = row.imported) : db'.imports = db.imports := by
  rw [Database.imports, hrows, List.filterMap_map]
  congr 1
  funext row
  exact hf row

theorem imports_remove (db : Database) (id : Nat) : (db.remove id).imports.Sublist db.imports :=
  (List.filter_sublist).filterMap _

theorem imports_markInitialized (db : Database) (id : Nat) : (db.markInitialized id).imports = db.imports := by
  refine imports_map rfl ?_
  intro row
  split
  · rfl
  · rfl

theorem imports_edit (db : Database) (edited : Repository) : (db.edit edited).imports = db.imports := by
  refine imports_map rfl ?_
  intro row
  split
  · rfl
  · rfl

theorem rows_storeSecrets (outside : Outside) (data : RepositoryImportIn) (id : Nat) (db : Database) :
    (storeSecrets outside data id db).2.rows = db.rows := by
  rw [storeSecrets]
  cases outside.passphraseStored with
  | false => rfl
  | true => cases outside.keyfileStored <;> rfl

theorem mem_storagePaths {db : Database} {path : Text} {t : Takeover} (h : (some path, t) ∈ db.imports) :
    path ∈ db.storagePaths := by
  obtain ⟨row, hrow, himported⟩ := List.mem_filterMap.mp h
  obtain ⟨_, -, heq⟩ := Option.map_eq_some_iff.mp himported
  exact List.mem_filterMap.mpr ⟨row, hrow, (Prod.mk.inj heq).1⟩

theorem kept_register {data : RepositoryImportIn} {db : Database} {row : Repository} (h : Kept db)
    (hrow : register site rt disk data db = .ok row) {db' : Database} (hrows : db'.rows = db.rows ++ [row]) :
    Kept db' := by
  obtain ⟨label, sent, names, d, hnew⟩ := register_ok hrow
  have himports : db'.imports = db.imports ++ [(some (disk.storage.path names), ⟨disk, names, d⟩)] := by
    rw [Database.imports, hrows, List.filterMap_append, hnew.row]
    rfl
  constructor
  · intro i hi
    rw [himports] at hi
    rcases List.mem_append.mp hi with hi | hi
    · exact h.contained i hi
    · rw [List.mem_singleton] at hi
      subst hi
      exact ⟨hnew.below, (valid_at disk.storage.valid hnew.place).2, hnew.place, hnew.config, rfl⟩
  · rw [himports, List.map_append, List.nodup_append]
    refine ⟨h.apart, by simp, ?_⟩
    rintro path hpath other hother rfl
    rw [List.map_singleton, List.mem_singleton] at hother
    obtain ⟨⟨stored, t⟩, hi, rfl⟩ := List.mem_map.mp hpath
    rw [show stored = some (disk.storage.path names) from hother] at hi
    exact hnew.path (mem_storagePaths hi)

theorem kept_finish {opened : Opened} {id : Nat} {db : Database} (h : Kept db) : Kept (finish opened id db).2 := by
  have hremoved : Kept (db.remove id) := h.sublist (imports_remove db id)
  cases opened with
  | ended code summary =>
      rw [finish]
      split
      · split
        · exact h.sublist (by rw [imports_markInitialized])
        · exact hremoved
      · exact hremoved
  | refused text => exact hremoved
  | unexpected errorId => exact hremoved
  | cancelled => exact h

theorem kept_next {db db' : Database} {event : Event} (h : Kept db) (hstep : next site rt db event = some db') :
    Kept db' := by
  cases event with
  | register disk outside data =>
      rw [next] at hstep
      split at hstep
      · next row hrow =>
          cases hstep
          exact kept_register h hrow (rows_storeSecrets outside data row.id (db.add row))
      · cases hstep
  | finish opened id =>
      cases hstep
      exact kept_finish h
  | create row =>
      cases hstep
      refine h.sublist ?_
      rw [Database.imports, Database.add, List.filterMap_append]
      simp [Database.imports, Repository.imported]
  | edit row =>
      cases hstep
      exact h.sublist (by rw [imports_edit])
  | delete id =>
      cases hstep
      exact h.sublist (imports_remove db id)

theorem lt_nextId {db : Database} {row : Repository} (h : row ∈ db.rows) : row.id < db.nextId := by
  have hle : ∀ ids : List Nat, row.id ∈ ids → row.id ≤ ids.foldr max 0 := by
    intro ids hmem
    induction ids with
    | nil => cases hmem
    | cons id ids ih =>
        rw [List.foldr_cons]
        rcases List.mem_cons.mp hmem with heq | hmem
        · exact heq ▸ Nat.le_max_left ..
        · exact (ih hmem).trans (Nat.le_max_right ..)
  exact Nat.lt_succ_of_le (hle _ (List.mem_map.mpr ⟨row, h, rfl⟩))

/-- The row that was added goes again, and no other. -/
theorem rows_remove_added {db db' : Database} {row : Repository} (hid : row.id = db.nextId)
    (hrows : db'.rows = db.rows ++ [row]) :
    (db'.remove row.id).rows = db.rows := by
  have hkept : db.rows.filter (fun other => other.id ≠ row.id) = db.rows := by
    rw [List.filter_eq_self]
    intro other hother
    simpa [hid] using Nat.ne_of_lt (lt_nextId hother)
  rw [Database.remove, hrows, List.filter_append, hkept]
  simp

theorem finish_error {opened : Opened} {id : Nat} {db : Database} {e : Failure} (h : (finish opened id db).1 = .error e)
    (hcancelled : e ≠ .cancelled) : (finish opened id db).2 = db.remove id := by
  cases opened with
  | ended code summary =>
      rw [finish] at h ⊢
      split at h
      · next hcode =>
          rw [if_pos hcode]
          split at h
          · cases h
          · rfl
      · next hcode => rw [if_neg hcode]
  | refused text => rfl
  | unexpected errorId => rfl
  | cancelled =>
      cases h
      exact absurd rfl hcancelled

/-- An import that fails, and is neither cancelled nor refused by the vault,
leaves the rows as they were. -/
theorem rows_of_error {outside : Outside} {data : RepositoryImportIn} {db db' : Database} {e : Failure}
    (h : importRepository site rt disk outside data db = (.error e, db')) (hcancelled : e ≠ .cancelled)
    (hvault : e ≠ .unhandled) :
    db'.rows = db.rows := by
  rw [importRepository] at h
  split at h
  · cases h
    rfl
  next row hrow =>
    obtain ⟨label, sent, names, d, hnew⟩ := register_ok hrow
    have hrows := rows_storeSecrets outside data row.id (db.add row)
    split at h
    · cases h
      exact absurd rfl hvault
    next stored added hstored =>
      rw [hstored] at hrows
      have herror : (finish outside.opened row.id added).1 = .error e := by rw [h]
      have hremoved := finish_error herror hcancelled
      rw [h] at hremoved
      dsimp only at hremoved
      rw [hremoved]
      exact rows_remove_added (by rw [hnew.row]) hrows

theorem kept_empty : Kept emptyDatabase := ⟨List.forall_mem_nil _, List.nodup_nil⟩

/-- In any order of imports and other requests, every import that is still
there has taken over a directory below the root at a path without a link, with
a Borg configuration, and no two of them have one path. One that fails leaves
the rows as they were. -/
theorem import_contained {events : List Event} {db : Database} (h : History (steps site rt) emptyDatabase events db) :
    (∀ i ∈ db.imports, i.2.Contained i.1) ∧ (db.imports.map Prod.fst).Nodup ∧
      ∀ disk outside data e db', importRepository site rt disk outside data db = (.error e, db') →
        e ≠ .cancelled → e ≠ .unhandled → db'.rows = db.rows := by
  have hkept := h.invariant Kept kept_empty (fun _ _ _ hkept hstep => kept_next hkept hstep)
  refine ⟨hkept.contained, hkept.apart, ?_⟩
  intro disk outside data e db' herror hcancelled hvault
  exact rows_of_error herror hcancelled hvault

theorem find_added {db added : Database} {row : Repository} (hid : row.id = db.nextId)
    (hrows : added.rows = db.rows ++ [row]) :
    added.rows.find? (fun other => other.id = row.id) = some row := by
  rw [hrows, List.find?_append, List.find?_eq_none.mpr]
  · simp
  · intro other hother
    simpa [hid] using Nat.ne_of_lt (lt_nextId hother)

theorem storeSecrets_some {outside : Outside} {data : RepositoryImportIn} {id : Nat} {db : Database} :
    (storeSecrets outside data id db).1 = some () ↔ outside.passphraseStored = true ∧ outside.keyfileStored = true := by
  rw [storeSecrets]
  cases outside.passphraseStored <;> cases outside.keyfileStored <;> simp

theorem finish_ok {opened : Opened} {db : Database} {new row : Repository}
    (hfind : db.rows.find? (fun other => other.id = new.id) = some new) :
    (finish opened new.id db).1 = .ok row ↔ row = { new with initialized := true } ∧ opened.accepted = true := by
  cases opened with
  | ended code summary =>
      have haccepted : (Opened.ended code summary).accepted = true ↔ code = 0 ∨ code = 1 := by simp [Opened.accepted]
      rw [haccepted]
      dsimp only [finish]
      by_cases hcode : code = 0 ∨ code = 1
      · rw [if_pos hcode, hfind]
        simp [hcode, eq_comm]
      · rw [if_neg hcode]
        simp [hcode]
  | refused text => simp [finish, Opened.accepted]
  | unexpected errorId => simp [finish, Opened.accepted]
  | cancelled => simp [finish, Opened.accepted]

/-- An import goes through exactly when its row does, the vault takes its
secrets and Borg opens it. -/
theorem import_iff {outside : Outside} {data : RepositoryImportIn} {db : Database} {row : Repository} :
    (importRepository site rt disk outside data db).1 = .ok row ↔
      (∃ new, register site rt disk data db = .ok new ∧ row = { new with initialized := true }) ∧
        outside.passphraseStored = true ∧ outside.keyfileStored = true ∧ outside.opened.accepted = true := by
  rw [importRepository]
  cases hrow : register site rt disk data db with
  | error e => simp
  | ok new =>
      obtain ⟨label, sent, names, d, hnew⟩ := register_ok hrow
      have hrows := rows_storeSecrets outside data new.id (db.add new)
      have hsome : (storeSecrets outside data new.id (db.add new)).1 = some () ↔ _ := storeSecrets_some
      dsimp only
      generalize storeSecrets outside data new.id (db.add new) = result at hrows hsome ⊢
      obtain ⟨stored, added⟩ := result
      dsimp only at hrows hsome ⊢
      have hstored : outside.passphraseStored = true ∧ outside.keyfileStored = true ∧ outside.opened.accepted = true ↔
          stored = some () ∧ outside.opened.accepted = true := by rw [hsome, and_assoc]
      rw [hstored]
      cases stored with
      | none => simp
      | some stored =>
          have hfind := find_added (by rw [hnew.row]) hrows
          dsimp only
          rw [finish_ok hfind]
          simp

/-- The row of a request for a directory that is there. -/
theorem register_of_place (site : Site) {data : RepositoryImportIn} {db : Database} {label sent : Text}
    {names : List Text} {d : Directory} (hname : normalizeName data.name = .ok label)
    (hsent : safeDirectoryName data.directoryName = .ok sent) (hoptions : checkOptions data = .ok ())
    (hfound : safeRepositoryBrowserPath rt disk sent = .ok (names, d)) (hbelow : names ≠ [])
    (hsearch : d.searchable = true) (hconfig : d.config ≠ none) (hpath : disk.storage.path names ∉ db.storagePaths)
    (hunused : ∀ row ∈ db.rows, row.name ≠ label) :
    ∃ row, register site rt disk data db = .ok row ∧ row.storagePath = some (disk.storage.path names) := by
  have hnew : ¬db.storagePaths.contains (disk.storage.path names) = true := mt List.contains_iff_mem.mp hpath
  have hfree : ¬db.rows.any (fun row => row.name = label) = true := by
    rw [List.any_eq_true]
    rintro ⟨row, hrow, heq⟩
    exact hunused row hrow (by simpa using heq)
  unfold register
  rw [hname, ok_bind, hsent, ok_bind, hoptions, ok_bind, hfound, ok_bind]
  dsimp only
  rw [if_neg hbelow, hsearch, if_neg (by decide), if_neg hconfig, if_neg hnew, if_neg hfree]
  exact ⟨_, rfl, rfl⟩

/-- The name of a path below the root is one that the request takes and the
browser finds. -/
theorem browserPath_joined {names : List Text} {d : Directory}
    (hplace : disk.storage.directory.at names = some d) (hne : names ≠ [])
    (hsearch : ∀ k < names.length, ∀ b, disk.storage.directory.at (names.take k) = some b → b.searchable = true)
    (hstrip : SecretStore.strip (joined names) = joined names) (hback : '\\' ∉ joined names) :
    safeRepositoryBrowserPath rt disk (joined names) = .ok (names, d) := by
  have hplain := (valid_at disk.storage.valid hplace).2
  have hnul : (joined names).contains '\x00' = false := by
    rw [List.contains_eq_mem, decide_eq_false_iff_not]
    exact nul_notMem_joined hplain
  have hwalk : walk rt disk.top disk.base names = .ok (disk.base ++ names, some d) :=
    walk_at disk.place hplace (fun name hname => unsafePart_plain (hplain name hname)) hsearch
  have hbelow : disk.base.isPrefixOf (disk.base ++ names) = true :=
    List.isPrefixOf_iff_prefix.mpr (List.prefix_append ..)
  unfold safeRepositoryBrowserPath
  rw [browserParts_joined hne hplain hstrip hback]
  dsimp only
  rw [unsafeParts_plain hplain, hnul, Bool.or_false, if_neg Bool.false_ne_true, hwalk, ok_bind]
  dsimp only
  rw [hbelow, if_neg (by decide), List.drop_left]

/-- A name under which the same path is imported again is not changed by any of
the checks. -/
theorem name_of_path {names : List Text} {sent : Text} (hsent : safeDirectoryName (joined names) = .ok sent)
    (hparts : joined names = (browserParts sent).1) :
    (joined names).length ≤ 255 ∧ SecretStore.strip (joined names) = joined names ∧
      ∀ letter ∈ ['\\', '\r', '\n'], letter ∉ joined names := by
  obtain ⟨hshort, htrim, hback, hreturn, hline⟩ := safeDirectoryName_ok hsent
  have hsub := ManifestAgreement.stripWhile_sublist (· == '/')
    ((SecretStore.strip sent).map (fun c => if c = '\\' then '/' else c))
  have hlength : (joined names).length ≤ (SecretStore.strip sent).length := by
    rw [hparts]
    exact le_of_le_of_eq hsub.length_le (List.length_map _)
  have hvalue := ManifestAgreement.stripWhile_sublist (· == '/') (SecretStore.strip (joined names))
  have hdir := ManifestAgreement.stripWhile_sublist isSpace (joined names)
  have h1 : (SecretStore.strip sent).length ≤ sent.length :=
    (ManifestAgreement.stripWhile_sublist isSpace sent).length_le
  have h2 : sent.length ≤ (SecretStore.strip (joined names)).length := by
    rw [htrim]
    exact hvalue.length_le
  have hstrip : SecretStore.strip (joined names) = joined names :=
    hdir.eq_of_length (Nat.le_antisymm hdir.length_le (le_trans hlength (le_trans h1 h2)))
  have hsame : sent = joined names := by
    have hsub' : sent.Sublist (joined names) := by
      rw [htrim]
      exact hvalue.trans hdir
    exact hsub'.eq_of_length (Nat.le_antisymm hsub'.length_le (le_trans hlength h1))
  rw [hsame] at hback hreturn hline
  refine ⟨hshort, hstrip, ?_⟩
  intro letter hletter
  simp only [List.mem_cons, List.not_mem_nil, or_false] at hletter
  rcases hletter with rfl | rfl | rfl
  exacts [hback, hreturn, hline]

/-- What the discovery proposes can be imported under its own name exactly
when the name is short enough, has no blanks at its ends, no backslash and no
line break, the rest of the request is valid, its name for the repository is
new, the vault takes the secrets and Borg opens the directory. -/
theorem candidate_importable {outside : Outside} {data : RepositoryImportIn} {db : Database} {c : Candidate}
    (hc : c ∈ managedRepositoryCandidates rt disk.storage db.storagePaths)
    (hdata : data.directoryName = c.directoryName) :
    (∃ row, (importRepository site rt disk outside data db).1 = .ok row ∧ row.storagePath = some c.path) ↔
      (c.directoryName.length ≤ 255 ∧ SecretStore.strip c.directoryName = c.directoryName ∧
        ∀ letter ∈ ['\\', '\r', '\n'], letter ∉ c.directoryName) ∧
      (∃ label, normalizeName data.name = .ok label ∧ ∀ row ∈ db.rows, row.name ≠ label) ∧ checkOptions data = .ok () ∧
      outside.passphraseStored = true ∧ outside.keyfileStored = true ∧ outside.opened.accepted = true := by
  obtain ⟨names, d, text, h, rfl⟩ := discoverable_of_mem hc
  have hplain := (valid_at disk.storage.valid h.place).2
  change data.directoryName = joined names at hdata
  change (∃ row : Repository, _ ∧ row.storagePath = some (disk.storage.path names)) ↔ ((joined names).length ≤ 255 ∧
    SecretStore.strip (joined names) = joined names ∧ ∀ letter ∈ ['\\', '\r', '\n'], letter ∉ joined names) ∧ _
  constructor
  · rintro ⟨row, himport, hpath⟩
    obtain ⟨⟨new, hrow, rfl⟩, hstored⟩ := import_iff.mp himport
    obtain ⟨label, sent, others, _, hnew⟩ := register_ok hrow
    have hsent := hnew.directoryName
    rw [hdata] at hsent
    have hothers : joined others = joined names := by
      rw [hnew.row] at hpath
      simpa [Storage.path] using hpath
    have hparts : joined names = (browserParts sent).1 := by rw [← hothers, hnew.parts, joined_browserParts]
    exact ⟨name_of_path hsent hparts, ⟨label, hnew.name, hnew.unused⟩, hnew.options, hstored⟩
  · rintro ⟨⟨hshort, hstrip, hletters⟩, ⟨label, hname, hunused⟩, hoptions, hstored⟩
    have hdepth : names.length ≤ 12 := le_trans h.depth (by decide)
    have hsent : safeDirectoryName data.directoryName = .ok (joined names) := by
      rw [hdata]
      exact safeDirectoryName_joined h.below hplain hshort hdepth hstrip hletters
    have hfound : safeRepositoryBrowserPath rt disk (joined names) = .ok (names, d) :=
      browserPath_joined h.place h.below (fun k hk b hb => (h.reached.ancestors k hk b hb).2.1) hstrip
        (hletters _ (List.mem_cons_self ..))
    have hsearch : d.searchable = true := by
      by_contra hclosed
      have hconfig := h.config
      rw [Directory.config, if_neg hclosed] at hconfig
      cases hconfig
    have hnew : disk.storage.path names ∉ db.storagePaths := by
      intro hmem
      have hplace : disk.storage.resolve (disk.storage.path names) = disk.storage.path names :=
        disk.storage.resolve_at names (by rw [h.place]; rfl)
      exact h.unregistered (List.mem_map.mpr ⟨_, hmem, hplace⟩)
    obtain ⟨row, hrow, hpath⟩ := register_of_place site hname hsent hoptions hfound h.below hsearch
      (by rw [h.config]; rintro ⟨⟩) hnew hunused
    exact ⟨_, import_iff.mpr ⟨⟨row, hrow, rfl⟩, hstored⟩, hpath⟩

end Imports

section Runs

def sampleRuntime : Runtime := ⟨id, id, "[Errno 20] Not a directory".toList⟩

def sampleSite : Site := ⟨"backup.example".toList, 2222⟩

/-- A root with a repository in a group, a link to it, and a repository whose
name begins with a blank. -/
def sampleContents : Contents :=
  .dir "group".toList true true
    (.dir "nested".toList true true (.leaf "config".toList (.file (some "[repository]\nid = abcdef".toList)) .nil) .nil)
    (.leaf "alias".toList (.link none)
      (.dir " old".toList true true (.leaf "config".toList (.file none) .nil) .nil))

def sampleStorage : Storage where
  root := "/repositories".toList
  directory := ⟨true, true, sampleContents⟩
  resolve := id
  valid := by
    refine ⟨⟨by decide, by decide, by decide, by decide, by decide⟩, by decide, ?_, ?_⟩
    · refine ⟨⟨by decide, by decide, by decide, by decide, by decide⟩, by decide, ?_, trivial⟩
      exact ⟨⟨by decide, by decide, by decide, by decide, by decide⟩, by decide, trivial⟩
    · refine ⟨⟨by decide, by decide, by decide, by decide, by decide⟩, by decide, ?_⟩
      refine ⟨⟨by decide, by decide, by decide, by decide, by decide⟩, by decide, ?_, trivial⟩
      exact ⟨⟨by decide, by decide, by decide, by decide, by decide⟩, by decide, trivial⟩
  resolve_at := fun _ _ => rfl

def sampleDisk : Disk where
  storage := sampleStorage
  top := ⟨true, true, .dir "repositories".toList true true sampleContents .nil⟩
  base := ["repositories".toList]
  root := rfl
  place := rfl

def sampleRequest (name directoryName : String) : RepositoryImportIn where
  name := name.toList
  enabled := true
  directoryName := directoryName.toList
  passphrase := some "secret".toList
  encryptionMode := "repokey".toList
  keyfile := none
  storageGuardEnabled := none
  storageGuardThresholdPercent := some 90

def answered (code : Int) : Outside := ⟨true, true, .ended code "Borg".toList⟩

/-- A repository is imported, deleted and imported again under another name;
one that Borg refuses is gone at the end. -/
def sampleEvents : List Event :=
  [.register sampleDisk (answered 0) (sampleRequest "nested" "group/nested"), .finish (.ended 0 []) 1, .delete 1,
    .register sampleDisk (answered 2) (sampleRequest "again" " group/nested/ "), .finish (.ended 2 []) 1,
    .register sampleDisk (answered 1) (sampleRequest "last" "group/nested"), .finish (.ended 1 []) 1]

theorem exec_sampleEvents :
    ∃ db, exec (next sampleSite sampleRuntime) emptyDatabase sampleEvents = some db ∧
      db.imports.map Prod.fst = [some "/repositories/group/nested".toList] :=
  ⟨_, rfl, rfl⟩

theorem import_contained_again :
    ∃ db, exec (next sampleSite sampleRuntime) emptyDatabase sampleEvents = some db ∧
      db.imports.map Prod.fst = [some "/repositories/group/nested".toList] ∧ ∀ i ∈ db.imports, i.2.Contained i.1 := by
  obtain ⟨db, hdb, hpaths⟩ := exec_sampleEvents
  exact ⟨db, hdb, hpaths, (import_contained (history_of_exec hdb)).1⟩

/-- While it is registered, its path is not imported again, and neither is a
link to it. -/
example : ∀ sent ∈ ["group/nested", " group/nested/ ", "alias", "group/../group/nested"],
    (importRepository sampleSite sampleRuntime sampleDisk (answered 0) (sampleRequest "other" sent)
      (importRepository sampleSite sampleRuntime sampleDisk (answered 0)
        (sampleRequest "nested" "group/nested") emptyDatabase).2).1.isOk =
        false := by
  decide

/-- The repository in the group can be imported if Borg opens it, the other one
cannot. -/
theorem candidate_importable_sample :
    (∃ row, (importRepository sampleSite sampleRuntime sampleDisk (answered 1)
      (sampleRequest " Nested " "group/nested") emptyDatabase).1 =
        .ok row ∧ row.storagePath = some "/repositories/group/nested".toList) ∧
      ¬∃ row, (importRepository sampleSite sampleRuntime sampleDisk (answered 0)
        (sampleRequest "Old" " old") emptyDatabase).1 =
        .ok row ∧ row.storagePath = some "/repositories/ old".toList := by
  have hnested : (⟨"group/nested".toList, "/repositories/group/nested".toList, "nested".toList,
    some "abcdef".toList⟩ : Candidate) ∈
      managedRepositoryCandidates sampleRuntime sampleStorage [] := by decide
  have hold : (⟨" old".toList, "/repositories/ old".toList, "old".toList, none⟩ : Candidate) ∈
      managedRepositoryCandidates sampleRuntime sampleStorage [] := by decide
  have hletters : ∀ letter ∈ ['\\', '\r', '\n'], letter ∉ "group/nested".toList :=
    List.forall_mem_cons.mpr
      ⟨by decide, List.forall_mem_cons.mpr ⟨by decide, List.forall_mem_singleton.mpr (by decide)⟩⟩
  have himported := @candidate_importable sampleSite sampleRuntime sampleDisk (answered 1)
    (sampleRequest " Nested " "group/nested") emptyDatabase _ hnested rfl
  have hrefused := @candidate_importable sampleSite sampleRuntime sampleDisk (answered 0)
    (sampleRequest "Old" " old") emptyDatabase
    _ hold rfl
  refine ⟨himported.mpr ⟨⟨by decide, by decide, hletters⟩, ⟨"Nested".toList, rfl, by rintro row ⟨⟩⟩, rfl,
    rfl, rfl, rfl⟩,
    fun h => ?_⟩
  have hstrip := (hrefused.mp h).1.2.1
  revert hstrip
  decide

end Runs

end BorgManager.RepositoryImport
