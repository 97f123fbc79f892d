import BorgManager.Histories
import BorgManager.PythonText
import BorgManager.Records

namespace BorgManager.ArchiveSeries

open PythonText Records Histories

/-- A row of the `jobs` table. The history is the parsed JSON list, with
`none` for entries that are no strings. The serial number of the creation is
no column; it tells jobs apart that share an id. -/
structure JobRow where
  id : Nat
  name : String
  archivePrefix : Option String
  archivePrefixHistory : List (Option String)
  archiveTemplate : String
  pruneOptions : String → Option RetentionValue
  serial : Nat

structure RunRow where
  jobId : Option Nat
  active : Bool

structure Archive where
  serial : Nat
  name : String

/-- The tables that decide about archive names, with the ids of all jobs ever
created and the archive names ever generated. -/
structure Database where
  jobs : List JobRow
  jobIdReservations : List Nat
  runs : List RunRow
  created : List Nat
  archives : List Archive

def Database.empty : Database := ⟨[], [], [], [], []⟩

def seriesPrefix (id : Nat) : String := "bbm-" ++ toString id ++ "-"

def jobArchivePrefix (job : JobRow) : String := (truthy job.archivePrefix).getD (seriesPrefix job.id)

/-- The active prefix followed by the historical ones, without repetitions. -/
def jobArchivePrefixes (job : JobRow) : List String :=
  job.archivePrefixHistory.foldl (fun prefixes value =>
    match truthy value with
    | none => prefixes
    | some text => if text ∈ prefixes then prefixes else prefixes ++ [text]) [jobArchivePrefix job]

def pruneGlobs (job : JobRow) : List String := (jobArchivePrefixes job).map (fun text => text ++ "*")

def retentionKeys : List String := ["last", "hourly", "daily", "weekly", "monthly", "yearly"]

def retentionArguments (job : JobRow) : List String :=
  retentionKeys.flatMap (fun key =>
    match job.pruneOptions key with
    | some (.int n) => if 0 < n then [s!"--keep-{key}", toString n] else []
    | _ => [])

def borgBase (command : String) : List String := ["borg", "--lock-wait", "600", command]

/-- One `borg prune` per prefix; the script around several of them only
collects the largest return code. -/
def pruneCommand (job : JobRow) : List (List String) :=
  (pruneGlobs job).map (fun glob =>
    borgBase "prune" ++ ["--list", "--show-rc", "--glob-archives", glob] ++ retentionArguments job)

/-- The archives that a command is about. -/
def archiveGlob : List String → Option String
  | "--glob-archives" :: glob :: _ => some glob
  | _ :: rest => archiveGlob rest
  | [] => none

def highest (ids : List Nat) : Nat := ids.max?.getD 0

def allocateJobId (db : Database) : Nat :=
  max (highest (db.jobs.map JobRow.id))
    (max (highest db.jobIdReservations) (highest (db.runs.filterMap RunRow.jobId))) + 1

inductive JobEvent
  | create (name template : String) (options : String → Option RetentionValue) (consistent : Bool)
  | update (rowId : Nat) (name template : String) (options : String → Option RetentionValue) (consistent : Bool)
  | delete (rowId : Nat)
  | backup (rowId : Nat) (expansion : String → String)
  | queueRun (rowId : Nat)
  | endRun (index : Nat)
  | purgeRun (index : Nat)

def findJob (db : Database) (rowId : Nat) : Option JobRow := db.jobs.find? (fun row => row.id == rowId)

/-- A refused creation is rolled back together with its reservation. The flag
stands for the other checks of the commit, such as schedule conflicts. -/
def createJob (db : Database) (name template : String) (options : String → Option RetentionValue)
    (consistent : Bool) : Option Database :=
  let id := allocateJobId db
  if consistent = true ∧ name ∉ db.jobs.map JobRow.name then
    some { db with
      jobs := db.jobs ++ [⟨id, name, some (seriesPrefix id), [], template, options, db.created.length⟩]
      jobIdReservations := db.jobIdReservations ++ [id]
      created := db.created ++ [id] }
  else none

def applyJob (rowId : Nat) (name template : String) (options : String → Option RetentionValue) (row : JobRow) :
    JobRow :=
  if row.id = rowId then { row with name := name, archiveTemplate := template, pruneOptions := options } else row

def updateJob (db : Database) (rowId : Nat) (name template : String) (options : String → Option RetentionValue)
    (consistent : Bool) : Option Database :=
  if consistent = true ∧ (findJob db rowId).isSome = true ∧
      (∀ row ∈ db.jobs, row.name = name → row.id = rowId) then
    some { db with jobs := db.jobs.map (applyJob rowId name template options) }
  else none

/-- The runs of a deleted job stay in the history without their job. -/
def deleteJob (db : Database) (rowId : Nat) : Option Database :=
  if (findJob db rowId).isSome = true ∧ (∀ run ∈ db.runs, run.jobId = some rowId → run.active = false) then
    some { db with
      jobs := db.jobs.filter (fun row => row.id != rowId)
      runs := db.runs.map (fun run => if run.jobId = some rowId then { run with jobId := none } else run) }
  else none

/-- Borg expands the placeholders of the template in its own way. -/
def backupJob (db : Database) (rowId : Nat) (expansion : String → String) : Option Database :=
  (findJob db rowId).map (fun row => { db with
    runs := db.runs ++ [⟨some rowId, true⟩]
    archives := db.archives ++ [⟨row.serial, jobArchivePrefix row ++ expansion row.archiveTemplate⟩] })

def next (db : Database) : JobEvent → Option Database
  | .create name template options consistent => createJob db name template options consistent
  | .update rowId name template options consistent => updateJob db rowId name template options consistent
  | .delete rowId => deleteJob db rowId
  | .backup rowId expansion => backupJob db rowId expansion
  | .queueRun rowId => (findJob db rowId).map (fun _ => { db with runs := db.runs ++ [⟨some rowId, true⟩] })
  | .endRun index => some { db with runs := db.runs.modify index (fun run => { run with active := false }) }
  | .purgeRun index => some { db with runs := db.runs.eraseIdx index }

abbrev jobStep : Transition Database JobEvent := graph next

/-- What the tables keep over every sequence of requests. -/
structure SeriesInvariant (db : Database) : Prop where
  reserved : ∀ id ∈ db.created, id ∈ db.jobIdReservations
  increasing : db.created.Pairwise (· < ·)
  rows : ∀ row ∈ db.jobs, db.created[row.serial]? = some row.id ∧
    row.archivePrefix = some (seriesPrefix row.id) ∧ row.archivePrefixHistory = []
  archives : ∀ archive ∈ db.archives, ∃ id text, db.created[archive.serial]? = some id ∧
    archive.name = seriesPrefix id ++ text

variable {db db' : Database}

theorem le_highest {ids : List Nat} {id : Nat} (h : id ∈ ids) : id ≤ highest ids := by
  cases hm : ids.max? with
  | none =>
      rw [List.max?_eq_none_iff] at hm
      rw [hm] at h
      cases h
  | some top =>
      rw [highest, hm]
      exact (List.max?_eq_some_iff.mp hm).2 id h

theorem reserved_lt_allocated {id : Nat} (h : id ∈ db.jobIdReservations) : id < allocateJobId db := by
  have := le_highest h
  simp only [allocateJobId]
  omega

theorem seriesPrefix_ne_empty (id : Nat) : seriesPrefix id ≠ "" := by
  intro h
  have := congrArg String.toList h
  simp [seriesPrefix] at this

theorem seriesPrefix_toList (id : Nat) :
    (seriesPrefix id).toList = ['b', 'b', 'm', '-'] ++ (Nat.toDigits 10 id ++ ['-']) := by
  simp [seriesPrefix, Nat.toString_eq_repr]

theorem dash_notMem_digits (id : Nat) : ∀ c ∈ Nat.toDigits 10 id, (c != '-') = true := by
  intro c hc
  have hd := Nat.isDigit_of_mem_toDigits (by decide) (by decide) hc
  rw [bne_iff_ne]
  rintro rfl
  exact absurd hd (by decide)

theorem takeWhile_digits (id : Nat) (rest : List Char) :
    (Nat.toDigits 10 id ++ '-' :: rest).takeWhile (· != '-') = Nat.toDigits 10 id := by
  rw [List.takeWhile_append_of_pos (dash_notMem_digits id), List.takeWhile_cons_of_neg (by decide), List.append_nil]

/-- The prefixes of two series never overlap: the dash after the digits ends
the id. -/
theorem eq_of_seriesPrefix_isPrefix {a b : Nat} {text : List Char}
    (h : (seriesPrefix a).toList <+: (seriesPrefix b).toList ++ text) : a = b := by
  obtain ⟨rest, hrest⟩ := h
  simp only [seriesPrefix_toList, List.append_assoc, List.cons_append, List.nil_append] at hrest
  have hdigits : Nat.toDigits 10 a ++ '-' :: rest = Nat.toDigits 10 b ++ '-' :: text := by
    simpa using hrest
  have heq := congrArg (List.takeWhile (· != '-')) hdigits
  rw [takeWhile_digits, takeWhile_digits] at heq
  have hparsed := congrArg (fun digits => Nat.ofDigitChars 10 digits 0) heq
  simpa using hparsed

theorem findJob_eq_some {rowId : Nat} {row : JobRow} (h : findJob db rowId = some row) :
    row ∈ db.jobs ∧ row.id = rowId :=
  ⟨List.mem_of_find?_eq_some h, by simpa using List.find?_some h⟩

theorem getElem?_of_isPrefix {xs ys : List Nat} (h : xs <+: ys) {i a : Nat} (hi : xs[i]? = some a) :
    ys[i]? = some a := by
  obtain ⟨rest, rfl⟩ := h
  rw [List.getElem?_append_left (List.getElem?_eq_some_iff.mp hi).1, hi]

theorem SeriesInvariant.of_create (h : SeriesInvariant db) {name template : String}
    {options : String → Option RetentionValue} {consistent : Bool}
    (hc : createJob db name template options consistent = some db') : SeriesInvariant db' := by
  simp only [createJob] at hc
  split at hc
  · cases hc
    have hnew := List.prefix_append db.created [allocateJobId db]
    refine ⟨?_, ?_, ?_, ?_⟩
    · intro id hid
      rcases List.mem_append.mp hid with hid | hid
      · exact List.mem_append_left _ (h.reserved id hid)
      · exact List.mem_append_right _ hid
    · rw [List.pairwise_append]
      refine ⟨h.increasing, List.pairwise_singleton .., ?_⟩
      intro a ha b hb
      rw [List.mem_singleton] at hb
      exact hb ▸ reserved_lt_allocated (h.reserved a ha)
    · intro row hrow
      rcases List.mem_append.mp hrow with hrow | hrow
      · obtain ⟨hs, hp⟩ := h.rows row hrow
        exact ⟨getElem?_of_isPrefix hnew hs, hp⟩
      · rw [List.mem_singleton.mp hrow]
        exact ⟨by simp, rfl, rfl⟩
    · intro archive harch
      obtain ⟨id, text, hs, hn⟩ := h.archives archive harch
      exact ⟨id, text, getElem?_of_isPrefix hnew hs, hn⟩
  · cases hc

theorem SeriesInvariant.of_update (h : SeriesInvariant db) {rowId : Nat} {name template : String}
    {options : String → Option RetentionValue} {consistent : Bool}
    (hu : updateJob db rowId name template options consistent = some db') : SeriesInvariant db' := by
  simp only [updateJob] at hu
  split at hu
  · cases hu
    refine ⟨h.reserved, h.increasing, ?_, h.archives⟩
    intro row hrow
    obtain ⟨old, hold, rfl⟩ := List.mem_map.mp hrow
    rw [applyJob]
    split
    · exact h.rows old hold
    · exact h.rows old hold
  · cases hu

theorem SeriesInvariant.of_delete (h : SeriesInvariant db) {rowId : Nat} (hd : deleteJob db rowId = some db') :
    SeriesInvariant db' := by
  simp only [deleteJob] at hd
  split at hd
  · cases hd
    exact ⟨h.reserved, h.increasing, fun row hrow => h.rows row (List.mem_filter.mp hrow).1, h.archives⟩
  · cases hd

theorem jobArchivePrefix_of_row (h : SeriesInvariant db) {row : JobRow} (hrow : row ∈ db.jobs) :
    jobArchivePrefix row = seriesPrefix row.id := by
  obtain ⟨_, hp, _⟩ := h.rows row hrow
  rw [jobArchivePrefix, truthy_eq_some.mpr ⟨hp, seriesPrefix_ne_empty row.id⟩]
  rfl

theorem jobArchivePrefixes_of_row (h : SeriesInvariant db) {row : JobRow} (hrow : row ∈ db.jobs) :
    jobArchivePrefixes row = [seriesPrefix row.id] := by
  rw [jobArchivePrefixes, (h.rows row hrow).2.2, jobArchivePrefix_of_row h hrow]
  rfl

theorem SeriesInvariant.of_backup (h : SeriesInvariant db) {rowId : Nat} {expansion : String → String}
    (hb : backupJob db rowId expansion = some db') : SeriesInvariant db' := by
  obtain ⟨row, hf, rfl⟩ := Option.map_eq_some_iff.mp hb
  obtain ⟨hrow, _⟩ := findJob_eq_some hf
  refine ⟨h.reserved, h.increasing, h.rows, ?_⟩
  intro archive harch
  rcases List.mem_append.mp harch with harch | harch
  · exact h.archives archive harch
  · rw [List.mem_singleton.mp harch]
    exact ⟨row.id, expansion row.archiveTemplate, (h.rows row hrow).1, by rw [jobArchivePrefix_of_row h hrow]⟩

theorem SeriesInvariant.step (h : SeriesInvariant db) {e : JobEvent} (hs : jobStep db e db') :
    SeriesInvariant db' := by
  cases e with
  | create name template options consistent => exact h.of_create hs
  | update rowId name template options consistent => exact h.of_update hs
  | delete rowId => exact h.of_delete hs
  | backup rowId expansion => exact h.of_backup hs
  | queueRun rowId =>
      obtain ⟨row, _, rfl⟩ := Option.map_eq_some_iff.mp hs
      exact ⟨h.reserved, h.increasing, h.rows, h.archives⟩
  | endRun index =>
      cases hs
      exact ⟨h.reserved, h.increasing, h.rows, h.archives⟩
  | purgeRun index =>
      cases hs
      exact ⟨h.reserved, h.increasing, h.rows, h.archives⟩

theorem seriesInvariant_empty : SeriesInvariant .empty := by
  constructor <;> simp [Database.empty]

theorem seriesInvariant_of_history {es : List JobEvent} (hh : History jobStep .empty es db) : SeriesInvariant db :=
  hh.invariant SeriesInvariant seriesInvariant_empty (fun _ _ _ ha hs => ha.step hs)

theorem created_isPrefix {es : List JobEvent} (hh : History jobStep db es db') : db.created <+: db'.created := by
  refine hh.invariant (fun u => db.created <+: u.created) List.prefix_rfl ?_
  intro a e b ha hs
  refine ha.trans ?_
  cases e with
  | create name template options consistent =>
      change createJob a name template options consistent = some b at hs
      simp only [createJob] at hs
      split at hs
      · cases hs
        exact List.prefix_append ..
      · cases hs
  | update rowId name template options consistent =>
      change updateJob a rowId name template options consistent = some b at hs
      simp only [updateJob] at hs
      split at hs <;> cases hs
      exact List.prefix_rfl
  | delete rowId =>
      change deleteJob a rowId = some b at hs
      simp only [deleteJob] at hs
      split at hs <;> cases hs
      exact List.prefix_rfl
  | backup rowId expansion =>
      obtain ⟨row, _, rfl⟩ := Option.map_eq_some_iff.mp hs
      exact List.prefix_rfl
  | queueRun rowId =>
      obtain ⟨row, _, rfl⟩ := Option.map_eq_some_iff.mp hs
      exact List.prefix_rfl
  | endRun index => cases hs; exact List.prefix_rfl
  | purgeRun index => cases hs; exact List.prefix_rfl

theorem archiveGlob_pruneCommand {row : JobRow} {args : List String} (h : args ∈ pruneCommand row) :
    ∃ glob ∈ pruneGlobs row, archiveGlob args = some glob := by
  obtain ⟨glob, hg, rfl⟩ := List.mem_map.mp h
  exact ⟨glob, hg, by simp [borgBase, archiveGlob]⟩

/-- What the shell patterns of Borg promise about a literal text followed by
a star: only names that start with the text match. -/
def LiteralStar (globMatches : String → String → Bool) : Prop :=
  ∀ text name, (∀ c ∈ text.toList, c ∉ ['*', '?', '[', ']', '!', '\\']) →
    globMatches (text ++ "*") name = true → text.toList <+: name.toList

theorem seriesPrefix_literal (id : Nat) :
    ∀ c ∈ (seriesPrefix id).toList, c ∉ ['*', '?', '[', ']', '!', '\\'] := by
  intro c hc
  rw [seriesPrefix_toList] at hc
  simp only [List.mem_append, List.mem_singleton] at hc
  rcases hc with hc | hc | rfl
  · simp only [List.mem_cons, List.not_mem_nil, or_false] at hc
    rcases hc with rfl | rfl | rfl | rfl <;> decide
  · have hd := Nat.isDigit_of_mem_toDigits (by decide) (by decide) hc
    intro hmeta
    simp only [List.mem_cons, List.not_mem_nil, or_false] at hmeta
    rcases hmeta with rfl | rfl | rfl | rfl | rfl | rfl <;> exact absurd hd (by decide)
  · decide

/-- Names of one series never start with the prefix of another job that
existed at the same time, before or after. -/
theorem series_disjoint {es fs : List JobEvent} {earlier : Database} (h₁ : History jobStep .empty es earlier)
    (h₂ : History jobStep earlier fs db) {row : JobRow} (hrow : row ∈ earlier.jobs) {archive : Archive}
    (harch : archive ∈ db.archives) (hne : archive.serial ≠ row.serial) :
    ¬ (seriesPrefix row.id).toList <+: archive.name.toList := by
  have hearlier := seriesInvariant_of_history h₁
  have hlater := seriesInvariant_of_history (h₁.append h₂)
  obtain ⟨id, text, hs, hn⟩ := hlater.archives archive harch
  have hcreated : db.created[row.serial]? = some row.id :=
    getElem?_of_isPrefix (created_isPrefix h₂) (hearlier.rows row hrow).1
  intro hp
  rw [hn, String.toList_append] at hp
  obtain rfl := eq_of_seriesPrefix_isPrefix hp
  -- The creations of two jobs never got one id.
  have hnodup : db.created.Nodup := hlater.increasing.imp Nat.ne_of_lt
  exact hne ((List.getElem?_inj (List.getElem?_eq_some_iff.mp hs).1 hnodup).mp (hs.trans hcreated.symm))

/-- Archive series isolation: ids are never reused, and neither the prune
commands nor the prefixes of a job reach a name generated for another job. -/
theorem archive_series_isolated {globMatches : String → String → Bool} (hglob : LiteralStar globMatches)
    {es fs : List JobEvent} {earlier : Database} (h₁ : History jobStep .empty es earlier)
    (h₂ : History jobStep earlier fs db) :
    db.created.Nodup ∧ ∀ row ∈ earlier.jobs, ∀ archive ∈ db.archives, archive.serial ≠ row.serial →
      (∀ args ∈ pruneCommand row, ∃ glob, archiveGlob args = some glob ∧
        globMatches glob archive.name = false) ∧
      ∀ text ∈ jobArchivePrefixes row, ¬ text.toList <+: archive.name.toList := by
  have hearlier := seriesInvariant_of_history h₁
  refine ⟨(seriesInvariant_of_history (h₁.append h₂)).increasing.imp Nat.ne_of_lt, ?_⟩
  intro row hrow archive harch hne
  have hdisjoint := series_disjoint h₁ h₂ hrow harch hne
  refine ⟨?_, ?_⟩
  · intro args ha
    obtain ⟨glob, hg, hargs⟩ := archiveGlob_pruneCommand ha
    refine ⟨glob, hargs, ?_⟩
    rw [pruneGlobs, jobArchivePrefixes_of_row hearlier hrow, List.map_singleton, List.mem_singleton] at hg
    subst hg
    by_contra hm
    exact hdisjoint (hglob _ _ (seriesPrefix_literal row.id) (by simpa using hm))
  · intro text ht
    rw [jobArchivePrefixes_of_row hearlier hrow, List.mem_singleton] at ht
    exact ht ▸ hdisjoint

def prefixGlob (pattern name : String) : Bool := pattern.toList.dropLast.isPrefixOf name.toList

theorem prefixGlob_literal : LiteralStar prefixGlob := by
  intro text name _ h
  simpa [prefixGlob] using h

def keepSeven (key : String) : Option RetentionValue := if key = "daily" then some (.int 7) else none

def deletedThenCreated : List JobEvent :=
  [.create "web" "{now}" keepSeven true, .backup 1 (fun _ => "2026-01-01"), .endRun 0, .delete 1,
    .create "mail" "{now}" keepSeven true]

def afterDeletion : Database := (exec next .empty deletedThenCreated).get (by decide)

def afterBackup : Database := (exec next afterDeletion [.backup 2 (fun _ => "2026-01-02")]).get (by decide)

theorem archive_series_isolated_deleted :
    afterBackup.created.Nodup ∧ ∀ row ∈ afterDeletion.jobs, ∀ archive ∈ afterBackup.archives,
      archive.serial ≠ row.serial →
      (∀ args ∈ pruneCommand row, ∃ glob, archiveGlob args = some glob ∧ prefixGlob glob archive.name = false) ∧
      ∀ text ∈ jobArchivePrefixes row, ¬ text.toList <+: archive.name.toList :=
  archive_series_isolated prefixGlob_literal (history_of_exec (Option.some_get _).symm)
    (history_of_exec (Option.some_get _).symm)

end BorgManager.ArchiveSeries
