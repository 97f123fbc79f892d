import BorgManager.Blocks
import BorgManager.BackupArchives
import Mathlib.Data.List.TakeWhile

namespace BorgManager.ArchiveExtraction

open Blocks Exceptions PythonText ArtifactPaths JsonText BackupArchives

/-- An entry as the directory of an archive describes it. -/
structure Entry where
  filename : List Char
  externalAttr : Nat
  fileSize : Int
  compressSize : Int

def symlinkType : Nat := 0o120000

def Entry.fileType (entry : Entry) : Nat := (entry.externalAttr >>> 16) &&& 0o170000

def Entry.isDir (entry : Entry) : Bool := entry.filename.getLast? == some '/'

def Entry.relative (entry : Entry) : Except String (List (List Char)) :=
  safeRelativePath (if entry.isDir then rstripWhile (· == '/') entry.filename else entry.filename)

local instance lawfulNames : LawfulBEq (List Char) := inferInstance

/-- One round of the checks of `_safe_extract`. -/
def checkEntry (limits : Limits) (tally : Tally) (entry : Entry) : Except String Tally := do
  let parts ← entry.relative
  let next : Tally := ⟨asPosix parts :: tally.names, tally.uncompressed + entry.fileSize.toNat,
    tally.compressed + entry.compressSize.toNat⟩
  if asPosix parts ∈ tally.names then throw ("Doppelter Eintrag im Backup: " ++ String.ofList (asPosix parts))
  else do
    containedTarget parts
    if entry.fileType = symlinkType then
      throw ("Symbolischer Link im Backup ist nicht erlaubt: " ++ String.ofList entry.filename)
    else if entry.fileSize < 0 ∨ entry.compressSize < 0 then
      throw ("Ungültige Größenangabe im Backup: " ++ String.ofList entry.filename)
    else if exceedsRatio limits entry.fileSize.toNat entry.compressSize.toNat then
      throw ("Backup-Eintrag weist ein unzulässig hohes Kompressionsverhältnis auf: " ++ String.ofList entry.filename)
    else if limits.maxUncompressedBytes < next.uncompressed then
      throw ("Entpackter Backup-Inhalt überschreitet " ++ toString limits.maxUncompressedBytes ++ " Bytes")
    else pure next

def checkEntries (limits : Limits) (tally : Tally) : List Entry → Except String Tally
  | [] => .ok tally
  | entry :: rest => do
      let next ← checkEntry limits tally entry
      checkEntries limits next rest

def attributes : FileType → Nat
  | .unset => 0
  | .regular => 0o100000 <<< 16
  | .symlink => symlinkType <<< 16

/-- A member that declares the size of its content. -/
def ofMember (member : Member) : Entry where
  filename := member.filename
  externalAttr := attributes member.fileType
  fileSize := member.fileSize
  compressSize := member.compressSize

theorem fileType_ofMember (member : Member) :
    (ofMember member).fileType = symlinkType ↔ member.fileType = .symlink := by
  change (attributes member.fileType >>> 16) &&& 0o170000 = symlinkType ↔ _
  cases member.fileType <;> decide

/-- The checks of entries are the checks of members. -/
theorem checkEntry_ofMember (limits : Limits) (tally : Tally) (member : Member) :
    checkEntry limits tally (ofMember member) = checkMember limits tally member := by
  have hname : (ofMember member).filename = member.filename := rfl
  have hrelative : (ofMember member).relative = member.relative := rfl
  have hsize : (ofMember member).fileSize.toNat = member.fileSize := rfl
  have hcompressed : (ofMember member).compressSize.toNat = member.compressSize := rfl
  have hvalid : ¬ ((ofMember member).fileSize < 0 ∨ (ofMember member).compressSize < 0) :=
    not_or.mpr ⟨Int.not_lt.mpr (Int.natCast_nonneg _), Int.not_lt.mpr (Int.natCast_nonneg _)⟩
  rw [checkEntry, checkMember, hrelative, hsize, hcompressed]
  simp only [hname, fileType_ofMember, if_neg hvalid]
  cases member.relative with
  | error e => rfl
  | ok parts => simp only [bind, Except.bind, throw, throwThe, MonadExceptOf.throw]

theorem checkEntries_ofMember (limits : Limits) (tally : Tally) (members : List Member) :
    checkEntries limits tally (members.map ofMember) = checkMembers limits tally members := by
  induction members generalizing tally with
  | nil => rfl
  | cons member rest ih =>
      rw [List.map_cons, checkEntries, checkMembers, checkEntry_ofMember]
      congr 1
      funext next
      exact ih next

abbrev Path := List (List Char)

/-- What an extraction does to the file system. -/
inductive Action
  | makeDirectory (path : Path)
  | writeFile (path : Path)
  | changeMode (path : Path) (mode : Nat)
  deriving DecidableEq

def Action.path : Action → Path
  | .makeDirectory path => path
  | .writeFile path => path
  | .changeMode path _ => path

abbrev Extraction (α : Type) := Block String (List Action) α

/-- The path below the destination that `ZipFile.extract` makes of a name. -/
def extractParts (filename : List Char) : Path :=
  (filename.splitOn '/').filter (fun part => part != [] && part != ['.'] && part != ['.', '.'])

/-- A directory that does not exist yet. -/
def makeMissing (path : Path) : Extraction Unit := do
  let done ← read id
  when (!(done.contains (.makeDirectory path) || done.contains (.writeFile path))) (update (· ++ [.makeDirectory path]))

/-- The directories above a path, from the destination down. -/
def parents (destination parts : Path) : List Path :=
  (List.range' 1 (parts.length - 1)).map (fun n => destination ++ parts.take n)

/-- `ZipFile.extract`, with the outcome of its input and output. -/
def extractMember (destination : Path) (outcome : Entry → Except String Unit) (entry : Entry) : Extraction Unit := do
  let parts := extractParts entry.filename
  forEach (parents destination parts) makeMissing
  if entry.isDir then makeMissing (destination ++ parts)
  else update (· ++ [.writeFile (destination ++ parts)])
  effect (outcome entry)

def extractEntry (destination : Path) (skipPrefixes : List (List Char)) (outcome : Entry → Except String Unit)
    (entry : Entry) :
    Extraction Unit := do
  let parts ← effect entry.relative
  if skipPrefixes.any (fun skipped => skipped.isPrefixOf (asPosix parts)) then pure ()
  else extractMember destination outcome entry

/-- What `json.loads` makes of `permissions.json`. -/
inductive Permissions
  | unreadable
  | other
  | object (fields : Document)

def modeOf : Value → Nat
  | .number n => n.toNat &&& 0o777
  | _ => 0

def applyPermission (destination : Path) (f : String × Value) : Extraction Unit :=
  if isMode f.2 = false then raise "Berechtigungsmanifest enthält ungültige Werte"
  else do
    let parts ← effect (safeRelativePath f.1.toList)
    effect (containedTarget parts)
    let done ← read id
    -- only what has been extracted is a file there
    when (done.contains (.writeFile (destination ++ parts)))
      (update (· ++ [.changeMode (destination ++ parts) (modeOf f.2)]))

def applyPermissions (limits : Limits) (destination : Path) (permissions : Permissions) : Extraction Unit := do
  let done ← read id
  when (done.contains (.writeFile (destination ++ [permissionsName])))
    (match permissions with
    | .unreadable => raise "Berechtigungsmanifest ist ungültig"
    | .other => raise "Berechtigungsmanifest enthält ungültig viele Einträge"
    | .object fields =>
        if limits.maxEntries < fields.length then raise "Berechtigungsmanifest enthält ungültig viele Einträge"
        else forEach fields (applyPermission destination))

/-- `_safe_extract` into an empty directory, with the manifest that
`_read_any_backup_manifest` returns. -/
def safeExtract (limits : BackupLimits) (destination : Path) (skipPrefixes : List (List Char))
    (manifest : Except String Document) (outcome : Entry → Except String Unit) (permissions : Permissions)
    (entries : List Entry) : Extraction Document := do
  let document ← effect manifest
  if (limits.of (includesCache document)).maxEntries < entries.length then
    raise ("Backup enthält mehr als " ++ toString (limits.of (includesCache document)).maxEntries ++ " Einträge")
  else do
    let tally ← effect (checkEntries (limits.of (includesCache document)) ⟨[], 0, 0⟩ entries)
    if exceedsRatio (limits.of (includesCache document)) tally.uncompressed tally.compressed then
      raise "Backup weist ein unzulässig hohes Kompressionsverhältnis auf"
    else do
      forEach entries (extractEntry destination skipPrefixes outcome)
      applyPermissions (limits.of (includesCache document)) destination permissions
      pure document

theorem rstrip_slashes (value : List Char) : ∃ n, value = rstripWhile (· == '/') value ++ List.replicate n '/' := by
  have hsplit := List.takeWhile_append_dropWhile (p := (· == '/')) (l := value.reverse)
  have hslashes : value.reverse.takeWhile (· == '/') = List.replicate (value.reverse.takeWhile (· == '/')).length '/' :=
    List.eq_replicate_of_mem (fun c hc => by simpa using List.mem_takeWhile_imp hc)
  have hjoin := congrArg List.reverse hsplit
  rw [List.reverse_append, List.reverse_reverse, hslashes, List.reverse_replicate] at hjoin
  exact ⟨_, hjoin.symm⟩

/-- Slashes at the end of a name say nothing about its path. -/
theorem pathParts_slashes (value : List Char) (n : Nat) :
    pathParts (value ++ List.replicate n '/') = pathParts value := by
  induction n with
  | zero => rw [List.replicate_zero, List.append_nil]
  | succ n ih =>
      rw [List.replicate_succ', ← List.append_assoc, pathParts, List.splitOn_append_cons_self,
        List.filter_append, ← pathParts, ih]
      exact List.append_nil _

/-- A name that leads to a path below the directory where it is resolved. -/
structure LeadsBelow (filename : List Char) : Prop where
  relative : filename.head? ≠ some '/'
  noBackslash : '\\' ∉ filename
  noUp : ['.', '.'] ∉ filename.splitOn '/'
  below : extractParts filename ≠ []
  plain : ∀ part ∈ extractParts filename, PlainPart part

/-- The extraction goes where the checks have looked. -/
theorem extractParts_eq {entry : Entry} {parts : Path} (h : entry.relative = .ok parts) :
    extractParts entry.filename = parts ∧ (parts ≠ [] → LeadsBelow entry.filename) := by
  obtain ⟨stripped, n, hname, hstripped⟩ : ∃ stripped n, entry.filename = stripped ++ List.replicate n '/' ∧
      safeRelativePath stripped = .ok parts := by
    rw [Entry.relative] at h
    split at h
    · obtain ⟨n, hn⟩ := rstrip_slashes entry.filename
      exact ⟨_, n, hn, h⟩
    · exact ⟨_, 0, (List.append_nil _).symm, h⟩
  obtain ⟨hparts, ⟨hnonempty, hhead⟩, hback, hplain⟩ := safeRelativePath_ok hstripped
  have hall : pathParts entry.filename = parts := by rw [hname, pathParts_slashes, hparts]
  have heq : extractParts entry.filename = parts := by
    have hfilter : extractParts entry.filename = (pathParts entry.filename).filter
        (fun part => part != ['.', '.']) := by
      rw [extractParts, pathParts, List.filter_filter]
      congr 1
      funext part
      rw [Bool.and_comm]
    rw [hfilter, hall, List.filter_eq_self]
    exact fun part hpart => bne_iff_ne.mpr (hplain part hpart).notUp
  refine ⟨heq, fun hne => ⟨?_, ?_, ?_, heq ▸ hne, heq ▸ hplain⟩⟩
  · rw [hname, List.head?_append_of_ne_nil _ hnonempty]
    exact hhead
  · rw [hname, List.mem_append, not_or]
    exact ⟨hback, fun hmem => absurd (List.eq_of_mem_replicate hmem) (by decide)⟩
  · intro hup
    have hmem : ['.', '.'] ∈ pathParts entry.filename := List.mem_filter.mpr ⟨hup, rfl⟩
    exact (hplain _ (hall ▸ hmem)).notUp rfl

/-- What the checks ask of one entry. -/
structure EntryFits (limits : Limits) (entry : Entry) (parts : Path) : Prop where
  relative : entry.relative = .ok parts
  below : parts ≠ []
  noLink : entry.fileType ≠ symlinkType
  fileSize : 0 ≤ entry.fileSize
  compressSize : 0 ≤ entry.compressSize
  ratio : ¬ exceedsRatio limits entry.fileSize.toNat entry.compressSize.toNat

variable {limits : Limits} {tally next : Tally} {entry : Entry} {entries : List Entry}

theorem checkEntry_ok (h : checkEntry limits tally entry = .ok next) :
    ∃ parts, EntryFits limits entry parts ∧ asPosix parts ∉ tally.names ∧ next.names = asPosix parts :: tally.names ∧
      next.uncompressed = tally.uncompressed + entry.fileSize.toNat ∧
        next.compressed = tally.compressed + entry.compressSize.toNat ∧
        next.uncompressed ≤ limits.maxUncompressedBytes := by
  rw [checkEntry] at h
  obtain ⟨parts, hrelative, h⟩ := bind_ok h
  split at h
  · nomatch h
  next hnew =>
  obtain ⟨⟨⟩, hbelow, h⟩ := bind_ok h
  split at h
  · nomatch h
  next hlink =>
  split at h
  · nomatch h
  next hsizes =>
  split at h
  · nomatch h
  next hratio =>
  split at h
  · nomatch h
  next htotal =>
  cases h
  rw [not_or, Int.not_lt, Int.not_lt] at hsizes
  have hne : parts ≠ [] := by
    rintro rfl
    nomatch hbelow
  exact ⟨parts, ⟨hrelative, hne, hlink, hsizes.1, hsizes.2, hratio⟩, hnew, rfl, rfl, rfl, Nat.not_lt.mp htotal⟩

def uncompressedTotal (entries : List Entry) : Nat := (entries.map (fun entry => entry.fileSize.toNat)).sum

def compressedTotal (entries : List Entry) : Nat := (entries.map (fun entry => entry.compressSize.toNat)).sum

theorem checkEntries_ok {last : Tally} (h : checkEntries limits tally entries = .ok last)
    (hstart : tally.uncompressed ≤ limits.maxUncompressedBytes) :
    (∀ entry ∈ entries, ∃ parts, EntryFits limits entry parts ∧ asPosix parts ∉ tally.names) ∧
      (entries.map (fun entry => extractParts entry.filename)).Nodup ∧
        last.uncompressed = tally.uncompressed + uncompressedTotal entries ∧
          last.compressed = tally.compressed + compressedTotal entries ∧
          last.uncompressed ≤ limits.maxUncompressedBytes := by
  induction entries generalizing tally with
  | nil =>
      cases h
      exact ⟨fun _ hmem => absurd hmem List.not_mem_nil, List.nodup_nil, rfl, rfl, hstart⟩
  | cons entry rest ih =>
      rw [checkEntries] at h
      obtain ⟨next, hentry, hrest⟩ := bind_ok h
      obtain ⟨parts, hfits, hnew, hnames, huncompressed, hcompressed, htotal⟩ := checkEntry_ok hentry
      obtain ⟨hothers, hnodup, hsum, hcompressedSum, hbound⟩ := ih hrest htotal
      refine ⟨?_, List.nodup_cons.mpr ⟨?_, hnodup⟩, ?_, ?_, hbound⟩
      · intro other hother
        rcases List.mem_cons.mp hother with rfl | hother
        · exact ⟨parts, hfits, hnew⟩
        · obtain ⟨otherParts, hotherFits, hotherNew⟩ := hothers other hother
          rw [hnames, List.mem_cons, not_or] at hotherNew
          exact ⟨otherParts, hotherFits, hotherNew.2⟩
      · intro hmem
        obtain ⟨other, hother, hsame⟩ := List.mem_map.mp hmem
        obtain ⟨otherParts, hotherFits, hotherNew⟩ := hothers other hother
        have hparts : otherParts = parts :=
          (extractParts_eq hotherFits.relative).1.symm.trans (hsame.trans (extractParts_eq hfits.relative).1)
        rw [hnames, List.mem_cons, not_or, hparts] at hotherNew
        exact hotherNew.1 rfl
      · rw [hsum, huncompressed, uncompressedTotal, uncompressedTotal, List.map_cons, List.sum_cons, Nat.add_assoc]
      · rw [hcompressedSum, hcompressed, compressedTotal, compressedTotal, List.map_cons, List.sum_cons, Nat.add_assoc]

/-- An archive without an entry that leads out of the destination, stands there
twice, is a link or is larger than it may be. -/
structure Acceptable (limits : Limits) (entries : List Entry) : Prop where
  count : entries.length ≤ limits.maxEntries
  inside : ∀ entry ∈ entries, LeadsBelow entry.filename
  distinct : (entries.map (fun entry => extractParts entry.filename)).Nodup
  noLink : ∀ entry ∈ entries, entry.fileType ≠ symlinkType
  sizes : ∀ entry ∈ entries, 0 ≤ entry.fileSize ∧ 0 ≤ entry.compressSize
  ratios : ∀ entry ∈ entries, entry.fileSize.toNat ≤ limits.maxCompressionRatio * max 1 entry.compressSize.toNat
  total : uncompressedTotal entries ≤ limits.maxUncompressedBytes
  ratio : uncompressedTotal entries ≤ limits.maxCompressionRatio * max 1 (compressedTotal entries)

theorem le_of_not_exceeds {size compressed : Nat} (h : ¬ exceedsRatio limits size compressed) :
    size ≤ limits.maxCompressionRatio * max 1 compressed := by
  rw [exceedsRatio, not_and, Nat.not_lt] at h
  by_cases hzero : size = 0
  · rw [hzero]
    exact Nat.zero_le _
  · exact h hzero

theorem acceptable_of_checks {last : Tally} (hcount : entries.length ≤ limits.maxEntries)
    (h : checkEntries limits ⟨[], 0, 0⟩ entries = .ok last)
    (hratio : ¬ exceedsRatio limits last.uncompressed last.compressed) :
    Acceptable limits entries := by
  obtain ⟨hfits, hdistinct, huncompressed, hcompressed, htotal⟩ := checkEntries_ok h (Nat.zero_le _)
  rw [Nat.zero_add] at huncompressed hcompressed
  rw [huncompressed] at htotal
  rw [huncompressed, hcompressed] at hratio
  refine ⟨hcount, ?_, hdistinct, ?_, ?_, ?_, htotal, le_of_not_exceeds hratio⟩
  · intro entry hentry
    obtain ⟨parts, hentryFits, -⟩ := hfits entry hentry
    exact (extractParts_eq hentryFits.relative).2 hentryFits.below
  · intro entry hentry
    obtain ⟨parts, hentryFits, -⟩ := hfits entry hentry
    exact hentryFits.noLink
  · intro entry hentry
    obtain ⟨parts, hentryFits, -⟩ := hfits entry hentry
    exact ⟨hentryFits.fileSize, hentryFits.compressSize⟩
  · intro entry hentry
    obtain ⟨parts, hentryFits, -⟩ := hfits entry hentry
    exact le_of_not_exceeds hentryFits.ratio

/-- A path strictly below a directory. -/
def Inside (destination path : Path) : Prop :=
  ∃ parts, parts ≠ [] ∧ (∀ part ∈ parts, PlainPart part) ∧ path = destination ++ parts

def Confined (destination : Path) (done : List Action) : Prop := ∀ action ∈ done, Inside destination action.path

section Confinement

variable {destination path : Path} {done : List Action}

theorem Confined.append (h : Confined destination done) {action : Action} (hinside : Inside destination action.path) :
    Confined destination (done ++ [action]) := by
  intro other hother
  rcases List.mem_append.mp hother with hother | hother
  · exact h other hother
  · rw [List.mem_singleton.mp hother]
    exact hinside

theorem makeMissing_ends (h : Confined destination done) (hinside : Inside destination path) :
    Ends (makeMissing path) done (fun _ t => Confined destination t) := by
  rw [makeMissing, ends_bind, ends_read]
  apply ends_when.mpr
  exact ⟨fun _ => h.append hinside, fun _ => h⟩

theorem inside_parents {parts : Path} (hplain : ∀ part ∈ parts, PlainPart part)
    (hpath : path ∈ parents destination parts) :
    Inside destination path := by
  obtain ⟨n, hn, rfl⟩ := List.mem_map.mp hpath
  rw [List.mem_range'_1] at hn
  refine ⟨parts.take n, ?_, fun part hpart => hplain part (List.mem_of_mem_take hpart), rfl⟩
  rw [← List.length_pos_iff_ne_nil, List.length_take]
  omega

theorem extractMember_ends {outcome : Entry → Except String Unit} (h : Confined destination done)
    (hbelow : LeadsBelow entry.filename) :
    Ends (extractMember destination outcome entry) done (fun _ t => Confined destination t) := by
  have htarget : Inside destination (destination ++ extractParts entry.filename) :=
    ⟨_, hbelow.below, hbelow.plain, rfl⟩
  rw [extractMember, ends_bind]
  apply ends_mono (ends_forEach_invariant
    (fun path hpath s hs => makeMissing_ends hs (inside_parents hbelow.plain hpath)) h)
  intro started t ht
  cases started with
  | error e => exact ht
  | ok _ =>
      cases entry.isDir with
      | true =>
          change Ends (makeMissing (destination ++ extractParts entry.filename) >>= fun _ => effect (outcome entry)) t _
          rw [ends_bind]
          apply ends_mono (makeMissing_ends ht htarget)
          intro made u hu
          cases made with
          | ok _ => exact hu
          | error e => exact hu
      | false => exact ht.append htarget

theorem extractEntry_ends {skipPrefixes : List (List Char)} {outcome : Entry → Except String Unit}
    (h : Confined destination done) (hacceptable : Acceptable limits entries) (hentry : entry ∈ entries) :
    Ends (extractEntry destination skipPrefixes outcome entry) done (fun _ t => Confined destination t) := by
  rw [extractEntry, ends_bind, ends_effect]
  cases entry.relative with
  | error e => exact h
  | ok parts =>
      change Ends (if _ then pure () else extractMember destination outcome entry) done _
      split
      · exact h
      · exact extractMember_ends h (hacceptable.inside entry hentry)

theorem applyPermission_ends (f : String × Value) (h : Confined destination done) :
    Ends (applyPermission destination f) done (fun _ t => Confined destination t) := by
  rw [applyPermission]
  split
  · exact h
  rw [ends_bind, ends_effect]
  cases hsafe : safeRelativePath f.1.toList with
  | error e => exact h
  | ok parts =>
      change Ends (effect (containedTarget parts) >>= _) done _
      rw [ends_bind, ends_effect]
      cases hbelow : containedTarget parts with
      | error e => exact h
      | ok _ =>
          change Ends (read id >>= _) done _
          rw [ends_bind, ends_read]
          apply ends_when.mpr
          refine ⟨fun _ => h.append ⟨parts, ?_, (safeRelativePath_ok hsafe).2.2.2, rfl⟩, fun _ => h⟩
          rintro rfl
          nomatch hbelow

theorem applyPermissions_ends (permissions : Permissions) (h : Confined destination done) :
    Ends (applyPermissions limits destination permissions) done (fun _ t => Confined destination t) := by
  unfold applyPermissions
  rw [ends_bind, ends_read]
  apply ends_when.mpr
  refine ⟨fun _ => ?_, fun _ => h⟩
  cases permissions with
  | unreadable => exact h
  | other => exact h
  | object fields =>
      change Ends (if limits.maxEntries < fields.length then _ else _) done _
      split
      · exact h
      · exact ends_forEach_invariant (fun f _ s hs => applyPermission_ends f hs) h

/-- Whatever becomes of an archive, its extraction stays inside the destination;
only an archive that is acceptable is extracted at all. -/
theorem safe_extract (limits : BackupLimits) (destination : Path) (skipPrefixes : List (List Char))
    (manifest : Except String Document) (outcome : Entry → Except String Unit) (permissions : Permissions)
    (entries : List Entry) :
    Ends (safeExtract limits destination skipPrefixes manifest outcome permissions entries) [] (fun ended done =>
      (∀ action ∈ done, Inside destination action.path) ∧
        (∀ document, ended = .ok document → Acceptable (limits.of (includesCache document)) entries) ∧
          ((∀ document, manifest = .ok document → ¬ Acceptable (limits.of (includesCache document)) entries) →
            (∃ text, ended = .error text) ∧ done = [])) := by
  have hempty : Confined destination [] := fun _ hmem => absurd hmem List.not_mem_nil
  rw [safeExtract, ends_bind, ends_effect]
  cases manifest with
  | error text => exact ⟨hempty, nofun, fun _ => ⟨⟨text, rfl⟩, rfl⟩⟩
  | ok document =>
      have hfailed (text : String) : Ends (raise text : Extraction Document) [] (fun ended done =>
          (∀ action ∈ done, Inside destination action.path) ∧
            (∀ document, ended = .ok document → Acceptable (limits.of (includesCache document)) entries) ∧
              ((∀ read, Except.ok document = (.ok read : Except String Document) →
                ¬ Acceptable (limits.of (includesCache read)) entries) → (∃ text, ended = .error text) ∧ done = [])) :=
        ⟨hempty, nofun, fun _ => ⟨⟨text, rfl⟩, rfl⟩⟩
      change Ends (if (limits.of (includesCache document)).maxEntries < entries.length then _ else _) [] _
      split
      · exact hfailed _
      next hcount =>
      rw [ends_bind, ends_effect]
      cases hchecks : checkEntries (limits.of (includesCache document)) ⟨[], 0, 0⟩ entries with
      | error text => exact hfailed text
      | ok tally =>
          change Ends (if exceedsRatio (limits.of (includesCache document)) tally.uncompressed
            tally.compressed then _ else _) [] _
          split
          · exact hfailed _
          next hratio =>
          have hacceptable := acceptable_of_checks (Nat.not_lt.mp hcount) hchecks hratio
          have hnot : ¬ ∀ read, Except.ok document = (.ok read : Except String Document) →
              ¬ Acceptable (limits.of (includesCache read)) entries := fun hall => hall document rfl hacceptable
          rw [ends_bind]
          apply ends_mono (ends_forEach_invariant
            (fun entry hentry s hs => extractEntry_ends hs hacceptable hentry) hempty)
          intro extracted s hs
          cases extracted with
          | error text => exact ⟨hs, nofun, fun hall => absurd hall hnot⟩
          | ok _ =>
              change Ends (applyPermissions (limits.of (includesCache document)) destination permissions >>=
                fun _ => pure document) s _
              rw [ends_bind]
              apply ends_mono (applyPermissions_ends permissions hs)
              intro applied t ht
              cases applied with
              | error text => exact ⟨ht, nofun, fun hall => absurd hall hnot⟩
              | ok _ =>
                  refine ⟨ht, fun read hread => ?_, fun hall => absurd hall hnot⟩
                  cases hread
                  exact hacceptable

end Confinement

end BorgManager.ArchiveExtraction
