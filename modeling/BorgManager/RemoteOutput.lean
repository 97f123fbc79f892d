import BorgManager.Patterns
import BorgManager.PythonText

namespace BorgManager.RemoteOutput

open PythonText Patterns

inductive PyError
  | typeError | valueError | overflowError
  | other (name : String)
  deriving DecidableEq

/-- A float of the runtime; a finite one is the ratio of two integers. -/
inductive PyFloat
  | finite (numerator : Int) (denominator : Nat)
  | infinite
  | nan

inductive Json
  | null
  | bool (b : Bool)
  | int (n : Int)
  | float (x : PyFloat)
  | str (s : String)
  | list (items : List Json)
  | dict (entries : List (String × Json))

inductive LoadError
  | decode
  | raised (e : PyError)

/-- What the parsers use of the runtime: the Unicode tables behind `\d`,
`re.IGNORECASE`, `str.casefold` and `str.lower`, the JSON reader, `str`, and
`int(round(float(text) * n))`, which is `none` for an infinite product. A text
of the JSON reader may hold one half of a surrogate pair; `encodable` tells the
texts that stand for such from those that UTF-8 can write. -/
structure Runtime where
  decimal : Char → Option Nat
  sameLetter : Char → Char → Bool
  casefold : String → String
  lower : String → String
  jsonLoads : String → Except LoadError Json
  str : Json → String
  roundProduct : String → Nat → Option Int
  encodable : String → Bool

variable (rt : Runtime)

def isDecimal (c : Char) : Bool := (rt.decimal c).isSome

/-- Longer texts are refused by the integer conversion of the runtime. -/
def maxStrDigits : Nat := 4300

def intOfDigits (digits : List Char) : Except PyError Int :=
  if digits.length ≤ maxStrDigits then
    .ok (digits.foldl (fun value c => 10 * value + ((rt.decimal c).getD 0 : Nat)) 0)
  else .error .valueError

def unsigned (cs : List Char) : Except PyError Int :=
  let parts := cs.splitOn '_'
  if parts.all (fun part => part != [] && part.all (isDecimal rt)) then intOfDigits rt parts.flatten
  else .error .valueError

/-- `int` of a text. -/
def intOfText (text : String) : Except PyError Int :=
  match stripWhile isSpace text.toList with
  | '-' :: digits => (unsigned rt digits).map (fun n => -n)
  | '+' :: digits => unsigned rt digits
  | digits => unsigned rt digits

/-- `int` of a value that came out of a JSON document. -/
def pyInt : Json → Except PyError Int
  | .null | .list _ | .dict _ => .error .typeError
  | .bool b => .ok b.toNat
  | .int n => .ok n
  | .float (.finite numerator denominator) => .ok (numerator.tdiv denominator)
  | .float .infinite => .error .overflowError
  | .float .nan => .error .valueError
  | .str s => intOfText rt s

def truthyJson : Json → Bool
  | .null => false
  | .bool b => b
  | .int n => n != 0
  | .float (.finite numerator _) => numerator != 0
  | .float _ => true
  | .str s => s != ""
  | .list items => !items.isEmpty
  | .dict entries => !entries.isEmpty

abbrev Payload := List (String × Json)

def Payload.get (payload : Payload) (key : String) : Json := (payload.lookup key).getD .null

def items : Json → List Json
  | .list xs => xs
  | _ => []

/-- `max(0, int(value or 0))`. -/
def counter (value : Json) : Except PyError Int :=
  if truthyJson value then (pyInt rt value).map (fun n => max 0 n) else .ok 0

def textOr (value : Json) (default : String) : String := if truthyJson value then rt.str value else default

/-- `except (TypeError, ValueError)` around a computation. -/
def unlessWrongType {α : Type} : Except PyError α → Except PyError (Option α)
  | .ok a => .ok (some a)
  | .error .typeError | .error .valueError => .ok none
  | .error e => .error e

mutual

/-- Every text in the value can be written in UTF-8. -/
def encodableJson : Json → Bool
  | .str s => rt.encodable s
  | .list items => encodableItems items
  | .dict entries => encodableEntries entries
  | .null | .bool _ | .int _ | .float _ => true

def encodableItems : List Json → Bool
  | [] => true
  | item :: rest => encodableJson item && encodableItems rest

def encodableEntries : List (String × Json) → Bool
  | [] => true
  | (key, value) :: rest => rt.encodable key && encodableJson value && encodableEntries rest

end

structure SourceFigures where
  path : String
  sizeBytes : Int
  fileCount : Int

structure SourceScanStatistics where
  originalSizeBytes : Int
  fileCount : Int
  scanMethod : String
  warningCount : Int
  skippedMountCount : Int
  skippedMounts : List String
  includedMountCount : Int
  pathExcludedCount : Int
  excludedFileCount : Int
  excludedSizeBytes : Int
  unsupportedPatterns : List String
  nodumpSupported : Json
  quality : String
  sources : List SourceFigures

def caseless (text : String) : Pattern := literal rt.sameLetter text.toList

def exactly (text : String) : Pattern := literal (· == ·) text.toList

def dot : Pattern := .char (· != '\n')

def space : Pattern := .char isSpace

def spaces : Pattern := .many true space

def digit : Pattern := .char (isDecimal rt)

/-- `^BBM_SOURCE_STATS_JSON=(\{.*\})\s*$` -/
def sourceScanMarker : Pattern :=
  sequence [.lineStart, exactly "BBM_SOURCE_STATS_JSON=",
    .group 1 (sequence [.char (· == '\x7b'), .many true dot, .char (· == '\x7d')]), spaces, .lineEnd]

def sourceFigures (item : Json) : Except PyError (Option SourceFigures) :=
  match item with
  | .dict entries => do
      let sizes ← unlessWrongType (do
        let size ← counter rt (Payload.get entries "size_bytes")
        let files ← counter rt (Payload.get entries "file_count")
        return (size, files))
      match sizes with
      | none => return none
      | some (size, files) =>
          let path := strip (textOr rt (Payload.get entries "path") "")
          return if path = "" then none else some ⟨path, size, files⟩
  | _ => .ok none

/-- The result for a payload whose totals are numbers. -/
def scanDetails (payload : Payload) (size files : Int) : Except PyError SourceScanStatistics := do
  let sources ← (items (payload.get "sources")).mapM (sourceFigures rt)
  let warnings ← counter rt (payload.get "warning_count")
  let skipped ← counter rt (payload.get "skipped_mount_count")
  let included ← counter rt (payload.get "included_mount_count")
  let pathExcluded ← counter rt (payload.get "path_excluded_count")
  let excludedFiles ← counter rt (payload.get "excluded_file_count")
  let excludedSize ← counter rt (payload.get "excluded_size_bytes")
  return {
    originalSizeBytes := size
    fileCount := files
    scanMethod := textOr rt (payload.get "method") "live-scan"
    warningCount := warnings
    skippedMountCount := skipped
    skippedMounts := ((items (payload.get "skipped_mounts")).take 50).map rt.str
    includedMountCount := included
    pathExcludedCount := pathExcluded
    excludedFileCount := excludedFiles
    excludedSizeBytes := excludedSize
    unsupportedPatterns := ((items (payload.get "unsupported_patterns")).take 50).map rt.str
    nodumpSupported := payload.get "nodump_supported"
    quality := textOr rt (payload.get "quality") (if sources.reduceOption.isEmpty then "partial" else "high")
    sources := sources.reduceOption }

/-- The statistics of a scan, from the payload of its marker line. -/
def scanStatistics (payload : Payload) : Except PyError (Option SourceScanStatistics) := do
  let totals ← unlessWrongType (do
    let size ← pyInt rt (payload.get "size_bytes")
    let files ← pyInt rt (payload.get "file_count")
    return (max 0 size, max 0 files))
  match totals with
  | none => return none
  | some (size, files) => (scanDetails rt payload size files).map some

def sourceScanPayload (text : String) : Option String :=
  (sourceScanMarker.finditer text.toList).getLast?.map (fun found => found.group 1)

/-- `none` stands for the empty result. -/
def parseSourceScanStatistics (text : String) : Except PyError (Option SourceScanStatistics) :=
  match sourceScanPayload text with
  | none => .ok none
  | some payload =>
      match rt.jsonLoads payload with
      | .error .decode => .ok none
      | .error (.raised e) => .error e
      | .ok (.dict entries) => scanStatistics rt entries
      | .ok _ => .ok none

structure BackupStatistics where
  originalSizeBytes : Option Int
  compressedSizeBytes : Option Int
  deduplicatedSizeBytes : Option Int
  fileCount : Option Int
  archiveName : Option String

def archiveNameLine : Pattern :=
  sequence [.lineStart, caseless rt "Archive name:", spaces, .group 1 (plus false dot), spaces, .lineEnd]

def fileCountLine : Pattern :=
  sequence [.lineStart, caseless rt "Number of files:", spaces, .group 1 (plus true (digit rt)), spaces, .lineEnd]

def gap : Pattern := sequence [space, space, spaces]

def thisArchiveLine : Pattern :=
  sequence [.lineStart, caseless rt "This archive:", spaces, .group 1 (plus false dot), gap,
    .group 2 (plus false dot), gap, .group 3 (plus false dot), spaces, .lineEnd]

def units : List (String × Nat) :=
  [("b", 1), ("byte", 1), ("bytes", 1), ("kb", 1000), ("mb", Nat.pow 1000 2), ("gb", Nat.pow 1000 3),
    ("tb", Nat.pow 1000 4), ("pb", Nat.pow 1000 5), ("eb", Nat.pow 1000 6), ("kib", 1024),
    ("mib", Nat.pow 1024 2), ("gib", Nat.pow 1024 3), ("tib", Nat.pow 1024 4), ("pib", Nat.pow 1024 5),
    ("eib", Nat.pow 1024 6)]

def unitPattern : Pattern :=
  oneOf (["B", "bytes", "byte", "kB", "MB", "GB", "TB", "PB", "EB", "KiB", "MiB", "GiB", "TiB", "PiB", "EiB"].map
    (caseless rt))

def sizePattern : Pattern :=
  let fraction := .seq (.char (fun c => c == '.' || c == ',')) (plus true (digit rt))
  sequence [spaces, .group 1 (.seq (plus true (digit rt)) (optional fraction)), spaces,
    .group 2 (unitPattern rt), spaces]

def commaToDot (text : String) : String := String.ofList (text.toList.map (fun c => if c = ',' then '.' else c))

def parseHumanSize (value : String) : Except PyError (Option Int) :=
  match (sizePattern rt).fullmatch (strip value).toList with
  | none => .ok none
  | some found =>
      match units.lookup (rt.casefold (found.group 2)) with
      | none => .ok none
      | some multiplier =>
          match rt.roundProduct (commaToDot (found.group 1)) multiplier with
          | none => .error .overflowError
          | some size => .ok (some (max 0 size))

def lastMatch (p : Pattern) (text : String) : Option Cursor := (p.finditer text.toList).getLast?

def fileCount (text : String) : Except PyError (Option Int) :=
  match lastMatch (fileCountLine rt) text with
  | none => .ok none
  | some found => (intOfDigits rt (found.group 1).toList).map (fun n => some (max 0 n))

def parseBackupStatistics (text : String) : Except PyError (Option BackupStatistics) :=
  match lastMatch (thisArchiveLine rt) text with
  | none => .ok none
  | some found => do
      let original ← parseHumanSize rt (found.group 1)
      let compressed ← parseHumanSize rt (found.group 2)
      let deduplicated ← parseHumanSize rt (found.group 3)
      let files ← fileCount rt text
      return some {
        originalSizeBytes := original
        compressedSizeBytes := compressed
        deduplicatedSizeBytes := deduplicated
        fileCount := files
        archiveName := (lastMatch (archiveNameLine rt) text).map (fun name => strip (name.group 1)) }

/-- `(?:0|[1-9]\d*)` -/
def versionNumber : Pattern :=
  .alt (exactly "0") (.seq (.char (fun c => '1' ≤ c && c ≤ '9')) (.many true (digit rt)))

def point : Pattern := .char (· == '.')

def borgVersion : Pattern :=
  .group 1 (sequence [.alt (exactly "1") (exactly "2"), point, versionNumber rt, point, versionNumber rt])

def versionPatterns : List Pattern :=
  [sequence [.lineStart, spaces, caseless rt "BORG AUF CLIENT:", spaces, borgVersion rt, spaces, .lineEnd],
    sequence [.lineStart, spaces, .alt (caseless rt "BBM_BORG_VERSION") (caseless rt "BBM_CLIENT_BORG_VERSION"),
      exactly "=", borgVersion rt, spaces, .lineEnd],
    sequence [.lineStart, spaces, caseless rt "borg", optional (caseless rt "backup"),
      optional (.seq (plus true space) (caseless rt "version")), plus true space, borgVersion rt,
      .alt space .lineEnd]]

/-- The version of the first pattern that is found at all. -/
def parseBorgVersion (text : String) : Option String :=
  (versionPatterns rt).findSome? (fun p => (p.search text.toList).map (fun found => found.group 1))

def versionTuple (version : Option String) : Except PyError (Option (Int × Int × Int)) :=
  match truthy version with
  | none => .ok none
  | some text =>
      match (sequence [.group 1 (versionNumber rt), point, .group 2 (versionNumber rt), point,
          .group 3 (versionNumber rt)]).fullmatch text.toList with
      | none => .ok none
      | some found => do
          let major ← intOfDigits rt (found.group 1).toList
          let minor ← intOfDigits rt (found.group 2).toList
          let patch ← intOfDigits rt (found.group 3).toList
          return some (major, minor, patch)

def versionLt : Int × Int × Int → Int × Int × Int → Bool
  | (a, b, c), (x, y, z) => decide (a < x ∨ (a = x ∧ (b < y ∨ (b = y ∧ c < z))))

/-- The level of compatibility, which is stored with the host. -/
def classifyBorgVersion (version : Option String) : Except PyError String :=
  (versionTuple rt version).map (fun parsed =>
    match parsed with
    | none => "unknown"
    | some v =>
        if versionLt v (1, 2, 0) then "unsupported"
        else if !versionLt v (1, 5, 0) then "unsupported"
        else if versionLt v (1, 2, 5) then "critical"
        else if versionLt v (1, 2, 8) then "warning"
        else "ok")

def infinite : Json → Bool
  | .float .infinite => true
  | _ => false

def passes {α : Type} : Except PyError α → Bool
  | .ok _ => true
  | .error _ => false

/-- `int` accepts the value. -/
def numeric (value : Json) : Bool := passes (pyInt rt value)

/-- The value is read as a counter: a falsy one counts as zero. -/
def counts (value : Json) : Bool := !truthyJson value || numeric rt value

def totalsReadable (payload : Payload) : Bool :=
  !infinite (payload.get "size_bytes") &&
    !(numeric rt (payload.get "size_bytes") && infinite (payload.get "file_count"))

def totalsNumeric (payload : Payload) : Bool :=
  numeric rt (payload.get "size_bytes") && numeric rt (payload.get "file_count")

def figuresReadable : Json → Bool
  | .dict entries => !infinite (Payload.get entries "size_bytes") &&
      !(counts rt (Payload.get entries "size_bytes") && infinite (Payload.get entries "file_count"))
  | _ => true

def counterKeys : List String :=
  ["warning_count", "skipped_mount_count", "included_mount_count", "path_excluded_count", "excluded_file_count",
    "excluded_size_bytes"]

/-- The payloads of a scan that do not make its parser raise: the fields whose
type is checked are not infinite, and the six counters, which are not checked,
are numbers. -/
def scanReadable (payload : Payload) : Bool :=
  totalsReadable rt payload &&
    (!totalsNumeric rt payload ||
      ((items (payload.get "sources")).all (figuresReadable rt) &&
        counterKeys.all (fun key => counts rt (payload.get key))))

variable {rt}

theorem intOfDigits_error {digits : List Char} {e : PyError} (h : intOfDigits rt digits = .error e) :
    e = .valueError := by
  simp only [intOfDigits] at h
  split at h <;> cases h
  rfl

theorem unsigned_error {cs : List Char} {e : PyError} (h : unsigned rt cs = .error e) : e = .valueError := by
  simp only [unsigned] at h
  split at h
  · exact intOfDigits_error h
  · cases h
    rfl

theorem intOfText_error {text : String} {e : PyError} (h : intOfText rt text = .error e) : e = .valueError := by
  simp only [intOfText] at h
  split at h
  · next digits _ =>
      cases hu : unsigned rt digits with
      | ok n => rw [hu] at h; cases h
      | error e' =>
          rw [hu] at h
          cases h
          exact unsigned_error hu
  · exact unsigned_error h
  · exact unsigned_error h

/-- Only an infinite float escapes the handlers of the type errors. -/
theorem unlessWrongType_pyInt (value : Json) :
    passes (unlessWrongType (pyInt rt value)) = !infinite value := by
  cases value with
  | null | bool | int | list | dict => rfl
  | float x => cases x <;> rfl
  | str s =>
      cases h : intOfText rt s with
      | ok n => simp [pyInt, h, unlessWrongType, passes, infinite]
      | error e =>
          rw [intOfText_error h] at h
          simp [pyInt, h, unlessWrongType, passes, infinite]

theorem passes_map {α β : Type} (f : α → β) (x : Except PyError α) : passes (x.map f) = passes x := by
  cases x <;> rfl

theorem passes_counter (value : Json) : passes (counter rt value) = counts rt value := by
  rw [counter, counts, numeric]
  cases truthyJson value with
  | false => rfl
  | true => simp [passes_map]

theorem unlessWrongType_map {α β : Type} (f : α → β) (x : Except PyError α) :
    passes (unlessWrongType (x.map f)) = passes (unlessWrongType x) := by
  cases x with
  | ok a => rfl
  | error e => cases e <;> rfl

theorem unlessWrongType_counter (value : Json) :
    passes (unlessWrongType (counter rt value)) = !infinite value := by
  rw [counter]
  cases h : truthyJson value with
  | true =>
      rw [if_pos rfl, unlessWrongType_map]
      exact unlessWrongType_pyInt value
  | false =>
      cases value with
      | float x => cases x <;> simp_all [truthyJson, infinite, unlessWrongType, passes]
      | null | bool | int | str | list | dict => rfl

theorem unlessWrongType_both {α β γ : Type} (f : α → β → γ) (x : Except PyError α) (y : Except PyError β) :
    passes (unlessWrongType (do let a ← x; let b ← y; return f a b)) =
      (passes (unlessWrongType x) && !(passes x && !passes (unlessWrongType y))) := by
  cases x with
  | error e => cases e <;> rfl
  | ok a =>
      cases y with
      | ok b => rfl
      | error e => cases e <;> rfl

theorem passes_mapM {α β : Type} (f : α → Except PyError β) (xs : List α) :
    passes (xs.mapM f) = xs.all (fun x => passes (f x)) := by
  induction xs with
  | nil => rfl
  | cons x xs ih =>
      rw [List.mapM_cons, List.all_cons, ← ih]
      cases f x with
      | error e => rfl
      | ok b => cases xs.mapM f <;> rfl

theorem passes_sourceFigures (item : Json) : passes (sourceFigures rt item) = figuresReadable rt item := by
  cases item with
  | dict entries =>
      have h := unlessWrongType_both (fun size files : Int => (size, files))
        (counter rt (Payload.get entries "size_bytes")) (counter rt (Payload.get entries "file_count"))
      rw [unlessWrongType_counter, unlessWrongType_counter, passes_counter] at h
      rw [figuresReadable, ← Bool.not_not (infinite (Payload.get entries "file_count")), ← h]
      simp only [sourceFigures]
      cases unlessWrongType (do
        let size ← counter rt (Payload.get entries "size_bytes")
        let files ← counter rt (Payload.get entries "file_count")
        return (size, files)) with
      | error e => rfl
      | ok sizes => cases sizes <;> rfl
  | null | bool | int | float | str | list => rfl

theorem passes_bind {α β : Type} {x : Except PyError α} {f : α → Except PyError β} {b : Bool}
    (h : ∀ a, passes (f a) = b) : passes (x >>= f) = (passes x && b) := by
  cases x with
  | ok a => exact h a
  | error e => rfl

theorem passes_scanDetails (payload : Payload) (size files : Int) :
    passes (scanDetails rt payload size files) =
      ((items (payload.get "sources")).all (figuresReadable rt) &&
        counterKeys.all (fun key => counts rt (payload.get key))) := by
  rw [scanDetails]
  apply Eq.trans
  · apply passes_bind
    intro sources
    apply passes_bind
    intro warnings
    apply passes_bind
    intro skipped
    apply passes_bind
    intro included
    apply passes_bind
    intro pathExcluded
    apply passes_bind
    intro excludedFiles
    apply passes_bind (b := true)
    intro excludedSize
    rfl
  · simp only [passes_mapM, passes_sourceFigures, passes_counter]
    simp [counterKeys]

/-- The telemetry of a source scan makes its parser raise exactly if it is not
readable. -/
theorem passes_scanStatistics (payload : Payload) :
    passes (scanStatistics rt payload) = scanReadable rt payload := by
  have hsize := @unlessWrongType_pyInt rt (payload.get "size_bytes")
  have hfiles := @unlessWrongType_pyInt rt (payload.get "file_count")
  rw [scanReadable, totalsReadable, totalsNumeric, ← hsize, numeric, numeric,
    ← Bool.not_not (infinite (payload.get "file_count")), ← hfiles, scanStatistics]
  cases pyInt rt (payload.get "size_bytes") with
  | error e => cases e <;> rfl
  | ok size =>
      cases pyInt rt (payload.get "file_count") with
      | error e => cases e <;> rfl
      | ok files => exact (passes_map some _).trans (passes_scanDetails payload _ _)

example : scanReadable rt [("size_bytes", .int 1), ("file_count", .int 1), ("warning_count", .list [.null])] =
    false := rfl

def shortNumber (digits : String) : Bool := decide (digits.toList.length ≤ maxStrDigits)

theorem passes_intOfDigits (digits : String) : passes (intOfDigits rt digits.toList) = shortNumber digits := by
  rw [intOfDigits, shortNumber]
  by_cases h : digits.toList.length ≤ maxStrDigits
  · simp [h, passes]
  · simp [h, passes]

variable (rt)

/-- The texts whose last marker line does not make the parser raise. -/
def scanTextReadable (text : String) : Bool :=
  match sourceScanPayload text with
  | none => true
  | some payload =>
      match rt.jsonLoads payload with
      | .error (.raised _) => false
      | .ok (.dict entries) => scanReadable rt entries
      | _ => true

/-- The product of number and unit is finite. -/
def sizeReadable (value : String) : Bool :=
  match (sizePattern rt).fullmatch (strip value).toList with
  | none => true
  | some found =>
      match units.lookup (rt.casefold (found.group 2)) with
      | none => true
      | some multiplier => (rt.roundProduct (commaToDot (found.group 1)) multiplier).isSome

def fileCountReadable (text : String) : Bool :=
  match lastMatch (fileCountLine rt) text with
  | none => true
  | some found => shortNumber (found.group 1)

def backupTextReadable (text : String) : Bool :=
  match lastMatch (thisArchiveLine rt) text with
  | none => true
  | some found => sizeReadable rt (found.group 1) && sizeReadable rt (found.group 2) &&
      sizeReadable rt (found.group 3) && fileCountReadable rt text

def versionReadable (version : Option String) : Bool :=
  match truthy version with
  | none => true
  | some text =>
      match (sequence [.group 1 (versionNumber rt), point, .group 2 (versionNumber rt), point,
          .group 3 (versionNumber rt)]).fullmatch text.toList with
      | none => true
      | some found => shortNumber (found.group 1) && shortNumber (found.group 2) && shortNumber (found.group 3)

variable {rt}

theorem passes_parseSourceScanStatistics (text : String) :
    passes (parseSourceScanStatistics rt text) = scanTextReadable rt text := by
  rw [parseSourceScanStatistics, scanTextReadable]
  cases sourceScanPayload text with
  | none => rfl
  | some payload =>
      simp only
      cases rt.jsonLoads payload with
      | error e => cases e <;> rfl
      | ok value =>
          cases value with
          | dict entries => exact passes_scanStatistics entries
          | null | bool | int | float | str | list => rfl

theorem passes_parseHumanSize (value : String) : passes (parseHumanSize rt value) = sizeReadable rt value := by
  rw [parseHumanSize, sizeReadable]
  cases (sizePattern rt).fullmatch (strip value).toList with
  | none => rfl
  | some found =>
      simp only
      cases units.lookup (rt.casefold (found.group 2)) with
      | none => rfl
      | some multiplier =>
          simp only
          cases rt.roundProduct (commaToDot (found.group 1)) multiplier <;> rfl

theorem passes_fileCount (text : String) : passes (fileCount rt text) = fileCountReadable rt text := by
  rw [fileCount, fileCountReadable]
  cases lastMatch (fileCountLine rt) text with
  | none => rfl
  | some found => exact (passes_map _ _).trans (passes_intOfDigits _)

theorem passes_parseBackupStatistics (text : String) :
    passes (parseBackupStatistics rt text) = backupTextReadable rt text := by
  rw [parseBackupStatistics, backupTextReadable]
  cases lastMatch (thisArchiveLine rt) text with
  | none => rfl
  | some found =>
      apply Eq.trans
      · apply passes_bind
        intro original
        apply passes_bind
        intro compressed
        apply passes_bind
        intro deduplicated
        apply passes_bind (b := true)
        intro files
        rfl
      · simp only [passes_parseHumanSize, passes_fileCount, Bool.and_true, Bool.and_assoc]

theorem passes_versionTuple (version : Option String) :
    passes (versionTuple rt version) = versionReadable rt version := by
  rw [versionTuple, versionReadable]
  cases truthy version with
  | none => rfl
  | some text =>
      simp only
      cases (sequence [.group 1 (versionNumber rt), point, .group 2 (versionNumber rt), point,
        .group 3 (versionNumber rt)]).fullmatch text.toList with
      | none => rfl
      | some found =>
          apply Eq.trans
          · apply passes_bind
            intro major
            apply passes_bind
            intro minor
            apply passes_bind (b := true)
            intro patch
            rfl
          · simp only [passes_intOfDigits, Bool.and_true, Bool.and_assoc]

theorem passes_classifyBorgVersion (version : Option String) :
    passes (classifyBorgVersion rt version) = versionReadable rt version := by
  rw [classifyBorgVersion, passes_map, passes_versionTuple]

end BorgManager.RemoteOutput
