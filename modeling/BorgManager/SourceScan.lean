import BorgManager.PosixPaths
import BorgManager.Worklists
import Mathlib.Algebra.Order.BigOperators.Group.List
import Mathlib.Algebra.Order.Ring.Int
import Mathlib.Data.List.Dedup
import Mathlib.Data.List.DropRight
import Mathlib.Data.List.TakeWhile

namespace BorgManager.SourceScan

open PythonText PosixPaths Worklists

/-- A compiled regular expression. -/
structure Regex where
  search : String → Bool
  matchStart : String → Bool

/-- How `re.compile` ends: `refused` is `re.error` or `ValueError`, `raised` another exception,
such as the `OverflowError` of a repetition count. -/
inductive Compilation where
  | compiled (regex : Regex)
  | refused
  | raised

/-- What the scanner uses of `re`, `fnmatch` and `str`. -/
structure PatternRuntime where
  compile : String → Compilation
  escape : Char → String
  fnmatchcase : String → String → Bool
  lower : String → String

def archivePath (path : String) : String := String.ofList ((normpath path).toList.dropWhile (· == '/'))

section Patterns

theorem length_dropped {p : Char → Bool} {cs rest : List Char} (h : cs.dropWhile p = rest) : rest.length ≤ cs.length :=
  h ▸ (List.dropWhile_suffix p).length_le

variable (rt : PatternRuntime)

def shellParts : List Char → String
  | [] => ""
  | '*' :: '*' :: rest =>
      match _h : rest.dropWhile (· == '*') with
      | '/' :: rest => "(?:.*/)?" ++ shellParts rest
      | rest => ".*" ++ shellParts rest
  | '*' :: rest => "[^/]*" ++ shellParts rest
  | '?' :: rest => "[^/]" ++ shellParts rest
  | '[' :: rest =>
      match _h : rest.dropWhile (· != ']') with
      | [] => "\\[" ++ shellParts rest
      | _ :: after =>
          let content := rest.takeWhile (· != ']')
          let content := if content.head? = some '!' then '^' :: content.tail else content
          "[" ++ String.ofList content ++ "]" ++ shellParts after
  | char :: rest => rt.escape char ++ shellParts rest
termination_by pattern => pattern.length
decreasing_by
  all_goals simp_wf
  all_goals have hle := length_dropped _h
  all_goals grind

def shellRegex (pattern : String) : Compilation :=
  rt.compile ("^" ++ shellParts rt pattern.toList ++ "(?:/.*)?$")

inductive Compiled where
  | skipped
  | unsupported (value : String)
  | matcher (accepts : String → Bool)
  | raised

def Compilation.toCompiled (value : String) (accepts : Regex → String → Bool) : Compilation → Compiled
  | .compiled regex => .matcher (accepts regex)
  | .refused => .unsupported value
  | .raised => .raised

def compilePattern (raw : String) : Compiled :=
  let value := strip raw
  if value = "" then .skipped
  else
    let (style, body) :=
      if value.toList[2]? = some ':' then
        (rt.lower (String.ofList (value.toList.take 2)), String.ofList (value.toList.drop 3))
      else ("sh", value)
    if style ∉ ["sh", "fm", "re", "pp", "pf"] then .unsupported value
    else if style = "re" then (rt.compile body).toCompiled value Regex.search
    else
      let body := String.ofList ((body.toList.map (fun c => if c = '\\' then '/' else c)).dropWhile (· == '/'))
      if style = "pp" then
        let start := rstripChar '/' body
        .matcher (fun candidate => candidate == start || (start ++ "/").toList.isPrefixOf candidate.toList)
      else if style = "pf" then .matcher (fun candidate => candidate == body)
      else if style = "fm" then .matcher (fun candidate => rt.fnmatchcase candidate body)
      else (shellRegex rt body).toCompiled value Regex.matchStart

def Compiled.accepts : Compiled → Option (String → Bool)
  | .matcher accepts => some accepts
  | _ => none

def Compiled.refused : Compiled → Option String
  | .unsupported value => some value
  | _ => none

def Compiled.isRaised : Compiled → Bool
  | .raised => true
  | _ => false

end Patterns

inductive FileKind where
  | directory
  | regular
  | other
deriving DecidableEq

/-- What `lstat` tells of a path. -/
structure Stat where
  kind : FileKind
  size : Int
  device : Nat

def Stat.isDir (st : Stat) : Bool := st.kind == .directory

def directoryAt (answer : Except String Stat) : Bool := (answer.toOption.map Stat.isDir).getD false

def deviceAt (answer : Except String Stat) : Nat := (answer.toOption.map Stat.device).getD 0

/-- `max(0, int(st_size))` of a regular file; nothing else has a size here. -/
def countedSize (st : Stat) : Int := if st.kind = .regular then max 0 st.size else 0

def sizeAt (answer : Except String Stat) : Int := (answer.toOption.map countedSize).getD 0

/-- The names a directory lists before the listing ends or fails. -/
structure Listing where
  names : List String
  error : Option String

/-- An absolute path with a single slash at its start. -/
def place (path : String) : String := String.ofList ('/' :: path.toList.dropWhile (· == '/'))

/-- The answers of a file system that stays as it is: an error is the text of an
`OSError`, `nodump` the flag as far as it can be read, `tag` the start of a file
that can be opened. Slashes at the start of a path beyond the first make no
difference. A tree is finite: each path has more directories under it, itself
included, than its entries together. -/
structure FileTree where
  lstat : String → Except String Stat
  scandir : String → Listing
  nodump : String → Bool
  tag : String → Option (List Nat)
  directories : String → Nat
  alike : ∀ path, path.toList.head? = some '/' → (lstat (place path)).toOption = (lstat path).toOption ∧
    (scandir (place path)).names = (scandir path).names ∧ nodump (place path) = nodump path ∧
      tag (place path) = tag path
  entry_name : ∀ path, ∀ name ∈ (scandir path).names, EntryName name.toList
  directories_below : ∀ path,
    ((((scandir path).names.map (join path)).filter (fun entry => directoryAt (lstat entry))).map
      directories).sum < directories path

/-- The arguments of the scanner, and whether `fcntl` can be imported. -/
structure Settings where
  oneFileSystem : Bool
  excludeCaches : Bool
  excludeNodump : Bool
  fcntl : Bool
  rawPatterns : List String

def cachedirSignature : List Nat := "Signature: 8a477f597d28d172789f06886806bc55".toList.map Char.toNat

structure Scan where
  warningCount : Nat
  stderr : List String
  seenPaths : List String
  skippedMounts : List String
  includedMounts : List String
  pathExcludedCount : Nat
  excludedFileCount : Nat
  excludedSizeBytes : Int
  sourceSize : Int
  sourceFiles : Nat

def remember (items : List String) (path : String) : List String :=
  if normpath path ∉ items ∧ items.length < 50 then items ++ [normpath path] else items

def warn (message : String) (s : Scan) : Scan := { s with
  warningCount := s.warningCount + 1
  stderr := if s.warningCount + 1 ≤ 50 then s.stderr ++ ["WARNUNG: " ++ message] else s.stderr }

section Scanner

variable (rt : PatternRuntime) (tree : FileTree) (settings : Settings)

def matchers : List (String → Bool) := settings.rawPatterns.filterMap (fun raw => (compilePattern rt raw).accepts)

def excludedByPattern (path : String) : Bool := (matchers rt settings).any (fun accepts => accepts (archivePath path))

def cacheTagged (directory : String) : Bool :=
  settings.excludeCaches &&
    ((tree.tag (join directory "CACHEDIR.TAG")).map (List.take cachedirSignature.length) == some cachedirSignature)

def hasNodump (path : String) : Bool := settings.excludeNodump && settings.fcntl && tree.nodump path

def excludedAfterMetadata (path : String) (isDir : Bool) : Bool :=
  hasNodump tree settings path || (isDir && cacheTagged tree settings path)

/-- A directory whose path is new waits on the stack, with its device. -/
def addDirectory (path : String) (device : Nat) (w : List (String × Nat) × Scan) : List (String × Nat) × Scan :=
  if normpath path ∈ w.2.seenPaths then w
  else ((path, device) :: w.1, { w.2 with seenPaths := normpath path :: w.2.seenPaths })

/-- A file whose path is new is counted, and its size if it is a regular one. -/
def addFile (path : String) (st : Stat) (s : Scan) : Scan :=
  if normpath path ∈ s.seenPaths then s
  else { s with
    seenPaths := normpath path :: s.seenPaths
    sourceFiles := s.sourceFiles + 1
    sourceSize := s.sourceSize + countedSize st }

def includeMount (directoryDevice : Nat) (path : String) (st : Stat) (s : Scan) : Scan :=
  if settings.oneFileSystem = false ∧ st.device ≠ directoryDevice then
    { s with includedMounts := remember s.includedMounts path }
  else s

def excludeItem (st : Stat) (s : Scan) : Scan :=
  if st.isDir then s
  else { s with
    excludedFileCount := s.excludedFileCount + 1
    excludedSizeBytes := s.excludedSizeBytes + countedSize st }

def scanEntry (rootDevice directoryDevice : Nat) (directory : String) (w : List (String × Nat) × Scan) (name : String) :
    List (String × Nat) × Scan :=
  let path := join directory name
  if excludedByPattern rt settings path then (w.1, { w.2 with pathExcludedCount := w.2.pathExcludedCount + 1 })
  else
    match tree.lstat path with
    | .error message => (w.1, warn (path ++ ": " ++ message) w.2)
    | .ok st =>
        if excludedAfterMetadata tree settings path st.isDir then (w.1, excludeItem st w.2)
        else if st.isDir then
          if settings.oneFileSystem = true ∧ st.device ≠ rootDevice then
            (w.1, { w.2 with skippedMounts := remember w.2.skippedMounts path })
          else addDirectory path st.device (w.1, includeMount settings directoryDevice path st w.2)
        else (w.1, addFile path st w.2)

def scanDirectory (rootDevice : Nat) (directory : String) (directoryDevice : Nat) (w : List (String × Nat) × Scan) :
    List (String × Nat) × Scan :=
  let listing := tree.scandir directory
  let (stack, s) := listing.names.foldl (scanEntry rt tree settings rootDevice directoryDevice directory) w
  match listing.error with
  | none => (stack, s)
  | some message => (stack, warn (directory ++ ": " ++ message) s)

/-- `while stack`, with a bound for the number of directories. -/
def walk (rootDevice : Nat) : Nat → List (String × Nat) × Scan → Option Scan
  | _, ([], s) => some s
  | 0, (_ :: _, _) => none
  | n + 1, ((directory, directoryDevice) :: stack, s) =>
      walk rootDevice n (scanDirectory rt tree settings rootDevice directory directoryDevice (stack, s))

structure SourceResult where
  path : String
  sizeBytes : Int
  fileCount : Nat

structure Totals where
  scan : Scan
  sourceResults : List SourceResult
  totalSize : Int
  totalFiles : Nat

/-- The counters of a source start again. -/
def Totals.fresh (t : Totals) : Scan := { t.scan with sourceSize := 0, sourceFiles := 0 }

def Totals.skip (t : Totals) (root : String) (s : Scan) : Totals :=
  { t with scan := s, sourceResults := t.sourceResults ++ [⟨root, 0, 0⟩] }

def Totals.finish (t : Totals) (root : String) (s : Scan) : Totals where
  scan := s
  sourceResults := t.sourceResults ++ [⟨root, s.sourceSize, s.sourceFiles⟩]
  totalSize := t.totalSize + s.sourceSize
  totalFiles := t.totalFiles + s.sourceFiles

def scanRoot (t : Totals) (root : String) : Option Totals :=
  let s := t.fresh
  if excludedByPattern rt settings root then some (t.skip root { s with pathExcludedCount := s.pathExcludedCount + 1 })
  else
    match tree.lstat root with
    | .error message => some (t.skip root (warn (root ++ ": " ++ message) s))
    | .ok st =>
        if excludedAfterMetadata tree settings root st.isDir then some (t.skip root s)
        else if st.isDir = false then some (t.finish root (addFile root st s))
        else if normpath root ∈ s.seenPaths then some (t.skip root s)
        else
          (walk rt tree settings st.device (tree.directories root)
            ([(root, st.device)], { s with seenPaths := normpath root :: s.seenPaths })).map (t.finish root)

def emptyScan : Scan := ⟨0, [], [], [], [], 0, 0, 0, 0, 0⟩

def scanRoots (roots : List String) : Option Totals := roots.foldlM (scanRoot rt tree settings) ⟨emptyScan, [], 0, 0⟩

def unsupportedPatterns : List String := settings.rawPatterns.filterMap (fun raw => (compilePattern rt raw).refused)

def nodumpUnavailable : Bool := settings.excludeNodump && !settings.fcntl

/-- The document after `BBM_SOURCE_STATS_JSON=`. -/
structure Report where
  sizeBytes : Int
  fileCount : Nat
  warningCount : Nat
  skippedMountCount : Nat
  skippedMounts : List String
  includedMountCount : Nat
  pathExcludedCount : Nat
  excludedFileCount : Nat
  excludedSizeBytes : Int
  unsupportedPatterns : List String
  nodumpSupported : Bool
  quality : String
  sources : List SourceResult

def report (t : Totals) : Report where
  sizeBytes := t.totalSize
  fileCount := t.totalFiles
  warningCount := t.scan.warningCount
  skippedMountCount := t.scan.skippedMounts.length
  skippedMounts := t.scan.skippedMounts
  includedMountCount := t.scan.includedMounts.length
  pathExcludedCount := t.scan.pathExcludedCount
  excludedFileCount := t.scan.excludedFileCount
  excludedSizeBytes := t.scan.excludedSizeBytes
  unsupportedPatterns := unsupportedPatterns rt settings
  nodumpSupported := !nodumpUnavailable settings
  quality := if t.scan.warningCount = 0 ∧ unsupportedPatterns rt settings = [] ∧
    nodumpUnavailable settings = false then "high" else "partial"
  sources := t.sourceResults

/-- The hints after the scan. -/
def hints (t : Totals) : List String :=
  let mounts (items : List String) :=
    String.intercalate ", " (items.take 10) ++ (if items.length > 10 then " …" else "")
  (if t.scan.skippedMounts ≠ [] then
    ["HINWEIS: " ++ toString t.scan.skippedMounts.length ++
      " eingebundene Unterdateisystem(e) wurden wegen 'Nur jeweiliges Quelldateisystem' nicht mitgezählt: " ++
        mounts t.scan.skippedMounts]
  else if t.scan.includedMounts ≠ [] then
    ["HINWEIS: Eingebundene Unterdateisysteme werden mitgezählt: " ++ mounts t.scan.includedMounts]
  else []) ++
  (if unsupportedPatterns rt settings ≠ [] then
    ["WARNUNG: " ++ toString (unsupportedPatterns rt settings).length ++
      " Ausschlussmuster konnten für die Quellenstatistik nicht sicher nachgebildet werden: " ++
      String.intercalate ", " ((unsupportedPatterns rt settings).take 10)]
  else [])

/-- What the scanner prints on both of its streams, and its exit status. -/
structure Output where
  report : Report
  stderr : List String
  status : Nat

def output (t : Totals) : Output where
  report := report rt settings t
  stderr := t.scan.stderr ++ hints rt settings t
  status := if t.scan.warningCount = 0 ∧ unsupportedPatterns rt settings = [] ∧
    nodumpUnavailable settings = false then 0 else 1

/-- No pattern ends the scanner with an exception of `re.compile`. -/
def compiles : Bool := settings.rawPatterns.all (fun raw => !(compilePattern rt raw).isRaised)

/-- `none` is a scanner that ends with a traceback, or does not end. -/
def scan (roots : List String) : Option Output :=
  if compiles rt settings = true then (scanRoots rt tree settings roots).map (output rt settings) else none

end Scanner

section Reach

variable (rt : PatternRuntime) (tree : FileTree) (settings : Settings)

def isDirectory (path : String) : Bool := directoryAt (tree.lstat path)

/-- An entry of a directory that the scan goes on with. -/
def takes (directory path : String) : Bool :=
  !excludedByPattern rt settings path &&
    match tree.lstat path with
    | .error _ => false
    | .ok st =>
        !excludedAfterMetadata tree settings path st.isDir &&
          !(st.isDir && settings.oneFileSystem && st.device != deviceAt (tree.lstat directory))

def entriesOf (directory : String) : List String :=
  ((tree.scandir directory).names.map (join directory)).filter (takes rt tree settings directory)

/-- A source that the scan starts from. -/
def admits (root : String) : Bool :=
  !excludedByPattern rt settings root &&
    match tree.lstat root with
    | .error _ => false
    | .ok st => !excludedAfterMetadata tree settings root st.isDir

/-- The path is a source, or an entry of a directory that is reached from one. -/
def Scanned (roots : List String) (path : String) : Prop :=
  ∃ root, (root ∈ roots ∧ admits rt tree settings root = true) ∧
    Relation.ReflTransGen (Edge (isDirectory tree) (entriesOf rt tree settings)) root path

/-- The file is reached from the sources, under one spelling of its path or another. -/
def InScope (roots : List String) (file : String) : Prop :=
  ∃ path, Scanned rt tree settings roots path ∧ isDirectory tree path = false ∧ place path = file

def twoSlashes (path : String) : Bool := path.toList.take 2 == ['/', '/']

/-- A file is reached from a source that begins with two slashes, and from one that does not. -/
def ReachedTwice (roots : List String) : Prop :=
  ∃ file, isDirectory tree file = false ∧ Scanned rt tree settings (roots.filter twoSlashes) ("/" ++ file) ∧
    Scanned rt tree settings (roots.filter (fun root => !twoSlashes root)) file

/-- The files among the paths. -/
def counted (paths : List String) : List String := paths.filter (fun path => !isDirectory tree path)

def countedSizes (paths : List String) : Int := ((counted tree paths).map (fun path => sizeAt (tree.lstat path))).sum

theorem directories_entriesOf (path : String) :
    (((entriesOf rt tree settings path).filter (isDirectory tree)).map tree.directories).sum <
      tree.directories path := by
  refine Nat.lt_of_le_of_lt ?_ (tree.directories_below path)
  apply List.Sublist.sum_le_sum
  · exact (List.filter_sublist.filter _).map _
  · exact fun _ _ => Nat.zero_le _

end Reach

/-- What the counters of a scan hold, given what was counted before it. -/
structure Counts (tree : FileTree) (files : Nat) (size : Int) (s : Scan) : Prop where
  files : files + s.sourceFiles = (counted tree s.seenPaths).length
  size : size + s.sourceSize = countedSizes tree s.seenPaths

/-- A directory waits with the device that it is on. -/
structure Waits (tree : FileTree) (settings : Settings) (rootDevice : Nat) (directory : String)
  (directoryDevice : Nat) : Prop where
  normalised : AbsoluteNormalised directory
  isDirectory : isDirectory tree directory = true
  device : deviceAt (tree.lstat directory) = directoryDevice
  sameDevice : settings.oneFileSystem = true → directoryDevice = rootDevice

def search (w : List (String × Nat) × Scan) : Search String := ⟨w.2.seenPaths, w.1.map Prod.fst⟩

section Entries

variable {rt : PatternRuntime} {tree : FileTree} {settings : Settings} {rootDevice : Nat} {files : Nat} {size : Int}

theorem Counts.same {s t : Scan} (h : Counts tree files size s) (hseen : t.seenPaths = s.seenPaths)
    (hfiles : t.sourceFiles = s.sourceFiles) (hsize : t.sourceSize = s.sourceSize) : Counts tree files size t := by
  constructor
  · rw [hfiles, hseen, h.files]
  · rw [hsize, hseen, h.size]

theorem Counts.addFile {s : Scan} (h : Counts tree files size s) {path : String}
    (hpath : normpath path = path) {st : Stat} (hlstat : tree.lstat path = .ok st) (hfile : st.isDir = false) :
    Counts tree files size (addFile path st s) := by
  unfold SourceScan.addFile
  split
  · exact h
  · have hdirectory : isDirectory tree path = false := by rw [isDirectory, hlstat]; exact hfile
    have hcounted : counted tree (normpath path :: s.seenPaths) = path :: counted tree s.seenPaths := by
      rw [hpath, counted, List.filter_cons_of_pos (by simp [hdirectory]), ← counted]
    constructor
    · dsimp only
      rw [hcounted, List.length_cons, ← h.files, Nat.add_assoc]
    · dsimp only
      rw [countedSizes, hcounted, List.map_cons, List.sum_cons, ← countedSizes, ← h.size, hlstat,
        ← Int.add_assoc, Int.add_comm]
      rfl

theorem Counts.addDirectory {w : List (String × Nat) × Scan} (h : Counts tree files size w.2) {path : String}
    {device : Nat} (hpath : normpath path = path) (hdirectory : isDirectory tree path = true) :
    Counts tree files size (addDirectory path device w).2 := by
  unfold SourceScan.addDirectory
  split
  · exact h
  · have hcounted : counted tree (normpath path :: w.2.seenPaths) = counted tree w.2.seenPaths := by
      rw [hpath, counted, List.filter_cons_of_neg (by simp [hdirectory]), ← counted]
    constructor
    · dsimp only
      rw [hcounted, h.files]
    · dsimp only
      rw [countedSizes, hcounted, ← countedSizes, h.size]

theorem search_addDirectory (w : List (String × Nat) × Scan) {path : String} {device : Nat}
    (hpath : normpath path = path) (hdirectory : isDirectory tree path = true) :
    search (addDirectory path device w) = visit (isDirectory tree) (search w) path := by
  rw [addDirectory, visit, hpath, hdirectory]
  split
  · next hseen => rw [if_pos (by exact hseen)]
  · next hseen =>
      rw [if_neg (by exact hseen), if_pos rfl]
      rfl

theorem search_addFile (stack : List (String × Nat)) (s : Scan) {path : String} {st : Stat}
    (hpath : normpath path = path) (hdirectory : isDirectory tree path = false) :
    search (stack, addFile path st s) = visit (isDirectory tree) (search (stack, s)) path := by
  rw [addFile, visit, hpath, hdirectory]
  split
  · next hseen => rw [if_pos (by exact hseen)]
  · next hseen =>
      rw [if_neg (by exact hseen), if_neg Bool.false_ne_true]
      rfl

theorem includeMount_same (device : Nat) (path : String) (st : Stat) (s : Scan) :
    (includeMount settings device path st s).seenPaths = s.seenPaths ∧
      (includeMount settings device path st s).sourceFiles = s.sourceFiles ∧
      (includeMount settings device path st s).sourceSize = s.sourceSize := by
  unfold includeMount
  split <;> exact ⟨rfl, rfl, rfl⟩

theorem excludeItem_same (st : Stat) (s : Scan) :
    (excludeItem st s).seenPaths = s.seenPaths ∧ (excludeItem st s).sourceFiles = s.sourceFiles ∧
      (excludeItem st s).sourceSize = s.sourceSize := by
  unfold excludeItem
  split <;> exact ⟨rfl, rfl, rfl⟩

variable (rt)

/-- One entry is visited if it is taken, and is counted if it is a file. -/
theorem scanEntry_spec {directory : String} {device : Nat}
    (hwaits : Waits tree settings rootDevice directory device) {name : String} (hname : EntryName name.toList)
    {w : List (String × Nat) × Scan} (hstack : ∀ e ∈ w.1, Waits tree settings rootDevice e.1 e.2)
    (hcounts : Counts tree files size w.2) :
    search (scanEntry rt tree settings rootDevice device directory w name) =
        (if takes rt tree settings directory (join directory name) then visit (isDirectory tree) (search w)
          (join directory name)
        else search w) ∧
      (∀ e ∈ (scanEntry rt tree settings rootDevice device directory w name).1,
        Waits tree settings rootDevice e.1 e.2) ∧
      Counts tree files size (scanEntry rt tree settings rootDevice device directory w name).2 := by
  have hnormal := hwaits.normalised.join hname
  rw [scanEntry]
  dsimp only
  generalize join directory name = path at hnormal
  by_cases hexcluded : excludedByPattern rt settings path = true
  · have htakes : takes rt tree settings directory path = false := by rw [takes, hexcluded]; rfl
    rw [if_pos hexcluded, htakes]
    exact ⟨rfl, hstack, hcounts.same rfl rfl rfl⟩
  rw [if_neg hexcluded]
  rw [Bool.not_eq_true] at hexcluded
  cases hlstat : tree.lstat path with
  | error message =>
      have htakes : takes rt tree settings directory path = false := by rw [takes, hlstat, Bool.and_false]
      rw [htakes]
      exact ⟨rfl, hstack, hcounts.same rfl rfl rfl⟩
  | ok st =>
      dsimp only
      have htakes : takes rt tree settings directory path = (!excludedAfterMetadata tree settings path st.isDir &&
          !(st.isDir && settings.oneFileSystem && st.device != device)) := by
        rw [takes, hexcluded, hlstat, hwaits.device]
        rfl
      have hdirectory : isDirectory tree path = st.isDir := by rw [isDirectory, hlstat]; rfl
      by_cases hafter : excludedAfterMetadata tree settings path st.isDir = true
      · obtain ⟨hseen, hfiles, hsize⟩ := excludeItem_same st w.2
        rw [if_pos hafter, htakes, hafter]
        exact ⟨by rw [search, hseen]; rfl, hstack, hcounts.same hseen hfiles hsize⟩
      rw [if_neg hafter]
      rw [Bool.not_eq_true] at hafter
      rw [hafter, Bool.not_false, Bool.true_and] at htakes
      cases hdir : st.isDir with
      | false =>
          rw [hdir] at hdirectory htakes
          rw [htakes, if_neg Bool.false_ne_true]
          exact ⟨search_addFile w.1 w.2 hnormal.2 hdirectory, hstack, hcounts.addFile hnormal.2 hlstat hdir⟩
      | true =>
          rw [hdir] at hdirectory htakes
          rw [if_pos rfl]
          by_cases hmount : settings.oneFileSystem = true ∧ st.device ≠ rootDevice
          · rw [if_pos hmount, htakes, if_neg]
            · exact ⟨rfl, hstack, hcounts.same rfl rfl rfl⟩
            · simp [hmount.1, hmount.2, hwaits.sameDevice hmount.1]
          · obtain ⟨hseen, hfiles, hsize⟩ := @includeMount_same settings device path st w.2
            have hsame : settings.oneFileSystem = true → st.device = rootDevice := by
              intro hone
              by_contra hne
              exact hmount ⟨hone, hne⟩
            rw [if_neg hmount, htakes, if_pos]
            · refine ⟨?_, ?_, Counts.addDirectory (hcounts.same hseen hfiles hsize) hnormal.2 hdirectory⟩
              · rw [search_addDirectory _ hnormal.2 hdirectory, search, hseen]
                rfl
              · intro e he
                unfold addDirectory at he
                split at he
                · exact hstack e he
                · rcases List.mem_cons.mp he with rfl | he
                  · exact ⟨hnormal, hdirectory, by rw [hlstat]; rfl, hsame⟩
                  · exact hstack e he
            · cases hone : settings.oneFileSystem with
              | false => rfl
              | true => simp [hsame hone, hwaits.sameDevice hone]

/-- The entries of a directory are visited one after the other. -/
theorem scanEntries_spec {directory : String} {device : Nat} (hwaits : Waits tree settings rootDevice directory device)
    {names : List String} (hnames : ∀ name ∈ names, EntryName name.toList) {w : List (String × Nat) × Scan}
    (hstack : ∀ e ∈ w.1, Waits tree settings rootDevice e.1 e.2) (hcounts : Counts tree files size w.2) :
    let next := names.foldl (scanEntry rt tree settings rootDevice device directory) w
    search next = visitAll (isDirectory tree) (search w)
      ((names.map (join directory)).filter (takes rt tree settings directory)) ∧
      (∀ e ∈ next.1, Waits tree settings rootDevice e.1 e.2) ∧ Counts tree files size next.2 := by
  induction names generalizing w with
  | nil => exact ⟨rfl, hstack, hcounts⟩
  | cons name names ih =>
      obtain ⟨hsearch, hstack, hcounts⟩ := scanEntry_spec rt hwaits (hnames name (List.mem_cons_self ..)) hstack hcounts
      have hrest := ih (fun name hname => hnames name (List.mem_cons_of_mem _ hname)) hstack hcounts
      rw [List.foldl_cons, List.map_cons, List.filter_cons]
      rw [hsearch] at hrest
      split at hrest
      · next htakes => rwa [if_pos htakes]
      · next htakes => rwa [if_neg htakes]

theorem scanDirectory_spec {directory : String} {device : Nat}
    (hwaits : Waits tree settings rootDevice directory device) {w : List (String × Nat) × Scan}
    (hstack : ∀ e ∈ w.1, Waits tree settings rootDevice e.1 e.2) (hcounts : Counts tree files size w.2) :
    let next := scanDirectory rt tree settings rootDevice directory device w
    search next = visitAll (isDirectory tree) (search w) (entriesOf rt tree settings directory) ∧
      (∀ e ∈ next.1, Waits tree settings rootDevice e.1 e.2) ∧ Counts tree files size next.2 := by
  have hentries := scanEntries_spec rt hwaits (tree.entry_name directory) hstack hcounts
  dsimp only at hentries ⊢
  rw [scanDirectory]
  dsimp only
  cases (tree.scandir directory).error with
  | none => exact hentries
  | some message => exact ⟨hentries.1, hentries.2.1, hentries.2.2.same rfl rfl rfl⟩

/-- The stack loop is a search, as long as its bound is enough. -/
theorem walk_spec {n : Nat} {w : List (String × Nat) × Scan}
    (hstack : ∀ e ∈ w.1, Waits tree settings rootDevice e.1 e.2) (hcounts : Counts tree files size w.2) :
    (walk rt tree settings rootDevice n w).map (fun s => search ([], s)) =
        drain (isDirectory tree) (entriesOf rt tree settings) n (search w) ∧
      ∀ s, walk rt tree settings rootDevice n w = some s → Counts tree files size s := by
  induction n generalizing w with
  | zero =>
      obtain ⟨stack, s⟩ := w
      cases stack with
      | nil => exact ⟨rfl, fun t ht => Option.some.inj ht ▸ hcounts⟩
      | cons e stack => exact ⟨rfl, by rintro s ⟨⟩⟩
  | succ n ih =>
      obtain ⟨stack, s⟩ := w
      cases stack with
      | nil => exact ⟨rfl, fun t ht => Option.some.inj ht ▸ hcounts⟩
      | cons e stack =>
          have hrest : ∀ e ∈ stack, Waits tree settings rootDevice e.1 e.2 :=
            fun e he => hstack e (List.mem_cons_of_mem _ he)
          obtain ⟨hsearch, hnext, hcounts⟩ :=
            @scanDirectory_spec rt _ _ _ _ _ _ _ (hstack e (List.mem_cons_self ..)) (stack, s) hrest hcounts
          have hrest := ih hnext hcounts
          rw [hsearch] at hrest
          exact hrest

end Entries

/-- After some of the sources: the search is over for now, and the totals hold what
was counted, source by source. -/
structure Scanning (rt : PatternRuntime) (tree : FileTree) (settings : Settings) (roots : List String)
  (t : Totals) : Prop where
  searching : Searching (isDirectory tree) (entriesOf rt tree settings)
    (fun root => root ∈ roots ∧ admits rt tree settings root = true) (search ([], t.scan))
  files : t.totalFiles = (counted tree t.scan.seenPaths).length
  size : t.totalSize = countedSizes tree t.scan.seenPaths
  filesBySource : t.totalFiles = (t.sourceResults.map SourceResult.fileCount).sum
  sizeBySource : t.totalSize = (t.sourceResults.map SourceResult.sizeBytes).sum

section Roots

variable {rt : PatternRuntime} {tree : FileTree} {settings : Settings} {roots : List String} {t : Totals}

theorem Scanning.skip (h : Scanning rt tree settings roots t) (root : String) {s : Scan}
    (hseen : s.seenPaths = t.scan.seenPaths) :
    Scanning rt tree settings roots (t.skip root s) where
  searching := by
    rw [search, Totals.skip]
    dsimp only
    rw [hseen]
    exact h.searching
  files := by rw [Totals.skip]; dsimp only; rw [hseen, h.files]
  size := by rw [Totals.skip]; dsimp only; rw [hseen, h.size]
  filesBySource := by simp [Totals.skip, h.filesBySource]
  sizeBySource := by simp [Totals.skip, h.sizeBySource]

theorem Scanning.finish (h : Scanning rt tree settings roots t) (root : String) {s : Scan}
    (hsearch : Searching (isDirectory tree) (entriesOf rt tree settings)
      (fun root => root ∈ roots ∧ admits rt tree settings root = true) (search ([], s)))
    (hcounts : Counts tree t.totalFiles t.totalSize s) : Scanning rt tree settings roots (t.finish root s) where
  searching := hsearch
  files := hcounts.files
  size := hcounts.size
  filesBySource := by simp [Totals.finish, h.filesBySource]
  sizeBySource := by simp [Totals.finish, h.sizeBySource]

theorem Scanning.fresh (h : Scanning rt tree settings roots t) : Counts tree t.totalFiles t.totalSize t.fresh where
  files := h.files
  size := by rw [Totals.fresh, Int.add_zero, h.size]

/-- The search goes on from a source that it starts from. -/
theorem Scanning.visit (h : Scanning rt tree settings roots t) {root : String} (hmem : root ∈ roots)
    (hadmits : admits rt tree settings root = true) : Searching (isDirectory tree) (entriesOf rt tree settings)
      (fun root => root ∈ roots ∧ admits rt tree settings root = true)
      (visit (isDirectory tree) (search ([], t.fresh)) root) := by
  exact h.searching.visit ⟨root, ⟨hmem, hadmits⟩, .refl⟩

/-- What one source makes of the totals. -/
structure Advanced (rt : PatternRuntime) (tree : FileTree) (settings : Settings) (roots : List String)
  (t : Totals) (root : String)
    (u : Totals) : Prop where
  scanning : Scanning rt tree settings roots u
  kept : ∀ path ∈ t.scan.seenPaths, path ∈ u.scan.seenPaths
  met : admits rt tree settings root = true → root ∈ u.scan.seenPaths

theorem Scanning.skipped (h : Scanning rt tree settings roots t) {root : String} {s : Scan}
    (hseen : s.seenPaths = t.scan.seenPaths) (hmet : admits rt tree settings root = true →
      root ∈ t.scan.seenPaths) : Advanced rt tree settings roots t root (t.skip root s) where
  scanning := h.skip root hseen
  kept := by
    rw [Totals.skip]
    dsimp only
    rw [hseen]
    exact fun _ hpath => hpath
  met := by
    intro hadmits
    rw [Totals.skip, hseen]
    exact hmet hadmits

theorem Scanning.finished (h : Scanning rt tree settings roots t) {root : String} {s : Scan}
    (hsearch : Searching (isDirectory tree) (entriesOf rt tree settings)
      (fun root => root ∈ roots ∧ admits rt tree settings root = true) (search ([], s)))
    (hcounts : Counts tree t.totalFiles t.totalSize s)
    (hkept : ∀ path ∈ (Worklists.visit (isDirectory tree) (search ([], t.fresh)) root).seen, path ∈ s.seenPaths) :
    Advanced rt tree settings roots t root (t.finish root s) where
  scanning := h.finish root hsearch hcounts
  kept := fun path hpath => hkept path (mem_seen_visit.mpr (Or.inl hpath))
  met := fun _ => hkept root (mem_seen_visit.mpr (Or.inr rfl))

/-- The scan of a source comes to its end. -/
theorem scanRoot_spec (h : Scanning rt tree settings roots t) {root : String} (hmem : root ∈ roots)
    (hroot : AbsoluteNormalised root) :
    ∃ u, scanRoot rt tree settings t root = some u ∧ Advanced rt tree settings roots t root u := by
  rw [scanRoot]
  by_cases hexcluded : excludedByPattern rt settings root = true
  · rw [if_pos hexcluded]
    refine ⟨_, rfl, h.skipped rfl ?_⟩
    rw [admits, hexcluded]
    rintro ⟨⟩
  rw [if_neg hexcluded]
  rw [Bool.not_eq_true] at hexcluded
  cases hlstat : tree.lstat root with
  | error message =>
      refine ⟨_, rfl, h.skipped rfl ?_⟩
      rw [admits, hlstat, Bool.and_false]
      rintro ⟨⟩
  | ok st =>
      dsimp only
      have hadmits : admits rt tree settings root = !excludedAfterMetadata tree settings root st.isDir := by
        rw [admits, hexcluded, hlstat]
        rfl
      by_cases hafter : excludedAfterMetadata tree settings root st.isDir = true
      · rw [if_pos hafter]
        refine ⟨_, rfl, h.skipped rfl ?_⟩
        rw [hadmits, hafter]
        rintro ⟨⟩
      rw [if_neg hafter]
      rw [Bool.not_eq_true] at hafter
      rw [hafter] at hadmits
      have hdirectory : isDirectory tree root = st.isDir := by rw [isDirectory, hlstat]; rfl
      have hvisit := h.visit hmem hadmits
      cases hdir : st.isDir with
      | false =>
          rw [hdir] at hdirectory
          rw [if_pos rfl]
          have hsearch := @search_addFile tree [] t.fresh root st hroot.2 hdirectory
          refine ⟨_, rfl, h.finished ?_ (h.fresh.addFile hroot.2 hlstat hdir) ?_⟩
          · rw [hsearch]
            exact hvisit
          · rw [← hsearch]
            exact fun _ hpath => hpath
      | true =>
          rw [hdir] at hdirectory
          rw [if_neg (by simp)]
          by_cases hseen : normpath root ∈ t.fresh.seenPaths
          · rw [if_pos hseen]
            exact ⟨_, rfl, h.skipped rfl (fun _ => hroot.2 ▸ hseen)⟩
          rw [if_neg hseen]
          have hsearch := @search_addDirectory tree ([], t.fresh) root st.device hroot.2 hdirectory
          have hcounts := @Counts.addDirectory tree _ _ ([], t.fresh) h.fresh root st.device hroot.2 hdirectory
          rw [addDirectory, if_neg hseen] at hsearch hcounts
          have hwaits : ∀ e ∈ [(root, st.device)], Waits tree settings st.device e.1 e.2 := by
            intro e he
            rw [List.mem_singleton.mp he]
            exact ⟨hroot, hdirectory, by rw [hlstat]; rfl, fun _ => rfl⟩
          have hweight : Search.weight tree.directories (visit (isDirectory tree) (search ([], t.fresh)) root) ≤
              tree.directories root := by
            rw [← hsearch]
            exact Nat.le_refl _
          obtain ⟨hwalk, hcounted⟩ := walk_spec rt hwaits hcounts (n := tree.directories root)
          obtain ⟨done, hdrain, hdone, hnil, hkept⟩ := hvisit.drain (directories_entriesOf rt tree settings) hweight
          rw [hsearch, hdrain] at hwalk
          obtain ⟨s, hs, rfl⟩ := Option.map_eq_some_iff.mp hwalk
          rw [hs]
          exact ⟨_, rfl, h.finished hdone (hcounted s hs) hkept⟩

/-- The scan of all sources comes to its end, and has met all it starts from. -/
theorem scanRoots_spec (h : Scanning rt tree settings roots t) {todo : List String} (hmem : ∀ root ∈ todo, root ∈ roots)
    (hroots : ∀ root ∈ todo, AbsoluteNormalised root) :
    ∃ u, todo.foldlM (scanRoot rt tree settings) t = some u ∧ Scanning rt tree settings roots u ∧
      (∀ path ∈ t.scan.seenPaths, path ∈ u.scan.seenPaths) ∧
      ∀ root ∈ todo, admits rt tree settings root = true → root ∈ u.scan.seenPaths := by
  induction todo generalizing t with
  | nil => exact ⟨t, rfl, h, fun _ hpath => hpath, List.forall_mem_nil _⟩
  | cons root todo ih =>
      obtain ⟨next, hnext, hadvanced⟩ :=
        scanRoot_spec h (hmem root (List.mem_cons_self ..)) (hroots root (List.mem_cons_self ..))
      obtain ⟨u, hu, hscanning, hkept, hmet⟩ :=
        ih hadvanced.scanning (fun root hroot => hmem root (List.mem_cons_of_mem _ hroot))
        (fun root hroot => hroots root (List.mem_cons_of_mem _ hroot))
      refine ⟨u,
        by
          rw [List.foldlM_cons, hnext]; exact hu, hscanning, fun path hpath =>
            hkept path (hadvanced.kept path hpath), ?_⟩
      intro path hpath hadmits
      rcases List.mem_cons.mp hpath with rfl | hpath
      · exact hkept path (hadvanced.met hadmits)
      · exact hmet path hpath hadmits

theorem scanning_emptyScan : Scanning rt tree settings roots ⟨emptyScan, [], 0, 0⟩ where
  searching := .init
  files := rfl
  size := rfl
  filesBySource := rfl
  sizeBySource := rfl

/-- The totals after all sources, with the paths that were met. -/
structure Complete (rt : PatternRuntime) (tree : FileTree) (settings : Settings) (roots : List String)
  (t : Totals) : Prop where
  scanning : Scanning rt tree settings roots t
  met : ∀ root, root ∈ roots ∧ admits rt tree settings root = true → root ∈ t.scan.seenPaths

theorem scanRoots_complete (hroots : ∀ root ∈ roots, AbsoluteNormalised root) :
    ∃ t, scanRoots rt tree settings roots = some t ∧ Complete rt tree settings roots t := by
  obtain ⟨t, ht, hscanning, -, hmet⟩ := @scanRoots_spec rt tree settings roots _ scanning_emptyScan roots
    (fun _ hroot => hroot) hroots
  exact ⟨t, ht, hscanning, fun root hroot => hmet root hroot.1 hroot.2⟩

/-- The files that were counted are those that the sources reach, each once. -/
theorem Complete.mem_counted (h : Complete rt tree settings roots t) {path : String} :
    path ∈ counted tree t.scan.seenPaths ↔ Scanned rt tree settings roots path ∧ isDirectory tree path = false := by
  have hseen : path ∈ t.scan.seenPaths ↔ Scanned rt tree settings roots path :=
    h.scanning.searching.mem_seen_iff rfl h.met
  rw [counted, List.mem_filter, hseen, Bool.not_eq_true']

theorem Complete.nodup_counted (h : Complete rt tree settings roots t) : (counted tree t.scan.seenPaths).Nodup :=
  h.scanning.searching.nodup.filter _

/-- The totals depend on the set of the sources only. -/
theorem Complete.totals {roots' : List String} {u : Totals} (ht : Complete rt tree settings roots t)
    (hu : Complete rt tree settings roots' u) (hsame : ∀ root, root ∈ roots' ↔ root ∈ roots) :
    u.totalFiles = t.totalFiles ∧ u.totalSize = t.totalSize := by
  have hseen : t.scan.seenPaths.Perm u.scan.seenPaths :=
    ht.scanning.searching.seen_perm rfl ht.met hu.scanning.searching rfl hu.met
    (fun root => and_congr_left' (hsame root).symm)
  have hcounted : (counted tree t.scan.seenPaths).Perm (counted tree u.scan.seenPaths) := hseen.filter _
  constructor
  · rw [hu.scanning.files, ht.scanning.files, hcounted.length_eq]
  · rw [hu.scanning.size, ht.scanning.size, countedSizes, countedSizes, (hcounted.map _).sum_eq]

end Roots

section Spellings

theorem place_path {root : List Char} {names : List (List Char)} (hroot : IsRoot root)
    (hnames : ∀ name ∈ names, EntryName name) : place (path root names) = path ['/'] names := by
  have hhead : ∀ c ∈ (['/'].intercalate names).head?, (c == '/') = false := by
    intro c hc
    cases names with
    | nil => simp at hc
    | cons name names =>
        have hname := hnames name (List.mem_cons_self ..)
        rw [ArtifactPaths.head_intercalate hname.nonempty] at hc
        exact beq_false_of_ne (fun hslash => hname.noSlash (hslash ▸ List.mem_of_mem_head? hc))
  have hrest : (['/'].intercalate names).dropWhile (· == '/') = ['/'].intercalate names := by
    generalize ['/'].intercalate names = rest at hhead
    cases rest with
    | nil => rfl
    | cons c rest => rw [List.dropWhile_cons, hhead c rfl, if_neg Bool.false_ne_true]
  rw [place, path, path, String.toList_ofList]
  rcases hroot with rfl | rfl <;> simp [hrest]

theorem twoSlashes_path {root : List Char} {names : List (List Char)} (hroot : IsRoot root)
    (hnames : ∀ name ∈ names, EntryName name) : twoSlashes (path root names) = decide (root = ['/', '/']) := by
  rw [twoSlashes, path, String.toList_ofList]
  rcases hroot with rfl | rfl
  · cases names with
    | nil => rfl
    | cons name names =>
        have hname := hnames name (List.mem_cons_self ..)
        obtain ⟨c, rest, hcons⟩ := List.exists_cons_of_ne_nil hname.nonempty
        have hslash : c ≠ '/' := fun h => hname.noSlash (by rw [hcons, h]; exact List.mem_cons_self ..)
        cases names <;> simp [hcons, hslash]
  · simp

/-- Two spellings of a path differ in the slashes at its start. -/
theorem eq_of_place {p q : String} (hp : AbsoluteNormalised p) (hq : AbsoluteNormalised q) (hplace : place p = place q)
    (hslashes : twoSlashes p = twoSlashes q) : p = q := by
  obtain ⟨root, names, hroot, hnames, rfl⟩ := absoluteNormalised_iff.mp hp
  obtain ⟨root', names', hroot', hnames', rfl⟩ := absoluteNormalised_iff.mp hq
  rw [place_path hroot hnames, place_path hroot' hnames', path, path] at hplace
  have hrest := List.append_cancel_left (String.ofList_injective hplace)
  rw [twoSlashes_path hroot hnames, twoSlashes_path hroot' hnames', decide_eq_decide] at hslashes
  have hsame : root = root' := by
    rcases hroot with rfl | rfl
    · rcases hroot' with rfl | rfl
      · rfl
      · exact absurd (hslashes.mpr rfl) (by decide)
    · exact (hslashes.mp rfl).symm
  rw [path, path, hrest, hsame]

theorem place_eq_self {p : String} (hp : AbsoluteNormalised p) (hslashes : twoSlashes p = false) : place p = p := by
  obtain ⟨root, names, hroot, hnames, rfl⟩ := absoluteNormalised_iff.mp hp
  rw [twoSlashes_path hroot hnames, decide_eq_false_iff_not] at hslashes
  rw [place_path hroot hnames, hroot.resolve_right hslashes]

theorem slash_place {p : String} (hp : AbsoluteNormalised p) (hslashes : twoSlashes p = true) : "/" ++ place p = p := by
  obtain ⟨root, names, hroot, hnames, rfl⟩ := absoluteNormalised_iff.mp hp
  rw [twoSlashes_path hroot hnames, decide_eq_true_iff] at hslashes
  rw [place_path hroot hnames, hslashes]
  apply String.toList_inj.mp
  simp [path]

theorem twoSlashes_join {p : String} (hp : AbsoluteNormalised p) {name : String} (hname : EntryName name.toList) :
    twoSlashes (join p name) = twoSlashes p := by
  obtain ⟨root, names, hroot, hnames, rfl⟩ := absoluteNormalised_iff.mp hp
  have hlonger : ∀ entry ∈ names ++ [name.toList], EntryName entry := by
    intro entry hentry
    rcases List.mem_append.mp hentry with hentry | hentry
    · exact hnames entry hentry
    · rwa [List.mem_singleton.mp hentry]
  rw [join_path hroot hnames hname, twoSlashes_path hroot hlonger, twoSlashes_path hroot hnames]

end Spellings

section Scope

variable {rt : PatternRuntime} {tree : FileTree} {settings : Settings} {roots : List String} {t : Totals}

/-- What is reached is an absolute normalised path that begins as its source does. -/
theorem Scanned.spelling (hroots : ∀ root ∈ roots, AbsoluteNormalised root) {path : String}
    (h : Scanned rt tree settings roots path) :
    AbsoluteNormalised path ∧ ∃ root ∈ roots, twoSlashes root = twoSlashes path ∧ Scanned rt tree settings
      [root] path := by
  obtain ⟨root, ⟨hmem, hadmits⟩, hreach⟩ := h
  suffices hspelling : AbsoluteNormalised path ∧ twoSlashes root = twoSlashes path from
    ⟨hspelling.1, root, hmem, hspelling.2, root, ⟨List.mem_singleton_self _, hadmits⟩, hreach⟩
  induction hreach with
  | refl => exact ⟨hroots root hmem, rfl⟩
  | tail _ hedge ih =>
      obtain ⟨name, hname, rfl⟩ := List.mem_map.mp (List.mem_filter.mp hedge.2).1
      have hentry := tree.entry_name _ name hname
      exact ⟨ih.1.join hentry, ih.2.trans (twoSlashes_join ih.1 hentry).symm⟩

theorem Scanned.mono {roots' : List String} (hsub : ∀ root ∈ roots, root ∈ roots') {path : String}
    (h : Scanned rt tree settings roots path) : Scanned rt tree settings roots' path := by
  obtain ⟨root, ⟨hmem, hadmits⟩, hreach⟩ := h
  exact ⟨root, ⟨hsub root hmem, hadmits⟩, hreach⟩

theorem Scanned.filter (hroots : ∀ root ∈ roots, AbsoluteNormalised root) {path : String}
    (h : Scanned rt tree settings roots path) {keep : String → Bool}
    (hkeep : ∀ root, twoSlashes root = twoSlashes path → keep root = true) :
    Scanned rt tree settings (roots.filter keep) path := by
  obtain ⟨-, root, hmem, hslashes, hscanned⟩ := h.spelling hroots
  refine hscanned.mono (fun other hother => ?_)
  rw [List.mem_singleton.mp hother]
  exact List.mem_filter.mpr ⟨hmem, hkeep root hslashes⟩

/-- Of two spellings of a file one begins with two slashes. -/
theorem reachedTwice_of_spellings (hroots : ∀ root ∈ roots, AbsoluteNormalised root) {p q : String}
    (hp : Scanned rt tree settings roots p) (hq : Scanned rt tree settings roots q) (hfile : isDirectory tree q = false)
    (hplace : place p = place q) (htwo : twoSlashes p = true) (hone : twoSlashes q = false) :
    ReachedTwice rt tree settings roots := by
  refine ⟨q, hfile, ?_, hq.filter hroots (fun root hroot => by rw [hroot, hone]; rfl)⟩
  rw [← place_eq_self (hq.spelling hroots).1 hone, ← hplace, slash_place (hp.spelling hroots).1 htwo]
  exact hp.filter hroots (fun root hroot => by rw [hroot, htwo])

theorem isDirectory_place {path : String} (hpath : AbsoluteNormalised path) :
    isDirectory tree (place path) = isDirectory tree path := by
  rw [isDirectory, isDirectory, directoryAt, directoryAt, (tree.alike path hpath.1).1]

theorem sizeAt_place {path : String} (hpath : AbsoluteNormalised path) :
    sizeAt (tree.lstat (place path)) = sizeAt (tree.lstat path) := by
  rw [sizeAt, sizeAt, (tree.alike path hpath.1).1]

/-- No file is counted under two spellings if and only if none is reached twice. -/
theorem Complete.nodup_places_iff (hroots : ∀ root ∈ roots, AbsoluteNormalised root)
    (h : Complete rt tree settings roots t) :
    ((counted tree t.scan.seenPaths).map place).Nodup ↔ ¬ReachedTwice rt tree settings roots := by
  constructor
  · rintro hnodup ⟨file, hfile, htwo, hone⟩
    have hfiltered (keep : String → Bool) : ∀ root ∈ roots.filter keep, AbsoluteNormalised root :=
      fun root hroot => hroots root (List.mem_filter.mp hroot).1
    obtain ⟨hdoubled, root, hroot, hslashes, -⟩ := htwo.spelling (hfiltered _)
    obtain ⟨hplain, root', hroot', hslashes', -⟩ := hone.spelling (hfiltered _)
    rw [(List.mem_filter.mp hroot).2] at hslashes
    have hother := (List.mem_filter.mp hroot').2
    rw [hslashes', Bool.not_eq_true'] at hother
    have hplace : place ("/" ++ file) = place file := by simp [place]
    have hcounted (path : String) (hscanned : Scanned rt tree settings roots path)
      (hpath : isDirectory tree path = false) :
        path ∈ counted tree t.scan.seenPaths := h.mem_counted.mpr ⟨hscanned, hpath⟩
    have hsame := List.inj_on_of_nodup_map hnodup
      (hcounted _ (htwo.mono (fun _ hroot => (List.mem_filter.mp hroot).1)) (by
        rw [← isDirectory_place hdoubled, hplace, isDirectory_place hplain, hfile]))
      (hcounted _ (hone.mono (fun _ hroot => (List.mem_filter.mp hroot).1)) hfile) hplace
    rw [hsame, hother] at hslashes
    cases hslashes
  · intro hapart
    refine List.Nodup.map_on ?_ h.nodup_counted
    intro p hp q hq hplace
    obtain ⟨hp, hpfile⟩ := h.mem_counted.mp hp
    obtain ⟨hq, hqfile⟩ := h.mem_counted.mp hq
    by_contra hne
    cases htwo : twoSlashes p with
    | true =>
        cases hone : twoSlashes q with
        | true => exact hne (eq_of_place (hp.spelling hroots).1 (hq.spelling hroots).1 hplace (by rw [htwo, hone]))
        | false => exact hapart (reachedTwice_of_spellings hroots hp hq hqfile hplace htwo hone)
    | false =>
        cases hone : twoSlashes q with
        | true => exact hapart (reachedTwice_of_spellings hroots hq hp hpfile hplace.symm hone htwo)
        | false => exact hne (eq_of_place (hp.spelling hroots).1 (hq.spelling hroots).1 hplace (by rw [htwo, hone]))

theorem Complete.mem_places (h : Complete rt tree settings roots t) {file : String} :
    file ∈ (counted tree t.scan.seenPaths).map place ↔ InScope rt tree settings roots file := by
  rw [List.mem_map]
  constructor
  · rintro ⟨path, hpath, hplace⟩
    obtain ⟨hscanned, hfile⟩ := h.mem_counted.mp hpath
    exact ⟨path, hscanned, hfile, hplace⟩
  · rintro ⟨path, hscanned, hfile, hplace⟩
    exact ⟨path, h.mem_counted.mpr ⟨hscanned, hfile⟩, hplace⟩

theorem Complete.sum_places (hroots : ∀ root ∈ roots, AbsoluteNormalised root) (h : Complete rt tree settings roots t) :
    (((counted tree t.scan.seenPaths).map place).map (fun file => sizeAt (tree.lstat file))).sum =
      countedSizes tree t.scan.seenPaths := by
  rw [countedSizes, List.map_map]
  congr 1
  apply List.map_congr_left
  intro path hpath
  exact sizeAt_place ((h.mem_counted.mp hpath).1.spelling hroots).1

end Scope

/-- The files in the scope are counted once each, the totals are the sums over the
sources, and neither the order of the sources nor a repetition changes them. -/
structure CountsOnce (rt : PatternRuntime) (tree : FileTree) (settings : Settings) (roots : List String)
  (report : Report) : Prop where
  once : ∃ files : List String, files.Nodup ∧ (∀ file, file ∈ files ↔ InScope rt tree settings roots file) ∧
    report.fileCount = files.length ∧ report.sizeBytes = (files.map (fun file => sizeAt (tree.lstat file))).sum
  filesBySource : report.fileCount = (report.sources.map SourceResult.fileCount).sum
  sizeBySource : report.sizeBytes = (report.sources.map SourceResult.sizeBytes).sum
  order : ∀ roots', (∀ root, root ∈ roots' ↔ root ∈ roots) → ∃ output', scan rt tree settings roots' = some output' ∧
    output'.report.fileCount = report.fileCount ∧ output'.report.sizeBytes = report.sizeBytes

section Report

variable {rt : PatternRuntime} {tree : FileTree} {settings : Settings} {roots : List String} {t : Totals}

theorem Complete.countsOnce (hroots : ∀ root ∈ roots, AbsoluteNormalised root) (hcompiles : compiles rt settings = true)
    (h : Complete rt tree settings roots t) (hapart : ¬ReachedTwice rt tree settings roots) :
    CountsOnce rt tree settings roots (report rt settings t) where
  once := by
    refine ⟨(counted tree t.scan.seenPaths).map place, (h.nodup_places_iff hroots).mpr hapart,
      fun file => h.mem_places, ?_, ?_⟩
    · rw [List.length_map]
      exact h.scanning.files
    · rw [h.sum_places hroots]
      exact h.scanning.size
  filesBySource := h.scanning.filesBySource
  sizeBySource := h.scanning.sizeBySource
  order := by
    intro roots' hsame
    obtain ⟨u, hu, hother⟩ := @scanRoots_complete rt tree settings roots'
      (fun root hroot => hroots root ((hsame root).mp hroot))
    exact ⟨output rt settings u, by rw [scan, if_pos hcompiles, hu]; rfl, h.totals hother hsame⟩

/-- A file that is reached twice is counted twice. -/
theorem Complete.apart (hroots : ∀ root ∈ roots, AbsoluteNormalised root) (h : Complete rt tree settings roots t)
    (honce : CountsOnce rt tree settings roots (report rt settings t)) : ¬ReachedTwice rt tree settings roots := by
  obtain ⟨files, hnodup, hmem, hcount, -⟩ := honce.once
  have hperm : files.Perm ((counted tree t.scan.seenPaths).map place).dedup := by
    refine (List.perm_ext_iff_of_nodup hnodup (List.nodup_dedup _)).mpr (fun file => ?_)
    rw [hmem, List.mem_dedup, h.mem_places]
  have hlength : ((counted tree t.scan.seenPaths).map place).dedup.length =
      ((counted tree t.scan.seenPaths).map place).length := by
    rw [← hperm.length_eq, List.length_map, ← hcount]
    exact h.scanning.files
  apply (h.nodup_places_iff hroots).mp
  rw [← (List.dedup_sublist _).eq_of_length hlength]
  exact List.nodup_dedup _

end Report

theorem compiles_iff {rt : PatternRuntime} {settings : Settings} :
    compiles rt settings = true ↔ ∀ raw ∈ settings.rawPatterns, compilePattern rt raw ≠ .raised := by
  rw [compiles, List.all_eq_true]
  refine forall₂_congr (fun raw _ => ?_)
  cases compilePattern rt raw <;> simp [Compiled.isRaised]

theorem place_join {path name : String} (hpath : path ≠ "") (hname : EntryName name.toList) :
    place (join path name) = join (place path) name := by
  have hhead : name.toList.head? ≠ some '/' := fun h => hname.noSlash (List.mem_of_mem_head? h)
  have hnames : name.toList.dropWhile (· == '/') = name.toList := by
    obtain ⟨c, rest, hcons⟩ := List.exists_cons_of_ne_nil hname.nonempty
    rw [hcons, List.dropWhile_cons, if_neg]
    simpa [hcons] using hhead
  have hne : place path ≠ "" := fun h => by simpa [place] using congrArg String.toList h
  apply String.toList_inj.mp
  rw [join, join, if_neg hhead, if_neg hhead]
  simp only [hpath, hne, false_or]
  by_cases hnil : path.toList.dropWhile (· == '/') = []
  · have hslashes : ∀ c ∈ path.toList, c = '/' := by simpa [List.dropWhile_eq_nil_iff] using hnil
    have hlast : path.toList.getLast? = some '/' := by
      obtain ⟨c, hc⟩ := Option.ne_none_iff_exists'.mp
        (fun h => hpath (String.toList_inj.mp (List.getLast?_eq_none_iff.mp h)))
      rw [hc, hslashes c (List.mem_of_getLast? hc)]
    rw [if_pos hlast, if_pos (by simp [place, hnil])]
    simp [place, List.dropWhile_append, hnil, hnames]
  · have hlast : (place path).toList.getLast? = path.toList.getLast? := by
      obtain ⟨before, hbefore⟩ := @List.dropWhile_suffix Char path.toList (· == '/')
      rw [place, String.toList_ofList, ← List.singleton_append, List.getLast?_append_of_ne_nil _ hnil]
      nth_rewrite 2 [← hbefore]
      rw [List.getLast?_append_of_ne_nil _ hnil]
    rw [hlast]
    split <;> simp [place, List.dropWhile_append, hnil]

/-- Only two expressions can be compiled here, and one of them has too large a repetition count. -/
def samplePatterns : PatternRuntime where
  compile body :=
    if body = "a{4294967296}" then .raised
    else if body = "^tmp/" then .compiled ⟨"tmp/".isPrefixOf, "tmp/".isPrefixOf⟩
    else .refused
  escape := String.singleton
  fnmatchcase candidate body := candidate == body
  lower := String.toLower

/-- `/data` holds a file and, on another device, a directory with two files. -/
def sampleTree : FileTree where
  lstat path :=
    if place path = "/data" then .ok ⟨.directory, 4096, 1⟩
    else if place path = "/data/sub" then .ok ⟨.directory, 4096, 2⟩
    else if place path = "/data/a" then .ok ⟨.regular, 3, 1⟩
    else if place path = "/data/sub/b" then .ok ⟨.regular, 5, 2⟩
    else if place path = "/data/sub/c" then .ok ⟨.regular, 7, 2⟩
    else .error "No such file or directory"
  scandir path :=
    if place path = "/data" then ⟨["a", "sub"], none⟩
    else if place path = "/data/sub" then ⟨["b", "c"], none⟩
    else ⟨[], none⟩
  nodump _ := false
  tag _ := none
  directories path := if place path = "/data" then 2 else 1
  alike := by
    intro path _
    have hplace : place (place path) = place path := by simp [place, List.dropWhile_idempotent]
    simp only [hplace, and_self]
  entry_name := by
    intro path name hname
    split at hname
    · rcases List.mem_pair.mp hname with rfl | rfl <;> decide
    · split at hname
      · rcases List.mem_pair.mp hname with rfl | rfl <;> decide
      · cases hname
  directories_below := by
    intro path
    by_cases hpath : path = ""
    · subst hpath
      decide
    have hjoin (name : String) (hname : EntryName name.toList) : place (join path name) = join (place path) name :=
      place_join hpath hname
    split
    · next hdata =>
        have ha := hjoin "a" (by decide)
        have hsub := hjoin "sub" (by decide)
        rw [hdata] at ha hsub
        have ha' : place (join path "a") = "/data/a" := ha.trans (by decide)
        have hsub' : place (join path "sub") = "/data/sub" := hsub.trans (by decide)
        simp [ha', hsub', directoryAt, Stat.isDir, Except.toOption]
    · split
      · next hsub =>
          have hb := hjoin "b" (by decide)
          have hc := hjoin "c" (by decide)
          rw [hsub] at hb hc
          have hb' : place (join path "b") = "/data/sub/b" := hb.trans (by decide)
          have hc' : place (join path "c") = "/data/sub/c" := hc.trans (by decide)
          simp [hb', hc', directoryAt, Stat.isDir, Except.toOption]
      · exact Nat.zero_lt_one

def ownDevice : Settings := ⟨true, false, false, true, ["pf:data/sub/c", "re:^tmp/"]⟩

example : (scan samplePatterns sampleTree ownDevice ["/data/sub", "/data"]).map
    (fun o => (o.report.fileCount, o.report.sizeBytes)) = some (2, 8) := by
  decide +kernel

end BorgManager.SourceScan
