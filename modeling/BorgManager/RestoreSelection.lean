import BorgManager.ArchiveSeries
import BorgManager.Exceptions
import BorgManager.SecretStore
import Mathlib.Data.List.Infix

namespace BorgManager.RestoreSelection

open SecretStore (Text)
open ArchiveSeries (JobRow jobArchivePrefixes)

/-- `PurePosixPath(value).parts` without the root. -/
def parts (value : Text) : List Text := (value.splitOn '/').filter (fun part => part ≠ [] && part ≠ ['.'])

def unsafeLetters : Text := [Char.ofNat 0, '\r', '\n']

def up : Text := ['.', '.']

def invalidArchiveName : Text := "Invalid archive name".toList

def hasColons : Text → Bool
  | ':' :: ':' :: _ => true
  | _ :: text => hasColons text
  | [] => false

def validateArchiveName (archive : Text) : Except Text Text :=
  let archive := SecretStore.strip archive
  if archive.isEmpty || archive.head? = some '-' || hasColons archive || archive.any
      ('/' :: unsafeLetters).contains then
    .error invalidArchiveName
  else .ok archive

/-- A path of a selection as it is passed on to Borg. -/
def selectedPath (value : Text) : Text := PythonText.stripWhile (· == '/') (SecretStore.strip value)

def validateArchivePaths (purpose : Text) (paths : List Text) : Except Text (List Text) :=
  paths.mapM (fun value =>
    let value := selectedPath value
    if value.isEmpty || value.head? = some '-' || (parts value).contains up || value.any unsafeLetters.contains then
      .error (purpose ++ " paths must be relative archive paths without '..'".toList)
    else .ok value)

/-- The number of columns in which all rows agree, from the first column on. -/
def shared : List Text → List (List Text) → Nat
  | [], _ => 0
  | c :: first, others =>
      if others.all (fun row => row.head? = some c) then shared first (others.map List.tail) + 1 else 0

def selectionRootStripComponents (paths : List Text) : Nat :=
  match paths.map (fun value => (parts value).dropLast) with
  | [] => 0
  | first :: others => shared first others

structure Request where
  archive : Text
  paths : List Text
  target : Option Text
  dryRun : Bool
  allowLegacyArchive : Bool
  restoreMode : Text
  targetLayout : Text
  overwriteExisting : Bool

/-- What the command of a restore consists of. -/
structure Plan where
  baseline : List Text
  extract : List Text
  target : Text
  dryRun : Bool
  restoreMode : Text
  targetLayout : Text
  paths : List Text

def original : Text := "original".toList

def selectionRoot : Text := "selection-root".toList

def belongs (job : JobRow) (archive : Text) : Bool :=
  (jobArchivePrefixes job).any (fun text => text.toList.isPrefixOf archive)

/-- The directory that the restore is to fill. -/
def effectiveTarget (r : Request) (paths : List Text) : Except Text Text :=
  if r.restoreMode = original then
    if paths.isEmpty then .error "Restore to original locations requires selected archive paths".toList
    else if !r.dryRun && !r.overwriteExisting then
      .error "In-place restore requires explicit overwrite confirmation".toList
    else .ok ['/']
  else
    match r.target.filter (fun target => target ≠ []) with
    | none => .error "Restore target is required".toList
    | some target =>
        if target.head? ≠ some '/' || (parts target).contains up || target.any unsafeLetters.contains then
          .error "Restore target must be a safe absolute path".toList
        else .ok target

/-- The components that are taken off the paths of the archive. -/
def stripped (r : Request) (paths : List Text) : Nat :=
  if r.restoreMode = "target".toList && r.targetLayout = selectionRoot && !paths.isEmpty then
    selectionRootStripComponents paths
  else 0

def stripArguments (n : Nat) : List Text := if n = 0 then [] else ["--strip-components".toList, Nat.toDigits 10 n]

def planOf (r : Request) (archive : Text) (paths : List Text) (target : Text) : Plan :=
  let source := ("::".toList ++ archive) :: paths
  { baseline := ["borg", "--lock-wait", "600", "list", "--json-lines", "--format",
    "\x7bpath\x7d\x7btype\x7d\x7bsize\x7d"].map String.toList ++ source
    extract := ["borg", "--lock-wait", "600", "--log-json", "extract", "--progress", "--list"].map String.toList ++
      (if r.dryRun then ["--dry-run".toList] else []) ++ stripArguments (stripped r paths) ++ source
    target := target
    dryRun := r.dryRun
    restoreMode := r.restoreMode
    targetLayout := r.targetLayout
    paths := paths }

def checkBelongs (job : JobRow) (r : Request) (archive : Text) : Except Text Unit :=
  if r.allowLegacyArchive || belongs job archive then .ok ()
  else .error "Archive does not belong to this job; enable legacy restore explicitly if required".toList

def checkModes (r : Request) : Except Text Unit :=
  if !([original, "target".toList].contains r.restoreMode) then .error "Unsupported restore destination mode".toList
  else if !([selectionRoot, "archive-paths".toList].contains r.targetLayout) then
    .error "Unsupported restore path layout".toList
  else .ok ()

def restorePlan (job : JobRow) (r : Request) : Except Text Plan := do
  let archive ← validateArchiveName r.archive
  checkBelongs job r archive
  let paths ← validateArchivePaths "Restore".toList r.paths
  checkModes r
  let target ← effectiveTarget r paths
  return planOf r archive paths target

/-- What the script finds at its target. -/
inductive Target
  | absent
  | link
  | file
  | directory (entries : Nat)

/-- The device as far as the script asks for it: the code of the listing of the
archive, the target, and whether it can be made, listed and entered. -/
structure Device where
  baselineCode : Nat
  target : Target
  makeable : Bool
  listable : Bool
  enterable : Bool

/-- Where the extraction runs; `login` is the directory that the shell starts
in. -/
inductive Place
  | root
  | target
  | login
  deriving DecidableEq

inductive Ending
  | exits (code : Nat)
  | extracts (place : Place)
  deriving DecidableEq

/-- `mkdir -p`. -/
def Device.made (d : Device) : Target :=
  match d.target with
  | .absent => if d.makeable then .directory 0 else .absent
  | found => found

def listsEntries (d : Device) : Bool :=
  match d.made with
  | .directory entries => d.listable && 0 < entries
  | _ => false

def enters (d : Device) : Bool :=
  match d.made with
  | .directory _ => d.enterable
  | _ => false

/-- The script on the device. It does not stop at a command that fails. -/
def script (p : Plan) (d : Device) : Ending :=
  if 1 < d.baselineCode then .exits d.baselineCode
  else if p.restoreMode = original then .extracts .root
  else if p.dryRun then .extracts .root
  else
    match d.target with
    | .link => .exits 81
    | .file => .exits 82
    | _ => if listsEntries d then .exits 83 else .extracts (if enters d then .target else .login)

theorem shared_le (first : List Text) (others : List (List Text)) : shared first others ≤ first.length := by
  induction first generalizing others with
  | nil => exact Nat.le_refl _
  | cons c first ih =>
      rw [shared]
      split
      · exact Nat.succ_le_succ (ih _)
      · exact Nat.zero_le _

theorem head_of_all {c : Text} {others : List (List Text)} (h : others.all (fun row => row.head? = some c) = true)
    {row : List Text} (hrow : row ∈ others) : row = c :: row.tail := by
  have hhead := List.all_eq_true.mp h row hrow
  cases row with
  | nil => cases hhead
  | cons d row =>
      rw [List.head?_cons, decide_eq_true_eq, Option.some.injEq] at hhead
      rw [hhead, List.tail_cons]

theorem take_shared {first : List Text} {others : List (List Text)} {row : List Text} (hrow : row ∈ others) :
    row.take (shared first others) = first.take (shared first others) ∧ shared first others ≤ row.length := by
  induction first generalizing others row with
  | nil => exact ⟨rfl, Nat.zero_le _⟩
  | cons c first ih =>
      rw [shared]
      split
      · next hall =>
          obtain ⟨htake, hlen⟩ := ih (List.mem_map_of_mem hrow)
          rw [head_of_all hall hrow, List.take_succ_cons, List.take_succ_cons, htake]
          exact ⟨rfl, Nat.succ_le_succ hlen⟩
      · exact ⟨rfl, Nat.zero_le _⟩

/-- No longer start is common to all rows. -/
theorem shared_greatest {first : List Text} {others : List (List Text)} {m : Nat} (hfirst : m ≤ first.length)
    (h : ∀ row ∈ others, m ≤ row.length ∧ row.take m = first.take m) : m ≤ shared first others := by
  induction m generalizing first others with
  | zero => exact Nat.zero_le _
  | succ m ih =>
      cases first with
      | nil => cases hfirst
      | cons c first =>
          have hhead : ∀ row ∈ others, row.head? = some c := by
            intro row hrow
            obtain ⟨hlen, htake⟩ := h row hrow
            cases row with
            | nil => cases hlen
            | cons d row =>
                rw [List.take_succ_cons, List.take_succ_cons, List.cons.injEq] at htake
                rw [List.head?_cons, htake.1]
          have hall : others.all (fun row => row.head? = some c) = true :=
            List.all_eq_true.mpr fun row hrow => decide_eq_true (hhead row hrow)
          rw [shared, if_pos hall]
          refine Nat.succ_le_succ (ih (Nat.le_of_succ_le_succ hfirst) ?_)
          intro row hrow
          obtain ⟨full, hfull, rfl⟩ := List.mem_map.mp hrow
          obtain ⟨hlen, htake⟩ := h full hfull
          rw [head_of_all hall hfull] at hlen htake
          rw [List.take_succ_cons, List.take_succ_cons, List.cons.injEq] at htake
          exact ⟨Nat.le_of_succ_le_succ hlen, htake.2⟩

/-- The number of components that are taken off is at most the depth of each
selected path, and all of them agree in those components. -/
theorem strip_agrees {paths : List Text} {p q : Text} (hp : p ∈ paths) (hq : q ∈ paths) :
    selectionRootStripComponents paths ≤ (parts p).dropLast.length ∧
      (parts p).dropLast.take (selectionRootStripComponents paths) = (parts q).dropLast.take
      (selectionRootStripComponents paths) := by
  cases paths with
  | nil => cases hp
  | cons first others =>
      have hrow : ∀ r ∈ first :: others,
          (parts r).dropLast.take (selectionRootStripComponents (first :: others)) =
            (parts first).dropLast.take (selectionRootStripComponents (first :: others)) ∧
          selectionRootStripComponents (first :: others) ≤ (parts r).dropLast.length := by
        intro r hr
        rcases List.mem_cons.mp hr with rfl | hr
        · exact ⟨rfl, shared_le ..⟩
        · exact take_shared (List.mem_map_of_mem hr)
      exact ⟨(hrow p hp).2, (hrow p hp).1.trans (hrow q hq).1.symm⟩

/-- Of paths in one directory the whole directory is taken off. -/
theorem strip_siblings {paths : List Text} {parent : List Text} (hne : paths ≠ [])
    (h : ∀ p ∈ paths, (parts p).dropLast = parent) : selectionRootStripComponents paths = parent.length := by
  cases paths with
  | nil => exact absurd rfl hne
  | cons first others =>
      have hfirst : (parts first).dropLast = parent := h first (List.mem_cons_self ..)
      rw [selectionRootStripComponents, List.map_cons, hfirst]
      refine Nat.le_antisymm (shared_le ..) (shared_greatest (Nat.le_refl _) ?_)
      intro row hrow
      obtain ⟨p, hp, rfl⟩ := List.mem_map.mp hrow
      rw [h p (List.mem_cons_of_mem _ hp)]
      exact ⟨Nat.le_refl _, rfl⟩

/-- An item of the archive, at a selected path or below. -/
def Selected (paths : List Text) (item : List Text) : Prop := ∃ p ∈ paths, parts p <+: item

theorem stripped_le {r : Request} {paths : List Text} {p q : Text} (hp : p ∈ paths) (hq : q ∈ paths) :
    stripped r paths ≤ (parts p).dropLast.length ∧
      (parts p).dropLast.take (stripped r paths) = (parts q).dropLast.take (stripped r paths) := by
  rw [stripped]
  split
  · exact strip_agrees hp hq
  · exact ⟨Nat.zero_le _, rfl⟩

theorem take_of_prefix {α : Type} {xs item : List α} {n : Nat} (h : xs <+: item) (hn : n ≤ xs.dropLast.length) :
    item.take n = xs.dropLast.take n := by
  obtain ⟨rest, rfl⟩ := h
  rw [List.length_dropLast] at hn
  rw [List.take_append_of_le_length (by omega), List.dropLast_eq_take, List.take_take, Nat.min_eq_left hn]

theorem modes_of_check {r : Request} {u : Unit} (h : checkModes r = .ok u) :
    r.restoreMode = original ∨ r.restoreMode = "target".toList := by
  rw [checkModes] at h
  split at h
  · cases h
  · next hmode =>
      rw [Bool.not_eq_true', Bool.not_eq_false, List.contains_iff_mem] at hmode
      rcases List.mem_cons.mp hmode with hmode | hmode
      · exact .inl hmode
      · exact .inr (List.mem_singleton.mp hmode)

theorem restorePlan_ok {job : JobRow} {r : Request} {plan : Plan} (h : restorePlan job r = .ok plan) :
    ∃ archive paths target, validateArchiveName r.archive = .ok archive ∧
    validateArchivePaths "Restore".toList r.paths = .ok paths ∧
      (r.restoreMode = original ∨ r.restoreMode = "target".toList) ∧ effectiveTarget r paths = .ok target ∧
      plan = planOf r archive paths target := by
  obtain ⟨archive, harchive, h⟩ := Exceptions.bind_ok h
  obtain ⟨u, hbelongs, h⟩ := Exceptions.bind_ok h
  obtain ⟨paths, hpaths, h⟩ := Exceptions.bind_ok h
  obtain ⟨v, hmodes, h⟩ := Exceptions.bind_ok h
  obtain ⟨target, htarget, h⟩ := Exceptions.bind_ok h
  cases h
  exact ⟨archive, paths, target, harchive, hpaths, modes_of_check hmodes, htarget, rfl⟩

/-- A path that does not start at the root, that Borg cannot take for an
option, and that stays below. -/
structure Relative (p : Text) : Prop where
  nonempty : p ≠ []
  noRoot : p.head? ≠ some '/'
  noOption : p.head? ≠ some '-'
  below : up ∉ parts p
  clean : ∀ c ∈ p, c ∉ unsafeLetters

theorem relative_of_validate {purpose : Text} {paths selected : List Text}
    (h : validateArchivePaths purpose paths = .ok selected) {p : Text} (hp : p ∈ selected) : Relative p := by
  obtain ⟨value, -, hvalue⟩ := Exceptions.mem_of_mapM_ok h hp
  dsimp only at hvalue
  split at hvalue
  · cases hvalue
  · next hsafe =>
      cases hvalue
      rw [Bool.or_eq_true, Bool.or_eq_true, Bool.or_eq_true, not_or, not_or, not_or] at hsafe
      refine ⟨by simpa using hsafe.1.1.1, ?_, by simpa using hsafe.1.1.2, by simpa using hsafe.1.2, ?_⟩
      · intro hhead
        have hslash := PythonText.head_stripWhile hhead
        cases hslash
      · intro c hc hunsafe
        exact hsafe.2 (List.any_eq_true.mpr ⟨c, hc, List.contains_iff_mem.mpr hunsafe⟩)

def extractArguments (dryRun : Bool) : List Text :=
  ["borg", "--lock-wait", "600", "--log-json", "extract", "--progress", "--list"].map String.toList ++
    if dryRun then ["--dry-run".toList] else []

theorem effectiveTarget_original {r : Request} {paths : List Text} {target : Text}
    (h : effectiveTarget r paths = .ok target) (hmode : r.restoreMode = original) (hwrites : r.dryRun = false) :
    r.overwriteExisting = true ∧ paths ≠ [] := by
  rw [effectiveTarget, if_pos hmode] at h
  split at h
  · cases h
  · next hsome =>
      split at h
      · cases h
      · next hconfirmed =>
          rw [hwrites, Bool.not_false, Bool.true_and, Bool.not_eq_true', Bool.not_eq_false] at hconfirmed
          exact ⟨hconfirmed, by simpa using hsome⟩

/-- What the script has found when it extracts somewhere else than in `/`. -/
theorem script_extracts {plan : Plan} {d : Device} {place : Place} (h : script plan d = .extracts place)
    (hwrites : plan.dryRun = false) (hmode : plan.restoreMode ≠ original) :
    place = (if enters d then .target else .login) ∧ listsEntries d = false ∧
    (d.target = .absent ∨ ∃ entries, d.target = .directory entries) := by
  rw [script, if_neg hmode, hwrites, if_neg Bool.false_ne_true] at h
  split at h
  · cases h
  · cases htarget : d.target with
    | link =>
        rw [htarget] at h
        cases h
    | file =>
        rw [htarget] at h
        cases h
    | absent =>
        rw [htarget] at h
        dsimp only at h
        split at h
        · cases h
        · next hnone =>
            cases h
            exact ⟨rfl, by simpa using hnone, .inl rfl⟩
    | directory entries =>
        rw [htarget] at h
        dsimp only at h
        split at h
        · cases h
        · next hnone =>
            cases h
            exact ⟨rfl, by simpa using hnone, .inr ⟨entries, rfl⟩⟩

/-- Where an extraction that writes runs: in `/` only with the confirmation to
overwrite and a selection; in the target only if that was made for it or seems
empty; and in the directory of the login if the target could not be made or
entered, which the script does not check. -/
theorem extraction_place {job : JobRow} {r : Request} {plan : Plan} (h : restorePlan job r = .ok plan)
    (d : Device) {place : Place} (hplace : script plan d = .extracts place) (hwrites : plan.dryRun = false) :
    (place = .root ↔ r.restoreMode = original) ∧ (place = .root → r.overwriteExisting = true ∧ plan.paths ≠ []) ∧
      (place = .target → d.enterable = true ∧
        (d.target = .absent ∧ d.makeable = true ∨ ∃ entries, d.target = .directory entries ∧
          (entries = 0 ∨ d.listable = false))) ∧
      (place = .login → d.target = .absent ∧ d.makeable = false ∨ d.enterable = false) := by
  obtain ⟨archive, paths, target, -, -, -, htarget, rfl⟩ := restorePlan_ok h
  change r.dryRun = false at hwrites
  by_cases hmode : r.restoreMode = original
  · have hroot : place = .root := by
      rw [script] at hplace
      split at hplace
      · cases hplace
      · have hmode' : (planOf r archive paths target).restoreMode = original := hmode
        rw [if_pos hmode'] at hplace
        cases hplace
        rfl
    subst hroot
    obtain ⟨hconfirmed, hsome⟩ := effectiveTarget_original htarget hmode hwrites
    exact ⟨iff_of_true rfl hmode, fun _ => ⟨hconfirmed, hsome⟩, by rintro ⟨⟩, by rintro ⟨⟩⟩
  · obtain ⟨rfl, hlists, hfound⟩ := script_extracts hplace hwrites hmode
    have hnotroot : ¬(if enters d then Place.target else Place.login) = .root := by split <;> rintro ⟨⟩
    refine ⟨iff_of_false hnotroot hmode, fun hroot => absurd hroot hnotroot, fun hin => ?_, fun hin => ?_⟩
    · have henters : enters d = true := by
        by_contra hout
        rw [if_neg hout] at hin
        cases hin
      rw [enters, Device.made] at henters
      rw [listsEntries, Device.made] at hlists
      rcases hfound with habsent | ⟨entries, hdirectory⟩
      · rw [habsent] at henters
        cases hmake : d.makeable with
        | true =>
            rw [hmake, if_pos rfl] at henters
            exact ⟨henters, .inl ⟨habsent, rfl⟩⟩
        | false =>
            rw [hmake, if_neg Bool.false_ne_true] at henters
            cases henters
      · rw [hdirectory] at henters hlists
        refine ⟨henters, .inr ⟨entries, hdirectory, ?_⟩⟩
        rcases Bool.and_eq_false_iff.mp hlists with hlist | hzero
        · exact .inr hlist
        · exact .inl (by simpa using hzero)
    · have hout : enters d = false := by
        by_contra hin'
        rw [if_pos (by simpa using hin')] at hin
        cases hin
      rw [enters, Device.made] at hout
      rcases hfound with habsent | ⟨entries, hdirectory⟩
      · rw [habsent] at hout
        cases hmake : d.makeable with
        | true =>
            rw [hmake, if_pos rfl] at hout
            exact .inr hout
        | false => exact .inl ⟨habsent, rfl⟩
      · rw [hdirectory] at hout
        exact .inr hout

section Runs

def siblingsRequest : Request :=
  ⟨"bbm-3-x".toList, ["/home/a/docs/".toList, "home/a/mail".toList], some "/srv/out".toList, false, false,
    "target".toList,
    selectionRoot, false⟩

def restoringJob : JobRow := ⟨3, "job", none, [], "", fun _ => none, 0⟩

theorem exists_siblingsPlan : ∃ plan, restorePlan restoringJob siblingsRequest = .ok plan ∧ plan.dryRun = false ∧
    plan.paths = ["home/a/docs".toList, "home/a/mail".toList] := ⟨_, rfl, rfl, rfl⟩

/-- The target is below a directory in which nothing can be made. -/
theorem extraction_place_login : ∃ plan, restorePlan restoringJob siblingsRequest = .ok plan ∧
    script plan ⟨0, .absent, false, true, true⟩ = .extracts .login ∧
      (Target.absent = .absent ∧ false = false ∨ true = false) := by
  obtain ⟨plan, hplan, hwrites, hpaths⟩ := exists_siblingsPlan
  have hscript : script plan ⟨0, .absent, false, true, true⟩ = .extracts .login := by
    obtain ⟨archive, paths, target, -, -, -, -, rfl⟩ := restorePlan_ok hplan
    rfl
  exact ⟨plan, hplan, hscript, (extraction_place hplan _ hscript hwrites).2.2.2 rfl⟩

end Runs

end BorgManager.RestoreSelection
