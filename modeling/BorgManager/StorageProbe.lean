import Mathlib.Data.Rat.Floor
import BorgManager.Exceptions
import BorgManager.LogFilter

namespace BorgManager.StorageProbe

open Exceptions LogFilter PythonText

/-- An exception, as the handlers of the probe and of the monitor see it. -/
inductive Failure
  | lookup (detail : String)
  | value (detail : String)
  | other (detail : String)
  deriving DecidableEq

def Failure.text : Failure → String
  | .lookup detail => detail
  | .value detail => detail
  | .other detail => detail

/-- Caught by `except (LookupError, ValueError)`. -/
def Failure.expected : Failure → Bool
  | .lookup _ => true
  | .value _ => true
  | .other _ => false

structure Repository where
  storagePath : Option String
  enabled : Bool
  location : String

structure Target where
  host : String
  port : Nat
  username : String
  repositoryPath : String

/-- What changes from probe to probe in the `ssh` call. -/
structure Command where
  port : Nat
  destination : String
  remoteWithPath : String
  allowPathlessFallback : Bool
  sshKey : String
  knownHosts : String
  timeoutSeconds : Nat

structure Usage where
  total : Int
  used : Int
  free : Int
  percent : Rat
  path : String
  mountPoint : String

/-- What the probe takes from the standard library: the decimal value of a
character, the target of a location and shell quoting. -/
structure Runtime where
  digit : Char → Option Nat
  probeTarget : String → Except Failure (Option Target)
  quote : String → String

/-- What one probe meets: rows, secrets, the run of its command, and the
transactions that store its result. -/
structure Surroundings where
  row : Except Failure (Option Repository)
  secret : String → Except Failure (Option String)
  execution : Command → Except Failure (Int × String × String)
  errorId : String
  storedError : Except Failure Unit
  storedRow : Except Failure (Option Repository)
  stored : Except Failure Unit

variable (rt : Runtime) (now : Surroundings)

def noTargetText : String := "Externe Dateisystemprüfung benötigt ein SSH-Repository mit Benutzer und Host"

/-- `external_repository_storage_command`. -/
def storageCommand (repository : Repository) : Except Failure Command :=
  if (truthy repository.storagePath).isSome then
    .error (.value "Filesystem SSH probe is only used for external repositories")
  else do
    match ← rt.probeTarget repository.location with
    | none => throw (.value noTargetText)
    | some target =>
        let sshKey ← now.secret "external_ssh_private_key"
        let knownHosts ← now.secret "external_known_hosts"
        match truthy sshKey, truthy knownHosts with
        | none, _ => throw (.value "External repository has no manager SSH key configured")
        | some _, none => throw (.value "External repository has no manager known_hosts entry configured")
        | some sshKey, some knownHosts =>
            let path := if startsWith target.repositoryPath "-" then "./" ++ target.repositoryPath
              else target.repositoryPath
            let host := if contains ":" target.host && !startsWith target.host "[" then "[" ++ target.host ++
              "]" else target.host
            pure {
              port := target.port
              destination := target.username ++ "@" ++ host
              remoteWithPath := "df -m " ++ rt.quote path
              allowPathlessFallback := !startsWith path "/"
              sshKey := sshKey
              knownHosts := knownHosts
              timeoutSeconds := 20 }

/-- `_external_storage_error_text`. -/
def errorText (output error : String) (code : Int) : String :=
  let given := if error != "" then error else if output != "" then output else "SSH/df exit code " ++ toString code
  let detail := [' '].intercalate (splitWords given.toList)
  let short := if 500 < detail.length then String.ofList (detail.take 497) ++ "…" else String.ofList detail
  if short = "" then "Unbekannter Fehler bei der externen Dateisystemprüfung" else short

/-- The value of a text of digits. -/
def digitsValue (cs : List Char) : Option Nat :=
  if cs = [] then none else (cs.mapM rt.digit).map
      (fun digits => digits.foldl (fun value digit => 10 * value + digit) 0)

/-- `int(text)` of a word: a sign, and single underscores between digits. -/
def parseInt (cs : List Char) : Option Int :=
  let digits (rest : List Char) := ((rest.splitOn '_').mapM (digitsValue rt)).bind (fun _ =>
    digitsValue rt (rest.filter (fun c => c != '_')))
  match cs with
  | '-' :: rest => (digits rest).map (fun value => -(value : Int))
  | '+' :: rest => (digits rest).map (fun value => (value : Int))
  | rest => (digits rest).map (fun value => (value : Int))

/-- `\d+%` -/
def percentValue (word : List Char) : Option Nat :=
  if word.getLast? = some '%' then digitsValue rt word.dropLast else none

def mebibytes (blocks : Int) : Int := blocks * 1024 * 1024

/-- One line of the output of `df -m`. -/
def parseLine (line : List Char) (repositoryPath : String) : Option Usage := do
  let parts := splitWords line
  let index ← parts.findIdx? (fun word => (percentValue rt word).isSome)
  if index < 3 then none
  let total ← parts[index - 3]?.bind (parseInt rt)
  let used ← parts[index - 2]?.bind (parseInt rt)
  let free ← parts[index - 1]?.bind (parseInt rt)
  let percent ← parts[index]?.bind (percentValue rt)
  let mount := String.ofList ([' '].intercalate (parts.drop (index + 1)))
  pure {
    total := mebibytes total
    used := mebibytes used
    free := mebibytes free
    percent := percent
    path := repositoryPath
    mountPoint := if mount = "" then repositoryPath else mount }

/-- `parse_external_repository_storage`: the last line that can be read. -/
def parseStorage (output repositoryPath : String) : Except Failure Usage :=
  match (splitLines output.toList).reverse.findSome? (fun line => parseLine rt line repositoryPath) with
  | some usage => .ok usage
  | none => .error (.value "Dateisystemausgabe des externen Repositorys konnte nicht ausgewertet werden")

/-- The error is stored before it is raised. -/
def failStored (failure : Failure) : Except Failure Usage := do
  now.storedError
  throw failure

/-- `except ValueError as exc: _store_external_storage_error(...); raise` -/
def storingError {α : Type} (x : Except Failure α) (f : α → Except Failure Usage) : Except Failure Usage :=
  match x with
  | .ok a => f a
  | .error (.value detail) => failStored now (.value detail)
  | .error failure => .error failure

/-- `_store_external_storage_usage`. -/
def storeUsage (usage : Usage) : Except Failure Usage := do
  match ← now.storedRow with
  | none => throw (.lookup "Repository not found")
  | some repository =>
      if (truthy repository.storagePath).isSome then
        throw (.value "External storage usage can only be stored for external repositories")
      else do
        now.stored
        pure usage

/-- The text of a probe command that has failed. -/
def executionText (output error : String) (code : Int) : String :=
  let technical := strip (String.intercalate "\n" ([output, error].filter (fun part => part != "")))
  errorText output error code ++
    if detailRequiresDebugLog technical then " Technische Details: Debug-Log, Fehler-ID " ++ now.errorId ++ "." else ""

/-- `refresh_external_repository_storage`. -/
def refreshExternalRepositoryStorage : Except Failure Usage := do
  match ← now.row with
  | none => throw (.lookup "Repository not found")
  | some repository =>
      if (truthy repository.storagePath).isSome then throw (.value "Repository ist nicht extern")
      else if repository.enabled = false then throw (.value "Repository ist deaktiviert")
      else
        match ← rt.probeTarget repository.location with
        | none => failStored now (.value noTargetText)
        | some target =>
            storingError now (storageCommand rt now repository) (fun command => do
              let (code, output, error) ← now.execution command
              if code ≠ 0 then failStored now (.value (executionText now output error code))
              else storingError now (parseStorage rt output target.repositoryPath) (storeUsage now))

/-- A computation that fails only as the monitor expects. -/
def Foreseeable {α : Type} (x : Except Failure α) : Prop := ∀ failure, x = .error failure → failure.expected = true

theorem foreseeable_ok {α : Type} (a : α) : Foreseeable (.ok a) := fun _ h => (nomatch h)

theorem foreseeable_error {α : Type} {failure : Failure} (h : failure.expected = true) :
    Foreseeable (.error failure : Except Failure α) := by
  intro other heq
  cases heq
  exact h

theorem Foreseeable.bind {α β : Type} {x : Except Failure α} {f : α → Except Failure β} (hx : Foreseeable x)
    (hf : ∀ a, x = .ok a → Foreseeable (f a)) : Foreseeable (x >>= f) := by
  cases x with
  | error failure => exact foreseeable_error (hx failure rfl)
  | ok a => exact hf a rfl

/-- Everything that a probe rests on fails only as expected. -/
structure Ordinary (now : Surroundings) : Prop where
  row : Foreseeable now.row
  secret : ∀ name, Foreseeable (now.secret name)
  execution : ∀ command, Foreseeable (now.execution command)
  storedError : Foreseeable now.storedError
  storedRow : Foreseeable now.storedRow
  stored : Foreseeable now.stored

variable {rt now}

theorem storageCommand_foreseeable (hrt : ∀ location, Foreseeable (rt.probeTarget location)) (h : Ordinary now)
    (repository : Repository) : Foreseeable (storageCommand rt now repository) := by
  rw [storageCommand]
  split
  · exact foreseeable_error rfl
  apply (hrt _).bind
  intro target _
  cases target with
  | none => exact foreseeable_error rfl
  | some target =>
      apply (h.secret _).bind
      intro sshKey _
      apply (h.secret _).bind
      intro knownHosts _
      cases truthy sshKey with
      | none => exact foreseeable_error rfl
      | some sshKey =>
          cases truthy knownHosts with
          | none => exact foreseeable_error rfl
          | some knownHosts => exact foreseeable_ok _

theorem failStored_foreseeable (h : Ordinary now) {failure : Failure} (hfailure : failure.expected = true) :
    Foreseeable (failStored now failure) :=
  h.storedError.bind (fun _ _ => foreseeable_error hfailure)

theorem storingError_foreseeable {α : Type} {x : Except Failure α} {f : α → Except Failure Usage} (h : Ordinary now)
    (hx : Foreseeable x) (hf : ∀ a, Foreseeable (f a)) : Foreseeable (storingError now x f) := by
  cases x with
  | ok a => exact hf a
  | error failure =>
      cases failure with
      | value detail => exact failStored_foreseeable h rfl
      | lookup detail => exact foreseeable_error rfl
      | other detail => exact foreseeable_error (hx _ rfl)

theorem storeUsage_foreseeable (h : Ordinary now) (usage : Usage) : Foreseeable (storeUsage now usage) := by
  apply h.storedRow.bind
  intro repository _
  cases repository with
  | none => exact foreseeable_error rfl
  | some repository =>
      dsimp only
      split
      · exact foreseeable_error rfl
      · exact h.stored.bind (fun _ _ => foreseeable_ok _)

theorem parseStorage_foreseeable (output path : String) : Foreseeable (parseStorage rt output path) := by
  rw [parseStorage]
  split
  · exact foreseeable_ok _
  · exact foreseeable_error rfl

/-- A probe raises nothing unexpected of its own. -/
theorem refresh_foreseeable (hrt : ∀ location, Foreseeable (rt.probeTarget location)) (h : Ordinary now) :
    Foreseeable (refreshExternalRepositoryStorage rt now) := by
  apply h.row.bind
  intro repository _
  cases repository with
  | none => exact foreseeable_error rfl
  | some repository =>
      dsimp only
      split
      · exact foreseeable_error rfl
      split
      · exact foreseeable_error rfl
      apply (hrt _).bind
      intro target _
      cases target with
      | none => exact failStored_foreseeable h rfl
      | some target =>
          apply storingError_foreseeable h (storageCommand_foreseeable hrt h repository)
          intro command
          apply (h.execution command).bind
          rintro ⟨code, output, error⟩ _
          dsimp only
          split
          · exact failStored_foreseeable h rfl
          · exact storingError_foreseeable h (parseStorage_foreseeable _ _) (storeUsage_foreseeable h)

end BorgManager.StorageProbe
