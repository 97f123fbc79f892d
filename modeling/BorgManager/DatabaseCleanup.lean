import BorgManager.AgeCutoffs
import BorgManager.CompressionSpec
import BorgManager.JsonIntegers
import BorgManager.PosixPaths
import BorgManager.Tables
import Mathlib.Data.List.Sort

namespace BorgManager.DatabaseCleanup

open CivilTime AgeCutoffs JsonGrammar Tables
open CompressionSpec (DigitTable maxStrDigits)
open PosixPaths (splitroot)

inductive Failure
  | valueError | integrityError
  deriving DecidableEq

/-- A row of `manager_archive_mounts`. -/
structure Mount where
  id : Int
  mountPath : Option String
  updatedAt : Option String
  createdAt : Option String

/-- A row of `host_repository_access`. -/
structure Access where
  id : Int
  hostId : Int
  repositoryId : Int

/-- A row of `host_ssh_actions` in the security database. -/
structure Action where
  id : Int
  hostId : Int

/-- A row of `backup_schedules`. -/
structure Schedule where
  id : Int
  targetMode : String
  targetHostIdsJson : String
  targetJobIdsJson : String
  targetRepositoryId : Option Int
  enabled : Bool
  updatedAt : String
  deriving DecidableEq

/-- The rows that preview and cleanup read, in both databases. -/
@[ext] structure Database where
  runs : Table Run Run.id
  mounts : Table Mount Mount.id
  access : Table Access Access.id
  actions : Table Action Action.id
  deliveries : Table Delivery Delivery.id
  schedules : Table Schedule Schedule.id
  hostIds : List Int
  jobIds : List Int
  repositoryIds : List Int

/-- A clock that shows a time of which 24 hours and 30 days can be taken. -/
structure Clock where
  now : DateTime
  day : DateTime
  month : DateTime
  dayAgo : now.minusDays 1 = some day
  monthAgo : now.minusDays 30 = some month

/-- A path as `PurePosixPath` compares it. -/
def purePath (path : String) : List Char × List (List Char) :=
  let parts := splitroot path.toList
  (parts.1, (parts.2.splitOn '/').filter (fun part => part != [] && part != ['.']))

/-- A row of `/proc/self/mountinfo`. -/
structure MountInfo where
  path : List Char × List (List Char)
  filesystem : List Char

/-- What stays as it is: the clock, the mounts of the system, and what the
runtime reads as digits and as times, these as instants. -/
structure Surroundings where
  clock : Clock
  mountinfo : List MountInfo
  digits : DigitTable
  decimal_lt : ∀ c d, digits.decimal c = some d → d < 10
  readIso : String → Option Int

/-- The numbers of rows by category. -/
structure Counts where
  runs : Nat
  mounts : Nat
  access : Nat
  actions : Nat
  deliveries : Nat
  schedules : Nat
  deriving DecidableEq

def Counts.zero : Counts := ⟨0, 0, 0, 0, 0, 0⟩

section Lists

/-- The integer conversion refuses more digits. -/
def fits (n : Int) : Bool := decide (n.natAbs < Nat.pow 10 maxStrDigits)

mutual

def numbersFit : Value → Bool
  | .int n => fits n
  | .arr items => itemsFit items
  | .obj fields => fieldsFit fields
  | _ => true

def itemsFit : List Value → Bool
  | [] => true
  | v :: vs => numbersFit v && itemsFit vs

def fieldsFit : List (Key × Value) → Bool
  | [] => true
  | (_, v) :: fields => numbersFit v && fieldsFit fields

end

variable (t : DigitTable)

/-- The id of an item, if it has one: of the other kinds of items no text
consists of digits. -/
def itemId : Value → Except Failure (Option Int)
  | .int n => .ok (if 0 < n then some n else none)
  | .str key =>
      let text := String.ofList (key.map Char.ofNat)
      if key.all (fun n => decide n.isValidChar) && CompressionSpec.isDigits t text then
        match CompressionSpec.int t text with
        | .ok n => .ok (if 0 < n then some n else none)
        | .error _ => .error .valueError
      else .ok none
  | _ => .ok none

def sortedIds (ids : List Int) : List Int := ids.dedup.insertionSort (· ≤ ·)

/-- `_safe_json_ids` -/
def safeJsonIds (value : String) : Except Failure (List Int) :=
  match loads (if value = "" then ['[', ']'] else value.toList) with
  | some (.arr items) =>
      if itemsFit items then (items.mapM (itemId t)).map (fun ids => sortedIds ids.reduceOption) else .ok []
  | _ => .ok []

end Lists

section Conditions

variable (env : Surroundings) (db : Database)

/-- `datetime.fromisoformat`, in UTC where no offset is given; it refuses every
text of less than seven characters. -/
def fromisoformat (text : String) : Option Int := if text.length < 7 then none else env.readIso text

/-- `row.get("updated_at") or row.get("created_at")` -/
def Mount.timestamp (row : Mount) : Option String :=
  match row.updatedAt with
  | some text => if text = "" then row.createdAt else some text
  | none => row.createdAt

def archiveMountIsActive (path : String) : Bool :=
  match env.mountinfo.find? (fun row => row.path = purePath path) with
  | some row => "fuse".toList.isPrefixOf row.filesystem
  | none => false

/-- The instant of ten minutes ago. -/
def Clock.staleMountCutoff (clock : Clock) : Int := clock.now.instant - 600000000

/-- A mount that the preview counts. -/
def staleMount (row : Mount) : Bool :=
  let ageOk :=
    match row.timestamp with
    | none => true
    | some text =>
        if text = "" then true
        else
          match fromisoformat env text with
          | some parsed => decide (parsed < env.clock.staleMountCutoff)
          | none => true
  ageOk && !archiveMountIsActive env (row.mountPath.getD "")

/-- `datetime.min` in UTC -/
def minInstant : Int := dayLength

/-- A mount that the cleanup removes. -/
def removableMount (row : Mount) : Bool :=
  let dt := (fromisoformat env (row.timestamp.getD "None")).getD minInstant
  decide (dt < env.clock.staleMountCutoff) && !archiveMountIsActive env (row.mountPath.getD "")

/-- `h.id IS NULL OR r.id IS NULL` after the left joins with the hosts and the repositories. -/
def orphanAccess (row : Access) : Bool :=
  decide (row.hostId ∉ db.hostIds) || decide (row.repositoryId ∉ db.repositoryIds)

def orphanAction (row : Action) : Bool := decide (row.hostId ∉ db.hostIds)

/-- `host_ssh_action_host_ids` -/
def hostSshActionHostIds : List Int := (db.actions.rows.map Action.hostId).dedup.insertionSort (· ≤ ·)

/-- A schedule that the preview counts. -/
def invalidTargets (row : Schedule) : Except Failure Bool :=
  if row.targetMode = "hosts" then
    (safeJsonIds env.digits row.targetHostIdsJson).map (fun ids => ids.any (fun id => decide (id ∉ db.hostIds)))
  else if row.targetMode = "jobs" then
    (safeJsonIds env.digits row.targetJobIdsJson).map (fun ids => ids.any (fun id => decide (id ∉ db.jobIds)))
  else if row.targetMode = "repository" then
    match row.targetRepositoryId with
    | some id => .ok (decide (id ∉ db.repositoryIds))
    | none => .ok false
  else .ok false

end Conditions

section Cleanup

variable (env : Surroundings) (db : Database)

/-- `database_cleanup_preview` -/
def databaseCleanupPreview : Except Failure Counts := do
  let invalid ← db.schedules.rows.mapM (invalidTargets env db)
  return {
    runs := db.runs.count (staleRun env.clock.day.isoformat)
    mounts := db.mounts.count (staleMount env)
    access := db.access.count (orphanAccess db)
    actions := (hostSshActionHostIds db).countP (fun id => decide (id ∉ db.hostIds))
    deliveries := db.deliveries.count (orphanDelivery db.runs.rows env.clock.month.isoformat)
    schedules := invalid.countP id }

/-- The `UPDATE` of a schedule. The column of the repository is among those that
are set, so its value is checked even if it stays the same. -/
def writeSchedule (row : Schedule) (hosts jobs : List Int) (repositoryId : Option Int) (enabled : Bool) :
    Except Failure (Option Schedule) :=
  if repositoryId.all (fun id => decide (id ∈ db.repositoryIds)) then
    .ok (some { row with
      targetHostIdsJson := String.ofList (JsonIntegers.dumps hosts)
      targetJobIdsJson := String.ofList (JsonIntegers.dumps jobs)
      targetRepositoryId := repositoryId
      enabled := enabled
      updatedAt := env.clock.now.isoformat })
  else .error .integrityError

/-- What is written for a schedule, if anything is. -/
def repairSchedule (row : Schedule) : Except Failure (Option Schedule) := do
  let hostIds ← safeJsonIds env.digits row.targetHostIdsJson
  let jobIds ← safeJsonIds env.digits row.targetJobIdsJson
  let hostTargets := hostIds.filter (fun id => decide (id ∈ db.hostIds))
  let jobTargets := jobIds.filter (fun id => decide (id ∈ db.jobIds))
  if row.targetMode = "hosts" ∧ hostTargets ≠ hostIds then
    writeSchedule env db row hostTargets jobTargets row.targetRepositoryId (row.enabled && hostTargets != [])
  else if row.targetMode = "jobs" ∧ jobTargets ≠ jobIds then
    writeSchedule env db row hostTargets jobTargets row.targetRepositoryId (row.enabled && jobTargets != [])
  else if row.targetMode = "repository" ∧ ¬ row.targetRepositoryId.any (fun id => decide (id ∈ db.repositoryIds)) then
    writeSchedule env db row hostTargets jobTargets none false
  else return none

/-- The `UPDATE` of the runs. -/
def closeRuns (clock : Clock) (runs : Table Run Run.id) : Table Run Run.id × Nat :=
  runs.update (staleRun clock.day.isoformat) (closeRun clock.now) (fun _ => rfl)

/-- `cleanup_manager_database`. A failure takes back what was written before it. -/
def cleanupManagerDatabase : Except Failure (Database × Counts) := do
  let _before ← databaseCleanupPreview env db
  let runs := closeRuns env.clock db.runs
  let mounts := db.mounts.delete (db.mounts.select (removableMount env))
  let access := db.access.delete (db.access.select (orphanAccess db))
  let deliveries := db.deliveries.delete (db.deliveries.select (orphanDelivery runs.1.rows env.clock.month.isoformat))
  let repairs ← db.schedules.rows.mapM (repairSchedule env db)
  let actions := db.actions.delete (db.actions.select (orphanAction db))
  return ({ db with
    runs := runs.1
    mounts := mounts.1
    access := access.1
    actions := actions.1
    deliveries := deliveries.1
    schedules := repairs.reduceOption.foldl Table.put db.schedules },
    ⟨runs.2, mounts.2, access.2, actions.2, deliveries.2, repairs.reduceOption.length⟩)

end Cleanup

end BorgManager.DatabaseCleanup
