import Mathlib.Data.List.Basic

namespace BorgManager.Records

inductive Status
  | queued | running | success | warning | failed | cancelled
  deriving DecidableEq

/-- The statuses that `_wait_for_run` and the chain tasks wait for. -/
def Status.terminal : Status → Bool
  | .queued | .running => false
  | .success | .warning | .failed | .cancelled => true

/-- The statuses whose rows the planner reads. -/
def Status.active : Status → Bool
  | .queued | .running => true
  | .success | .warning | .failed | .cancelled => false

@[simp] theorem Status.terminal_eq_not_active (s : Status) : s.terminal = !s.active := by
  cases s <;> rfl

inductive Action
  | backup | sourceStats | prune | compact | list | listAll | info | check | verify | version
  | probe | confirmLocation | restore | deleteArchive | renameArchive | diffArchives
  | archiveRefresh | repositoryInit | repositoryTest | repositoryReset | repositoryCacheClear
  | sshCommand | schedule
  deriving DecidableEq

inductive TriggerType
  | manual | schedule
  deriving DecidableEq

structure Repository where
  id : Nat
  name : String
  enabled : Bool
  location : String
  storagePath : Option String
  initialized : Bool
  externalStoragePath : Option String
  deriving DecidableEq

structure Run where
  id : Nat
  repositoryId : Option Nat
  action : Action
  status : Status
  triggerType : TriggerType
  scheduleIdSnapshot : Option Nat
  scheduleNameSnapshot : Option String
  scheduleParallelLimitSnapshot : Nat
  deriving DecidableEq

/-- A value of the retention object of a job. `True` is an integer for Python
but no retention value. -/
inductive RetentionValue
  | int (n : Int)
  | bool (b : Bool)
  | other

def RetentionValue.positive : RetentionValue → Bool
  | .int n => decide (0 < n)
  | .bool _ | .other => false

inductive MountStatus
  | mounting | mounted | unmounting | stale | error
  deriving DecidableEq

structure ManagerArchiveMount where
  id : Nat
  repositoryId : Nat
  archive : String
  mountPath : String
  status : MountStatus
  updatedAt : Nat
  deriving DecidableEq

def setStatus (run : Run) (status : Status) : Run := { run with status := status }

@[simp] theorem setStatus_id (run : Run) (st : Status) : (setStatus run st).id = run.id := rfl

@[simp] theorem setStatus_status (run : Run) (st : Status) : (setStatus run st).status = st := rfl

/-- SQLite's choice for an integer primary key without `AUTOINCREMENT`. -/
def nextId (ids : List Nat) : Nat := ids.max?.getD 0 + 1

theorem lt_nextId {ids : List Nat} {id : Nat} (h : id ∈ ids) : id < nextId ids := by
  rw [nextId]
  cases hmax : ids.max? with
  | none =>
      rw [List.max?_eq_none_iff.mp hmax] at h
      nomatch h
  | some top => exact Nat.lt_succ_of_le ((List.max?_eq_some_iff.mp hmax).2 _ h)

end BorgManager.Records
