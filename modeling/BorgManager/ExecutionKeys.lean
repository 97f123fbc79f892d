import BorgManager.PythonText
import BorgManager.Records

namespace BorgManager.ExecutionKeys

open PythonText Records

/-- The parts of an absolute path below the root. -/
abbrev Path := List String

def pathText (p : Path) : String := "/" ++ String.intercalate "/" p

structure UrlParts where
  scheme : String
  hostname : Option String
  username : Option String
  port : Option Nat

/-- What the planner reads from the operating system and from the Unicode and
URL tables of the runtime. `resolve` is `Path(p).resolve(strict=False)` and is
`none` where the call raises. -/
structure Platform where
  resolve : String → Option Path
  purePath : String → Path
  mounts : List Path
  casefold : String → String
  urlsplit : String → UrlParts
  unquote : String → String

inductive ExecutionKey
  | managed (target : String)
  | external (location : String)
  | repositoryId (id : Option Nat)
  deriving DecidableEq

/-- A key that starts with `external:` names a remote filesystem; every other
key is the text of a local mount point. -/
inductive MountKey
  | filesystem (path : String)
  | external (label : String)
  deriving DecidableEq

inductive ScheduleKey
  | scheduleId (id : Nat)
  | scheduleName (name : String)
  deriving DecidableEq

variable (p : Platform)

/-- The physical Borg repository target. Records that share a resolved storage
path, or a location, share the key. -/
def repositoryExecutionKey (repository : Option Repository) (repositoryId : Option Nat) : ExecutionKey :=
  match repository with
  | none => .repositoryId repositoryId
  | some r =>
      match truthy r.storagePath with
      | some path =>
          match p.resolve path with
          | some target => .managed (pathText target)
          | none => .managed (strip path)
      | none =>
          let location := rstripChar '/' (strip r.location)
          if location = "" then .repositoryId (some r.id) else .external location

/-- The first candidate with the largest number of parts, as `max` returns it. -/
def deepest : List Path → Option Path :=
  List.foldl (fun best mount =>
    match best with
    | none => some mount
    | some b => if b.length < mount.length then some mount else some b) none

def matchingMount (path : Path) (mounts : List Path) : Option Path :=
  deepest (mounts.filter (fun mount => mount.isPrefixOf path))

def repositoryMountPath (storagePath : String) (mounts : List Path) : Option Path :=
  let resolved := match p.resolve storagePath with
    | some path => path
    | none => p.purePath storagePath
  matchingMount resolved mounts

structure ProbeTarget where
  host : String
  port : Nat
  username : String

def scpHost : List Char → Option (List Char × List Char)
  | '[' :: rest =>
      match rest.span (· != ']') with
      | (inner, ']' :: ':' :: path) => if inner = [] then none else some (inner, path)
      | _ => none
  | _ => none

def scpPlainHost (cs : List Char) : Option (List Char × List Char) :=
  match cs.span (fun c => c != '/' && c != ':') with
  | (host, ':' :: path) => if host = [] then none else some (host, path)
  | _ => none

/-- `.+$`: one line, possibly with a final line break. -/
def scpPath (cs : List Char) : Bool :=
  match cs.span (· != '\n') with
  | (line, []) => line != []
  | (line, ['\n']) => line != []
  | _ => false

/-- `user@host:path` without a scheme. The bracketed form of the host is tried
before the plain one. -/
def scpTarget (location : String) : Option ProbeTarget :=
  match location.toList.span (fun c => c != '/' && c != '@' && c != ':') with
  | (user, '@' :: rest) =>
      let found := match scpHost rest with
        | some (host, path) => if scpPath path then some (host, path) else scpPlainHost rest
        | none => scpPlainHost rest
      match found with
      | some (host, path) =>
          if user != [] && scpPath path then
            some ⟨String.ofList (stripWhile (fun c => c == '[' || c == ']') host), 22, String.ofList user⟩
          else none
      | none => none
  | _ => none

def storageProbeTargetFromLocation (location : String) : Option ProbeTarget :=
  let parsed := p.urlsplit location
  match parsed.scheme == "ssh", truthy parsed.hostname, truthy parsed.username with
  | true, some host, some user =>
      let port := match parsed.port with
        | none | some 0 => 22
        | some n => n
      some ⟨host, port, p.unquote user⟩
  | _, _, _ => scpTarget location

/-- The settings key of one remote filesystem: the SSH identity and the mount
point that the last successful probe reported. -/
def externalFilesystemParallelIdentity (location : String) (mountPoint : Option String) : Option String :=
  match storageProbeTargetFromLocation p location with
  | none => none
  | some target =>
      let mount := strip (mountPoint.getD "")
      if mount = "" ∨ mount.toList.any (fun c => c == '\x00' || c == '\r' || c == '\n') then none
      else
        let host := p.casefold target.host
        let display := if host.toList.contains ':' && host.toList.head? != some '[' then s!"[{host}]" else host
        some s!"{target.username}@{display}:{target.port} · {mount}"

def repositoryMountKey : Option Repository → Option MountKey
  | none => none
  | some r =>
      match truthy r.storagePath with
      | some path => (repositoryMountPath p path p.mounts).map (fun m => .filesystem (pathText m))
      | none => (externalFilesystemParallelIdentity p r.location r.externalStoragePath).map .external

def runScheduleKey (run : Run) : Option ScheduleKey :=
  match run.triggerType with
  | .manual => none
  | .schedule =>
      match run.scheduleIdSnapshot with
      | some (n + 1) => some (.scheduleId (n + 1))
      | some 0 | none =>
          let name := p.casefold (strip (run.scheduleNameSnapshot.getD ""))
          if name = "" then none else some (.scheduleName name)

/-- The queue limits of the settings file, with the ranges that its schema
checks before a value is stored. Zero means unlimited. -/
structure Settings where
  maxParallelRuns : Nat
  sourceStatsParallelLimit : Nat
  mountParallelLimits : String → Nat
  externalStorageParallelLimits : String → Nat
  compactAfterPrune : Bool
  sourceStats_pos : 0 < sourceStatsParallelLimit
  sourceStats_le : sourceStatsParallelLimit ≤ 64
  mount_le : ∀ path, mountParallelLimits path ≤ 64
  external_le : ∀ label, externalStorageParallelLimits label ≤ 64

def Settings.configuredLimit (settings : Settings) : MountKey → Nat
  | .filesystem path => settings.mountParallelLimits path
  | .external label => settings.externalStorageParallelLimits label

def mountParallelLimit (settings : Settings) (key : MountKey) : Nat :=
  max 0 (min 64 (settings.configuredLimit key))

def sourceStatsLimit (settings : Settings) : Nat :=
  let configured := settings.sourceStatsParallelLimit
  max 1 (min 64 (if configured = 0 then 1 else configured))

/-- The clamps of the two limit readers never change a stored value. -/
theorem mountParallelLimit_eq (settings : Settings) (key : MountKey) :
    mountParallelLimit settings key = settings.configuredLimit key := by
  have h : settings.configuredLimit key ≤ 64 := by
    cases key with
    | filesystem path => exact settings.mount_le path
    | external label => exact settings.external_le label
  simp only [mountParallelLimit]
  omega

theorem sourceStatsLimit_eq (settings : Settings) :
    sourceStatsLimit settings = settings.sourceStatsParallelLimit := by
  have hp := settings.sourceStats_pos
  have hl := settings.sourceStats_le
  simp only [sourceStatsLimit, if_neg (Nat.ne_of_gt hp)]
  omega

/-- Records whose storage paths resolve to one directory are one physical
repository. -/
theorem repositoryExecutionKey_of_resolve {a b : Repository} {pa pb : String} {target : Path}
    (ha : truthy a.storagePath = some pa) (hb : truthy b.storagePath = some pb)
    (hra : p.resolve pa = some target) (hrb : p.resolve pb = some target) :
    repositoryExecutionKey p (some a) (some a.id) = repositoryExecutionKey p (some b) (some b.id) := by
  simp only [repositoryExecutionKey, ha, hb, hra, hrb]

end BorgManager.ExecutionKeys
