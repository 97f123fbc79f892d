import BorgManager.QueueCapacity

namespace BorgManager.ArchiveMounts

open PythonText Records ExecutionKeys RunQueue ExecutionPlan QueueSystem QueueCapacity Histories

variable (t : Topology) (pathOf : Nat → String → String)

/-- How far `create_manager_archive_mount` has come after it has inserted its
row: it waits for its locks, its command runs, it waits for the filesystem to
appear, or it unmounts again after an error. -/
inductive Progress
  | waiting
  | running
  | activating (deadline : Nat)
  | unmounting

structure CreateRequest where
  rowId : Nat
  repositoryId : Nat
  mountPath : String
  progress : Progress

structure UnmountRequest where
  rowId : Nat
  mountPath : String

/-- A list poll, in a thread of its own: the rows that it has read and not yet
looked at, its time, and the statuses that it is going to write. -/
structure MountPoll where
  unchecked : List ManagerArchiveMount
  now : Option Nat
  updates : List (Nat × MountStatus)

/-- The queue with its archive mount rows, the requests in flight, and the
mount commands. `commands` are started and may still bring their filesystem
up, `created` have done so. -/
structure MountManager where
  queue : Queue
  now : Nat
  creates : Nat → Option CreateRequest
  unmounts : Nat → Option UnmountRequest
  polls : Nat → Option MountPoll
  commands : List (Nat × String)
  created : List (Nat × String)

/-- What a mount request asks for, and the answers of the host to its checks. -/
structure CreateInput where
  repositoryId : Nat
  archive : String
  capable : Bool
  present : Bool
  prepared : Bool

inductive MountEvent
  | queue (event : QueueEvent)
  | wait (seconds : Nat)
  | create (request : Nat) (input : CreateInput)
  | launch (request : Nat)
  | fuseUp (repositoryId : Nat) (path : String)
  | fuseDown (path : String)
  | returned (request : Nat)
  | finish (request : Nat)
  | cancelled (request : Nat)
  | timeout (request : Nat)
  | fail (request : Nat)
  | rollback (request : Nat)
  | abort (request : Nat)
  | pollRead (request : Nat)
  | pollClock (request : Nat)
  | pollCheck (request : Nat)
  | pollCommit (request : Nat)
  | unmount (request rowId : Nat)
  | unmounted (request : Nat)
  | unmountFailed (request : Nat)

def rows (s : MountManager) : List ManagerArchiveMount := s.queue.archiveMounts

def isActiveMount (s : MountManager) (path : String) : Bool := archiveMountIsActive s.queue path

def withRows (s : MountManager) (rows : List ManagerArchiveMount) : MountManager :=
  { s with queue := { s.queue with archiveMounts := rows } }

def setCreate (s : MountManager) (request : Nat) (c : Option CreateRequest) : MountManager :=
  { s with creates := Function.update s.creates request c }

def setUnmount (s : MountManager) (request : Nat) (u : Option UnmountRequest) : MountManager :=
  { s with unmounts := Function.update s.unmounts request u }

def setPoll (s : MountManager) (request : Nat) (p : Option MountPoll) : MountManager :=
  { s with polls := Function.update s.polls request p }

def findRow (s : MountManager) (id : Nat) : Option ManagerArchiveMount := (rows s).find? (fun m => m.id == id)

def deleteRow (s : MountManager) (id : Nat) : MountManager := withRows s ((rows s).filter (fun m => m.id != id))

def setRowStatus (s : MountManager) (id : Nat) (status : MountStatus) : MountManager :=
  withRows s ((rows s).map (fun m => if m.id = id then { m with status := status, updatedAt := s.now } else m))

def nextRowId (s : MountManager) : Nat := ((rows s).map ManagerArchiveMount.id).max?.getD 0 + 1

/-- The row of a new request. A second row for the same path violates a
constraint, and the request is refused. -/
def insertRow (s : MountManager) (request : Nat) (input : CreateInput) : MountManager :=
  let path := pathOf input.repositoryId input.archive
  if input.prepared = true ∧ (rows s).any (fun m => m.mountPath == path) = false then
    setCreate (withRows s (rows s ++ [⟨nextRowId s, input.repositoryId, input.archive, path, .mounting, s.now⟩]))
      request (some ⟨nextRowId s, input.repositoryId, path, .waiting⟩)
  else s

def hasActiveRun (s : MountManager) (repositoryId : Nat) : Bool :=
  s.queue.runs.rows.any (fun r => r.repositoryId == some repositoryId && r.status.active)

def mountable (repository : Option Repository) (input : CreateInput) : Bool :=
  match repository with
  | none => false
  | some r => input.capable && r.enabled && r.initialized && (truthy r.storagePath).isSome && input.present

/-- The part of the request up to its row. An old row of the repository goes
if its filesystem is not active. -/
def create (s : MountManager) (request : Nat) (input : CreateInput) : Option MountManager :=
  if (s.creates request).isNone = true ∧ hasActiveRun s input.repositoryId = false ∧
      mountable (t.repositories.find? (fun r => r.id == input.repositoryId)) input = true then
    match (rows s).find? (fun m => m.repositoryId == input.repositoryId) with
    | none => some (insertRow pathOf s request input)
    | some existing =>
        if isActiveMount s existing.mountPath then none
        else some (insertRow pathOf (deleteRow s existing.id) request input)
  else none

def launch (s : MountManager) (request : Nat) : Option MountManager :=
  match s.creates request with
  | some ⟨rowId, repositoryId, path, .waiting⟩ =>
      some { setCreate s request (some ⟨rowId, repositoryId, path, .running⟩) with
        commands := (repositoryId, path) :: s.commands }
  | _ => none

/-- A started mount command brings its filesystem up, at any later time. -/
def fuseUp (s : MountManager) (repositoryId : Nat) (path : String) : Option MountManager :=
  if (repositoryId, path) ∈ s.commands then
    some { s with
      queue := { s.queue with fuseMounts := path :: s.queue.fuseMounts }
      commands := s.commands.erase (repositoryId, path)
      created := (repositoryId, path) :: s.created }
  else none

def fuseDown (s : MountManager) (path : String) : MountManager :=
  { s with
    queue := { s.queue with fuseMounts := s.queue.fuseMounts.filter (fun p => p != path) }
    created := s.created.filter (fun entry => entry.2 != path) }

/-- `borg mount` has ended with success; the request gives the filesystem 15
seconds to appear. -/
def returned (s : MountManager) (request : Nat) : Option MountManager :=
  match s.creates request with
  | some ⟨rowId, repositoryId, path, .running⟩ =>
      some (setCreate s request (some ⟨rowId, repositoryId, path, .activating (s.now + 15)⟩))
  | _ => none

/-- The row is gone, or someone else is removing it. -/
def withdrawn (s : MountManager) (rowId : Nat) : Bool :=
  match findRow s rowId with
  | none => true
  | some m => m.status == .unmounting || m.status == .stale

def finish (s : MountManager) (request : Nat) : Option MountManager :=
  match s.creates request with
  | some ⟨rowId, _, path, .activating _⟩ =>
      if withdrawn s rowId = false ∧ isActiveMount s path = true then
        some (setCreate (setRowStatus s rowId .mounted) request none)
      else none
  | _ => none

def cancelled (s : MountManager) (request : Nat) : Option MountManager :=
  match s.creates request with
  | some ⟨rowId, _, _, .activating _⟩ => if withdrawn s rowId then some (setCreate s request none) else none
  | _ => none

/-- The error path: an active filesystem is unmounted first, and the row goes
in any case. -/
def failCreate (s : MountManager) (request : Nat) (c : CreateRequest) : MountManager :=
  if isActiveMount s c.mountPath then setCreate s request (some { c with progress := .unmounting })
  else setCreate (deleteRow s c.rowId) request none

def timeout (s : MountManager) (request : Nat) : Option MountManager :=
  match s.creates request with
  | some ⟨rowId, repositoryId, path, .activating deadline⟩ =>
      if deadline ≤ s.now ∧ withdrawn s rowId = false ∧ isActiveMount s path = false then
        some (failCreate s request ⟨rowId, repositoryId, path, .activating deadline⟩)
      else none
  | _ => none

def fail (s : MountManager) (request : Nat) : Option MountManager :=
  match s.creates request with
  | some ⟨_, _, _, .unmounting⟩ | none => none
  | some c => some (failCreate s request c)

/-- The end of the error path, after an unmount command that may have failed. -/
def rollback (s : MountManager) (request : Nat) : Option MountManager :=
  match s.creates request with
  | some ⟨rowId, _, _, .unmounting⟩ => some (setCreate (deleteRow s rowId) request none)
  | _ => none

/-- The task of the request is cancelled: no handler runs, and the row stays. -/
def abort (s : MountManager) (request : Nat) : Option MountManager :=
  match s.creates request with
  | some _ => some (setCreate s request none)
  | none => none

def transitionRecent (now : Nat) (m : ManagerArchiveMount) : Bool :=
  (m.status == .mounting || m.status == .unmounting) && decide (now < m.updatedAt + 30)

def pollStatus (active : Bool) (now : Nat) (m : ManagerArchiveMount) : MountStatus :=
  if active = true ∧ m.status = .stale then .mounted
  else if active = true ∧ m.status = .mounting ∧ transitionRecent now m = false then .mounted
  else if active = false ∧
      (m.status = .mounting ∨ m.status = .mounted ∨ m.status = .unmounting) ∧ transitionRecent now m = false then .stale
  else m.status

def pollRead (s : MountManager) (request : Nat) : Option MountManager :=
  match s.polls request with
  | none => some (setPoll s request (some ⟨(rows s).insertionSort (fun a b => b.id ≤ a.id), none, []⟩))
  | some _ => none

def pollClock (s : MountManager) (request : Nat) : Option MountManager :=
  match s.polls request with
  | some ⟨unchecked, none, updates⟩ => some (setPoll s request (some ⟨unchecked, some s.now, updates⟩))
  | _ => none

/-- One round of the poll: the row as it was read, against the filesystem as
it is. -/
def pollCheck (s : MountManager) (request : Nat) : Option MountManager :=
  match s.polls request with
  | some ⟨m :: unchecked, some now, updates⟩ =>
      let status := pollStatus (isActiveMount s m.mountPath) now m
      let changed := if status = m.status then [] else [(m.id, status)]
      some (setPoll s request (some ⟨unchecked, some now, updates ++ changed⟩))
  | _ => none

/-- `UPDATE … WHERE id = …`, for the rows that the poll has changed. -/
def updateRow (now : Nat) (updates : List (Nat × MountStatus)) (m : ManagerArchiveMount) : ManagerArchiveMount :=
  match updates.lookup m.id with
  | some status => { m with status := status, updatedAt := now }
  | none => m

/-- A row that is gone by now fails the commit as a whole. A row with the id of
one that is gone is written instead of it. -/
def pollCommit (s : MountManager) (request : Nat) : Option MountManager :=
  match s.polls request with
  | some ⟨[], some _, updates⟩ =>
      if updates.all (fun u => (findRow s u.1).isSome) then
        some (setPoll (withRows s ((rows s).map (updateRow s.now updates))) request none)
      else some (setPoll s request none)
  | _ => none

def unmount (s : MountManager) (request rowId : Nat) : Option MountManager :=
  match findRow s rowId with
  | none => none
  | some m =>
      if (s.unmounts request).isNone = true ∧ m.status ≠ .unmounting then
        if isActiveMount s m.mountPath then
          some (setUnmount (setRowStatus s rowId .unmounting) request (some ⟨rowId, m.mountPath⟩))
        else some (deleteRow s rowId)
      else none

def unmounted (s : MountManager) (request : Nat) : Option MountManager :=
  match s.unmounts request with
  | some ⟨rowId, path⟩ =>
      if isActiveMount s path then none else some (setUnmount (deleteRow s rowId) request none)
  | none => none

def unmountFailed (s : MountManager) (request : Nat) : Option MountManager :=
  match s.unmounts request with
  | some ⟨rowId, _⟩ => some (setUnmount (setRowStatus s rowId .error) request none)
  | none => none

/-- The mounts of the planner's queue are only changed by the requests here. -/
def keepsMounts : QueueEvent → Bool
  | .remount .. => false
  | _ => true

def mountNext (s : MountManager) : MountEvent → Option MountManager
  | .queue event =>
      if keepsMounts event then (next t s.queue event).map (fun q => { s with queue := q }) else none
  | .wait seconds => some { s with now := s.now + seconds }
  | .create request input => create t pathOf s request input
  | .launch request => launch s request
  | .fuseUp repositoryId path => fuseUp s repositoryId path
  | .fuseDown path => some (fuseDown s path)
  | .returned request => returned s request
  | .finish request => finish s request
  | .cancelled request => cancelled s request
  | .timeout request => timeout s request
  | .fail request => fail s request
  | .rollback request => rollback s request
  | .abort request => abort s request
  | .pollRead request => pollRead s request
  | .pollClock request => pollClock s request
  | .pollCheck request => pollCheck s request
  | .pollCommit request => pollCommit s request
  | .unmount request rowId => unmount s request rowId
  | .unmounted request => unmounted s request
  | .unmountFailed request => unmountFailed s request

abbrev mountStep : Transition MountManager MountEvent := graph (mountNext t pathOf)

/-- No mount request for the repository is in flight, and no filesystem that
such a request has mounted is active. -/
structure Unmounted (s : MountManager) (repositoryId : Nat) : Prop where
  inFlight : ∀ request c, s.creates request = some c → c.repositoryId ≠ repositoryId
  created : ∀ path, (repositoryId, path) ∈ s.created → isActiveMount s path = false

/-- The planner sees each use of the repository by a mount: while there is
one, some row of the repository is starting or active. -/
structure Announced (s : MountManager) (repositoryId : Nat) : Prop where
  inFlight : ∀ request c, s.creates request = some c → c.repositoryId = repositoryId →
    ∃ m ∈ rows s, m.repositoryId = repositoryId ∧ holdsRepository s.queue m = true
  created : ∀ path, (repositoryId, path) ∈ s.created → isActiveMount s path = true →
    ∃ m ∈ rows s, m.repositoryId = repositoryId ∧ holdsRepository s.queue m = true

def ownsRow (s : MountManager) (rowId : Nat) : Prop := ∃ request c, s.creates request = some c ∧ c.rowId = rowId

/-- The step leaves the row of each request in flight to the request, and
keeps the row of each active filesystem. -/
def RowsKept (s : MountManager) : MountEvent → Prop
  | .create _ input => ∀ request c, s.creates request = some c → c.repositoryId ≠ input.repositoryId
  | .fuseUp repositoryId path => ∃ m ∈ rows s, m.repositoryId = repositoryId ∧ m.mountPath = path
  | .fuseDown path => ∀ m ∈ rows s, ownsRow s m.id → m.mountPath = path → m.status = .mounting
  | .rollback request => ∀ c, s.creates request = some c → isActiveMount s c.mountPath = false
  | .pollCommit request => ∀ p, s.polls request = some p → ∀ m ∈ rows s, ownsRow s m.id →
      m.id ∈ p.updates.map Prod.fst → isActiveMount s m.mountPath = true
  | .unmount _ rowId => ¬ ownsRow s rowId
  | .unmounted request => ∀ u, s.unmounts request = some u →
      ¬ ownsRow s u.rowId ∧ ∀ m ∈ rows s, m.id = u.rowId → isActiveMount s m.mountPath = false
  | .unmountFailed request => ∀ u, s.unmounts request = some u → ¬ ownsRow s u.rowId
  | _ => True

/-- The manager has started: no mount request is in flight. -/
structure Started (s : MountManager) : Prop where
  queue : QueueSystem.Started s.queue
  creates : ∀ request, s.creates request = none
  created : s.created = []
  ids : ((rows s).map ManagerArchiveMount.id).Nodup

def SameMount (m m' : ManagerArchiveMount) : Prop :=
  m'.id = m.id ∧ m'.repositoryId = m.repositoryId ∧ m'.mountPath = m.mountPath

/-- Each request in flight has its row, which is starting or active, and each
filesystem that a request has mounted has a row. -/
structure Guarded (s : MountManager) : Prop where
  ids : ((rows s).map ManagerArchiveMount.id).Nodup
  inFlight : ∀ request c, s.creates request = some c → ∃ m ∈ rows s,
    m.id = c.rowId ∧ m.repositoryId = c.repositoryId ∧ m.mountPath = c.mountPath ∧
      holdsRepository s.queue m = true
  single : ∀ request request' c c', s.creates request = some c → s.creates request' = some c' →
    c.repositoryId = c'.repositoryId → request = request'
  active : ∀ repositoryId path, (repositoryId, path) ∈ s.created → isActiveMount s path = true
  created : ∀ repositoryId path, (repositoryId, path) ∈ s.created →
    ∃ m ∈ rows s, m.repositoryId = repositoryId ∧ m.mountPath = path

variable {t pathOf} {s s' : MountManager}

theorem Started.guarded (h : Started s) : Guarded s where
  ids := h.ids
  inFlight := by
    intro request c hc
    rw [h.creates request] at hc
    cases hc
  single := by
    intro request _ c _ hc
    rw [h.creates request] at hc
    cases hc
  active := by
    intro _ _ hm
    rw [h.created] at hm
    cases hm
  created := by
    intro _ _ hm
    rw [h.created] at hm
    cases hm

theorem Guarded.announced (h : Guarded s) (repositoryId : Nat) : Announced s repositoryId where
  inFlight := by
    rintro request c hc rfl
    obtain ⟨m, hm, _, hrepo, _, hholds⟩ := h.inFlight request c hc
    exact ⟨m, hm, hrepo, hholds⟩
  created := by
    intro path hpath hactive
    obtain ⟨m, hm, hrepo, hp⟩ := h.created repositoryId path hpath
    refine ⟨m, hm, hrepo, ?_⟩
    rw [holdsRepository, hp, Bool.or_eq_true]
    exact .inr hactive

theorem row_unique (h : Guarded s) {m m' : ManagerArchiveMount} (hm : m ∈ rows s) (hm' : m' ∈ rows s)
    (hid : m.id = m'.id) : m = m' :=
  List.inj_on_of_nodup_map h.ids hm hm' hid

/-- The rows may be rewritten as long as the rows in flight and the rows of
active filesystems are kept. -/
theorem Guarded.withRows (h : Guarded s) {rs : List ManagerArchiveMount}
    (hids : (rs.map ManagerArchiveMount.id).Nodup)
    (howned : ∀ m ∈ rows s, ownsRow s m.id → holdsRepository s.queue m = true →
      ∃ m' ∈ rs, SameMount m m' ∧ holdsRepository s.queue m' = true)
    (hactive : ∀ m ∈ rows s, isActiveMount s m.mountPath = true → ∃ m' ∈ rs, SameMount m m') :
    Guarded (withRows s rs) where
  ids := hids
  inFlight := by
    intro request c hc
    obtain ⟨m, hm, hid, hrepo, hpath, hholds⟩ := h.inFlight request c hc
    obtain ⟨m', hm', ⟨hid', hrepo', hpath'⟩, hholds'⟩ := howned m hm ⟨request, c, hc, hid.symm⟩ hholds
    exact ⟨m', hm', hid'.trans hid, hrepo'.trans hrepo, hpath'.trans hpath, hholds'⟩
  single := h.single
  active := h.active
  created := by
    intro repositoryId path hmem
    obtain ⟨m, hm, hrepo, rfl⟩ := h.created repositoryId path hmem
    obtain ⟨m', hm', _, hrepo', hpath'⟩ := hactive m hm (h.active _ _ hmem)
    exact ⟨m', hm', hrepo'.trans hrepo, hpath'⟩

theorem Guarded.mapRows (h : Guarded s) {f : ManagerArchiveMount → ManagerArchiveMount}
    (hsame : ∀ m, SameMount m (f m))
    (howned : ∀ m ∈ rows s, ownsRow s m.id → holdsRepository s.queue m = true →
      holdsRepository s.queue (f m) = true) :
    Guarded (ArchiveMounts.withRows s ((rows s).map f)) := by
  refine h.withRows ?_ ?_ ?_
  · have hf : ManagerArchiveMount.id ∘ f = ManagerArchiveMount.id := funext (fun m => (hsame m).1)
    rw [List.map_map, hf]
    exact h.ids
  · intro m hm hown hholds
    exact ⟨f m, List.mem_map_of_mem hm, hsame m, howned m hm hown hholds⟩
  · intro m hm _
    exact ⟨f m, List.mem_map_of_mem hm, hsame m⟩

theorem Guarded.deleteRow (h : Guarded s) {id : Nat} (hown : ¬ ownsRow s id)
    (hinactive : ∀ m ∈ rows s, m.id = id → isActiveMount s m.mountPath = false) : Guarded (deleteRow s id) := by
  have hkeep (m : ManagerArchiveMount) (hm : m ∈ rows s) (hne : m.id ≠ id) :
      m ∈ (rows s).filter (fun m => m.id != id) := List.mem_filter.mpr ⟨hm, by simpa using hne⟩
  refine h.withRows (h.ids.sublist (List.filter_sublist.map _)) ?_ ?_
  · intro m hm hm' hholds
    refine ⟨m, hkeep m hm ?_, ⟨rfl, rfl, rfl⟩, hholds⟩
    rintro rfl
    exact hown hm'
  · intro m hm hactive
    refine ⟨m, hkeep m hm ?_, rfl, rfl, rfl⟩
    intro hid
    rw [hinactive m hm hid] at hactive
    cases hactive

theorem Guarded.setRowStatus (h : Guarded s) {id : Nat} (status : MountStatus)
    (hown : ¬ ownsRow s id ∨ ∀ m ∈ rows s, m.id = id → isActiveMount s m.mountPath = true) :
    Guarded (setRowStatus s id status) := by
  apply h.mapRows
  · intro m
    split <;> exact ⟨rfl, rfl, rfl⟩
  · intro m hm hm' hholds
    by_cases hid : m.id = id
    · rcases hown with hown | hactive
      · exact absurd (hid ▸ hm') hown
      · rw [if_pos hid, holdsRepository, Bool.or_eq_true]
        exact .inr (hactive m hm hid)
    · rw [if_neg hid]
      exact hholds

theorem creates_of_drop {request r : Nat} {c : CreateRequest} (h : (setCreate s request none).creates r = some c) :
    r ≠ request ∧ s.creates r = some c := by
  by_cases hr : r = request
  · simp [setCreate, hr] at h
  · simpa [setCreate, Function.update_of_ne hr, hr] using h

theorem Guarded.drop (h : Guarded s) (request : Nat) : Guarded (setCreate s request none) where
  ids := h.ids
  inFlight := fun r c hc => h.inFlight r c (creates_of_drop hc).2
  single := fun r r' c c' hc hc' => h.single r r' c c' (creates_of_drop hc).2 (creates_of_drop hc').2
  active := h.active
  created := h.created

theorem Guarded.progress (h : Guarded s) {request : Nat} {c : CreateRequest} (hc : s.creates request = some c)
    (progress : Progress) : Guarded (setCreate s request (some { c with progress := progress })) := by
  have hback {r : Nat} {c' : CreateRequest}
      (hr : (setCreate s request (some { c with progress := progress })).creates r = some c') :
      ∃ old, s.creates r = some old ∧ c'.rowId = old.rowId ∧ c'.repositoryId = old.repositoryId ∧
        c'.mountPath = old.mountPath := by
    by_cases he : r = request
    · rw [he] at hr ⊢
      simp only [setCreate, Function.update_self, Option.some.injEq] at hr
      exact ⟨c, hc, by rw [← hr], by rw [← hr], by rw [← hr]⟩
    · simp only [setCreate, Function.update_of_ne he] at hr
      exact ⟨c', hr, rfl, rfl, rfl⟩
  refine ⟨h.ids, ?_, ?_, h.active, h.created⟩
  · intro r c' hr
    obtain ⟨old, hold, hid, hrepo, hpath⟩ := hback hr
    rw [hid, hrepo, hpath]
    exact h.inFlight r old hold
  · intro r r' c₁ c₂ hr hr' he
    obtain ⟨old, hold, _, hrepo, _⟩ := hback hr
    obtain ⟨old', hold', _, hrepo', _⟩ := hback hr'
    exact h.single r r' old old' hold hold' (hrepo.symm.trans (he.trans hrepo'))

theorem own_row (h : Guarded s) {request : Nat} {c : CreateRequest} (hc : s.creates request = some c)
    {m : ManagerArchiveMount} (hm : m ∈ rows s) (hid : m.id = c.rowId) : m.mountPath = c.mountPath := by
  obtain ⟨m', hm', hid', _, hpath, _⟩ := h.inFlight request c hc
  rw [row_unique h hm hm' (hid.trans hid'.symm), hpath]

theorem not_owned_of_drop (h : Guarded s) {request : Nat} {c : CreateRequest} (hc : s.creates request = some c) :
    ¬ ownsRow (setCreate s request none) c.rowId := by
  rintro ⟨r, c', hc', hid⟩
  obtain ⟨hne, hold⟩ := creates_of_drop hc'
  obtain ⟨m, hm, hmid, hrepo, _⟩ := h.inFlight request c hc
  obtain ⟨m', hm', hmid', hrepo', _⟩ := h.inFlight r c' hold
  have he := row_unique h hm hm' (hmid.trans (hid.symm.trans hmid'.symm))
  exact hne (h.single r request c' c hold hc (by rw [← hrepo, ← hrepo', he]))

theorem Guarded.removeOwn (h : Guarded s) {request : Nat} {c : CreateRequest} (hc : s.creates request = some c)
    (hinactive : isActiveMount s c.mountPath = false) :
    Guarded (setCreate (ArchiveMounts.deleteRow s c.rowId) request none) := by
  have hdropped := (h.drop request).deleteRow (not_owned_of_drop h hc) (by
    intro m hm hid
    rw [own_row h hc hm hid]
    exact hinactive)
  exact hdropped

theorem Guarded.failCreate (h : Guarded s) {request : Nat} {c : CreateRequest} (hc : s.creates request = some c) :
    Guarded (failCreate s request c) := by
  rw [ArchiveMounts.failCreate]
  split
  · exact h.progress hc .unmounting
  · next hinactive => exact h.removeOwn hc (by simpa using hinactive)

theorem nextRowId_fresh (s : MountManager) : ∀ m ∈ rows s, m.id < nextRowId s := by
  intro m hm
  have hid : m.id ∈ (rows s).map ManagerArchiveMount.id := List.mem_map_of_mem hm
  rw [nextRowId]
  cases hmax : ((rows s).map ManagerArchiveMount.id).max? with
  | none => simp [List.max?_eq_none_iff.mp hmax] at hid
  | some top => exact Nat.lt_succ_of_le ((List.max?_eq_some_iff.mp hmax).2 _ hid)

theorem Guarded.insertRow (h : Guarded s) {request : Nat} {input : CreateInput}
    (hother : ∀ r c, s.creates r = some c → c.repositoryId ≠ input.repositoryId) :
    Guarded (insertRow pathOf s request input) := by
  simp only [ArchiveMounts.insertRow]
  split
  · have hback {r : Nat} {c : CreateRequest} (hne : r ≠ request)
        (hr : Function.update s.creates request (some ⟨nextRowId s, input.repositoryId,
          pathOf input.repositoryId input.archive, .waiting⟩) r = some c) : s.creates r = some c := by
      rwa [Function.update_of_ne hne] at hr
    refine ⟨?_, ?_, ?_, h.active, ?_⟩
    · simp only [rows, setCreate, ArchiveMounts.withRows, List.map_append, List.map_singleton]
      refine List.Nodup.append h.ids (List.nodup_singleton _) ?_
      intro id hold hnew
      obtain ⟨m, hm, rfl⟩ := List.mem_map.mp hold
      have hlt := nextRowId_fresh s m hm
      rw [List.mem_singleton] at hnew
      omega
    · intro r c hr
      simp only [setCreate, ArchiveMounts.withRows] at hr
      by_cases hreq : r = request
      · rw [hreq, Function.update_self] at hr
        cases hr
        exact ⟨_, List.mem_append_right _ (List.mem_singleton_self _), rfl, rfl, rfl, rfl⟩
      · obtain ⟨m, hm, hrest⟩ := h.inFlight r c (hback hreq hr)
        exact ⟨m, List.mem_append_left _ hm, hrest⟩
    · intro r r' c c' hr hr' he
      simp only [setCreate, ArchiveMounts.withRows] at hr hr'
      by_cases hreq : r = request
      · by_cases hreq' : r' = request
        · rw [hreq, hreq']
        · rw [hreq, Function.update_self] at hr
          cases hr
          exact absurd he.symm (hother r' c' (hback hreq' hr'))
      · by_cases hreq' : r' = request
        · rw [hreq', Function.update_self] at hr'
          cases hr'
          exact absurd he (hother r c (hback hreq hr))
        · exact h.single r r' c c' (hback hreq hr) (hback hreq' hr') he
    · intro repositoryId path hmem
      obtain ⟨m, hm, hrest⟩ := h.created repositoryId path hmem
      exact ⟨m, List.mem_append_left _ hm, hrest⟩
  · exact h

theorem Guarded.create (h : Guarded s) {request : Nat} {input : CreateInput}
    (hs : create t pathOf s request input = some s')
    (hother : ∀ r c, s.creates r = some c → c.repositoryId ≠ input.repositoryId) : Guarded s' := by
  rw [ArchiveMounts.create] at hs
  split at hs
  · next hc =>
      split at hs
      · cases hs
        exact h.insertRow hother
      · next existing hfind =>
          split at hs
          · cases hs
          · next hinactive =>
              cases hs
              have hm := List.mem_of_find?_eq_some hfind
              have hrepo : existing.repositoryId = input.repositoryId := by simpa using List.find?_some hfind
              refine (h.deleteRow ?_ ?_).insertRow hother
              · rintro ⟨r, c, hr, hid⟩
                obtain ⟨m, hm', hid', hrepo', _⟩ := h.inFlight r c hr
                apply hother r c hr
                rw [← hrepo', row_unique h hm' hm (hid'.trans hid), hrepo]
              · intro m hm' hid
                rw [row_unique h hm' hm hid]
                simpa using hinactive
  · cases hs

theorem fuse_cons (s : MountManager) (path p : String) {queue : Queue}
    (hq : queue.fuseMounts = path :: s.queue.fuseMounts) :
    archiveMountIsActive queue p = true ↔ p = path ∨ isActiveMount s p = true := by
  simp [archiveMountIsActive, isActiveMount, hq]

theorem fuse_filter (s : MountManager) (path p : String) :
    isActiveMount (fuseDown s path) p = true ↔ isActiveMount s p = true ∧ p ≠ path := by
  simp [isActiveMount, fuseDown, archiveMountIsActive]

theorem Guarded.fuseUp (h : Guarded s) {repositoryId : Nat} {path : String}
    (hs : fuseUp s repositoryId path = some s')
    (hrow : ∃ m ∈ rows s, m.repositoryId = repositoryId ∧ m.mountPath = path) : Guarded s' := by
  rw [ArchiveMounts.fuseUp] at hs
  split at hs
  · cases hs
    have hgrow (p : String) (hp : isActiveMount s p = true) :
        archiveMountIsActive { s.queue with fuseMounts := path :: s.queue.fuseMounts } p = true :=
      (fuse_cons s path p rfl).mpr (.inr hp)
    refine ⟨h.ids, ?_, h.single, ?_, ?_⟩
    · intro r c hr
      obtain ⟨m, hm, hid, hrepo, hpath, hholds⟩ := h.inFlight r c hr
      refine ⟨m, hm, hid, hrepo, hpath, ?_⟩
      simp only [holdsRepository, Bool.or_eq_true] at hholds ⊢
      exact hholds.imp_right (hgrow m.mountPath)
    · intro r p hmem
      rcases List.mem_cons.mp hmem with he | hmem
      · cases he
        exact (fuse_cons s path path rfl).mpr (.inl rfl)
      · exact hgrow p (h.active r p hmem)
    · intro r p hmem
      rcases List.mem_cons.mp hmem with he | hmem
      · cases he
        exact hrow
      · exact h.created r p hmem
  · cases hs

theorem Guarded.fuseDown (h : Guarded s) {path : String}
    (howned : ∀ m ∈ rows s, ownsRow s m.id → m.mountPath = path → m.status = .mounting) :
    Guarded (fuseDown s path) where
  ids := h.ids
  inFlight := by
    intro r c hr
    obtain ⟨m, hm, hid, hrepo, hpath, hholds⟩ := h.inFlight r c hr
    refine ⟨m, hm, hid, hrepo, hpath, ?_⟩
    by_cases hp : m.mountPath = path
    · simp [holdsRepository, howned m hm ⟨r, c, hr, hid.symm⟩ hp]
    · simp only [holdsRepository, Bool.or_eq_true] at hholds ⊢
      exact hholds.imp_right (fun hactive => (fuse_filter s path _).mpr ⟨hactive, hp⟩)
  single := h.single
  active := by
    intro r p hmem
    obtain ⟨hmem, hne⟩ := List.mem_filter.mp hmem
    exact (fuse_filter s path p).mpr ⟨h.active r p hmem, by simpa using hne⟩
  created := fun r p hmem => h.created r p (List.mem_of_mem_filter hmem)

theorem Guarded.setPoll (h : Guarded s) (request : Nat) (p : Option MountPoll) :
    Guarded (ArchiveMounts.setPoll s request p) := ⟨h.ids, h.inFlight, h.single, h.active, h.created⟩

theorem updateRow_same (now : Nat) (updates : List (Nat × MountStatus)) (m : ManagerArchiveMount) :
    SameMount m (updateRow now updates m) := by
  rw [updateRow]
  split <;> exact ⟨rfl, rfl, rfl⟩

theorem updateRow_untouched (now : Nat) {updates : List (Nat × MountStatus)} {m : ManagerArchiveMount}
    (h : m.id ∉ updates.map Prod.fst) : updateRow now updates m = m := by
  rw [updateRow, List.lookup_eq_none_iff.mpr]
  intro u hu
  rw [bne_iff_ne]
  exact fun hid => h (List.mem_map.mpr ⟨u, hu, hid.symm⟩)

theorem Guarded.pollCommit (h : Guarded s) {request : Nat} (hs : pollCommit s request = some s')
    (howned : ∀ p, s.polls request = some p → ∀ m ∈ rows s, ownsRow s m.id →
      m.id ∈ p.updates.map Prod.fst → isActiveMount s m.mountPath = true) : Guarded s' := by
  rw [ArchiveMounts.pollCommit] at hs
  split at hs
  · next now updates hp =>
      split at hs
      · cases hs
        refine Guarded.setPoll (h.mapRows (updateRow_same s.now updates) (fun m hm hown hholds => ?_)) request none
        by_cases htouched : m.id ∈ updates.map Prod.fst
        · rw [holdsRepository, (updateRow_same s.now updates m).2.2, Bool.or_eq_true]
          exact .inr (howned _ hp m hm hown htouched)
        · rw [updateRow_untouched s.now htouched]
          exact hholds
      · cases hs
        exact h.setPoll request none
  · cases hs

theorem findRow_eq_some {id : Nat} {m : ManagerArchiveMount} (h : findRow s id = some m) :
    m ∈ rows s ∧ m.id = id :=
  ⟨List.mem_of_find?_eq_some h, by simpa using List.find?_some h⟩

theorem Guarded.unmount (h : Guarded s) {request rowId : Nat} (hs : unmount s request rowId = some s')
    (hown : ¬ ownsRow s rowId) : Guarded s' := by
  rw [ArchiveMounts.unmount] at hs
  split at hs
  · cases hs
  · next m hfind =>
      obtain ⟨hm, hid⟩ := findRow_eq_some hfind
      split at hs
      · split at hs
        · cases hs
          have hstatus := h.setRowStatus .unmounting (.inl hown)
          exact ⟨hstatus.ids, hstatus.inFlight, hstatus.single, hstatus.active, hstatus.created⟩
        · next hinactive =>
            cases hs
            apply h.deleteRow hown
            intro m' hm' hid'
            rw [row_unique h hm' hm (hid'.trans hid.symm)]
            simpa using hinactive
      · cases hs

theorem Guarded.unmounted (h : Guarded s) {request : Nat} (hs : unmounted s request = some s')
    (hown : ∀ u, s.unmounts request = some u →
      ¬ ownsRow s u.rowId ∧ ∀ m ∈ rows s, m.id = u.rowId → isActiveMount s m.mountPath = false) : Guarded s' := by
  rw [ArchiveMounts.unmounted] at hs
  split at hs
  · next rowId path hu =>
      obtain ⟨hnot, hinactive⟩ := hown _ hu
      split at hs
      · cases hs
      · cases hs
        have hdeleted := h.deleteRow hnot hinactive
        exact ⟨hdeleted.ids, hdeleted.inFlight, hdeleted.single, hdeleted.active, hdeleted.created⟩
  · cases hs

theorem Guarded.unmountFailed (h : Guarded s) {request : Nat} (hs : unmountFailed s request = some s')
    (hown : ∀ u, s.unmounts request = some u → ¬ ownsRow s u.rowId) : Guarded s' := by
  rw [ArchiveMounts.unmountFailed] at hs
  split at hs
  · next rowId path hu =>
      cases hs
      have hstatus := h.setRowStatus .error (.inl (hown _ hu))
      exact ⟨hstatus.ids, hstatus.inFlight, hstatus.single, hstatus.active, hstatus.created⟩
  · cases hs

theorem Guarded.finish (h : Guarded s) {request : Nat} (hs : finish s request = some s') : Guarded s' := by
  rw [ArchiveMounts.finish] at hs
  split at hs
  · next rowId repositoryId path deadline hc =>
      split at hs
      · next hactive =>
          cases hs
          refine (h.setRowStatus .mounted (.inr ?_)).drop request
          intro m hm hid
          rw [own_row h hc hm hid]
          exact hactive.2
      · cases hs
  · cases hs

theorem mounts_of_queue {e : QueueEvent} {q : Queue} (hk : keepsMounts e = true) (h : next t s.queue e = some q) :
    q.fuseMounts = s.queue.fuseMounts ∧
      (q.archiveMounts = s.queue.archiveMounts ∨ q.archiveMounts = markStaleMounts s.queue) := by
  cases e with
  | enqueue run =>
      obtain ⟨_, _, rfl⟩ := enqueue_eq_some h
      exact ⟨rfl, .inl rfl⟩
  | enqueueChainRoot run token =>
      obtain ⟨_, _, _, _, _, hu, rfl⟩ := enqueueChainRoot_eq_some h
      obtain ⟨_, _, rfl⟩ := enqueue_eq_some hu
      exact ⟨rfl, .inl rfl⟩
  | enqueueChainRun run token =>
      obtain ⟨_, hu, rfl⟩ := enqueueChainRun_eq_some h
      obtain ⟨_, _, rfl⟩ := enqueue_eq_some hu
      exact ⟨rfl, .inl rfl⟩
  | claim runId =>
      obtain ⟨_, _, rfl⟩ := claimExecutionTurn_ok (claim_eq_some h)
      exact ⟨rfl, .inr rfl⟩
  | finish runId status =>
      obtain ⟨_, _, rfl⟩ := finish_eq_some h
      exact ⟨rfl, .inl rfl⟩
  | endExecution runId =>
      obtain ⟨_, rfl⟩ := endExecution_eq_some h
      exact ⟨rfl, .inl rfl⟩
  | beginExecution | configure | releaseChain => cases h; exact ⟨rfl, .inl rfl⟩
  | remount => cases hk

theorem Guarded.congr (h : Guarded s) {q : Queue} (hrows : q.archiveMounts = s.queue.archiveMounts)
    (hfuse : q.fuseMounts = s.queue.fuseMounts) : Guarded { s with queue := q } := by
  have hactive (p : String) : archiveMountIsActive q p = isActiveMount s p := by
    simp only [archiveMountIsActive, isActiveMount, hfuse]
  have hholds (m : ManagerArchiveMount) : holdsRepository q m = holdsRepository s.queue m := by
    simp only [holdsRepository, hactive]
    rfl
  refine ⟨?_, ?_, h.single, ?_, ?_⟩
  · simpa only [rows, hrows] using h.ids
  · simpa only [rows, hrows, hholds] using h.inFlight
  · simpa only [isActiveMount, hactive] using h.active
  · simpa only [rows, hrows] using h.created

theorem Guarded.queue (h : Guarded s) {e : QueueEvent} {q : Queue} (hk : keepsMounts e = true)
    (hq : next t s.queue e = some q) : Guarded { s with queue := q } := by
  obtain ⟨hfuse, hrows | hrows⟩ := mounts_of_queue hk hq
  · exact h.congr hrows hfuse
  · have hmarked : Guarded (ArchiveMounts.withRows s (markStaleMounts s.queue)) := by
      apply h.mapRows
      · intro m
        split <;> exact ⟨rfl, rfl, rfl⟩
      · intro m _ _ hholds
        rw [if_pos hholds]
        exact hholds
    exact hmarked.congr hrows hfuse

/-- Each step guards the rows if it leaves them to their owners. -/
theorem guarded_step {e : MountEvent} (h : Guarded s) (hs : mountStep t pathOf s e s') (hk : RowsKept s e) :
    Guarded s' := by
  cases e with
  | queue event =>
      simp only [graph, mountNext] at hs
      split at hs
      · next hkeep =>
          obtain ⟨q, hq, rfl⟩ := Option.map_eq_some_iff.mp hs
          exact h.queue hkeep hq
      · cases hs
  | wait seconds => cases hs; exact ⟨h.ids, h.inFlight, h.single, h.active, h.created⟩
  | create request input => exact h.create hs hk
  | launch request =>
      simp only [graph, mountNext, launch] at hs
      split at hs
      · next hc =>
          cases hs
          have hmoved := h.progress hc .running
          exact ⟨hmoved.ids, hmoved.inFlight, hmoved.single, hmoved.active, hmoved.created⟩
      · cases hs
  | fuseUp repositoryId path => exact h.fuseUp hs hk
  | fuseDown path => cases hs; exact h.fuseDown hk
  | returned request =>
      simp only [graph, mountNext, returned] at hs
      split at hs
      · next hc => cases hs; exact h.progress hc _
      · cases hs
  | finish request => exact h.finish hs
  | cancelled request =>
      simp only [graph, mountNext, cancelled] at hs
      split at hs
      · split at hs
        · cases hs; exact h.drop request
        · cases hs
      · cases hs
  | timeout request =>
      simp only [graph, mountNext, timeout] at hs
      split at hs
      · next hc =>
          split at hs
          · cases hs; exact h.failCreate hc
          · cases hs
      · cases hs
  | fail request =>
      simp only [graph, mountNext, fail] at hs
      split at hs
      · cases hs
      · cases hs
      · next c _ hc => cases hs; exact h.failCreate hc
  | rollback request =>
      simp only [graph, mountNext, rollback] at hs
      split at hs
      · next hc => cases hs; exact h.removeOwn hc (hk _ hc)
      · cases hs
  | abort request =>
      simp only [graph, mountNext, abort] at hs
      split at hs
      · cases hs; exact h.drop request
      · cases hs
  | pollRead request =>
      simp only [graph, mountNext, pollRead] at hs
      split at hs
      · cases hs; exact h.setPoll request _
      · cases hs
  | pollClock request =>
      simp only [graph, mountNext, pollClock] at hs
      split at hs
      · cases hs; exact h.setPoll request _
      · cases hs
  | pollCheck request =>
      simp only [graph, mountNext, pollCheck] at hs
      split at hs
      · cases hs; exact h.setPoll request _
      · cases hs
  | pollCommit request => exact h.pollCommit hs hk
  | unmount request rowId => exact h.unmount hs hk
  | unmounted request => exact h.unmounted hs hk
  | unmountFailed request => exact h.unmountFailed hs hk

/-- A claimed run and the mounts of its repository exclude each other exactly
if the planner sees the mounts. It sees them in every run of the system that
leaves the rows to their owners. -/
theorem archive_mounts_exclude_runs {s₀ : MountManager} (h₀ : Started s₀) :
    (∀ es s q run repositoryId, History (mountStep t pathOf) s₀ es s → run ∈ s.queue.runs.rows →
      claimExecutionTurn t s.queue run.id = .ok q → run.action ≠ .sourceStats →
      run.repositoryId = some repositoryId → (Unmounted s repositoryId ↔ Announced s repositoryId)) ∧
    ∀ es s q run repositoryId, History (meeting (mountStep t pathOf) RowsKept) s₀ es s →
      run ∈ s.queue.runs.rows → claimExecutionTurn t s.queue run.id = .ok q → run.action ≠ .sourceStats →
      run.repositoryId = some repositoryId → Unmounted s repositoryId := by
  have hexact (s : MountManager) (q : Queue) (run : Run) (repositoryId : Nat) (hm : run ∈ s.queue.runs.rows)
      (hc : claimExecutionTurn t s.queue run.id = .ok q) (hne : run.action ≠ .sourceStats)
      (hrepo : run.repositoryId = some repositoryId) :
      Unmounted s repositoryId ↔ Announced s repositoryId := by
    have hfree (m : ManagerArchiveMount) (hmem : m ∈ rows s) (hid : m.repositoryId = repositoryId) :
        holdsRepository s.queue m = false := unheld_of_claim hm hc hne hrepo hmem hid
    constructor
    · intro hun
      refine ⟨fun r c hr hid => absurd hid (hun.inFlight r c hr), fun path hpath hactive => ?_⟩
      rw [hun.created path hpath] at hactive
      cases hactive
    · intro han
      constructor
      · intro r c hr hid
        obtain ⟨m, hmem, hmid, hholds⟩ := han.inFlight r c hr hid
        rw [hfree m hmem hmid] at hholds
        cases hholds
      · intro path hpath
        by_contra hactive
        obtain ⟨m, hmem, hmid, hholds⟩ := han.created path hpath (by simpa using hactive)
        rw [hfree m hmem hmid] at hholds
        cases hholds
  constructor
  · intro es s q run repositoryId _ hm hc hne hrepo
    exact hexact s q run repositoryId hm hc hne hrepo
  · intro es s q run repositoryId h hm hc hne hrepo
    have hguarded : Guarded s :=
      h.invariant Guarded h₀.guarded (fun _ _ _ hg hstep => guarded_step hg hstep.1 hstep.2)
    exact (hexact s q run repositoryId hm hc hne hrepo).mpr (hguarded.announced repositoryId)

def samplePathOf (_ : Nat) (archive : String) : String := "/archive-mounts/first/" ++ archive

def startedMounts : MountManager := ⟨emptyQueue sampleSettings, 0, fun _ => none, fun _ => none, fun _ => none, [], []⟩

theorem startedMounts_started : Started startedMounts :=
  ⟨emptyQueue_started sampleSettings, fun _ => rfl, rfl, .nil⟩

def monday : CreateInput := ⟨1, "monday", true, true, true⟩

/-- A poll finds the new row, the mount fails much later and is over when the
backup is queued. -/
def failedMount : List MountEvent :=
  [.create 1 monday, .launch 1, .pollRead 2, .wait 20, .pollClock 2, .pollCheck 2, .pollCommit 2, .wait 40, .fail 1,
    .queue (.enqueue (sampleRun 1 1 .backup))]

def afterFailedMount : MountManager :=
  (exec (mountNext sampleTopology samplePathOf) startedMounts failedMount).get (by decide)

theorem archive_mounts_exclude_runs_failed :
    (Unmounted afterFailedMount 1 ↔ Announced afterFailedMount 1) ∧ Unmounted afterFailedMount 1 := by
  have h := @archive_mounts_exclude_runs sampleTopology samplePathOf _ startedMounts_started
  have hclaim : claimExecutionTurn sampleTopology afterFailedMount.queue 1 =
      .ok (grantTurn afterFailedMount.queue 1) :=
    claimExecutionTurn_of_selected (sampleRun 1 1 .backup) (by decide) rfl (by decide)
  have hrow : sampleRun 1 1 .backup ∈ afterFailedMount.queue.runs.rows := by decide
  have hkept : History (meeting (mountStep sampleTopology samplePathOf) RowsKept) startedMounts failedMount
      afterFailedMount :=
    .cons ⟨rfl, nofun⟩ (.cons ⟨rfl, trivial⟩ (.cons ⟨rfl, trivial⟩ (.cons ⟨rfl, trivial⟩ (.cons ⟨rfl, trivial⟩
      (.cons ⟨rfl, trivial⟩ (.cons ⟨rfl, fun _ hp _ _ _ hid => by cases hp; exact (List.not_mem_nil hid).elim⟩
        (.cons ⟨rfl, trivial⟩ (.cons ⟨rfl, trivial⟩ (.cons ⟨rfl, trivial⟩ (.nil _))))))))))
  exact ⟨h.1 _ _ _ _ 1 hkept.forget hrow hclaim (by decide) rfl,
    h.2 _ _ _ _ 1 hkept hrow hclaim (by decide) rfl⟩

/-- While the mount command waits for its locks, a poll of the mount list
marks the row of the request, and a backup of the repository starts. -/
def polledMount : List MountEvent :=
  [.create 1 monday, .wait 31, .pollRead 2, .pollClock 2, .pollCheck 2, .pollCommit 2,
    .queue (.enqueue (sampleRun 1 1 .backup))]

def afterPolledMount : MountManager :=
  (exec (mountNext sampleTopology samplePathOf) startedMounts polledMount).get (by decide)

theorem backup_starts_during_mount :
    ¬ ∀ es s q run repositoryId, History (mountStep sampleTopology samplePathOf) startedMounts es s →
      run ∈ s.queue.runs.rows → claimExecutionTurn sampleTopology s.queue run.id = .ok q →
      run.action ≠ .sourceStats → run.repositoryId = some repositoryId → Unmounted s repositoryId := by
  intro h
  have hclaim : claimExecutionTurn sampleTopology afterPolledMount.queue 1 =
      .ok (grantTurn afterPolledMount.queue 1) :=
    claimExecutionTurn_of_selected (sampleRun 1 1 .backup) (by decide) rfl (by decide)
  have hun := h polledMount afterPolledMount _ (sampleRun 1 1 .backup) 1 (history_of_exec (Option.some_get _).symm)
    (by decide) hclaim (by decide) rfl
  exact hun.inFlight 1 _ rfl rfl

end BorgManager.ArchiveMounts
