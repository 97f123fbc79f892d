import BorgManager.ArchiveMounts

namespace BorgManager.OrphanMounts

open PythonText Records RunQueue ExecutionPlan QueueSystem Histories ArchiveMounts

variable {t : Topology} {pathOf : Nat → String → String}

/-- A filesystem that a mount request has brought up is active. -/
def Live (s : MountManager) (path : String) : Prop :=
  isActiveMount s path = true ∧ ∃ repositoryId, (repositoryId, path) ∈ s.created

def HasRow (s : MountManager) (path : String) : Prop := ∃ m ∈ rows s, m.mountPath = path

def Unmounting (s : MountManager) (path : String) : Prop :=
  ∃ request u, s.unmounts request = some u ∧ u.mountPath = path

/-- No mount or unmount request is in flight. -/
def Quiet (s : MountManager) : Prop := (∀ request, s.creates request = none) ∧ ∀ request, s.unmounts request = none

def NoOrphans (s : MountManager) : Prop := ∀ path, Live s path → HasRow s path

/-- The unmount commands succeed: none ends with an error, and after one the
filesystem is gone. -/
def UnmountsSucceed (s : MountManager) : MountEvent → Prop
  | .unmountFailed _ => False
  | .rollback request => ∀ c ∈ s.creates request, isActiveMount s c.mountPath = false
  | _ => True

abbrev cleanStep (t : Topology) (pathOf : Nat → String → String) : Transition MountManager MountEvent :=
  meeting (mountStep t pathOf) UnmountsSucceed

/-- A live filesystem has a row, or a request is about to unmount it. -/
def Covered (s : MountManager) : Prop := ∀ path, Live s path → HasRow s path ∨ Unmounting s path

/-- The row that a request remembers by its id may go: it is not the only
trace of a live filesystem. -/
def Expendable (s : MountManager) (rowId : Nat) : Prop :=
  ∀ m ∈ rows s, m.id = rowId → Live s m.mountPath →
    (∃ m' ∈ rows s, m'.id ≠ rowId ∧ m'.mountPath = m.mountPath) ∨ Unmounting s m.mountPath

/-- A filesystem only comes up while it has a row or is about to be unmounted,
and no request deletes the row of another request's live filesystem. -/
def InTime (s : MountManager) : MountEvent → Prop
  | .fuseUp _ path => HasRow s path ∨ Unmounting s path
  | .timeout request => ∀ c ∈ s.creates request, isActiveMount s c.mountPath = false → Expendable s c.rowId
  | .fail request => ∀ c ∈ s.creates request, isActiveMount s c.mountPath = false → Expendable s c.rowId
  | .rollback request => ∀ c ∈ s.creates request, Expendable s c.rowId
  | .unmounted request => ∀ u ∈ s.unmounts request, Expendable s u.rowId
  | _ => True

variable {s s' : MountManager} {e : MountEvent}

/-- The rows may be rewritten as long as they keep their ids and paths. -/
theorem covered_mapRows_iff {f : ManagerArchiveMount → ManagerArchiveMount} (hsame : ∀ m, SameMount m (f m)) :
    Covered (withRows s ((rows s).map f)) ↔ Covered s := by
  have hrow (path : String) : HasRow (withRows s ((rows s).map f)) path ↔ HasRow s path := by
    constructor
    · rintro ⟨m', hm', hpath⟩
      obtain ⟨m, hm, rfl⟩ := List.mem_map.mp hm'
      exact ⟨m, hm, (hsame m).2.2.symm.trans hpath⟩
    · rintro ⟨m, hm, hpath⟩
      exact ⟨f m, List.mem_map_of_mem hm, (hsame m).2.2.trans hpath⟩
  exact forall_congr' fun path => imp_congr Iff.rfl (or_congr (hrow path) Iff.rfl)

theorem covered_setRowStatus_iff (id : Nat) (status : MountStatus) :
    Covered (setRowStatus s id status) ↔ Covered s := by
  apply covered_mapRows_iff
  intro m
  split <;> exact ⟨rfl, rfl, rfl⟩

theorem covered_deleteRow_iff (h : Covered s) (id : Nat) : Covered (deleteRow s id) ↔ Expendable s id := by
  have hkept (m : ManagerArchiveMount) : m ∈ rows (deleteRow s id) ↔ m ∈ rows s ∧ m.id ≠ id := by
    rw [deleteRow]
    exact List.mem_filter.trans (and_congr Iff.rfl bne_iff_ne)
  constructor
  · intro hcovered m hm hid hlive
    rcases hcovered m.mountPath hlive with ⟨m', hm', hpath⟩ | hunmount
    · exact .inl ⟨m', ((hkept m').mp hm').1, ((hkept m').mp hm').2, hpath⟩
    · exact .inr hunmount
  · intro hexpendable path hlive
    rcases h path hlive with ⟨m, hm, rfl⟩ | hunmount
    · by_cases hid : m.id = id
      · rcases hexpendable m hm hid hlive with ⟨m', hm', hne, hpath⟩ | hunmount
        · exact .inl ⟨m', (hkept m').mpr ⟨hm', hne⟩, hpath⟩
        · exact .inr hunmount
      · exact .inl ⟨m, (hkept m).mpr ⟨hm, hid⟩, rfl⟩
    · exact .inr hunmount

/-- A row whose filesystem is not active is expendable. -/
theorem expendable_of_inactive {id : Nat} (h : ∀ m ∈ rows s, m.id = id → isActiveMount s m.mountPath = false) :
    Expendable s id := by
  rintro m hm hid ⟨hactive, -⟩
  rw [h m hm hid] at hactive
  nomatch hactive

theorem covered_deleteRow_of_found (h : Covered s) (hids : ((rows s).map ManagerArchiveMount.id).Nodup)
    {m : ManagerArchiveMount} (hm : m ∈ rows s) (hinactive : isActiveMount s m.mountPath = false) :
    Covered (deleteRow s m.id) := by
  refine (covered_deleteRow_iff h m.id).mpr (expendable_of_inactive ?_)
  intro m' hm' hid
  rw [List.inj_on_of_nodup_map hids hm' hm hid]
  exact hinactive

theorem covered_setUnmount_none_iff {request : Nat} {u : UnmountRequest} (hu : s.unmounts request = some u)
    (hinactive : isActiveMount s u.mountPath = false) : Covered (setUnmount s request none) ↔ Covered s := by
  have hunmounting (path : String) (hlive : Live s path) :
      Unmounting (setUnmount s request none) path ↔ Unmounting s path := by
    constructor
    · rintro ⟨r, v, hv, hpath⟩
      by_cases hr : r = request
      · simp [setUnmount, hr] at hv
      · exact ⟨r, v, by simpa [setUnmount, Function.update_of_ne hr] using hv, hpath⟩
    · rintro ⟨r, v, hv, hpath⟩
      refine ⟨r, v, ?_, hpath⟩
      have hr : r ≠ request := by
        rintro rfl
        cases hu.symm.trans hv
        rw [hpath, hlive.1] at hinactive
        nomatch hinactive
      simpa [setUnmount, Function.update_of_ne hr] using hv
  exact forall_congr' fun path => ⟨fun h hlive => (h hlive).imp id (hunmounting path hlive).mp,
    fun h hlive => (h hlive).imp id (hunmounting path hlive).mpr⟩

theorem covered_setUnmount_some (h : Covered s) {request : Nat} (hnone : s.unmounts request = none)
    (u : UnmountRequest) : Covered (setUnmount s request (some u)) := by
  intro path hlive
  refine (h path hlive).imp id ?_
  rintro ⟨r, v, hv, hpath⟩
  refine ⟨r, v, ?_, hpath⟩
  have hr : r ≠ request := by
    rintro rfl
    rw [hnone] at hv
    nomatch hv
  simpa [setUnmount, Function.update_of_ne hr] using hv

theorem covered_fuseUp_iff (h : Covered s) {repositoryId : Nat} {path : String}
    (hs : fuseUp s repositoryId path = some s') : Covered s' ↔ HasRow s path ∨ Unmounting s path := by
  rw [fuseUp] at hs
  split at hs
  · cases hs
    constructor
    · intro hcovered
      exact hcovered path ⟨(fuse_cons s path path rfl).mpr (.inl rfl), repositoryId, .head _⟩
    · rintro hrow p ⟨hactive, r, hmem⟩
      rcases List.mem_cons.mp hmem with heq | hmem
      · cases heq
        exact hrow
      · rcases (fuse_cons s path p rfl).mp hactive with rfl | hactive
        · exact hrow
        · exact h p ⟨hactive, r, hmem⟩
  · cases hs

theorem covered_fuseDown (h : Covered s) (path : String) : Covered (fuseDown s path) := by
  rintro p ⟨hactive, r, hmem⟩
  exact h p ⟨((fuse_filter s path p).mp hactive).1, r, List.mem_of_mem_filter hmem⟩

theorem covered_insertRow (h : Covered s) (request : Nat) (input : CreateInput) :
    Covered (insertRow pathOf s request input) := by
  simp only [insertRow]
  split
  · intro path hlive
    refine (h path hlive).imp ?_ id
    rintro ⟨m, hm, hpath⟩
    exact ⟨m, List.mem_append_left _ hm, hpath⟩
  · exact h

theorem covered_create (h : Covered s) (hids : ((rows s).map ManagerArchiveMount.id).Nodup) {request : Nat}
    {input : CreateInput} (hs : create t pathOf s request input = some s') : Covered s' := by
  rw [create] at hs
  split at hs
  · split at hs
    · cases hs
      exact covered_insertRow h request input
    · next existing hfind =>
      split at hs
      · cases hs
      · next hinactive =>
        cases hs
        have hm := List.mem_of_find?_eq_some hfind
        exact covered_insertRow (covered_deleteRow_of_found h hids hm (by simpa using hinactive)) request input
  · cases hs

theorem covered_failCreate_iff (h : Covered s) (request : Nat) (c : CreateRequest) :
    Covered (failCreate s request c) ↔ (isActiveMount s c.mountPath = false → Expendable s c.rowId) := by
  rw [failCreate]
  split
  · next hactive =>
    refine iff_of_true h ?_
    intro hinactive
    rw [hinactive] at hactive
    cases hactive
  · next hinactive =>
    have hfalse : isActiveMount s c.mountPath = false := by simpa using hinactive
    exact (covered_deleteRow_iff h c.rowId).trans ⟨fun hexpendable _ => hexpendable, fun hguard => hguard hfalse⟩

theorem covered_unmount (h : Covered s) (hids : ((rows s).map ManagerArchiveMount.id).Nodup) {request rowId : Nat}
    (hs : unmount s request rowId = some s') : Covered s' := by
  rw [unmount] at hs
  split at hs
  · cases hs
  · next m hfind =>
    obtain ⟨hm, hid⟩ := findRow_eq_some hfind
    split at hs
    · next hfree =>
      split at hs
      · cases hs
        exact covered_setUnmount_some ((covered_setRowStatus_iff rowId .unmounting).mpr h)
          (Option.isNone_iff_eq_none.mp hfree.1) _
      · next hinactive =>
        cases hs
        rw [← hid]
        exact covered_deleteRow_of_found h hids hm (by simpa using hinactive)
    · cases hs

theorem covered_queue (h : Covered s) {e : QueueEvent} {q : Queue} (hk : keepsMounts e = true)
    (hq : next t s.queue e = some q) : Covered { s with queue := q } := by
  obtain ⟨hfuse, hrows⟩ := mounts_of_queue hk hq
  have hactive (p : String) : archiveMountIsActive q p = isActiveMount s p := by
    simp only [archiveMountIsActive, isActiveMount, hfuse]
  have hrow (path : String) (hold : HasRow s path) : HasRow { s with queue := q } path := by
    obtain ⟨m, hm, hpath⟩ := hold
    rcases hrows with hsame | hmarked
    · exact ⟨m, by rw [rows, hsame]; exact hm, hpath⟩
    · refine ⟨_, by rw [rows, hmarked]; exact List.mem_map_of_mem hm, ?_⟩
      split <;> exact hpath
  intro path hlive
  exact (h path ⟨(hactive path).symm.trans hlive.1, hlive.2⟩).imp (hrow path) id

/-- One step keeps every live filesystem covered exactly if it is in time. -/
theorem covered_step_iff (h : Covered s) (hids : ((rows s).map ManagerArchiveMount.id).Nodup)
    (hs : cleanStep t pathOf s e s') : Covered s' ↔ InTime s e := by
  obtain ⟨hs, hsucceed⟩ := hs
  cases e with
  | queue event =>
      simp only [graph, mountNext] at hs
      split at hs
      · next hkeep =>
        obtain ⟨q, hq, rfl⟩ := Option.map_eq_some_iff.mp hs
        exact iff_of_true (covered_queue h hkeep hq) trivial
      · cases hs
  | wait seconds => cases hs; exact iff_of_true h trivial
  | create request input => exact iff_of_true (covered_create h hids hs) trivial
  | launch request =>
      simp only [graph, mountNext, launch] at hs
      split at hs
      · cases hs; exact iff_of_true h trivial
      · cases hs
  | fuseUp repositoryId path => exact covered_fuseUp_iff h hs
  | fuseDown path => cases hs; exact iff_of_true (covered_fuseDown h path) trivial
  | returned request =>
      simp only [graph, mountNext, returned] at hs
      split at hs
      · cases hs; exact iff_of_true h trivial
      · cases hs
  | finish request =>
      simp only [graph, mountNext, ArchiveMounts.finish] at hs
      split at hs
      · split at hs
        · cases hs; exact iff_of_true ((covered_setRowStatus_iff _ _).mpr h) trivial
        · cases hs
      · cases hs
  | cancelled request =>
      simp only [graph, mountNext, cancelled] at hs
      split at hs
      · split at hs
        · cases hs; exact iff_of_true h trivial
        · cases hs
      · cases hs
  | timeout request =>
      simp only [graph, mountNext, timeout] at hs
      split at hs
      · next hc =>
        split at hs
        · cases hs
          rw [covered_failCreate_iff h, InTime, hc]
          simp
        · cases hs
      · cases hs
  | fail request =>
      simp only [graph, mountNext, fail] at hs
      split at hs
      · cases hs
      · cases hs
      · next c _ hc =>
        cases hs
        rw [covered_failCreate_iff h, InTime, hc]
        simp
  | rollback request =>
      simp only [graph, mountNext, rollback] at hs
      split at hs
      · next rowId repositoryId path hc =>
        cases hs
        rw [InTime, hc]
        simp only [Option.mem_def, Option.some.injEq, forall_eq']
        exact covered_deleteRow_iff h rowId
      · cases hs
  | abort request =>
      simp only [graph, mountNext, abort] at hs
      split at hs
      · cases hs; exact iff_of_true h trivial
      · cases hs
  | pollRead request =>
      simp only [graph, mountNext, pollRead] at hs
      split at hs
      · cases hs; exact iff_of_true h trivial
      · cases hs
  | pollClock request =>
      simp only [graph, mountNext, pollClock] at hs
      split at hs
      · cases hs; exact iff_of_true h trivial
      · cases hs
  | pollCheck request =>
      simp only [graph, mountNext, pollCheck] at hs
      split at hs
      · cases hs; exact iff_of_true h trivial
      · cases hs
  | pollCommit request =>
      simp only [graph, mountNext, ArchiveMounts.pollCommit] at hs
      split at hs
      · split at hs
        · cases hs; exact iff_of_true ((covered_mapRows_iff (updateRow_same _ _)).mpr h) trivial
        · cases hs; exact iff_of_true h trivial
      · cases hs
  | unmount request rowId => exact iff_of_true (covered_unmount h hids hs) trivial
  | unmounted request =>
      simp only [graph, mountNext, unmounted] at hs
      split at hs
      · next rowId path hu =>
        split at hs
        · cases hs
        · next hinactive =>
          cases hs
          have hfalse : isActiveMount s path = false := by simpa using hinactive
          rw [InTime, hu]
          simp only [Option.mem_def, Option.some.injEq, forall_eq']
          exact (@covered_setUnmount_none_iff (deleteRow s rowId) request ⟨rowId, path⟩ hu hfalse).trans
            (covered_deleteRow_iff h rowId)
      · cases hs
  | unmountFailed request => exact hsucceed.elim

/-- What a step may do to the ids of the rows and to the requests in flight:
the ids stay different, and only one request moves. -/
structure Tidy (s s' : MountManager) (request : Nat) : Prop where
  ids : ((rows s).map ManagerArchiveMount.id).Nodup → ((rows s').map ManagerArchiveMount.id).Nodup
  creates : ∀ r, r ≠ request → s'.creates r = s.creates r
  unmounts : ∀ r, r ≠ request → s'.unmounts r = s.unmounts r

namespace Tidy

theorem refl (s : MountManager) (request : Nat) : Tidy s s request := ⟨id, fun _ _ => rfl, fun _ _ => rfl⟩

theorem trans {s₁ s₂ s₃ : MountManager} {request : Nat} (h : Tidy s₁ s₂ request) (k : Tidy s₂ s₃ request) :
    Tidy s₁ s₃ request where
  ids hids := k.ids (h.ids hids)
  creates r hr := (k.creates r hr).trans (h.creates r hr)
  unmounts r hr := (k.unmounts r hr).trans (h.unmounts r hr)

theorem setCreate (s : MountManager) (request : Nat) (c : Option CreateRequest) :
    Tidy s (setCreate s request c) request :=
  ⟨id, fun _ hr => Function.update_of_ne hr .., fun _ _ => rfl⟩

theorem setUnmount (s : MountManager) (request : Nat) (u : Option UnmountRequest) :
    Tidy s (setUnmount s request u) request :=
  ⟨id, fun _ _ => rfl, fun _ hr => Function.update_of_ne hr ..⟩

theorem setPoll (s : MountManager) (poll : Nat) (p : Option MountPoll) (request : Nat) :
    Tidy s (setPoll s poll p) request := ⟨id, fun _ _ => rfl, fun _ _ => rfl⟩

theorem deleteRow (s : MountManager) (id request : Nat) : Tidy s (deleteRow s id) request :=
  ⟨fun h => h.sublist (List.filter_sublist.map _), fun _ _ => rfl, fun _ _ => rfl⟩

theorem mapRows (s : MountManager) {f : ManagerArchiveMount → ManagerArchiveMount} (hsame : ∀ m, SameMount m (f m))
    (request : Nat) : Tidy s (withRows s ((rows s).map f)) request := by
  refine ⟨?_, fun _ _ => rfl, fun _ _ => rfl⟩
  intro h
  have hf : ManagerArchiveMount.id ∘ f = ManagerArchiveMount.id := funext fun m => (hsame m).1
  simp only [rows, withRows, List.map_map, hf]
  exact h

theorem setRowStatus (s : MountManager) (id : Nat) (status : MountStatus) (request : Nat) :
    Tidy s (setRowStatus s id status) request := by
  apply mapRows
  intro m
  split <;> exact ⟨rfl, rfl, rfl⟩

theorem insertRow (s : MountManager) (request : Nat) (input : CreateInput) :
    Tidy s (insertRow pathOf s request input) request := by
  simp only [ArchiveMounts.insertRow]
  split
  · have hrow : Tidy s (withRows s (rows s ++ [⟨nextRowId s, input.repositoryId, input.archive,
        pathOf input.repositoryId input.archive, .mounting, s.now⟩])) request := by
      refine ⟨?_, fun _ _ => rfl, fun _ _ => rfl⟩
      intro hids
      simp only [rows, withRows, List.map_append, List.map_singleton]
      refine List.Nodup.append hids (List.nodup_singleton _) ?_
      intro id hold hnew
      obtain ⟨m, hm, rfl⟩ := List.mem_map.mp hold
      have hlt := nextRowId_fresh s m hm
      rw [List.mem_singleton] at hnew
      omega
    exact hrow.trans (setCreate _ request _)
  · exact refl s request

theorem failCreate (s : MountManager) (request : Nat) (c : CreateRequest) :
    Tidy s (failCreate s request c) request := by
  rw [ArchiveMounts.failCreate]
  split
  · exact setCreate s request _
  · exact (deleteRow s c.rowId request).trans (setCreate _ request _)

theorem queue {e : QueueEvent} {q : Queue} (hk : keepsMounts e = true) (hq : next t s.queue e = some q)
    (request : Nat) :
    Tidy s { s with queue := q } request := by
  refine ⟨?_, fun _ _ => rfl, fun _ _ => rfl⟩
  obtain ⟨-, hsame | hmarked⟩ := mounts_of_queue hk hq
  · simp only [rows, hsame]
    exact id
  · intro hids
    have hmark : Tidy s (withRows s (markStaleMounts s.queue)) request := by
      apply mapRows
      intro m
      split <;> exact ⟨rfl, rfl, rfl⟩
    simp only [rows, hmarked]
    exact hmark.ids hids

end Tidy

/-- The request that an event is about. -/
def requestOf : MountEvent → Nat
  | .create request _ | .launch request | .returned request | .finish request | .cancelled request | .timeout request
  | .fail request | .rollback request | .abort request | .unmount request _ | .unmounted request
  | .unmountFailed request => request
  | .queue _ | .wait _ | .fuseUp _ _ | .fuseDown _ | .pollRead _ | .pollClock _ | .pollCheck _ | .pollCommit _ => 0

theorem tidy_step (hs : mountStep t pathOf s e s') : Tidy s s' (requestOf e) := by
  cases e with
  | queue event =>
      simp only [graph, mountNext] at hs
      split at hs
      · next hkeep =>
        obtain ⟨q, hq, rfl⟩ := Option.map_eq_some_iff.mp hs
        exact .queue hkeep hq _
      · cases hs
  | wait seconds => cases hs; exact ⟨id, fun _ _ => rfl, fun _ _ => rfl⟩
  | create request input =>
      simp only [graph, mountNext, create] at hs
      split at hs
      · split at hs
        · cases hs; exact .insertRow s request input
        · next existing _ =>
          split at hs
          · cases hs
          · cases hs; exact (Tidy.deleteRow s existing.id request).trans (.insertRow _ request input)
      · cases hs
  | launch request =>
      simp only [graph, mountNext, launch] at hs
      split at hs
      · cases hs; exact ⟨id, fun _ hr => Function.update_of_ne hr .., fun _ _ => rfl⟩
      · cases hs
  | fuseUp repositoryId path =>
      simp only [graph, mountNext, fuseUp] at hs
      split at hs
      · cases hs; exact ⟨id, fun _ _ => rfl, fun _ _ => rfl⟩
      · cases hs
  | fuseDown path => cases hs; exact ⟨id, fun _ _ => rfl, fun _ _ => rfl⟩
  | returned request =>
      simp only [graph, mountNext, returned] at hs
      split at hs
      · cases hs; exact .setCreate s request _
      · cases hs
  | finish request =>
      simp only [graph, mountNext, ArchiveMounts.finish] at hs
      split at hs
      · split at hs
        · cases hs; exact (Tidy.setRowStatus s _ _ request).trans (.setCreate _ request _)
        · cases hs
      · cases hs
  | cancelled request =>
      simp only [graph, mountNext, cancelled] at hs
      split at hs
      · split at hs
        · cases hs; exact .setCreate s request _
        · cases hs
      · cases hs
  | timeout request =>
      simp only [graph, mountNext, timeout] at hs
      split at hs
      · split at hs
        · cases hs; exact .failCreate s request _
        · cases hs
      · cases hs
  | fail request =>
      simp only [graph, mountNext, fail] at hs
      split at hs
      · cases hs
      · cases hs
      · cases hs; exact .failCreate s request _
  | rollback request =>
      simp only [graph, mountNext, rollback] at hs
      split at hs
      · cases hs; exact (Tidy.deleteRow s _ request).trans (.setCreate _ request _)
      · cases hs
  | abort request =>
      simp only [graph, mountNext, abort] at hs
      split at hs
      · cases hs; exact .setCreate s request _
      · cases hs
  | pollRead request =>
      simp only [graph, mountNext, pollRead] at hs
      split at hs
      · cases hs; exact .setPoll s request _ _
      · cases hs
  | pollClock request =>
      simp only [graph, mountNext, pollClock] at hs
      split at hs
      · cases hs; exact .setPoll s request _ _
      · cases hs
  | pollCheck request =>
      simp only [graph, mountNext, pollCheck] at hs
      split at hs
      · cases hs; exact .setPoll s request _ _
      · cases hs
  | pollCommit request =>
      simp only [graph, mountNext, ArchiveMounts.pollCommit] at hs
      split at hs
      · split at hs
        · cases hs
          exact (Tidy.mapRows s (updateRow_same _ _) 0).trans (.setPoll _ request none 0)
        · cases hs; exact .setPoll s request none 0
      · cases hs
  | unmount request rowId =>
      simp only [graph, mountNext, unmount] at hs
      split at hs
      · cases hs
      · split at hs
        · split at hs
          · cases hs; exact (Tidy.setRowStatus s _ _ request).trans (.setUnmount _ request _)
          · cases hs; exact .deleteRow s rowId request
        · cases hs
  | unmounted request =>
      simp only [graph, mountNext, unmounted] at hs
      split at hs
      · split at hs
        · cases hs
        · cases hs; exact (Tidy.deleteRow s _ request).trans (.setUnmount _ request _)
      · cases hs
  | unmountFailed request =>
      simp only [graph, mountNext, unmountFailed] at hs
      split at hs
      · cases hs; exact (Tidy.setRowStatus s _ _ request).trans (.setUnmount _ request _)
      · cases hs

/-- A live filesystem that nobody keeps track of. -/
structure Orphan (s : MountManager) (path : String) : Prop where
  live : Live s path
  noRow : ¬ HasRow s path
  noUnmount : ¬ Unmounting s path

theorem exists_orphan (h : ¬ Covered s) : ∃ path, Orphan s path := by
  rw [Covered] at h
  push Not at h
  obtain ⟨path, hlive, hrow, hunmount⟩ := h
  exact ⟨path, hlive, hrow, hunmount⟩

/-- The tasks of the mount requests may be cancelled one after the other. -/
theorem end_creates {path : String} (requests : List Nat) (h : Orphan s path) :
    ∃ es u, History (cleanStep t pathOf) s es u ∧ Orphan u path ∧ u.unmounts = s.unmounts ∧
      (∀ r, s.creates r = none → u.creates r = none) ∧ ∀ r ∈ requests, u.creates r = none := by
  induction requests generalizing s with
  | nil => exact ⟨[], s, .nil s, h, rfl, fun _ hr => hr, nofun⟩
  | cons request requests ih =>
      cases hc : s.creates request with
      | none =>
          obtain ⟨es, u, hes, hu, hunmounts, hkeep, hdone⟩ := ih h
          refine ⟨es, u, hes, hu, hunmounts, hkeep, ?_⟩
          intro r hr
          rcases List.mem_cons.mp hr with rfl | hr
          · exact hkeep r hc
          · exact hdone r hr
      | some c =>
          have habort : cleanStep t pathOf s (.abort request) (setCreate s request none) := by
            refine ⟨?_, trivial⟩
            simp only [graph, mountNext, abort, hc]
          have hgone : (setCreate s request none).creates request = none := Function.update_self ..
          obtain ⟨es, u, hes, hu, hunmounts, hkeep, hdone⟩ :=
            @ih (setCreate s request none) ⟨h.live, h.noRow, h.noUnmount⟩
          refine ⟨.abort request :: es, u, .cons habort hes, hu, hunmounts, ?_, ?_⟩
          · intro r hr
            apply hkeep
            by_cases heq : r = request
            · rw [heq]
              exact hgone
            · simpa [setCreate, Function.update_of_ne heq] using hr
          · intro r hr
            rcases List.mem_cons.mp hr with rfl | hr
            · exact hkeep r hgone
            · exact hdone r hr

/-- An unmount request of another path ends: its filesystem goes down, and it
deletes its row. -/
theorem end_unmount {path : String} (h : Orphan s path) {request : Nat} {v : UnmountRequest}
    (hv : s.unmounts request = some v) :
    ∃ es u, History (cleanStep t pathOf) s es u ∧ Orphan u path ∧ u.creates = s.creates ∧
      u.unmounts = Function.update s.unmounts request none := by
  have hne : path ≠ v.mountPath := by
    rintro rfl
    exact h.noUnmount ⟨request, v, hv, rfl⟩
  have hdown : cleanStep t pathOf s (.fuseDown v.mountPath) (fuseDown s v.mountPath) := ⟨rfl, trivial⟩
  have hinactive : isActiveMount (fuseDown s v.mountPath) v.mountPath = false := by
    rw [Bool.eq_false_iff]
    intro hactive
    exact ((fuse_filter s v.mountPath v.mountPath).mp hactive).2 rfl
  have hdone : cleanStep t pathOf (fuseDown s v.mountPath) (.unmounted request)
      (setUnmount (deleteRow (fuseDown s v.mountPath) v.rowId) request none) := by
    refine ⟨?_, trivial⟩
    have hv' : (fuseDown s v.mountPath).unmounts request = some ⟨v.rowId, v.mountPath⟩ := hv
    simp only [graph, mountNext, unmounted, hv', hinactive, Bool.false_eq_true, if_false]
  refine ⟨_, _, .cons hdown (.single hdone), ⟨?_, ?_, ?_⟩, rfl, rfl⟩
  · obtain ⟨hactive, repositoryId, hmem⟩ := h.live
    refine ⟨(fuse_filter s v.mountPath path).mpr ⟨hactive, hne⟩, repositoryId, ?_⟩
    exact List.mem_filter.mpr ⟨hmem, bne_iff_ne.mpr hne⟩
  · rintro ⟨m, hm, hpath⟩
    exact h.noRow ⟨m, List.mem_of_mem_filter hm, hpath⟩
  · rintro ⟨r, w, hw, hpath⟩
    by_cases heq : r = request
    · simp [setUnmount, heq] at hw
    · have hold : (deleteRow (fuseDown s v.mountPath) v.rowId).unmounts r = some w := by
        simpa [setUnmount, Function.update_of_ne heq] using hw
      exact h.noUnmount ⟨r, w, hold, hpath⟩

theorem end_unmounts {path : String} (requests : List Nat) (h : Orphan s path) :
    ∃ es u, History (cleanStep t pathOf) s es u ∧ Orphan u path ∧ u.creates = s.creates ∧
      (∀ r, s.unmounts r = none → u.unmounts r = none) ∧ ∀ r ∈ requests, u.unmounts r = none := by
  induction requests generalizing s with
  | nil => exact ⟨[], s, .nil s, h, rfl, fun _ hr => hr, nofun⟩
  | cons request requests ih =>
      cases hv : s.unmounts request with
      | none =>
          obtain ⟨es, u, hes, hu, hcreates, hkeep, hdone⟩ := ih h
          refine ⟨es, u, hes, hu, hcreates, hkeep, ?_⟩
          intro r hr
          rcases List.mem_cons.mp hr with rfl | hr
          · exact hkeep r hv
          · exact hdone r hr
      | some v =>
          obtain ⟨es, u, hes, hu, hcreates, hunmounts⟩ := end_unmount h hv
          obtain ⟨fs, w, hfs, hw, hcreates', hkeep, hdone⟩ := ih hu
          refine ⟨es ++ fs, w, hes.append hfs, hw, hcreates'.trans hcreates, ?_, ?_⟩
          · intro r hr
            apply hkeep
            rw [hunmounts]
            by_cases heq : r = request
            · rw [heq, Function.update_self]
            · rw [Function.update_of_ne heq]
              exact hr
          · intro r hr
            rcases List.mem_cons.mp hr with rfl | hr
            · exact hkeep r (by rw [hunmounts, Function.update_self])
            · exact hdone r hr

/-- Only the requests of its events are in flight after a history. -/
theorem quiet_elsewhere {es : List MountEvent} (h : History (cleanStep t pathOf) s es s') :
    ∀ r, r ∉ es.map requestOf → s'.creates r = s.creates r ∧ s'.unmounts r = s.unmounts r := by
  induction h with
  | nil => exact fun _ _ => ⟨rfl, rfl⟩
  | cons head _ ih =>
      intro r hr
      rw [List.map_cons, List.mem_cons, not_or] at hr
      obtain ⟨hcreates, hunmounts⟩ := ih r hr.2
      have htidy := tidy_step head.1
      exact ⟨hcreates.trans (htidy.creates r hr.1), hunmounts.trans (htidy.unmounts r hr.1)⟩

/-- The manager has started: no request is in flight, and no filesystem of an
earlier request is known. -/
structure Fresh (s : MountManager) : Prop where
  started : Started s
  unmounts : ∀ request, s.unmounts request = none

theorem orphan_stays {s₀ : MountManager} (h₀ : Fresh s₀) {es : List MountEvent} {path : String}
    (hs : History (cleanStep t pathOf) s₀ es s) (h : Orphan s path) :
    ∃ es' u, History (cleanStep t pathOf) s es' u ∧ Quiet u ∧ ¬ NoOrphans u := by
  obtain ⟨es₁, u₁, hes₁, hu₁, hunmounts₁, hkeep₁, hdone₁⟩ := @end_creates t pathOf s path (es.map requestOf) h
  obtain ⟨es₂, u₂, hes₂, hu₂, hcreates₂, hkeep₂, hdone₂⟩ := @end_unmounts t pathOf u₁ path (es.map requestOf) hu₁
  refine ⟨es₁ ++ es₂, u₂, hes₁.append hes₂, ⟨?_, ?_⟩, fun hnone => hu₂.noRow (hnone path hu₂.live)⟩
  · intro r
    rw [hcreates₂]
    by_cases hr : r ∈ es.map requestOf
    · exact hdone₁ r hr
    · exact hkeep₁ r (((quiet_elsewhere hs r hr).1).trans (h₀.started.creates r))
  · intro r
    by_cases hr : r ∈ es.map requestOf
    · exact hdone₂ r hr
    · apply hkeep₂
      rw [hunmounts₁]
      exact ((quiet_elsewhere hs r hr).2).trans (h₀.unmounts r)

/-- Without requests in flight every live filesystem has its row if all steps
were in time, and the first step that is not leads to a state without requests
in flight in which one has none. -/
theorem no_orphan_mounts {s₀ : MountManager} (h₀ : Fresh s₀) :
    (∀ es s, History (meeting (cleanStep t pathOf) InTime) s₀ es s → Quiet s → NoOrphans s) ∧
    ∀ es s e s', History (meeting (cleanStep t pathOf) InTime) s₀ es s → cleanStep t pathOf s e s' → ¬ InTime s e →
      ∃ es' u, History (cleanStep t pathOf) s' es' u ∧ Quiet u ∧ ¬ NoOrphans u := by
  have hkeeps : ∀ es s, History (meeting (cleanStep t pathOf) InTime) s₀ es s →
      Covered s ∧ ((rows s).map ManagerArchiveMount.id).Nodup := by
    intro es s h
    refine h.invariant (fun s => Covered s ∧ ((rows s).map ManagerArchiveMount.id).Nodup) ⟨?_, h₀.started.ids⟩ ?_
    · rintro path ⟨-, r, hmem⟩
      rw [h₀.started.created] at hmem
      nomatch hmem
    · rintro a e b ⟨hcovered, hids⟩ ⟨hstep, htime⟩
      exact ⟨(covered_step_iff hcovered hids hstep).mpr htime, (tidy_step hstep.1).ids hids⟩
  refine ⟨?_, ?_⟩
  · intro es s h hquiet path hlive
    rcases (hkeeps es s h).1 path hlive with hrow | ⟨r, u, hu, -⟩
    · exact hrow
    · rw [hquiet.2 r] at hu
      nomatch hu
  · intro es s e s' h hstep htime
    obtain ⟨hcovered, hids⟩ := hkeeps es s h
    obtain ⟨path, horphan⟩ := exists_orphan (fun hc => htime ((covered_step_iff hcovered hids hstep).mp hc))
    exact orphan_stays h₀ (h.forget.snoc hstep) horphan

theorem startedMounts_fresh : Fresh startedMounts := ⟨startedMounts_started, fun _ => rfl⟩

abbrev sampleStep : Transition MountManager MountEvent := cleanStep sampleTopology samplePathOf

theorem quiet_of_history {es : List MountEvent} (h : History sampleStep startedMounts es s)
    (hcreates : ∀ r ∈ es.map requestOf, s.creates r = none) (hunmounts : ∀ r ∈ es.map requestOf, s.unmounts r = none) :
    Quiet s := by
  refine ⟨?_, ?_⟩ <;> intro r <;> by_cases hr : r ∈ es.map requestOf
  · exact hcreates r hr
  · exact (quiet_elsewhere h r hr).1
  · exact hunmounts r hr
  · exact (quiet_elsewhere h r hr).2

def mondayPath : String := samplePathOf 1 "monday"

/-- The archive is mounted in time. -/
def promptMount : List MountEvent := [.create 1 monday, .launch 1, .fuseUp 1 mondayPath, .returned 1, .finish 1]

def afterPromptMount : MountManager :=
  (exec (mountNext sampleTopology samplePathOf) startedMounts promptMount).get (by decide)

/-- The row is removed while the mount command is still on its way. -/
def removedMount : List MountEvent := [.create 1 monday, .launch 1, .unmount 2 1]

def afterRemovedMount : MountManager :=
  (exec (mountNext sampleTopology samplePathOf) startedMounts removedMount).get (by decide)

def afterLateFuse : MountManager :=
  (mountNext sampleTopology samplePathOf afterRemovedMount (.fuseUp 1 mondayPath)).get (by decide)

theorem removedMount_late : ¬ InTime afterRemovedMount (.fuseUp 1 mondayPath) := by
  rintro (⟨m, hm, -⟩ | ⟨r, u, hu, -⟩)
  · nomatch show m ∈ [] from hm
  · nomatch show none = some u from hu

theorem removedMount_history : History (meeting sampleStep InTime) startedMounts removedMount afterRemovedMount :=
  .cons ⟨⟨rfl, trivial⟩, trivial⟩ (.cons ⟨⟨rfl, trivial⟩, trivial⟩ (.cons ⟨⟨rfl, trivial⟩, trivial⟩ (.nil _)))

theorem lateFuse_step : sampleStep afterRemovedMount (.fuseUp 1 mondayPath) afterLateFuse :=
  ⟨(Option.some_get _).symm, trivial⟩

theorem no_orphan_mounts_prompt :
    NoOrphans afterPromptMount ∧
      ∃ es u, History sampleStep afterLateFuse es u ∧ Quiet u ∧ ¬ NoOrphans u := by
  have hmounts := @no_orphan_mounts sampleTopology samplePathOf _ startedMounts_fresh
  have hprompt : History (meeting sampleStep InTime) startedMounts promptMount afterPromptMount :=
    .cons ⟨⟨rfl, trivial⟩, trivial⟩ (.cons ⟨⟨rfl, trivial⟩, trivial⟩ (.cons ⟨⟨rfl, trivial⟩, .inl ⟨_, .head _, rfl⟩⟩
      (.cons ⟨⟨rfl, trivial⟩, trivial⟩ (.cons ⟨⟨rfl, trivial⟩, trivial⟩ (.nil _)))))
  have hquiet : Quiet afterPromptMount := by
    apply quiet_of_history hprompt.forget
    · decide
    · decide
  exact ⟨hmounts.1 _ _ hprompt hquiet, hmounts.2 _ _ _ _ removedMount_history lateFuse_step removedMount_late⟩

/-- The request sees that its row is gone and returns; the filesystem stays. -/
def lateMount : List MountEvent := removedMount ++ [.fuseUp 1 mondayPath, .returned 1, .cancelled 1]

def afterLateMount : MountManager :=
  (exec (mountNext sampleTopology samplePathOf) startedMounts lateMount).get (by decide)

theorem late_mount_is_orphan :
    ¬ ∀ s₀ es s, Fresh s₀ → History sampleStep s₀ es s → Quiet s → NoOrphans s := by
  intro hclaim
  have hlate : History sampleStep startedMounts lateMount afterLateMount :=
    .cons ⟨rfl, trivial⟩ (.cons ⟨rfl, trivial⟩ (.cons ⟨rfl, trivial⟩ (.cons ⟨rfl, trivial⟩
      (.cons ⟨rfl, trivial⟩ (.cons ⟨rfl, trivial⟩ (.nil _))))))
  have hquiet : Quiet afterLateMount := by
    apply quiet_of_history hlate
    · decide
    · decide
  obtain ⟨m, hm, -⟩ := hclaim _ _ _ startedMounts_fresh hlate hquiet mondayPath ⟨by decide, 1, .head _⟩
  nomatch show m ∈ [] from hm

end BorgManager.OrphanMounts
