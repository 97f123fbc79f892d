import BorgManager.FileSteps
import Mathlib.Data.List.Nodup

namespace BorgManager.RestoreExchange

open Blocks FileSteps

/-- What a restore exchanges: the components of a backup, and the files that SQLite
keeps beside its database. -/
inductive Component
  | managerDb
  | settingsJson
  | notificationsJson
  | ssh
  | repositorySsh
  | repositoryKeys
  | tls
  | security
  | borgCache
  | borgSecurity
  | managerDbWal
  | managerDbShm
  deriving DecidableEq

def restoreComponents : List Component :=
  [.managerDb, .settingsJson, .notificationsJson, .ssh, .repositorySsh, .repositoryKeys, .tls, .security, .borgCache,
    .borgSecurity]

/-- The prepared data, the data directory, and the two directories of the
transaction. -/
inductive Place
  | source
  | live
  | new
  | old
  deriving DecidableEq

abbrev Path := Place × Component

structure Transaction where
  changed : List Component
  installed : List Component
  rollbackErrors : List String
  keepTransaction : Bool

variable {α : Type}

abbrev RestoreProgram (α β : Type) := Program Path α Transaction β

/-- The copies that are made before live data is touched. -/
def prepare (host : Host Path α) : List Component → RestoreProgram α (List Component)
  | [] => pure []
  | component :: rest => do
      let files ← read Disk.files
      if files.holds (.source, component) then do
        copy host (.source, component) (.new, component)
        let components ← prepare host rest
        pure (component :: components)
      else do
        let components ← prepare host rest
        -- a backup without notification settings removes them
        pure (if component = .notificationsJson then component :: components else components)

def withSidecars (components : List Component) : List Component :=
  if Component.managerDb ∈ components then components ++ [.managerDbWal, .managerDbShm] else components

def moveAside (host : Host Path α) (component : Component) : RestoreProgram α Unit := do
  let files ← read Disk.files
  when (files (.live, component)).isSome (rename host (.live, component) (.old, component))

def install (host : Host Path α) (component : Component) : RestoreProgram α Unit := do
  let files ← read Disk.files
  when (files.holds (.new, component)) (do
    rename host (.new, component) (.live, component)
    setLocals (fun x => { x with installed := component :: x.installed }))

def exchange (host : Host Path α) (component : Component) : RestoreProgram α Unit := do
  moveAside host component
  setLocals (fun x => { x with changed := x.changed ++ [component] })
  install host component

def putBack (host : Host Path α) (component : Component) : RestoreProgram α Unit := do
  let files ← read Disk.files
  when (files (.old, component)).isSome (rename host (.old, component) (.live, component))

/-- What the rollback tries for a component. -/
def takeBack (host : Host Path α) (component : Component) : RestoreProgram α Unit := do
  let x ← read Disk.locals
  when (x.installed.contains component) (rename host (.live, component) (.new, component))
  putBack host component

def undo (host : Host Path α) (component : Component) : RestoreProgram α Unit :=
  tryExcept (takeBack host component) (fun e =>
    match e with
    | .osError text => setLocals (fun x => { x with rollbackErrors := x.rollbackErrors ++ [text] })
    | e => raise e)

def rollbackFailed (originalRoot : String) : Raised :=
  .runtimeError ("Wiederherstellung und Rücksetzen fehlgeschlagen; gesicherte Originaldateien unter " ++ originalRoot)

def rollback (host : Host Path α) (originalRoot : String) (e : Raised) : RestoreProgram α Unit := do
  let x ← read Disk.locals
  forEach x.changed.reverse (undo host)
  let x ← read Disk.locals
  if x.rollbackErrors = [] then raise e
  else do
    setLocals (fun x => { x with keepTransaction := true })
    raise (rollbackFailed originalRoot)

def removeTransaction (host : Host Path α) : RestoreProgram α Unit := do
  let x ← read Disk.locals
  when (!x.keepTransaction) (removeQuietly host (fun path => path.1 = .new || path.1 = .old))

/-- `apply_prepared_restore`. -/
def applyPreparedRestore (host : Host Path α) (originalRoot : String) (hasData : Bool) : RestoreProgram α Unit :=
  if hasData = false then raise (.valueError "Vorbereitete Wiederherstellung enthält keine Daten")
  else do
    -- the data directory, the transaction, and its two directories
    mkdir host
    mkdir host
    mkdir host
    mkdir host
    tryFinally (do
      let components ← prepare host restoreComponents
      tryExcept (forEach (withSidecars components) (exchange host)) (rollback host originalRoot))
      (removeTransaction host)
    removeQuietly host (fun path => path.1 = .source)

/-- A new transaction is empty. -/
def start (source live : Component → Option (Entry α)) : Disk Path α Transaction where
  files
    | (.source, component) => source component
    | (.live, component) => live component
    | (.new, _) => none
    | (.old, _) => none
  steps := 0
  locals := ⟨[], [], [], false⟩

/-- What a copy makes of an entry. -/
def fetched : Option (Entry α) → Option (Entry α)
  | some (.present content) => some (.present content)
  | _ => none

theorem holds_eq (files : Files Path α) (path : Path) : files.holds path = (fetched (files path)).isSome := by
  rw [Files.holds]
  cases files path with
  | none => rfl
  | some entry => cases entry <;> rfl

theorem fetched_of_holds {files : Files Path α} {path : Path} :
    fetched (files path) = if files.holds path then files path else none := by
  rw [Files.holds]
  cases files path with
  | none => rfl
  | some entry => cases entry <;> rfl

/-- The components that a backup holds, and the notification settings in any case. -/
def takes (source : Component → Option (Entry α)) (component : Component) : Bool :=
  (fetched (source component)).isSome || component == .notificationsJson

/-- What stands at a live path after a restore. -/
def restored (source live : Component → Option (Entry α)) (component : Component) : Option (Entry α) :=
  if component ∈ withSidecars (restoreComponents.filter (takes source)) then
    if component ∈ restoreComponents then fetched (source component) else none
  else live component

section Rules

variable {host : Host Path α} {component : Component} {s t : Disk Path α Transaction}

theorem moveAside_ends (hold : s.files (.old, component) = none) :
    Ends (moveAside host component) s (fun outcome t => t.locals = s.locals ∧
      match outcome with
      | .ok _ => t.files (.live, component) = none ∧ t.files (.old, component) = s.files (.live, component) ∧
          t.files (.new, component) = s.files (.new, component) ∧ Others component s t
      | .error _ => t.files = s.files) := by
  rw [moveAside, ends_bind, ends_read]
  apply ends_when.mpr
  constructor
  · intro _
    apply ends_rename
    · intro _
      refine ⟨rfl, ?_, ?_, ?_, ?_⟩
      · exact @move_from α _ _ _ _ component s.files .live .old nofun
      · exact move_target ..
      · exact @move_beside α _ _ _ _ component s.files .live .old .new nofun nofun
      · exact fun _ _ hother => others_move s.files .live .old hother
    · exact fun _ => ⟨rfl, rfl⟩
  · intro hnone
    rw [Option.isSome_eq_false_iff, Option.isNone_iff_eq_none] at hnone
    exact ⟨rfl, hnone, hold.trans hnone.symm, rfl, fun _ _ _ => rfl⟩

theorem install_ends (hlive : s.files (.live, component) = none) :
    Ends (install host component) s (fun outcome t =>
      match outcome with
      | .ok _ => t.files (.live, component) = fetched (s.files (.new, component)) ∧
          t.files (.old, component) = s.files (.old, component) ∧ Others component s t ∧
            (t.locals = s.locals ∧ t.files (.live, component) = none ∨
              t.locals = { s.locals with installed := component :: s.locals.installed })
      | .error _ => t.files = s.files ∧ t.locals = s.locals) := by
  rw [install, ends_bind, ends_read]
  apply ends_when.mpr
  constructor
  · intro hnew
    rw [ends_bind]
    apply ends_rename
    · intro _
      refine ⟨?_, ?_, ?_, .inr rfl⟩
      · exact (move_target ..).trans ((if_pos hnew).symm.trans fetched_of_holds.symm)
      · exact @move_beside α _ _ _ _ component s.files .new .live .old nofun nofun
      · exact fun _ _ hother => others_move s.files .new .live hother
    · exact fun _ => ⟨rfl, rfl⟩
  · intro hnew
    refine ⟨?_, rfl, fun _ _ _ => rfl, .inl ⟨rfl, hlive⟩⟩
    rw [hlive, fetched_of_holds, hnew]
    rfl

/-- A component that has been changed can be taken back: its original is kept, and
where nothing has been installed nothing stands. -/
def Reversible (original : Option (Entry α)) (component : Component) (s : Disk Path α Transaction) : Prop :=
  s.files (.old, component) = original ∧ (component ∉ s.locals.installed → s.files (.live, component) = none)

theorem putBack_ends {original : Option (Entry α)} (hold : s.files (.old, component) = original)
    (hlive : s.files (.live, component) = none) :
    Ends (putBack host component) s (fun outcome t => t.locals = s.locals ∧ Others component s t ∧
      match outcome with
      | .ok _ => t.files (.live, component) = original
      | .error e => t.files (.old, component) = original ∧ ∃ text, e = .osError text) := by
  rw [putBack, ends_bind, ends_read]
  apply ends_when.mpr
  constructor
  · intro _
    apply ends_rename
    · intro _
      exact ⟨rfl, fun _ _ hother => others_move s.files .old .live hother, (move_target ..).trans hold⟩
    · exact fun text => ⟨rfl, fun _ _ _ => rfl, hold, text, rfl⟩
  · intro hnone
    rw [Option.isSome_eq_false_iff, Option.isNone_iff_eq_none] at hnone
    exact ⟨rfl, fun _ _ _ => rfl, hlive.trans (hnone.symm.trans hold)⟩

theorem takeBack_ends {original : Option (Entry α)} (h : Reversible original component s) :
    Ends (takeBack host component) s (fun outcome t => t.locals = s.locals ∧ Others component s t ∧
      match outcome with
      | .ok _ => t.files (.live, component) = original
      | .error e => t.files (.old, component) = original ∧ ∃ text, e = .osError text) := by
  obtain ⟨hold, hlive⟩ := h
  rw [takeBack, ends_bind, ends_read]
  change Ends (when (s.locals.installed.contains component)
    (rename host (.live, component) (.new, component)) >>= _) s _
  rw [ends_bind, ends_when]
  constructor
  · intro _
    apply ends_rename
    · intro _
      have hempty := @move_from α _ _ _ _ component s.files .live .new nofun
      have hkept := (@move_beside α _ _ _ _ component s.files .live .new .old nofun nofun).trans hold
      apply ends_mono (putBack_ends (s := s.after (s.files.move (.live, component) (.new, component))) hkept hempty)
      rintro outcome t ⟨hlocals, hothers, houtcome⟩
      refine ⟨hlocals, ?_, houtcome⟩
      exact fun place other hother => (hothers place other hother).trans (others_move s.files .live .new hother)
    · exact fun text => ⟨rfl, fun _ _ _ => rfl, hold, text, rfl⟩
  · intro hinstalled
    have hempty := hlive (fun hmem => Bool.false_ne_true (hinstalled.symm.trans (List.contains_iff_mem.mpr hmem)))
    exact putBack_ends hold hempty

/-- A component is taken back, or an error is noted and its original is kept. -/
theorem undo_ends {original : Option (Entry α)} (h : Reversible original component s) :
    Ends (undo host component) s (fun outcome t => outcome = .ok () ∧ Others component s t ∧
      ((t.locals = s.locals ∧ t.files (.live, component) = original) ∨
        ∃ text, t.locals = { s.locals with rollbackErrors := s.locals.rollbackErrors ++ [text] } ∧
          t.files (.old, component) = original)) := by
  rw [undo, ends_tryExcept]
  apply ends_mono (takeBack_ends h)
  rintro outcome t ⟨hlocals, hothers, houtcome⟩
  cases outcome with
  | ok _ => exact ⟨rfl, hothers, .inl ⟨hlocals, houtcome⟩⟩
  | error e =>
      obtain ⟨hold, text, rfl⟩ := houtcome
      refine ⟨rfl, hothers, .inr ⟨text, ?_, hold⟩⟩
      rw [← hlocals]
      rfl

/-- What an exchange has done can be undone: the components that it has changed can
be taken back, and the others stand where they stood. -/
structure Swapped (live : Component → Option (Entry α)) (s : Disk Path α Transaction) : Prop where
  reversible : ∀ c ∈ s.locals.changed, Reversible (live c) c s
  kept : ∀ c, c ∉ s.locals.changed → s.files (.live, c) = live c ∧ s.files (.old, c) = none ∧ c ∉ s.locals.installed
  nodup : s.locals.changed.Nodup
  errors : s.locals.rollbackErrors = []
  keep : s.locals.keepTransaction = false

variable {live : Component → Option (Entry α)}

theorem Swapped.of_eq (h : Swapped live s) (hlocals : t.locals = s.locals) (hfiles : t.files = s.files) :
    Swapped live t where
  reversible := by
    rw [hlocals]
    intro c hc
    rw [Reversible, hlocals, hfiles]
    exact h.reversible c hc
  kept := by
    rw [hlocals, hfiles]
    exact h.kept
  nodup := hlocals ▸ h.nodup
  errors := hlocals ▸ h.errors
  keep := hlocals ▸ h.keep

/-- A component joins the changed ones. -/
theorem Swapped.cons (h : Swapped live s) (hc : component ∉ s.locals.changed)
    (hchanged : t.locals.changed = s.locals.changed ++ [component])
    (hinstalled : ∀ c, c ≠ component → (c ∈ t.locals.installed ↔ c ∈ s.locals.installed))
    (hquiet : t.locals.rollbackErrors = s.locals.rollbackErrors ∧ t.locals.keepTransaction = s.locals.keepTransaction)
    (hreversible : Reversible (live component) component t) (hothers : Others component s t) : Swapped live t where
  reversible := by
    intro c hmem
    rw [hchanged, List.mem_append, List.mem_singleton] at hmem
    by_cases heq : c = component
    · exact heq ▸ hreversible
    · obtain ⟨hold, hlive⟩ := h.reversible c (hmem.resolve_right heq)
      refine ⟨(hothers _ _ heq).trans hold, fun hnot => (hothers _ _ heq).trans (hlive ?_)⟩
      exact fun hin => hnot ((hinstalled c heq).mpr hin)
  kept := by
    intro c hmem
    rw [hchanged, List.mem_append, List.mem_singleton, not_or] at hmem
    obtain ⟨hlive, hold, hinst⟩ := h.kept c hmem.1
    exact ⟨(hothers _ _ hmem.2).trans hlive, (hothers _ _ hmem.2).trans hold, fun hin =>
      hinst ((hinstalled c hmem.2).mp hin)⟩
  nodup := by
    rw [hchanged]
    exact List.nodup_append.mpr ⟨h.nodup, List.pairwise_singleton _ _,
      fun a ha b hb heq => hc (List.mem_singleton.mp hb ▸ heq ▸ ha)⟩
  errors := hquiet.1.trans h.errors
  keep := hquiet.2.trans h.keep

theorem exchange_ends (h : Swapped live s) (hc : component ∉ s.locals.changed) :
    Ends (exchange host component) s (fun outcome t => Swapped live t ∧
      match outcome with
      | .ok _ => t.locals.changed = s.locals.changed ++ [component] ∧
          t.files (.live, component) = fetched (s.files (.new, component)) ∧ Others component s t
      | .error _ => True) := by
  obtain ⟨hlive, hold, hnot⟩ := h.kept component hc
  rw [exchange, ends_bind]
  apply ends_mono (moveAside_ends hold)
  rintro outcome t ⟨hlocals, houtcome⟩
  cases outcome with
  | error e => exact ⟨h.of_eq hlocals houtcome, trivial⟩
  | ok _ =>
      obtain ⟨hempty, hkept, hnew, hothers⟩ := houtcome
      rw [hlive] at hkept
      change Ends (setLocals _ >>= fun _ => install host component) t _
      rw [ends_bind, ends_setLocals]
      let marked : Disk Path α Transaction :=
        { t with locals := { t.locals with changed := t.locals.changed ++ [component] } }
      have hmarked : marked.locals = { s.locals with changed := s.locals.changed ++ [component] } := by
        change { t.locals with changed := t.locals.changed ++ [component] } = _
        rw [hlocals]
      apply ends_mono (@install_ends α host component marked hempty)
      intro outcome u houtcome
      cases outcome with
      | error e =>
          obtain ⟨hfiles, hlocals'⟩ := houtcome
          rw [hmarked] at hlocals'
          refine ⟨h.cons hc ?_ ?_ ?_ ⟨?_, ?_⟩ ?_, trivial⟩
          · rw [hlocals']
          · intro c _
            rw [hlocals']
          · rw [hlocals']
            exact ⟨rfl, rfl⟩
          · rw [hfiles]
            exact hkept
          · intro _
            rw [hfiles]
            exact hempty
          · intro place other hother
            rw [hfiles]
            exact hothers place other hother
      | ok _ =>
          obtain ⟨hlive', hold', hothers', hlocals'⟩ := houtcome
          rw [hmarked] at hlocals'
          have hboth : Others component s u := fun place other hother =>
            (hothers' place other hother).trans (hothers place other hother)
          have hnew' : fetched (marked.files (.new, component)) = fetched (s.files (.new, component)) :=
            congrArg fetched hnew
          rcases hlocals' with ⟨hlocals', hnone⟩ | hlocals'
          · refine ⟨h.cons hc ?_ ?_ ?_ ⟨hold'.trans hkept, fun _ => hnone⟩ hboth, ?_, hlive'.trans hnew', hboth⟩
            · rw [hlocals']
            · intro c _
              rw [hlocals']
            · rw [hlocals']
              exact ⟨rfl, rfl⟩
            · rw [hlocals']
          · refine ⟨h.cons hc ?_ ?_ ?_ ⟨hold'.trans hkept, ?_⟩ hboth, ?_, hlive'.trans hnew', hboth⟩
            · rw [hlocals']
            · intro c hne
              rw [hlocals', List.mem_cons]
              exact or_iff_right hne
            · rw [hlocals']
              exact ⟨rfl, rfl⟩
            · intro hin
              rw [hlocals'] at hin
              exact absurd (List.mem_cons_self ..) hin
            · rw [hlocals']

/-- The components that a rollback still has to take back, and what it has made of
the others. -/
structure RollingBack (live : Component → Option (Entry α)) (rest : List Component)
  (s : Disk Path α Transaction) : Prop where
  pending : ∀ c ∈ rest, Reversible (live c) c s
  restored : s.locals.rollbackErrors = [] → ∀ c, c ∉ rest → s.files (.live, c) = live c
  saved : ∀ c, c ∉ rest → s.files (.live, c) = live c ∨ s.files (.old, c) = live c
  nodup : rest.Nodup
  keep : s.locals.keepTransaction = false

theorem Swapped.rollingBack (h : Swapped live s) : RollingBack live s.locals.changed.reverse s where
  pending c hc := h.reversible c (List.mem_reverse.mp hc)
  restored _ c hc := (h.kept c (fun hin => hc (List.mem_reverse.mpr hin))).1
  saved c hc := .inl (h.kept c (fun hin => hc (List.mem_reverse.mpr hin))).1
  nodup := List.nodup_reverse.mpr h.nodup
  keep := h.keep

theorem Reversible.of_others {original : Option (Entry α)} {other : Component} (h : Reversible original other s)
    (hother : other ≠ component) (hothers : Others component s t)
    (hinstalled : t.locals.installed = s.locals.installed) :
    Reversible original other t :=
  ⟨(hothers _ _ hother).trans h.1, fun hnot => (hothers _ _ hother).trans (h.2 (hinstalled ▸ hnot))⟩

theorem RollingBack.undo {rest : List Component} (h : RollingBack live (component :: rest) s) :
    Ends (undo host component) s (fun outcome t => outcome = .ok () ∧ RollingBack live rest t) := by
  obtain ⟨hfresh, hnodup⟩ := List.nodup_cons.mp h.nodup
  apply ends_mono (undo_ends (h.pending component (List.mem_cons_self ..)))
  rintro outcome t ⟨rfl, hothers, hdone⟩
  have hpending (hinstalled : t.locals.installed = s.locals.installed) : ∀ c ∈ rest, Reversible (live c) c t := by
    intro c hc
    have hne : c ≠ component := fun heq => hfresh (heq ▸ hc)
    exact (h.pending c (List.mem_cons_of_mem _ hc)).of_others hne hothers hinstalled
  have hsaved {c : Component} (hne : c ≠ component) (hc : c ∉ rest) :
      t.files (.live, c) = live c ∨ t.files (.old, c) = live c := by
    rw [hothers _ _ hne, hothers _ _ hne]
    exact h.saved c (fun hin => (List.mem_cons.mp hin).elim hne hc)
  rcases hdone with ⟨hlocals, hlive⟩ | ⟨text, hlocals, hold⟩
  · refine ⟨rfl, hpending (by rw [hlocals]), ?_, ?_, hnodup, hlocals ▸ h.keep⟩
    · intro herrors c hc
      by_cases heq : c = component
      · exact heq ▸ hlive
      · rw [hlocals] at herrors
        exact (hothers _ _ heq).trans (h.restored herrors c (fun hin => (List.mem_cons.mp hin).elim heq hc))
    · intro c hc
      by_cases heq : c = component
      · exact .inl (heq ▸ hlive)
      · exact hsaved heq hc
  · refine ⟨rfl, hpending (by rw [hlocals]), ?_, ?_, hnodup, ?_⟩
    · intro herrors
      rw [hlocals] at herrors
      exact absurd herrors (List.append_ne_nil_of_right_ne_nil _ (List.cons_ne_nil _ _))
    · intro c hc
      by_cases heq : c = component
      · exact .inr (heq ▸ hold)
      · exact hsaved heq hc
    · rw [hlocals]
      exact h.keep

/-- How a rollback ends. -/
def RolledBack (live : Component → Option (Entry α)) (originalRoot : String) (outcome : Except Raised Unit)
    (t : Disk Path α Transaction) : Prop :=
  (∃ e, outcome = .error e) ∧
    (t.locals.rollbackErrors = [] → t.locals.keepTransaction = false ∧ ∀ c, t.files (.live, c) = live c) ∧
      (t.locals.rollbackErrors ≠ [] → t.locals.keepTransaction = true ∧ outcome = .error (rollbackFailed originalRoot) ∧
        ∀ c, t.files (.live, c) = live c ∨ t.files (.old, c) = live c)

theorem rollback_ends (h : Swapped live s) (originalRoot : String) (e : Raised) :
    Ends (rollback host originalRoot e) s (RolledBack live originalRoot) := by
  rw [rollback, ends_bind, ends_read]
  change Ends (forEach s.locals.changed.reverse (undo host) >>= _) s _
  rw [ends_bind]
  apply ends_mono (ends_forEach (I := RollingBack live) (E := fun _ _ => False) _ h.rollingBack)
  · rintro outcome t (⟨rfl, ht⟩ | ⟨_, _, hfalse⟩)
    · have hmem (c : Component) : c ∉ [] := List.not_mem_nil
      change Ends (if t.locals.rollbackErrors = [] then raise e else _) t _
      split
      · next herrors =>
          exact ⟨⟨e, rfl⟩, fun _ => ⟨ht.keep, fun c => ht.restored herrors c (hmem c)⟩, fun hne => absurd herrors hne⟩
      · next herrors =>
          exact ⟨⟨_, rfl⟩, fun hnil => absurd hnil herrors, fun _ => ⟨rfl, rfl, fun c => ht.saved c (hmem c)⟩⟩
    · exact absurd hfalse id
  · intro c rest t ht
    exact ends_mono (@RollingBack.undo α host c t live rest ht) (fun _ _ hu => .inl hu)

theorem prepare_ends (components : List Component) :
    Ends (prepare host components) s (fun outcome t => t.locals = s.locals ∧
      (∀ place c, place ≠ .new → t.files (place, c) = s.files (place, c)) ∧
        match outcome with
        | .ok prepared => prepared = components.filter (takes (fun c => s.files (.source, c))) ∧
            ∀ c, t.files (.new, c) =
              if c ∈ components ∧ (fetched (s.files (.source, c))).isSome then s.files
                (.source, c) else s.files (.new, c)
        | .error _ => True) := by
  induction components generalizing s with
  | nil =>
      refine ⟨rfl, fun _ _ _ => rfl, rfl, fun c => ?_⟩
      rw [if_neg (fun h => absurd h.1 List.not_mem_nil)]
      rfl
  | cons component rest ih =>
      rw [prepare, ends_bind, ends_read]
      change Ends (if s.files.holds (.source, component) then _ else _) s _
      rw [holds_eq]
      by_cases hholds : (fetched (s.files (.source, component))).isSome = true
      · have htakes : takes (fun c => s.files (.source, c)) component = true := Bool.or_eq_true_iff.mpr (.inl hholds)
        rw [if_pos hholds, ends_bind]
        apply ends_copy
        · intro content hcontent
          let t : Disk Path α Transaction :=
            s.after (Function.update s.files (.new, component) (some (.present content)))
          have hframe : ∀ place c, place ≠ .new → t.files (place, c) = s.files (place, c) := fun place c hplace =>
            Function.update_of_ne (fun heq => hplace (congrArg Prod.fst heq)) ..
          have hsource : (fun c => t.files (.source, c)) = fun c => s.files (.source, c) := by
            funext c
            exact hframe .source c nofun
          change Ends (prepare host rest >>= _) t _
          rw [ends_bind]
          apply ends_mono (ih (s := t))
          rintro outcome u ⟨hlocals, hkept, houtcome⟩
          cases outcome with
          | error e => exact ⟨hlocals, fun place c hplace =>
            (hkept place c hplace).trans (hframe place c hplace), trivial⟩
          | ok prepared =>
              obtain ⟨rfl, hnew⟩ := houtcome
              refine ⟨hlocals, fun place c hplace => (hkept place c hplace).trans (hframe place c hplace), ?_, ?_⟩
              · rw [hsource, List.filter_cons_of_pos htakes]
              · intro c
                change u.files (.new, c) = _
                rw [hnew c, hframe .source c nofun]
                by_cases heq : c = component
                · subst heq
                  have hupdated : t.files (.new, c) = s.files (.source, c) := by
                    rw [hcontent]
                    exact Function.update_self ..
                  rw [hupdated, ite_self, if_pos ⟨List.mem_cons_self .., hholds⟩]
                · have hother : t.files (.new, c) = s.files (.new, c) :=
                    Function.update_of_ne (fun h => heq (congrArg Prod.snd h)) ..
                  rw [hother]
                  exact if_congr (and_congr_left fun _ => by rw [List.mem_cons, or_iff_right heq]) rfl rfl
        · intro text left
          exact ⟨rfl, fun place c hplace =>
            Function.update_of_ne (fun heq => hplace (congrArg Prod.fst heq)) .., trivial⟩
      · rw [if_neg hholds, ends_bind]
        apply ends_mono ih
        rintro outcome u ⟨hlocals, hkept, houtcome⟩
        cases outcome with
        | error e => exact ⟨hlocals, hkept, trivial⟩
        | ok prepared =>
            obtain ⟨rfl, hnew⟩ := houtcome
            refine ⟨hlocals, hkept, ?_, ?_⟩
            · by_cases heq : component = .notificationsJson
              · have htakes : takes (fun c => s.files (.source, c)) component = true :=
                  Bool.or_eq_true_iff.mpr (.inr (beq_iff_eq.mpr heq))
                rw [if_pos heq, List.filter_cons_of_pos htakes]
              · rw [if_neg heq, List.filter_cons_of_neg]
                intro htakes
                exact (Bool.or_eq_true_iff.mp htakes).elim hholds (fun h => heq (beq_iff_eq.mp h))
            · intro c
              change u.files (.new, c) = _
              rw [hnew c]
              refine if_congr ⟨fun h => ⟨List.mem_cons_of_mem _ h.1, h.2⟩, ?_⟩ rfl rfl
              rintro ⟨hmem, hc⟩
              rcases List.mem_cons.mp hmem with rfl | hmem
              · exact absurd hc hholds
              · exact ⟨hmem, hc⟩

/-- What an exchange still has to do, and what stands where it has been. -/
structure Exchanging (source live : Component → Option (Entry α)) (components rest : List Component)
    (s : Disk Path α Transaction) : Prop where
  swapped : Swapped live s
  order : s.locals.changed ++ rest = components
  waiting : ∀ c ∈ rest, fetched (s.files (.new, c)) = if c ∈ restoreComponents then fetched (source c) else none
  arrived : ∀ c ∈ s.locals.changed, s.files (.live, c) = if c ∈ restoreComponents then fetched (source c) else none

variable {source : Component → Option (Entry α)} {components rest : List Component}

theorem Exchanging.exchange (h : Exchanging source live components (component :: rest) s) (hnodup : components.Nodup) :
    Ends (exchange host component) s (fun outcome t =>
      (outcome = .ok () ∧ Exchanging source live components rest t) ∨ ∃ e, outcome = .error e ∧ Swapped live t) := by
  rw [← h.order, List.nodup_append] at hnodup
  obtain ⟨-, hrest, hdisjoint⟩ := hnodup
  have hfresh : component ∉ s.locals.changed := fun hin => hdisjoint component hin component (List.mem_cons_self ..) rfl
  apply ends_mono (exchange_ends h.swapped hfresh)
  rintro outcome t ⟨hswapped, houtcome⟩
  cases outcome with
  | error e => exact .inr ⟨e, rfl, hswapped⟩
  | ok _ =>
      obtain ⟨hchanged, hlive, hothers⟩ := houtcome
      refine .inl ⟨rfl, hswapped, ?_, ?_, ?_⟩
      · rw [hchanged, List.append_assoc]
        exact h.order
      · intro c hc
        have hne : c ≠ component := fun heq => (List.nodup_cons.mp hrest).1 (heq ▸ hc)
        rw [hothers _ _ hne]
        exact h.waiting c (List.mem_cons_of_mem _ hc)
      · intro c hc
        rw [hchanged, List.mem_append, List.mem_singleton] at hc
        by_cases heq : c = component
        · subst heq
          rw [hlive]
          exact h.waiting c (List.mem_cons_self ..)
        · rw [hothers _ _ heq]
          exact h.arrived c (hc.resolve_right heq)

theorem withSidecars_nodup (p : Component → Bool) : (withSidecars (restoreComponents.filter p)).Nodup := by
  have hall : (restoreComponents ++ [Component.managerDbWal, .managerDbShm]).Nodup := by decide
  have hfilter : (restoreComponents.filter p).Sublist restoreComponents := List.filter_sublist
  rw [withSidecars]
  split
  · exact hall.sublist (hfilter.append (List.Sublist.refl _))
  · exact (List.nodup_append.mp hall).1.sublist hfilter

/-- A new transaction, before anything has been copied. -/
structure Fresh (source live : Component → Option (Entry α)) (s : Disk Path α Transaction) : Prop where
  source : ∀ c, s.files (.source, c) = source c
  live : ∀ c, s.files (.live, c) = live c
  new : ∀ c, s.files (.new, c) = none
  old : ∀ c, s.files (.old, c) = none
  locals : s.locals = ⟨[], [], [], false⟩

theorem Fresh.swapped (h : Fresh source live s) (hlocals : t.locals = s.locals)
    (hframe : ∀ place c, place ≠ .new → t.files (place, c) = s.files (place, c)) : Swapped live t := by
  rw [h.locals] at hlocals
  refine ⟨?_, ?_, ?_, ?_, ?_⟩
  · rw [hlocals]
    exact fun c hc => absurd hc List.not_mem_nil
  · intro c _
    refine ⟨(hframe .live c nofun).trans (h.live c), (hframe .old c nofun).trans (h.old c), ?_⟩
    rw [hlocals]
    exact List.not_mem_nil
  · rw [hlocals]
    exact List.nodup_nil
  · rw [hlocals]
  · rw [hlocals]

/-- Either everything of a backup is live, or the rollback has ended. -/
theorem restore_ends (h : Fresh source live s) (originalRoot : String) :
    Ends (do
      let components ← prepare host restoreComponents
      tryExcept (forEach (withSidecars components) (exchange host)) (rollback host originalRoot)) s (fun outcome t =>
        (outcome = .ok () ∧ t.locals.keepTransaction = false ∧ ∀ c, t.files (.live, c) = restored source live c) ∨
          RolledBack live originalRoot outcome t) := by
  have hsource : (fun c => s.files (.source, c)) = source := funext h.source
  rw [ends_bind]
  apply ends_mono (prepare_ends restoreComponents)
  rintro outcome t ⟨hlocals, hframe, houtcome⟩
  have hswapped := h.swapped hlocals hframe
  cases outcome with
  | error e =>
      refine .inr ⟨⟨e, rfl⟩, fun _ => ⟨hswapped.keep, fun c => (hframe .live c nofun).trans (h.live c)⟩, ?_⟩
      exact fun hne => absurd hswapped.errors hne
  | ok components =>
      obtain ⟨rfl, hnew⟩ := houtcome
      rw [hsource]
      have hstart : Exchanging source live (withSidecars (restoreComponents.filter (takes source)))
          (withSidecars (restoreComponents.filter (takes source))) t := by
        have hchanged : t.locals.changed = [] := by rw [hlocals, h.locals]
        refine ⟨hswapped, by rw [hchanged, List.nil_append], ?_, ?_⟩
        · intro c _
          rw [hnew c, h.source, h.new]
          by_cases hmem : c ∈ restoreComponents
          · rw [if_pos hmem]
            split
            · rfl
            · next hnone => exact (Option.not_isSome_iff_eq_none.mp (fun hsome => hnone ⟨hmem, hsome⟩)).symm
          · rw [if_neg hmem, if_neg (fun h => hmem h.1)]
            rfl
        · rw [hchanged]
          exact fun c hc => absurd hc List.not_mem_nil
      change Ends (tryExcept _ _) t _
      rw [ends_tryExcept]
      apply ends_mono (ends_forEach (fun c rest u hu => hu.exchange (withSidecars_nodup _)) hstart)
      rintro outcome u (⟨rfl, hu⟩ | ⟨e, rfl, hu⟩)
      · have hchanged : u.locals.changed = withSidecars (restoreComponents.filter (takes source)) := by
          rw [← hu.order, List.append_nil]
        refine .inl ⟨rfl, hu.swapped.keep, fun c => ?_⟩
        rw [restored, ← hchanged]
        split
        · next hmem => exact hu.arrived c hmem
        · next hmem => exact (hu.swapped.kept c hmem).1
      · exact ends_mono (rollback_ends hu originalRoot e) (fun _ _ hrolled => .inr hrolled)

theorem removeTransaction_ends :
    Ends (removeTransaction host) s (fun outcome t => outcome = .ok () ∧ t.locals = s.locals ∧
    (∀ c, t.files (.live, c) = s.files (.live, c)) ∧ (s.locals.keepTransaction = true → t.files = s.files)) := by
  rw [removeTransaction, ends_bind, ends_read]
  change Ends (when (!s.locals.keepTransaction) _) s _
  apply ends_when.mpr
  constructor
  · intro hkeep
    have hleft (left : Files Path α) : Except.ok () = (Except.ok () : Except Raised Unit) ∧ s.locals = s.locals ∧
        (∀ c, s.files.within (fun path => path.1 = .new || path.1 = .old) left (.live, c) = s.files (.live, c)) ∧
          (s.locals.keepTransaction = true → s.files.within (fun path => path.1 = .new || path.1 = .old) left =
            s.files) := by
      refine ⟨rfl, rfl, fun c => within_outside _ _ rfl, fun htrue => ?_⟩
      rw [htrue] at hkeep
      nomatch hkeep
    apply ends_removeQuietly
    · exact hleft _
    · exact fun left _ => hleft left
  · exact fun _ => ⟨rfl, rfl, fun _ => rfl, fun _ => rfl⟩

theorem Fresh.mkdir (h : Fresh source live s) {next : RestoreProgram α Unit}
    {Q : Except Raised Unit → Disk Path α Transaction → Prop}
    (herror : ∀ e t, Fresh source live t → Q (.error e) t) (hnext : ∀ t, Fresh source live t → Ends next t Q) :
    Ends (mkdir host >>= fun _ => next) s Q := by
  rw [ends_bind]
  apply ends_mkdir
  · exact hnext _ ⟨h.source, h.live, h.new, h.old, h.locals⟩
  · exact fun text => herror _ _ ⟨h.source, h.live, h.new, h.old, h.locals⟩

/-- All or nothing: a restore has taken over everything, or it has failed and
taken back everything, or it says that it could not and keeps the originals. -/
def AllOrNothing (source live : Component → Option (Entry α)) (originalRoot : String) (outcome : Except Raised Unit)
    (t : Disk Path α Transaction) : Prop :=
  (outcome = .ok () ∧ ∀ c, t.files (.live, c) = restored source live c) ∨
    ((∃ e, outcome = .error e) ∧
      (t.locals.rollbackErrors = [] → ∀ c, t.files (.live, c) = live c) ∧
        (t.locals.rollbackErrors ≠ [] → outcome = .error (rollbackFailed originalRoot) ∧
          ∀ c, t.files (.live, c) = live c ∨ t.files (.old, c) = live c))

theorem Fresh.failed (h : Fresh source live s) (originalRoot : String) (e : Raised) :
    AllOrNothing source live originalRoot (.error e) s :=
  .inr ⟨⟨e, rfl⟩, fun _ => h.live, fun hne => absurd (by rw [h.locals]) hne⟩

end Rules

/-- A restore has taken over everything, or nothing; where it cannot undo what it
has done it says so and keeps the originals. -/
theorem restore_all_or_nothing (host : Host Path α) (originalRoot : String) (hasData : Bool)
    (source live : Component → Option (Entry α)) :
    Ends (applyPreparedRestore host originalRoot hasData) (start source live)
      (AllOrNothing source live originalRoot) := by
  have hstart : Fresh source live (start source live) := ⟨fun _ => rfl, fun _ => rfl, fun _ => rfl, fun _ => rfl, rfl⟩
  have hfailed (e : Raised) (t : Disk Path α Transaction) (ht : Fresh source live t) := ht.failed originalRoot e
  rw [applyPreparedRestore]
  split
  · exact hfailed _ _ hstart
  apply hstart.mkdir hfailed
  intro s hs
  apply hs.mkdir hfailed
  intro s hs
  apply hs.mkdir hfailed
  intro s hs
  apply hs.mkdir hfailed
  intro s hs
  rw [ends_bind, ends_tryFinally]
  apply ends_mono (restore_ends hs originalRoot)
  intro outcome t ht
  apply ends_mono removeTransaction_ends
  rintro ended u ⟨rfl, hlocals, hlive, hkept⟩
  rcases ht with ⟨rfl, -, hrestored⟩ | ⟨⟨e, rfl⟩, hundone, hsaved⟩
  · have hleft (left : Files Path α) (c : Component) :
        u.files.within (fun path => path.1 = .source) left (.live, c) = restored source live c := by
      rw [within_outside _ _ rfl, hlive, hrestored]
    apply ends_removeQuietly
    · exact .inl ⟨rfl, hleft (fun _ => none)⟩
    · exact fun left _ => .inl ⟨rfl, hleft left⟩
  · rw [← hlocals] at hundone hsaved
    refine .inr ⟨⟨e, rfl⟩, fun herrors c => (hlive c).trans ((hundone herrors).2 c), fun herrors => ?_⟩
    obtain ⟨hkeep, houtcome, hplaces⟩ := hsaved herrors
    rw [hlocals] at hkeep
    rw [hkept hkeep]
    exact ⟨houtcome, hplaces⟩

end BorgManager.RestoreExchange
