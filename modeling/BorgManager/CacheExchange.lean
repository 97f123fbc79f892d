import BorgManager.FileSteps
import Mathlib.Data.List.Nodup

namespace BorgManager.CacheExchange

open Blocks FileSteps

/-- The two directories of the manager that a cache backup restores. -/
inductive Area
  | cache
  | security
  deriving DecidableEq

/-- What has been extracted, the directory of the manager, and the name under
which its previous content is retained. -/
inductive Place
  | incoming
  | target
  | previous
  deriving DecidableEq

abbrev Path := Place × Area

structure Swap where
  movedPrevious : List Area
  installed : List Area

variable {α : Type}

abbrev CacheProgram (α β : Type) := Program Path α Swap β

def pairs : List Area := [.cache, .security]

def dropPrevious (host : Host Path α) (area : Area) : CacheProgram α Unit := do
  let files ← read Disk.files
  when (files.holds (.previous, area)) (remove host (fun path => path = (.previous, area)))

def movePrevious (host : Host Path α) (area : Area) : CacheProgram α Unit := do
  let files ← read Disk.files
  when (files.holds (.target, area)) (do
    rename host (.target, area) (.previous, area)
    setLocals (fun x => { x with movedPrevious := x.movedPrevious ++ [area] }))

def installIncoming (host : Host Path α) (area : Area) : CacheProgram α Unit := do
  mkdir host
  rename host (.incoming, area) (.target, area)
  setLocals (fun x => { x with installed := x.installed ++ [area] })

def swap (host : Host Path α) (area : Area) : CacheProgram α Unit := do
  dropPrevious host area
  movePrevious host area
  installIncoming host area

/-- What has been installed is removed, a directory without regard to errors. -/
def discard (host : Host Path α) (isDir : α → Bool) (area : Area) : CacheProgram α Unit := do
  let files ← read Disk.files
  match files (.target, area) with
  | some (.present content) =>
      if isDir content then removeQuietly host (fun path => path = (.target, area))
      else remove host (fun path => path = (.target, area))
  | _ => pure ()

def moveBack (host : Host Path α) (area : Area) : CacheProgram α Unit := do
  let files ← read Disk.files
  when (files.holds (.previous, area) && !files.holds (.target, area)) (rename host (.previous, area) (.target, area))

def takeBack (host : Host Path α) (isDir : α → Bool) (e : Raised) : CacheProgram α Unit := do
  let x ← read Disk.locals
  forEach x.installed.reverse (discard host isDir)
  forEach x.movedPrevious.reverse (moveBack host)
  raise e

abbrev Report := Area → Option Path

/-- The previous paths that are reported. -/
def reported (files : Files Path α) : Report := fun area =>
  if files.holds (.previous, area) then some (.previous, area) else none

/-- `restore_manager_borg_cache_from_backup`, once the backup has been extracted or
has turned out not to be usable. -/
def restoreManagerBorgCache (host : Host Path α) (isDir : α → Bool) (extracted : Except Raised Unit) :
    CacheProgram α Report :=
  tryFinally (do
    effect extracted
    tryExcept (forEach pairs (swap host)) (takeBack host isDir)
    let files ← read Disk.files
    pure (reported files))
    (removeQuietly host (fun path => path.1 = .incoming))

def start (incoming : Area → α) (before : Area → Option α) (previous : Area → Option (Entry α)) : Disk Path α Swap where
  files
    | (.incoming, area) => some (.present (incoming area))
    | (.target, area) => (before area).map Entry.present
    | (.previous, area) => previous area
  steps := 0
  locals := ⟨[], []⟩

section Rules

variable {host : Host Path α} {isDir : α → Bool} {area : Area} {s t : Disk Path α Swap}

theorem dropPrevious_ends : Ends (dropPrevious host area) s (fun _ t => t.locals = s.locals ∧ Others area s t ∧
    t.files (.target, area) = s.files (.target, area) ∧ t.files (.incoming, area) = s.files (.incoming, area)) := by
  have hframe (left : Files Path α) {path : Path} (hpath : path ≠ (.previous, area)) :
      s.files.within (fun path => path = (.previous, area)) left path = s.files path :=
    within_outside _ _ (decide_eq_false hpath)
  have hall (left : Files Path α) : Others area s
      (s.after (s.files.within (fun path => path = (.previous, area)) left)) :=
    fun place other hother => hframe left (fun heq => hother (congrArg Prod.snd heq))
  have htarget (left : Files Path α) :
      s.files.within (fun path => path = (.previous, area)) left (.target, area) = s.files (.target, area) :=
    hframe left (placed_ne nofun)
  have hincoming (left : Files Path α) :
      s.files.within (fun path => path = (.previous, area)) left (.incoming, area) = s.files (.incoming, area) :=
    hframe left (placed_ne nofun)
  rw [dropPrevious, ends_bind, ends_read]
  apply ends_when.mpr
  constructor
  · intro _
    apply ends_remove
    · exact ⟨rfl, hall _, htarget (fun _ => none), hincoming (fun _ => none)⟩
    · exact fun _ left _ => ⟨rfl, hall left, htarget left, hincoming left⟩
  · exact fun _ => ⟨rfl, fun _ _ _ => rfl, rfl, rfl⟩

theorem movePrevious_ends {old : Option α} (h : s.files (.target, area) = old.map Entry.present) :
    Ends (movePrevious host area) s (fun outcome t => Others area s t ∧
      t.files (.incoming, area) = s.files (.incoming, area) ∧
        match outcome with
        | .ok _ => t.files (.target, area) = none ∧
            ((old = none ∧ t.locals = s.locals) ∨
              ∃ content, old = some content ∧ t.files (.previous, area) = some (.present content) ∧
                t.locals = { s.locals with movedPrevious := s.locals.movedPrevious ++ [area] })
        | .error _ => t.files = s.files ∧ t.locals = s.locals) := by
  rw [movePrevious, ends_bind, ends_read]
  change Ends (when (s.files.holds (.target, area)) _) s _
  rw [Files.holds, h]
  apply ends_when.mpr
  cases old with
  | none => exact ⟨nofun, fun _ => ⟨fun _ _ _ => rfl, rfl, h, .inl ⟨rfl, rfl⟩⟩⟩
  | some content =>
      refine ⟨fun _ => ?_, nofun⟩
      rw [ends_bind]
      apply ends_rename
      · intro _
        refine ⟨fun _ _ hother => others_move s.files .target .previous hother, ?_, ?_, .inr ⟨content, rfl, ?_, rfl⟩⟩
        · exact @move_beside α _ _ _ _ area s.files .target .previous .incoming nofun nofun
        · exact @move_from α _ _ _ _ area s.files .target .previous nofun
        · exact (move_target ..).trans h
      · exact fun _ => ⟨fun _ _ _ => rfl, rfl, rfl, rfl⟩

theorem installIncoming_ends : Ends (installIncoming host area) s (fun outcome t => Others area s t ∧
    t.files (.previous, area) = s.files (.previous, area) ∧
      match outcome with
      | .ok _ => t.files (.target, area) = s.files (.incoming, area) ∧
          t.locals = { s.locals with installed := s.locals.installed ++ [area] }
      | .error _ => t.files = s.files ∧ t.locals = s.locals) := by
  rw [installIncoming, ends_bind]
  apply ends_mkdir
  · change Ends (rename host (.incoming, area) (.target, area) >>= _) (s.after s.files) _
    rw [ends_bind]
    apply ends_rename
    · intro _
      refine ⟨fun _ _ hother => others_move s.files .incoming .target hother, ?_, ?_, rfl⟩
      · exact @move_beside α _ _ _ _ area s.files .incoming .target .previous nofun nofun
      · exact move_target ..
    · exact fun _ => ⟨fun _ _ _ => rfl, rfl, rfl, rfl⟩
  · exact fun _ => ⟨fun _ _ _ => rfl, rfl, rfl, rfl⟩

variable {incoming : Area → α} {before : Area → Option α}

/-- How far the exchange of a directory has come. -/
inductive Progress (incoming : Area → α) (before : Area → Option α) (area : Area) (s : Disk Path α Swap) : Prop
  | untouched (hmoved : area ∉ s.locals.movedPrevious) (hinstalled : area ∉ s.locals.installed)
      (htarget : s.files (.target, area) = (before area).map Entry.present)
  | aside (content : α) (hmoved : area ∈ s.locals.movedPrevious) (hinstalled : area ∉ s.locals.installed)
      (hbefore : before area = some content) (hprevious : s.files (.previous, area) = some (.present content))
      (htarget : s.files (.target, area) = none)
  | replaced (content : α) (hmoved : area ∈ s.locals.movedPrevious) (hinstalled : area ∈ s.locals.installed)
      (hbefore : before area = some content) (hprevious : s.files (.previous, area) = some (.present content))
      (htarget : s.files (.target, area) = some (.present (incoming area)))
  | added (hmoved : area ∉ s.locals.movedPrevious) (hinstalled : area ∈ s.locals.installed)
      (hbefore : before area = none) (htarget : s.files (.target, area) = some (.present (incoming area)))

theorem Progress.of_others {other : Area} (h : Progress incoming before other s) (hother : other ≠ area)
    (hothers : Others area s t) (hmoved : other ∈ t.locals.movedPrevious ↔ other ∈ s.locals.movedPrevious)
    (hinstalled : other ∈ t.locals.installed ↔ other ∈ s.locals.installed) : Progress incoming before other t := by
  cases h with
  | untouched hm hi htarget =>
      exact .untouched (hm ∘ hmoved.mp) (hi ∘ hinstalled.mp) ((hothers _ _ hother).trans htarget)
  | aside content hm hi hbefore hprevious htarget =>
      exact .aside content (hmoved.mpr hm) (hi ∘ hinstalled.mp) hbefore ((hothers _ _ hother).trans hprevious)
        ((hothers _ _ hother).trans htarget)
  | replaced content hm hi hbefore hprevious htarget =>
      exact .replaced content (hmoved.mpr hm) (hinstalled.mpr hi) hbefore ((hothers _ _ hother).trans hprevious)
        ((hothers _ _ hother).trans htarget)
  | added hm hi hbefore htarget =>
      exact .added (hm ∘ hmoved.mp) (hinstalled.mpr hi) hbefore ((hothers _ _ hother).trans htarget)

/-- What an exchange has done when it stops. -/
structure Stopped (incoming : Area → α) (before : Area → Option α) (s : Disk Path α Swap) : Prop where
  progress : ∀ a, Progress incoming before a s
  moved_nodup : s.locals.movedPrevious.Nodup
  installed_nodup : s.locals.installed.Nodup

/-- What an exchange still has to do. -/
structure Exchanging (incoming : Area → α) (before : Area → Option α) (rest : List Area) (s : Disk Path α Swap) : Prop
    extends Stopped incoming before s where
  waiting : ∀ a ∈ rest, a ∉ s.locals.movedPrevious ∧ a ∉ s.locals.installed ∧
    s.files (.target, a) = (before a).map Entry.present ∧ s.files (.incoming, a) = some (.present (incoming a))
  finished : ∀ a, a ∉ rest → a ∈ s.locals.installed
  rest_nodup : rest.Nodup

def Joined (area : Area) (xs ys : List Area) : Prop := ys = xs ∨ (area ∉ xs ∧ ys = xs ++ [area])

theorem Joined.nodup {xs ys : List Area} (h : Joined area xs ys) (hxs : xs.Nodup) : ys.Nodup := by
  rcases h with rfl | ⟨hfresh, rfl⟩
  · exact hxs
  · exact List.nodup_append.mpr ⟨hxs, List.pairwise_singleton _ _, fun a ha b hb heq =>
      hfresh (List.mem_singleton.mp hb ▸ heq ▸ ha)⟩

theorem Joined.mem_iff {xs ys : List Area} (h : Joined area xs ys) {other : Area} (hother : other ≠ area) :
    other ∈ ys ↔ other ∈ xs := by
  rcases h with rfl | ⟨-, rfl⟩
  · exact Iff.rfl
  · rw [List.mem_append, List.mem_singleton]
    exact or_iff_left hother

/-- An exchange has got on with one directory. -/
theorem Stopped.of_others (h : Stopped incoming before s) (hothers : Others area s t)
    (hmoved : Joined area s.locals.movedPrevious t.locals.movedPrevious)
    (hinstalled : Joined area s.locals.installed t.locals.installed)
    (hprogress : Progress incoming before area t) : Stopped incoming before t := by
  refine ⟨fun a => ?_, hmoved.nodup h.moved_nodup, hinstalled.nodup h.installed_nodup⟩
  by_cases heq : a = area
  · exact heq ▸ hprogress
  · exact (h.progress a).of_others heq hothers (hmoved.mem_iff heq) (hinstalled.mem_iff heq)

theorem Exchanging.next {rest : List Area} (h : Exchanging incoming before (area :: rest) s) (hothers : Others area s t)
    (hmoved : Joined area s.locals.movedPrevious t.locals.movedPrevious)
    (hinstalled : t.locals.installed = s.locals.installed ++ [area]) (hprogress : Progress incoming before area t) :
    Exchanging incoming before rest t := by
  obtain ⟨-, hi, -⟩ := h.waiting area (List.mem_cons_self ..)
  obtain ⟨hfresh, hrest⟩ := List.nodup_cons.mp h.rest_nodup
  have hjoined : Joined area s.locals.installed t.locals.installed := .inr ⟨hi, hinstalled⟩
  refine ⟨h.toStopped.of_others hothers hmoved hjoined hprogress, ?_, ?_, hrest⟩
  · intro a ha
    have hne : a ≠ area := fun heq => hfresh (heq ▸ ha)
    obtain ⟨hma, hia, htarget, hincoming⟩ := h.waiting a (List.mem_cons_of_mem _ ha)
    exact ⟨hma ∘ (hmoved.mem_iff hne).mp, hia ∘ (hjoined.mem_iff hne).mp, (hothers _ _ hne).trans htarget,
      (hothers _ _ hne).trans hincoming⟩
  · intro a ha
    rw [hinstalled, List.mem_append, List.mem_singleton]
    by_cases heq : a = area
    · exact .inr heq
    · exact .inl (h.finished a (fun hin => (List.mem_cons.mp hin).elim heq ha))

theorem Exchanging.swap {rest : List Area} (h : Exchanging incoming before (area :: rest) s) :
    Ends (swap host area) s (fun outcome t =>
      (outcome = .ok () ∧ Exchanging incoming before rest t) ∨ ∃ e, outcome = .error e ∧
      Stopped incoming before t) := by
  obtain ⟨hm, hi, htarget, hincoming⟩ := h.waiting area (List.mem_cons_self ..)
  obtain ⟨hfresh, hrest⟩ := List.nodup_cons.mp h.rest_nodup
  rw [CacheExchange.swap, ends_bind]
  apply ends_mono dropPrevious_ends
  rintro outcome t ⟨hlocals, hothers, htarget', hincoming'⟩
  rw [htarget] at htarget'
  rw [hincoming] at hincoming'
  cases outcome with
  | error e =>
      refine .inr ⟨e, rfl, h.toStopped.of_others hothers (.inl (by rw [hlocals])) (.inl (by rw [hlocals])) ?_⟩
      exact .untouched (by rw [hlocals]; exact hm) (by rw [hlocals]; exact hi) htarget'
  | ok _ =>
      change Ends (movePrevious host area >>= fun _ => installIncoming host area) t _
      rw [ends_bind]
      apply ends_mono (movePrevious_ends htarget')
      rintro outcome u ⟨hothersU, hincomingU, houtcome⟩
      have hsu := hothers.trans hothersU
      cases outcome with
      | error e =>
          obtain ⟨hfiles, hlocalsU⟩ := houtcome
          rw [hlocals] at hlocalsU
          refine .inr ⟨e, rfl, h.toStopped.of_others hsu (.inl (by rw [hlocalsU])) (.inl (by rw [hlocalsU])) ?_⟩
          exact .untouched (by rw [hlocalsU]; exact hm) (by rw [hlocalsU]; exact hi) (by rw [hfiles]; exact htarget')
      | ok _ =>
          obtain ⟨hempty, hcase⟩ := houtcome
          change Ends (installIncoming host area) u _
          apply ends_mono installIncoming_ends
          rintro outcome v ⟨hothersV, hpreviousV, houtcome⟩
          have hsv := hsu.trans hothersV
          cases outcome with
          | error e =>
              obtain ⟨hfiles, hlocalsV⟩ := houtcome
              refine .inr ⟨e, rfl, ?_⟩
              rcases hcase with ⟨hnone, hlocalsU⟩ | ⟨content, hsome, hprevious, hlocalsU⟩
              · rw [hlocalsU, hlocals] at hlocalsV
                apply h.toStopped.of_others hsv (.inl (by rw [hlocalsV])) (.inl (by rw [hlocalsV]))
                apply Progress.untouched (by rw [hlocalsV]; exact hm) (by rw [hlocalsV]; exact hi)
                rw [hfiles, hempty, hnone]
                rfl
              · rw [hlocalsU, hlocals] at hlocalsV
                apply h.toStopped.of_others hsv (.inr ⟨hm, by rw [hlocalsV]⟩) (.inl (by rw [hlocalsV]))
                apply Progress.aside content _ (by rw [hlocalsV]; exact hi) hsome (by rw [hfiles]; exact hprevious)
                  (by rw [hfiles]; exact hempty)
                rw [hlocalsV]
                exact List.mem_append_right _ (List.mem_singleton_self _)
          | ok _ =>
              obtain ⟨htargetV, hlocalsV⟩ := houtcome
              rw [hincomingU, hincoming'] at htargetV
              refine .inl ⟨rfl, ?_⟩
              rcases hcase with ⟨hnone, hlocalsU⟩ | ⟨content, hsome, hprevious, hlocalsU⟩
              · rw [hlocalsU, hlocals] at hlocalsV
                apply h.next hsv (.inl (by rw [hlocalsV])) (by rw [hlocalsV])
                apply Progress.added (by rw [hlocalsV]; exact hm) _ hnone htargetV
                rw [hlocalsV]
                exact List.mem_append_right _ (List.mem_singleton_self _)
              · rw [hlocalsU, hlocals] at hlocalsV
                apply h.next hsv (.inr ⟨hm, by rw [hlocalsV]⟩) (by rw [hlocalsV])
                apply Progress.replaced content _ _ hsome (hpreviousV.trans hprevious) htargetV
                · rw [hlocalsV]
                  exact List.mem_append_right _ (List.mem_singleton_self _)
                · rw [hlocalsV]
                  exact List.mem_append_right _ (List.mem_singleton_self _)

theorem discard_ends (hquiet : Quiet host s) {content : α}
    (htarget : s.files (.target, area) = some (.present content)) :
    Ends (discard host isDir area) s
      (fun outcome t => outcome = .ok () ∧ t.locals = s.locals ∧ Others area s t ∧ Quiet host t ∧
      t.files (.target, area) = none ∧ t.files (.previous, area) = s.files (.previous, area)) := by
  have hfault : ¬ host.faults s.steps ≠ none := not_not.mpr (hquiet s.steps (Nat.le_refl _))
  let emptied : Disk Path α Swap := s.after (s.files.within (fun path => path = (.target, area)) (fun _ => none))
  have hframe {path : Path} (hpath : path ≠ (.target, area)) :
      s.files.within (fun path => path = (.target, area)) (fun _ => none) path = s.files path :=
    within_outside _ _ (decide_eq_false hpath)
  have hprevious : s.files.within (fun path => path = (.target, area)) (fun _ => none) (.previous, area) =
      s.files (.previous, area) :=
    hframe (placed_ne nofun)
  have hdone : emptied.locals = s.locals ∧ Others area s emptied ∧ Quiet host emptied ∧
    emptied.files (.target, area) = none ∧
      emptied.files (.previous, area) = s.files (.previous, area) := by
    refine ⟨rfl, ?_, hquiet.after _, ?_, hprevious⟩
    · exact fun place other hother => hframe (fun heq => hother (congrArg Prod.snd heq))
    · exact if_pos (decide_eq_true rfl)
  rw [discard, ends_bind, ends_read]
  change Ends (match s.files (.target, area) with
    | some (.present content) => if isDir content then removeQuietly host _ else remove host _
    | _ => pure ()) s _
  rw [htarget]
  change Ends (if isDir content then removeQuietly host _ else remove host _) s _
  split
  · apply ends_removeQuietly
    · exact ⟨rfl, hdone⟩
    · exact fun _ hfaulty => absurd hfaulty hfault
  · apply ends_remove
    · exact ⟨rfl, hdone⟩
    · exact fun _ _ hfaulty => absurd hfaulty hfault

theorem moveBack_ends (hquiet : Quiet host s) {content : α}
    (hprevious : s.files (.previous, area) = some (.present content)) (htarget : s.files (.target, area) = none) :
    Ends (moveBack host area) s (fun outcome t => outcome = .ok () ∧ Others area s t ∧ Quiet host t ∧
      t.files (.target, area) = some (.present content)) := by
  rw [moveBack, ends_bind, ends_read]
  change Ends (when (s.files.holds (.previous, area) && !s.files.holds (.target, area)) _) s _
  rw [Files.holds, Files.holds, hprevious, htarget]
  apply ends_rename_free (hquiet s.steps (Nat.le_refl _))
  · rw [hprevious]
    exact Option.some_ne_none _
  · exact htarget
  · exact ⟨rfl, fun _ _ hother => others_move s.files .previous .target hother, hquiet.after _,
      (move_target ..).trans hprevious⟩

/-- The removals of a rollback: what has been moved can be moved back once nothing
is in its way. -/
structure Discarding (host : Host Path α) (before : Area → Option α) (rest : List Area) (s : Disk Path α Swap) :
  Prop where
  quiet : Quiet host s
  installed : ∀ a ∈ rest, ∃ content, s.files (.target, a) = some (.present content)
  moved : ∀ a ∈ s.locals.movedPrevious,
    (∃ content, before a = some content ∧ s.files (.previous, a) = some (.present content)) ∧
    (a ∉ rest → s.files (.target, a) = none)
  unmoved : ∀ a, a ∉ s.locals.movedPrevious → (a ∈ rest → before a = none) ∧
    (a ∉ rest → s.files (.target, a) = (before a).map Entry.present)
  moved_nodup : s.locals.movedPrevious.Nodup
  rest_nodup : rest.Nodup

theorem Stopped.discarding (h : Stopped incoming before s) (hquiet : Quiet host s) :
    Discarding host before s.locals.installed.reverse s where
  quiet := hquiet
  installed a ha := by
    cases h.progress a with
    | untouched _ hi _ => exact absurd (List.mem_reverse.mp ha) hi
    | aside _ _ hi _ _ _ => exact absurd (List.mem_reverse.mp ha) hi
    | replaced _ _ _ _ _ htarget => exact ⟨_, htarget⟩
    | added _ _ _ htarget => exact ⟨_, htarget⟩
  moved a ha := by
    cases h.progress a with
    | untouched hm _ _ => exact absurd ha hm
    | aside content _ _ hbefore hprevious htarget => exact ⟨⟨content, hbefore, hprevious⟩, fun _ => htarget⟩
    | replaced content _ hi hbefore hprevious _ =>
        exact ⟨⟨content, hbefore, hprevious⟩, fun hnot => absurd (List.mem_reverse.mpr hi) hnot⟩
    | added hm _ _ _ => exact absurd ha hm
  unmoved a ha := by
    cases h.progress a with
    | untouched _ hi htarget => exact ⟨fun hin => absurd (List.mem_reverse.mp hin) hi, fun _ => htarget⟩
    | aside _ hm _ _ _ _ => exact absurd hm ha
    | replaced _ hm _ _ _ _ => exact absurd hm ha
    | added _ hi hbefore _ => exact ⟨fun _ => hbefore, fun hnot => absurd (List.mem_reverse.mpr hi) hnot⟩
  moved_nodup := h.moved_nodup
  rest_nodup := List.nodup_reverse.mpr h.installed_nodup

theorem Discarding.discard {rest : List Area} (h : Discarding host before (area :: rest) s) :
    Ends (discard host isDir area) s
      (fun outcome t => outcome = .ok () ∧ Discarding host before rest t ∧ t.locals = s.locals) := by
  obtain ⟨content, htarget⟩ := h.installed area (List.mem_cons_self ..)
  obtain ⟨hfresh, hrest⟩ := List.nodup_cons.mp h.rest_nodup
  apply ends_mono (discard_ends h.quiet htarget)
  rintro outcome t ⟨rfl, hlocals, hothers, hquiet, hempty, hprevious⟩
  refine ⟨rfl, ⟨hquiet, ?_, ?_, ?_, by rw [hlocals]; exact h.moved_nodup, hrest⟩, hlocals⟩
  · intro a ha
    rw [hothers _ _ (fun heq => hfresh (heq ▸ ha))]
    exact h.installed a (List.mem_cons_of_mem _ ha)
  · intro a ha
    rw [hlocals] at ha
    obtain ⟨hback, hnone⟩ := h.moved a ha
    by_cases heq : a = area
    · subst heq
      rw [hprevious]
      exact ⟨hback, fun _ => hempty⟩
    · rw [hothers _ _ heq, hothers _ _ heq]
      exact ⟨hback, fun hnot => hnone (fun hin => (List.mem_cons.mp hin).elim heq hnot)⟩
  · intro a ha
    rw [hlocals] at ha
    obtain ⟨hnew, hold⟩ := h.unmoved a ha
    by_cases heq : a = area
    · subst heq
      have hbefore := hnew (List.mem_cons_self ..)
      refine ⟨fun _ => hbefore, fun _ => ?_⟩
      rw [hempty, hbefore]
      rfl
    · rw [hothers _ _ heq]
      exact ⟨fun hin => hnew (List.mem_cons_of_mem _ hin), fun hnot =>
        hold (fun hin => (List.mem_cons.mp hin).elim heq hnot)⟩

/-- The renames of a rollback. -/
structure MovingBack (host : Host Path α) (before : Area → Option α) (rest : List Area) (s : Disk Path α Swap) :
  Prop where
  quiet : Quiet host s
  pending : ∀ a ∈ rest, (∃ content, before a = some content ∧ s.files (.previous, a) = some (.present content)) ∧
    s.files (.target, a) = none
  restored : ∀ a, a ∉ rest → s.files (.target, a) = (before a).map Entry.present
  nodup : rest.Nodup

theorem MovingBack.moveBack {rest : List Area} (h : MovingBack host before (area :: rest) s) :
    Ends (moveBack host area) s (fun outcome t => outcome = .ok () ∧ MovingBack host before rest t) := by
  obtain ⟨⟨content, hbefore, hprevious⟩, htarget⟩ := h.pending area (List.mem_cons_self ..)
  obtain ⟨hfresh, hrest⟩ := List.nodup_cons.mp h.nodup
  apply ends_mono (moveBack_ends h.quiet hprevious htarget)
  rintro outcome t ⟨rfl, hothers, hquiet, hback⟩
  refine ⟨rfl, hquiet, ?_, ?_, hrest⟩
  · intro a ha
    have hne : a ≠ area := fun heq => hfresh (heq ▸ ha)
    rw [hothers _ _ hne, hothers _ _ hne]
    exact h.pending a (List.mem_cons_of_mem _ ha)
  · intro a ha
    by_cases heq : a = area
    · rw [heq, hback, hbefore]
      rfl
    · rw [hothers _ _ heq]
      exact h.restored a (fun hin => (List.mem_cons.mp hin).elim heq ha)

theorem takeBack_ends (h : Stopped incoming before s) (hquiet : Quiet host s) (e : Raised) :
    Ends (takeBack host isDir e) s
      (fun outcome t => outcome = .error e ∧ ∀ a, t.files (.target, a) = (before a).map Entry.present) := by
  rw [takeBack, ends_bind, ends_read]
  change Ends (forEach s.locals.installed.reverse (discard host isDir) >>= _) s _
  rw [ends_bind]
  apply ends_mono (ends_forEach (I := fun rest t => Discarding host before rest t ∧ t.locals = s.locals)
    (E := fun _ _ => False) _
    ⟨h.discarding hquiet, rfl⟩)
  · rintro outcome t (⟨rfl, ht, hlocals⟩ | ⟨_, _, hfalse⟩)
    · change Ends (forEach s.locals.movedPrevious.reverse (moveBack host) >>= _) t _
      rw [ends_bind]
      have hstart : MovingBack host before s.locals.movedPrevious.reverse t := by
        refine ⟨ht.quiet, ?_, ?_, List.nodup_reverse.mpr h.moved_nodup⟩
        · intro a ha
          obtain ⟨hback, hnone⟩ := ht.moved a (by rw [hlocals]; exact List.mem_reverse.mp ha)
          exact ⟨hback, hnone List.not_mem_nil⟩
        · intro a ha
          exact (ht.unmoved a (by rw [hlocals]; exact fun hin => ha (List.mem_reverse.mpr hin))).2 List.not_mem_nil
      apply ends_mono (ends_forEach (I := MovingBack host before) (E := fun _ _ => False) _ hstart)
      · rintro outcome u (⟨rfl, hu⟩ | ⟨_, _, hfalse⟩)
        · exact ⟨rfl, fun a => hu.restored a List.not_mem_nil⟩
        · exact absurd hfalse id
      · exact fun a rest u hu => ends_mono hu.moveBack (fun _ _ hmoved => .inl hmoved)
    · exact absurd hfalse id
  · rintro a rest u ⟨hu, hlocals⟩
    exact ends_mono hu.discard (fun _ _ hdone => .inl ⟨hdone.1, hdone.2.1, hdone.2.2.trans hlocals⟩)

theorem start_exchanging (incoming : Area → α) (before : Area → Option α) (previous : Area → Option (Entry α)) :
    Exchanging incoming before pairs (start incoming before previous) where
  progress _ := .untouched List.not_mem_nil List.not_mem_nil rfl
  moved_nodup := List.nodup_nil
  installed_nodup := List.nodup_nil
  waiting _ _ := ⟨List.not_mem_nil, List.not_mem_nil, rfl, rfl⟩
  finished a ha := absurd (by cases a <;> decide) ha
  rest_nodup := by decide

/-- Both directories have been replaced, and what they held before is reported. -/
def Replaced (incoming : Area → α) (before : Area → Option α) (report : Report) (t : Disk Path α Swap) : Prop :=
  ∀ a, t.files (.target, a) = some (.present (incoming a)) ∧
    ∀ content, before a = some content →
      report a = some (.previous, a) ∧ t.files (.previous, a) = some (.present content)

theorem Exchanging.replaced (h : Exchanging incoming before [] s) :
    Replaced incoming before (reported s.files) s := by
  intro a
  have hin := h.finished a List.not_mem_nil
  cases h.progress a with
  | untouched _ hi _ => exact absurd hin hi
  | aside _ _ hi _ _ _ => exact absurd hin hi
  | replaced content _ _ hbefore hprevious htarget =>
      refine ⟨htarget, fun other hother => ?_⟩
      cases hbefore.symm.trans hother
      refine ⟨if_pos ?_, hprevious⟩
      rw [Files.holds, hprevious]
  | added _ _ hbefore htarget => exact ⟨htarget, fun other hother => nomatch hbefore.symm.trans hother⟩

theorem Replaced.of_files {report : Report} (h : Replaced incoming before report s)
    (hfiles : ∀ place a, place ≠ .incoming → t.files (place, a) = s.files (place, a)) :
    Replaced incoming before report t := by
  intro a
  rw [hfiles .target a nofun, hfiles .previous a nofun]
  exact h a

theorem removeStaging_ends : Ends (removeQuietly host (fun path => path.1 = Place.incoming)) s (fun outcome t =>
    outcome = .ok () ∧ ∀ place a, place ≠ .incoming → t.files (place, a) = s.files (place, a)) := by
  have hframe (left : Files Path α) (place : Place) (a : Area) (hplace : place ≠ .incoming) :
      s.files.within (fun path => path.1 = .incoming) left (place, a) = s.files (place, a) :=
    within_outside _ _ (decide_eq_false hplace)
  apply ends_removeQuietly
  · exact ⟨rfl, hframe (fun _ => none)⟩
  · exact fun left _ => ⟨rfl, hframe left⟩

end Rules

/-- With a rollback in which nothing fails, a restore replaces both directories or
leaves both as they were. -/
theorem cache_restore_atomic (host : Host Path α) (isDir : α → Bool) (extracted : Except Raised Unit)
    (incoming : Area → α) (before : Area → Option α) (previous : Area → Option (Entry α))
    (hrollback : ∀ e s, forEach pairs (swap host) (start incoming before previous) = (.error e, s) → Quiet host s) :
    Ends (restoreManagerBorgCache host isDir extracted) (start incoming before previous) (fun outcome t =>
      (∃ report, outcome = .ok report ∧ Replaced incoming before report t) ∨
        ((∃ e, outcome = .error e) ∧ ∀ a, t.files (.target, a) = (before a).map Entry.present)) := by
  rw [restoreManagerBorgCache, ends_tryFinally, ends_bind, ends_effect]
  cases extracted with
  | error e =>
      apply ends_mono removeStaging_ends
      rintro ended t ⟨rfl, hfiles⟩
      exact .inr ⟨⟨e, rfl⟩, fun a => hfiles .target a nofun⟩
  | ok _ =>
      change Ends (tryExcept (forEach pairs (swap host)) (takeBack host isDir) >>= _) (start incoming before previous) _
      rw [ends_bind, ends_tryExcept]
      have hloop : Ends (forEach pairs (swap host)) (start incoming before previous) (fun outcome s =>
          ((outcome = .ok () ∧ Exchanging incoming before [] s) ∨ ∃ e, outcome = .error e ∧ Stopped incoming before s) ∧
            ∀ e, outcome = .error e → Quiet host s) := by
        refine ⟨ends_forEach (fun _ _ _ hs => hs.swap) (start_exchanging incoming before previous), fun e he => ?_⟩
        exact hrollback e _ (Prod.ext he rfl)
      apply ends_mono hloop
      rintro outcome s ⟨⟨rfl, hs⟩ | ⟨e, rfl, hs⟩, hquiet⟩
      · simp only [ends_bind, ends_read, ends_pure]
        apply ends_mono removeStaging_ends
        rintro ended t ⟨rfl, hfiles⟩
        exact .inl ⟨_, rfl, hs.replaced.of_files hfiles⟩
      · apply ends_mono (takeBack_ends hs (hquiet e rfl) e)
        rintro outcome t ⟨rfl, hrestored⟩
        apply ends_mono removeStaging_ends
        rintro ended u ⟨rfl, hfiles⟩
        exact .inr ⟨⟨e, rfl⟩, fun a => (hfiles .target a nofun).trans (hrestored a)⟩

/-- The last rename of the exchange fails. -/
def exampleHost : Host Path Nat where
  faults n := if n = 5 then some ⟨"Permission denied", fun _ => none⟩ else none
  replaces _ _ := true

theorem cache_restore_atomic_lastRename :
    Ends (restoreManagerBorgCache exampleHost (fun _ => true) (.ok ()))
      (start (fun _ => 2) (fun _ => some 1) (fun _ => none))
      (fun outcome t =>
        (∃ report, outcome = .ok report ∧ Replaced (fun _ => 2) (fun _ => some 1) report t) ∨
          ((∃ e, outcome = .error e) ∧ ∀ a, t.files (.target, a) = (some 1).map Entry.present)) := by
  apply cache_restore_atomic exampleHost (fun _ => true) (.ok ()) (fun _ => 2) (fun _ => some 1) (fun _ => none)
  intro e s h n hn
  have hsteps : (forEach pairs (swap exampleHost)
      (start (fun _ => 2) (fun _ => some 1) (fun _ => none))).2.steps = 6 := by
    decide
  rw [h] at hsteps
  have hlate : s.steps = 6 := hsteps
  exact if_neg (by omega)

end BorgManager.CacheExchange
