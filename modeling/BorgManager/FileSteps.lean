import BorgManager.Blocks
import Mathlib.Logic.Function.Basic

namespace BorgManager.FileSteps

open Blocks

inductive Raised
  | osError (text : String)
  | valueError (text : String)
  | runtimeError (text : String)
  deriving DecidableEq

/-- A file or a directory with what it holds, or a link that leads nowhere. -/
inductive Entry (α : Type)
  | present (content : α)
  | dangling (content : α)
  deriving DecidableEq

/-- What stands at the paths. -/
abbrev Files (κ α : Type) := κ → Option (Entry α)

/-- The error of a step, and what the step leaves at the paths that it was
writing or removing. -/
structure Fault (κ α : Type) where
  text : String
  left : Files κ α

/-- A file system: the steps that fail, and the entries that a rename replaces by
another. -/
structure Host (κ α : Type) where
  faults : Nat → Option (Fault κ α)
  replaces : Entry α → Entry α → Bool

/-- The files, the number of steps so far, and the variables of a program. -/
structure Disk (κ α ρ : Type) where
  files : Files κ α
  steps : Nat
  locals : ρ

variable {κ α ρ β : Type} [DecidableEq κ]

abbrev Program (κ α ρ β : Type) := Block Raised (Disk κ α ρ) β

def Disk.after (s : Disk κ α ρ) (files : Files κ α) : Disk κ α ρ := { s with files := files, steps := s.steps + 1 }

omit [DecidableEq κ] in
@[simp] theorem after_files (s : Disk κ α ρ) (files : Files κ α) : (s.after files).files = files := rfl

omit [DecidableEq κ] in
@[simp] theorem after_locals (s : Disk κ α ρ) (files : Files κ α) : (s.after files).locals = s.locals := rfl

/-- A step either does what it does, or fails and has done a part of it. -/
def step (host : Host κ α) (done : Files κ α → Except String (Files κ α)) (failed : Fault κ α → Files κ α → Files κ α) :
    Program κ α ρ Unit := fun s =>
  match host.faults s.steps with
  | some fault => (.error (.osError fault.text), s.after (failed fault s.files))
  | none =>
      match done s.files with
      | .ok files => (.ok (), s.after files)
      | .error text => (.error (.osError text), s.after s.files)

/-- `path.exists()`. -/
def Files.holds (files : Files κ α) (path : κ) : Bool :=
  match files path with
  | some (.present _) => true
  | _ => false

def Files.move (files : Files κ α) (source target : κ) : Files κ α :=
  Function.update (Function.update files source none) target (files source)

/-- The paths of a directory hold something else. -/
def Files.within (files : Files κ α) (inside : κ → Bool) (left : Files κ α) : Files κ α :=
  fun path => if inside path then left path else files path

/-- `source.replace(target)`. A rename that fails has done nothing. -/
def rename (host : Host κ α) (source target : κ) : Program κ α ρ Unit :=
  step host
    (fun files =>
      match files source with
      | none => .error "No such file or directory"
      | some entry =>
          if (files target).all (host.replaces entry) then .ok (files.move source target)
          else .error "Directory not empty")
    (fun _ files => files)

/-- `shutil.copytree` or `shutil.copy2`. -/
def copy (host : Host κ α) (source target : κ) : Program κ α ρ Unit :=
  step host
    (fun files =>
      match files source with
      | some (.present content) => .ok (Function.update files target (some (.present content)))
      | _ => .error "No such file or directory")
    (fun fault files => Function.update files target (fault.left target))

/-- `shutil.rmtree` or `unlink`. -/
def remove (host : Host κ α) (inside : κ → Bool) : Program κ α ρ Unit :=
  step host (fun files => .ok (files.within inside (fun _ => none))) (fun fault files => files.within inside fault.left)

/-- A removal that ignores errors. -/
def removeQuietly (host : Host κ α) (inside : κ → Bool) : Program κ α ρ Unit :=
  tryExcept (remove host inside) (fun _ => pure ())

/-- `mkdir` for a directory that is no path of its own. -/
def mkdir (host : Host κ α) : Program κ α ρ Unit := step host (fun files => .ok files) (fun _ files => files)

def setLocals (f : ρ → ρ) : Program κ α ρ Unit := update (fun s => { s with locals := f s.locals })

theorem move_target (files : Files κ α) (source target : κ) : files.move source target target = files source :=
  Function.update_self ..

theorem move_source (files : Files κ α) {source target : κ} (h : source ≠ target) :
    files.move source target source = none := by
  rw [Files.move, Function.update_of_ne h, Function.update_self]

theorem move_other (files : Files κ α) {source target path : κ} (hsource : path ≠ source) (htarget : path ≠ target) :
    files.move source target path = files path := by
  rw [Files.move, Function.update_of_ne htarget, Function.update_of_ne hsource]

omit [DecidableEq κ] in
theorem within_outside (files : Files κ α) {inside : κ → Bool} (left : Files κ α) {path : κ} (h : inside path = false) :
    files.within inside left path = files path :=
  if_neg (Bool.eq_false_iff.mp h)

/-- Nothing fails from here on. -/
def Quiet (host : Host κ α) (s : Disk κ α ρ) : Prop := ∀ n, s.steps ≤ n → host.faults n = none

omit [DecidableEq κ] in
theorem Quiet.after {host : Host κ α} {s : Disk κ α ρ} (h : Quiet host s) (files : Files κ α) :
    Quiet host (s.after files) :=
  fun n hn => h n (Nat.le_of_succ_le hn)

section Rules

variable {host : Host κ α} {s : Disk κ α ρ} {Q : Except Raised Unit → Disk κ α ρ → Prop}

omit [DecidableEq κ] in
@[simp] theorem ends_setLocals {f : ρ → ρ} :
    Ends (setLocals f) s Q ↔ Q (.ok ()) { s with locals := f s.locals } := Iff.rfl

omit [DecidableEq κ] in
theorem ends_step {done : Files κ α → Except String (Files κ α)} {failed : Fault κ α → Files κ α → Files κ α}
    (hok : ∀ files, host.faults s.steps = none → done s.files = .ok files → Q (.ok ()) (s.after files))
    (herror : ∀ text, done s.files = .error text → Q (.error (.osError text)) (s.after s.files))
    (hfault : ∀ fault, host.faults s.steps = some fault →
      Q (.error (.osError fault.text)) (s.after (failed fault s.files))) :
    Ends (step host done failed) s Q := by
  rw [Ends, step]
  cases h : host.faults s.steps with
  | some fault => exact hfault fault h
  | none =>
      cases hdone : done s.files with
      | ok files =>
          exact hok files h hdone
      | error text =>
          exact herror text hdone

/-- A rename has either moved an entry or done nothing. -/
theorem ends_rename {source target : κ}
    (hok : s.files source ≠ none → Q (.ok ()) (s.after (s.files.move source target)))
    (herror : ∀ text, Q (.error (.osError text)) (s.after s.files)) : Ends (rename host source target) s Q := by
  apply ends_step
  · intro files _ hdone
    split at hdone
    · nomatch hdone
    · next hsource =>
        split at hdone
        · cases hdone
          exact hok (by rw [hsource]; exact Option.some_ne_none _)
        · nomatch hdone
  · exact fun text _ => herror text
  · exact fun fault _ => herror fault.text

/-- A rename to a free path only fails where the file system does. -/
theorem ends_rename_free {source target : κ} (hfaults : host.faults s.steps = none) (hsource : s.files source ≠ none)
    (htarget : s.files target = none) (hok : Q (.ok ()) (s.after (s.files.move source target))) :
    Ends (rename host source target) s Q := by
  obtain ⟨entry, hentry⟩ := Option.ne_none_iff_exists'.mp hsource
  apply ends_step
  · intro files _ hdone
    rw [hentry, htarget] at hdone
    cases hdone
    exact hok
  · intro text hdone
    rw [hentry, htarget] at hdone
    nomatch hdone
  · intro fault hfault
    rw [hfaults] at hfault
    nomatch hfault

/-- A copy changes nothing but its target. -/
theorem ends_copy {source target : κ}
    (hok : ∀ content, s.files source = some (.present content) →
      Q (.ok ()) (s.after (Function.update s.files target (some (.present content)))))
    (herror : ∀ text left, Q (.error (.osError text)) (s.after (Function.update s.files target left))) :
    Ends (copy host source target) s Q := by
  apply ends_step
  · intro files _ hdone
    split at hdone
    · next content hsource =>
        cases hdone
        exact hok content hsource
    · nomatch hdone
  · intro text _
    have hsame := herror text (s.files target)
    rw [Function.update_eq_self] at hsame
    exact hsame
  · exact fun fault _ => herror fault.text (fault.left target)

omit [DecidableEq κ] in
/-- A removal changes nothing outside its directory. -/
theorem ends_remove {inside : κ → Bool} (hok : Q (.ok ()) (s.after (s.files.within inside (fun _ => none))))
    (herror : ∀ text left, host.faults s.steps ≠ none →
      Q (.error (.osError text)) (s.after (s.files.within inside left))) :
    Ends (remove host inside) s Q := by
  apply ends_step
  · intro files _ hdone
    cases hdone
    exact hok
  · exact fun text hdone => nomatch hdone
  · exact fun fault hfault => herror fault.text fault.left (by rw [hfault]; exact Option.some_ne_none _)

omit [DecidableEq κ] in
theorem ends_removeQuietly {inside : κ → Bool} (hok : Q (.ok ()) (s.after (s.files.within inside (fun _ => none))))
    (herror : ∀ left, host.faults s.steps ≠ none → Q (.ok ()) (s.after (s.files.within inside left))) :
    Ends (removeQuietly host inside) s Q := by
  rw [removeQuietly, ends_tryExcept]
  apply ends_remove
  · exact hok
  · exact fun _ left hfault => herror left hfault

omit [DecidableEq κ] in
theorem ends_mkdir (hok : Q (.ok ()) (s.after s.files))
    (herror : ∀ text, Q (.error (.osError text)) (s.after s.files)) :
    Ends (mkdir host) s Q := by
  apply ends_step
  · intro files _ hdone
    cases hdone
    exact hok
  · exact fun text _ => herror text
  · exact fun fault _ => herror fault.text

end Rules

section Places

variable {π ι : Type} [DecidableEq π] [DecidableEq ι] {item : ι} {s t : Disk (π × ι) α ρ}

omit [DecidableEq π] [DecidableEq ι] in
/-- The other items stand as they stood, in every place. -/
def Others (item : ι) (s t : Disk (π × ι) α ρ) : Prop :=
  ∀ place other, other ≠ item → t.files (place, other) = s.files (place, other)

omit [DecidableEq π] [DecidableEq ι] in
theorem Others.trans {u : Disk (π × ι) α ρ} (h : Others item s t) (h' : Others item t u) : Others item s u :=
  fun place other hother => (h' place other hother).trans (h place other hother)

omit [DecidableEq π] [DecidableEq ι] in
theorem placed_ne {p q : π} (h : p ≠ q) : (p, item) ≠ (q, item) := fun heq => h (congrArg Prod.fst heq)

theorem move_from (files : Files (π × ι) α) {p q : π} (h : p ≠ q) : files.move (p, item) (q, item) (p, item) = none :=
  move_source files (placed_ne h)

theorem move_beside (files : Files (π × ι) α) {p q r : π} (hp : r ≠ p) (hq : r ≠ q) :
    files.move (p, item) (q, item) (r, item) = files (r, item) :=
  move_other files (placed_ne hp) (placed_ne hq)

theorem others_move (files : Files (π × ι) α) (p q : π) {place : π} {other : ι} (hother : other ≠ item) :
    files.move (p, item) (q, item) (place, other) = files (place, other) :=
  move_other files (fun heq => hother (congrArg Prod.snd heq)) (fun heq => hother (congrArg Prod.snd heq))

end Places

end BorgManager.FileSteps
