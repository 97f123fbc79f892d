import BorgManager.BackupArchives

namespace BorgManager.BackupTrees

open ArtifactPaths JsonText BackupArchives

/-- What comes of adding a file to the archive: it cannot be opened, an error
stops the copy or the `stat` after it, or it is stored with its mode. -/
inductive Reading
  | unreadable
  | interrupted (data : List UInt8)
  | stored (data : List UInt8) (mode : Fin 512) (size : Nat)

/-- The entries of a directory, in the order of `iterdir`. Symbolic links and
special files are skipped. -/
inductive Listing
  | nil
  | file (name : List Char) (reading : Reading) (rest : Listing)
  | skipped (name : List Char) (rest : Listing)
  | dir (name : List Char) (listable : Bool) (children rest : Listing)

def Listing.names : Listing → List (List Char)
  | .nil => []
  | .file name _ rest => name :: rest.names
  | .skipped name rest => name :: rest.names
  | .dir name _ _ rest => name :: rest.names

/-- No two entries of one directory have the same name, and every name is one
part of a path. -/
def Listing.Valid : Listing → Prop
  | .nil => True
  | .file name _ rest => PlainPart name ∧ name ∉ rest.names ∧ rest.Valid
  | .skipped name rest => PlainPart name ∧ name ∉ rest.names ∧ rest.Valid
  | .dir name _ children rest => PlainPart name ∧ name ∉ rest.names ∧ children.Valid ∧ rest.Valid

instance Listing.decidableValid : (listing : Listing) → Decidable listing.Valid
  | .nil => inferInstanceAs (Decidable True)
  | .file name _ rest =>
      have := decidableValid rest
      inferInstanceAs (Decidable (PlainPart name ∧ name ∉ rest.names ∧ rest.Valid))
  | .skipped name rest =>
      have := decidableValid rest
      inferInstanceAs (Decidable (PlainPart name ∧ name ∉ rest.names ∧ rest.Valid))
  | .dir name _ children rest =>
      have := decidableValid children
      have := decidableValid rest
      inferInstanceAs (Decidable (PlainPart name ∧ name ∉ rest.names ∧ children.Valid ∧ rest.Valid))

structure Directory where
  listing : Listing
  valid : listing.Valid

/-- A file that the walk reaches, by its path below the source. -/
structure Found where
  path : List (List Char)
  reading : Reading

def isBorgLock (name : List Char) : Bool := name == "lock.exclusive".toList || name == "lock.roster".toList

/-- The files of a directory itself. -/
def directFiles (skipBorgLocks : Bool) (path : List (List Char)) : Listing → List Found
  | .nil => []
  | .file name reading rest =>
      if skipBorgLocks && isBorgLock name then directFiles skipBorgLocks path rest
      else ⟨path ++ [name], reading⟩ :: directFiles skipBorgLocks path rest
  | .skipped _ rest => directFiles skipBorgLocks path rest
  | .dir _ _ _ rest => directFiles skipBorgLocks path rest

/-- The files below the directories of a directory. The stack of the source
gives the last directory first, with all that is below it. -/
def nestedFiles (skipBorgLocks : Bool) (path : List (List Char)) : Listing → List Found
  | .nil => []
  | .file _ _ rest => nestedFiles skipBorgLocks path rest
  | .skipped _ rest => nestedFiles skipBorgLocks path rest
  | .dir name listable children rest =>
      nestedFiles skipBorgLocks path rest ++
        if listable && !(skipBorgLocks && isBorgLock name) then
          directFiles skipBorgLocks (path ++ [name]) children ++ nestedFiles skipBorgLocks (path ++ [name]) children
        else []

/-- The files that `_add_tree` adds, in its order. -/
def treeFiles (source : Option Directory) (skipBorgLocks : Bool) : List Found :=
  match source with
  | none => []
  | some directory => directFiles skipBorgLocks [] directory.listing ++ nestedFiles skipBorgLocks [] directory.listing

/-- `data/{prefix}/{relative}`. -/
def arcname (treePrefix : List Char) (path : List (List Char)) : List Char :=
  ['/'].intercalate ("data".toList :: treePrefix :: path)

/-- What a file leaves in the archive. -/
def Reading.data : Reading → Option (List UInt8)
  | .unreadable => none
  | .interrupted data => some data
  | .stored data _ _ => some data

def Reading.mode : Reading → Option Int
  | .stored _ mode _ => some mode.val
  | _ => none

def Reading.statSize : Reading → Option Nat
  | .stored _ _ size => some size
  | _ => none

def treeMembers (compress : Content → Nat) (treePrefix : List Char) (files : List Found) : List Member :=
  files.filterMap (fun f => f.reading.data.map (fun data =>
    ⟨arcname treePrefix f.path, .bytes data, compress (.bytes data), .regular⟩))

def treePermissions (treePrefix : List Char) (files : List Found) : Document :=
  files.filterMap (fun f => f.reading.mode.map (fun mode => (String.ofList (arcname treePrefix f.path), .number mode)))

/-- The count and the bytes that `_add_tree` returns. -/
def treeTotals (files : List Found) : Nat × Nat :=
  let sizes := files.filterMap (fun f => f.reading.statSize)
  (sizes.length, sizes.sum)

theorem direct_path {skip : Bool} {path : List (List Char)} {listing : Listing} {f : Found}
    (h : f ∈ directFiles skip path listing) : ∃ name ∈ listing.names, f.path = path ++ [name] := by
  induction listing with
  | nil => exact (List.not_mem_nil h).elim
  | file name reading rest ih =>
      rw [directFiles] at h
      split at h
      · obtain ⟨n, hn, hpath⟩ := ih h
        exact ⟨n, List.mem_cons_of_mem _ hn, hpath⟩
      · rcases List.mem_cons.mp h with rfl | h
        · exact ⟨name, List.mem_cons_self .., rfl⟩
        · obtain ⟨n, hn, hpath⟩ := ih h
          exact ⟨n, List.mem_cons_of_mem _ hn, hpath⟩
  | skipped name rest ih =>
      obtain ⟨n, hn, hpath⟩ := ih h
      exact ⟨n, List.mem_cons_of_mem _ hn, hpath⟩
  | dir name listable children rest _ ih =>
      obtain ⟨n, hn, hpath⟩ := ih h
      exact ⟨n, List.mem_cons_of_mem _ hn, hpath⟩

/-- A file below a directory has more than one name after the path. -/
theorem nested_path {skip : Bool} {path : List (List Char)} {listing : Listing} {f : Found}
    (h : f ∈ nestedFiles skip path listing) :
    ∃ name ∈ listing.names, ∃ below, below ≠ [] ∧ f.path = path ++ name :: below := by
  induction listing generalizing path with
  | nil => exact (List.not_mem_nil h).elim
  | file name reading rest ih =>
      obtain ⟨n, hn, hpath⟩ := ih h
      exact ⟨n, List.mem_cons_of_mem _ hn, hpath⟩
  | skipped name rest ih =>
      obtain ⟨n, hn, hpath⟩ := ih h
      exact ⟨n, List.mem_cons_of_mem _ hn, hpath⟩
  | dir name listable children rest ihchildren ih =>
      rw [nestedFiles, List.mem_append] at h
      rcases h with h | h
      · obtain ⟨n, hn, hpath⟩ := ih h
        exact ⟨n, List.mem_cons_of_mem _ hn, hpath⟩
      · refine ⟨name, List.mem_cons_self .., ?_⟩
        split at h
        · rcases List.mem_append.mp h with h | h
          · obtain ⟨n, _, hpath⟩ := direct_path h
            exact ⟨[n], List.cons_ne_nil _ _, by rw [hpath, List.append_assoc]; rfl⟩
          · obtain ⟨n, _, below, _, hpath⟩ := ihchildren h
            exact ⟨n :: below, List.cons_ne_nil _ _, by rw [hpath, List.append_assoc]; rfl⟩
        · exact (List.not_mem_nil h).elim

theorem Listing.Valid.plain {listing : Listing} (h : listing.Valid) : ∀ name ∈ listing.names, PlainPart name := by
  induction listing with
  | nil => exact fun name hname => (List.not_mem_nil hname).elim
  | file name reading rest ih => exact List.forall_mem_cons.mpr ⟨h.1, ih h.2.2⟩
  | skipped name rest ih => exact List.forall_mem_cons.mpr ⟨h.1, ih h.2.2⟩
  | dir name listable children rest _ ih => exact List.forall_mem_cons.mpr ⟨h.1, ih h.2.2.2⟩

theorem direct_plain {skip : Bool} {path : List (List Char)} {listing : Listing} (h : listing.Valid)
    (hpath : ∀ part ∈ path, PlainPart part) : ∀ f ∈ directFiles skip path listing, ∀ part ∈ f.path, PlainPart part := by
  intro f hf
  obtain ⟨name, hname, heq⟩ := direct_path hf
  rw [heq]
  exact List.forall_mem_append.mpr ⟨hpath, List.forall_mem_singleton.mpr (h.plain name hname)⟩

theorem nested_plain {skip : Bool} {path : List (List Char)} {listing : Listing} (h : listing.Valid)
    (hpath : ∀ part ∈ path, PlainPart part) : ∀ f ∈ nestedFiles skip path listing, ∀ part ∈ f.path, PlainPart part := by
  induction listing generalizing path with
  | nil => exact fun f hf => (List.not_mem_nil hf).elim
  | file name reading rest ih => exact ih h.2.2 hpath
  | skipped name rest ih => exact ih h.2.2 hpath
  | dir name listable children rest ihchildren ih =>
      have hbelow : ∀ part ∈ path ++ [name], PlainPart part :=
        List.forall_mem_append.mpr ⟨hpath, List.forall_mem_singleton.mpr h.1⟩
      rw [nestedFiles, List.forall_mem_append]
      refine ⟨ih h.2.2.2 hpath, ?_⟩
      split
      · exact List.forall_mem_append.mpr ⟨direct_plain h.2.2.1 hbelow, ihchildren h.2.2.1 hbelow⟩
      · exact fun f hf => (List.not_mem_nil hf).elim

theorem direct_nodup {skip : Bool} {path : List (List Char)} {listing : Listing} (h : listing.Valid) :
    ((directFiles skip path listing).map Found.path).Nodup := by
  induction listing with
  | nil => exact List.nodup_nil
  | file name reading rest ih =>
      rw [directFiles]
      split
      · exact ih h.2.2
      · refine List.nodup_cons.mpr ⟨fun hmem => ?_, ih h.2.2⟩
        obtain ⟨f, hf, hpath⟩ := List.mem_map.mp hmem
        obtain ⟨other, hother, heq⟩ := direct_path hf
        have hsame : [other] = [name] := List.append_cancel_left (heq.symm.trans hpath)
        exact h.2.1 (List.singleton_inj.mp hsame ▸ hother)
  | skipped name rest ih => exact ih h.2.2
  | dir name listable children rest _ ih => exact ih h.2.2.2

/-- Files of a directory and files below its directories have paths of
different lengths. -/
theorem direct_nested_disjoint {skip : Bool} {path : List (List Char)} {listing : Listing} :
    ((directFiles skip path listing).map Found.path).Disjoint ((nestedFiles skip path listing).map Found.path) := by
  intro p hdirect hnested
  obtain ⟨f, hf, rfl⟩ := List.mem_map.mp hdirect
  obtain ⟨g, hg, hsame⟩ := List.mem_map.mp hnested
  obtain ⟨name, _, hpath⟩ := direct_path hf
  obtain ⟨other, _, below, hbelow, hother⟩ := nested_path hg
  rw [hpath, hother] at hsame
  have htail := List.append_cancel_left hsame
  exact hbelow (List.cons.inj htail).2

theorem nested_nodup {skip : Bool} {path : List (List Char)} {listing : Listing} (h : listing.Valid) :
    ((nestedFiles skip path listing).map Found.path).Nodup := by
  induction listing generalizing path with
  | nil => exact List.nodup_nil
  | file name reading rest ih => exact ih h.2.2
  | skipped name rest ih => exact ih h.2.2
  | dir name listable children rest ihchildren ih =>
      rw [nestedFiles, List.map_append]
      refine (ih h.2.2.2).append ?_ ?_
      · split
        · rw [List.map_append]
          exact (direct_nodup h.2.2.1).append (ihchildren h.2.2.1) direct_nested_disjoint
        · exact List.nodup_nil
      · intro p hrest hown
        obtain ⟨f, hf, rfl⟩ := List.mem_map.mp hrest
        obtain ⟨other, hother, below, _, hpath⟩ := nested_path hf
        have hown' : ∃ tail, f.path = path ++ name :: tail := by
          split at hown
          · obtain ⟨g, hg, hsame⟩ := List.mem_map.mp hown
            rw [← hsame]
            rcases List.mem_append.mp hg with hg | hg
            · obtain ⟨n, _, hgpath⟩ := direct_path hg
              exact ⟨[n], by rw [hgpath, List.append_assoc]; rfl⟩
            · obtain ⟨n, _, tail, _, hgpath⟩ := nested_path hg
              exact ⟨n :: tail, by rw [hgpath, List.append_assoc]; rfl⟩
          · exact (List.not_mem_nil hown).elim
        obtain ⟨tail, htail⟩ := hown'
        have hsame := List.append_cancel_left (hpath.symm.trans htail)
        exact h.2.1 ((List.cons.inj hsame).1 ▸ hother)

theorem treeFiles_plain (source : Option Directory) (skip : Bool) :
    ∀ f ∈ treeFiles source skip, ∀ part ∈ f.path, PlainPart part := by
  cases source with
  | none => exact fun f hf => (List.not_mem_nil hf).elim
  | some directory =>
      exact List.forall_mem_append.mpr ⟨direct_plain directory.valid (fun _ h => (List.not_mem_nil h).elim),
        nested_plain directory.valid (fun _ h => (List.not_mem_nil h).elim)⟩

/-- The walk reaches no path twice. -/
theorem treeFiles_nodup (source : Option Directory) (skip : Bool) : ((treeFiles source skip).map Found.path).Nodup := by
  cases source with
  | none => exact List.nodup_nil
  | some directory =>
      rw [treeFiles, List.map_append]
      exact (direct_nodup directory.valid).append (nested_nodup directory.valid) direct_nested_disjoint

end BorgManager.BackupTrees
