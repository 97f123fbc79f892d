import BorgManager.ArtifactPaths
import Mathlib.Data.List.Induction

namespace BorgManager.PosixPaths

open ArtifactPaths

/-- `posixpath.splitroot` without a drive: two slashes are a root of their own, three are one. -/
def splitroot : List Char → List Char × List Char
  | '/' :: '/' :: '/' :: rest => (['/'], '/' :: '/' :: rest)
  | '/' :: '/' :: rest => (['/', '/'], rest)
  | '/' :: rest => (['/'], rest)
  | path => ([], path)

def addComponent (root : List Char) (comps : List (List Char)) (comp : List Char) : List (List Char) :=
  if comp = [] ∨ comp = ['.'] then comps
  else if comp ≠ ['.', '.'] ∨ (root = [] ∧ comps = []) ∨ comps.getLast? = some ['.', '.'] then comps ++ [comp]
  else comps.dropLast

/-- `os.path.normpath`. -/
def normpath (path : String) : String :=
  if path = "" then "."
  else
    let parts := splitroot path.toList
    let normalized := parts.1 ++ ['/'].intercalate ((parts.2.splitOn '/').foldl (addComponent parts.1) [])
    if normalized = [] then "." else String.ofList normalized

/-- `os.path.join` of two paths. -/
def join (a b : String) : String :=
  if b.toList.head? = some '/' then b
  else if a = "" ∨ a.toList.getLast? = some '/' then a ++ b
  else a ++ "/" ++ b

/-- A name that a directory can list. -/
structure EntryName (name : List Char) : Prop where
  nonempty : name ≠ []
  notDot : name ≠ ['.']
  notUp : name ≠ ['.', '.']
  noSlash : '/' ∉ name

instance (name : List Char) : Decidable (EntryName name) :=
  decidable_of_iff (name ≠ [] ∧ name ≠ ['.'] ∧ name ≠ ['.', '.'] ∧ '/' ∉ name)
    ⟨fun h => ⟨h.1, h.2.1, h.2.2.1, h.2.2.2⟩, fun h => ⟨h.nonempty, h.notDot, h.notUp, h.noSlash⟩⟩

/-- Absolute, and its own normalisation. -/
def AbsoluteNormalised (path : String) : Prop := path.toList.head? = some '/' ∧ normpath path = path

instance (path : String) : Decidable (AbsoluteNormalised path) := inferInstanceAs (Decidable (_ ∧ _))

def IsRoot (root : List Char) : Prop := root = ['/'] ∨ root = ['/', '/']

theorem splitroot_names {root : List Char} {names : List (List Char)} (hroot : IsRoot root)
    (hnames : ∀ name ∈ names, EntryName name) :
    splitroot (root ++ ['/'].intercalate names) = (root, ['/'].intercalate names) := by
  have hhead : (['/'].intercalate names).head? ≠ some '/' := by
    cases names with
    | nil => simp
    | cons name names =>
        have hname := hnames name (List.mem_cons_self ..)
        rw [head_intercalate hname.nonempty]
        exact fun hslash => hname.noSlash (List.mem_of_mem_head? hslash)
  generalize ['/'].intercalate names = rest at hhead
  cases rest with
  | nil => rcases hroot with rfl | rfl <;> rfl
  | cons c rest =>
      have hc : c ≠ '/' := fun h => hhead (by rw [h]; rfl)
      rcases hroot with rfl | rfl <;> simp [splitroot, hc]

theorem addComponent_name {root : List Char} {comps : List (List Char)} {name : List Char} (h : EntryName name) :
    addComponent root comps name = comps ++ [name] := by
  rw [addComponent, if_neg (not_or.mpr ⟨h.nonempty, h.notDot⟩), if_pos (Or.inl h.notUp)]

theorem foldl_addComponent_names {root : List Char} {names : List (List Char)} (h : ∀ name ∈ names, EntryName name)
    (comps : List (List Char)) : names.foldl (addComponent root) comps = comps ++ names := by
  induction names generalizing comps with
  | nil => rw [List.foldl_nil, List.append_nil]
  | cons name names ih =>
      rw [List.foldl_cons, addComponent_name (h name (List.mem_cons_self ..)),
        ih (fun name hname => h name (List.mem_cons_of_mem _ hname)), List.append_assoc, List.singleton_append]

/-- Below a root no component of a normal path leads up. -/
theorem addComponent_rooted {root : List Char} (hroot : root ≠ []) {comps : List (List Char)} {comp : List Char}
    (hcomps : ∀ name ∈ comps, EntryName name) (hcomp : '/' ∉ comp) :
    ∀ name ∈ addComponent root comps comp, EntryName name := by
  unfold addComponent
  split
  · exact hcomps
  · next hplain =>
      rw [not_or] at hplain
      split
      · next hadded =>
          intro name hname
          rcases List.mem_append.mp hname with hname | hname
          · exact hcomps name hname
          · rw [List.mem_singleton.mp hname]
            refine ⟨hplain.1, hplain.2, ?_, hcomp⟩
            rcases hadded with hup | ⟨hnil, -⟩ | hlast
            · exact hup
            · exact absurd hnil hroot
            · exact absurd rfl (hcomps _ (List.mem_of_getLast? hlast)).notUp
      · exact fun name hname => hcomps name (List.dropLast_subset _ hname)

theorem foldl_addComponent_rooted {root : List Char} (hroot : root ≠ []) {comps parts : List (List Char)}
    (hcomps : ∀ name ∈ comps, EntryName name) (hparts : ∀ part ∈ parts, '/' ∉ part) :
    ∀ name ∈ parts.foldl (addComponent root) comps, EntryName name := by
  induction parts generalizing comps with
  | nil => exact hcomps
  | cons part parts ih =>
      exact ih (addComponent_rooted hroot hcomps (hparts part (List.mem_cons_self ..)))
        (fun part hpart => hparts part (List.mem_cons_of_mem _ hpart))

theorem splitroot_absolute {path : List Char} (h : path.head? = some '/') : IsRoot (splitroot path).1 := by
  unfold splitroot
  split
  · exact Or.inl rfl
  · exact Or.inr rfl
  · exact Or.inl rfl
  · next hthird =>
      obtain ⟨rest, rfl⟩ := List.head?_eq_some_iff.mp h
      exact absurd rfl (hthird rest)

theorem IsRoot.ne_nil {root : List Char} (h : IsRoot root) : root ≠ [] := by
  rcases h with rfl | rfl <;> simp

/-- A path as a root and the names below it. -/
def path (root : List Char) (names : List (List Char)) : String := String.ofList (root ++ ['/'].intercalate names)

theorem path_ne {root : List Char} (hroot : IsRoot root) (names : List (List Char)) : path root names ≠ "" := by
  intro h
  have hnil := congrArg String.toList h
  rw [path, String.toList_ofList, String.toList_empty, List.append_eq_nil_iff] at hnil
  exact hroot.ne_nil hnil.1

theorem normpath_path {root : List Char} {names : List (List Char)} (hroot : IsRoot root)
    (hnames : ∀ name ∈ names, EntryName name) : normpath (path root names) = path root names := by
  have hsplit : (['/'].intercalate names).splitOn '/' = if names = [] then [[]] else names := by
    split
    · next hnil => rw [hnil]; rfl
    · next hne => exact List.splitOn_intercalate '/' (fun name hname => (hnames name hname).noSlash) hne
  have hfold : ((['/'].intercalate names).splitOn '/').foldl (addComponent root) [] = names := by
    rw [hsplit]
    split
    · next hnil => rw [hnil]; rfl
    · exact foldl_addComponent_names hnames []
  rw [normpath, if_neg (path_ne hroot names)]
  dsimp only
  rw [path, String.toList_ofList, splitroot_names hroot hnames]
  dsimp only
  rw [hfold, if_neg (fun hnil => hroot.ne_nil (List.append_eq_nil_iff.mp hnil).1)]

/-- The absolute normalised paths are the roots with names below them. -/
theorem absoluteNormalised_iff {p : String} :
    AbsoluteNormalised p ↔ ∃ root names, IsRoot root ∧ (∀ name ∈ names, EntryName name) ∧ p = path root names := by
  constructor
  · rintro ⟨hhead, hnorm⟩
    have hroot := splitroot_absolute hhead
    have hnames := @foldl_addComponent_rooted _ hroot.ne_nil [] ((splitroot p.toList).2.splitOn '/')
      (List.forall_mem_nil _)
      (fun part hpart => not_mem_of_mem_splitOn hpart)
    refine ⟨_, _, hroot, hnames, ?_⟩
    have hne : p ≠ "" := by
      rintro rfl
      cases hhead
    rw [normpath, if_neg hne] at hnorm
    dsimp only at hnorm
    rw [if_neg (fun hnil => hroot.ne_nil (List.append_eq_nil_iff.mp hnil).1)] at hnorm
    exact hnorm.symm
  · rintro ⟨root, names, hroot, hnames, rfl⟩
    refine ⟨?_, normpath_path hroot hnames⟩
    rw [path, String.toList_ofList]
    rcases hroot with rfl | rfl <;> rfl

theorem intercalate_concat {names : List (List Char)} (hne : names ≠ []) (last : List Char) :
    ['/'].intercalate (names ++ [last]) = ['/'].intercalate names ++ '/' :: last := by
  induction names with
  | nil => exact absurd rfl hne
  | cons name names ih =>
      cases names with
      | nil => simp [List.intercalate_cons_cons]
      | cons next names =>
          rw [List.cons_append, List.cons_append, List.intercalate_cons_cons, ← List.cons_append,
            ih (List.cons_ne_nil _ _),
            List.intercalate_cons_cons]
          simp only [List.append_assoc]

theorem join_path {root : List Char} {names : List (List Char)} (hroot : IsRoot root)
    (hnames : ∀ name ∈ names, EntryName name) {name : String} (hname : EntryName name.toList) :
    join (path root names) name = path root (names ++ [name.toList]) := by
  have hslash : name.toList.head? ≠ some '/' := fun h => hname.noSlash (List.mem_of_mem_head? h)
  rw [join, if_neg hslash]
  cases names using List.reverseRecOn with
  | nil =>
      have hlast : (path root []).toList.getLast? = some '/' := by
        rw [path, String.toList_ofList]
        rcases hroot with rfl | rfl <;> rfl
      rw [if_pos (Or.inr hlast)]
      apply String.toList_inj.mp
      simp [path]
  | append_singleton names last =>
      have hlastname := hnames last (List.mem_append_right _ (List.mem_singleton_self _))
      have hends : ∃ before, (path root (names ++ [last])).toList = before ++ last := by
        rw [path, String.toList_ofList]
        cases names with
        | nil => exact ⟨root, by simp⟩
        | cons first names =>
            exact ⟨root ++ (['/'].intercalate (first :: names) ++ ['/']), by
              rw [intercalate_concat (List.cons_ne_nil _ _)]; simp⟩
      obtain ⟨before, hbefore⟩ := hends
      have hlast : (path root (names ++ [last])).toList.getLast? ≠ some '/' := by
        rw [hbefore, List.getLast?_append_of_ne_nil _ hlastname.nonempty]
        exact fun h => hlastname.noSlash (List.mem_of_getLast? h)
      rw [if_neg (not_or.mpr ⟨path_ne hroot _, hlast⟩)]
      apply String.toList_inj.mp
      rw [String.toList_append, String.toList_append, path, path, String.toList_ofList, String.toList_ofList,
        intercalate_concat (List.concat_ne_nil _ _), List.append_assoc, List.append_assoc, String.toList_ofList]
      rfl

/-- An entry of a directory of an absolute normalised path has one too. -/
theorem AbsoluteNormalised.join {p : String} (h : AbsoluteNormalised p) {name : String}
    (hname : EntryName name.toList) :
    AbsoluteNormalised (PosixPaths.join p name) := by
  obtain ⟨root, names, hroot, hnames, rfl⟩ := absoluteNormalised_iff.mp h
  rw [join_path hroot hnames hname]
  refine absoluteNormalised_iff.mpr ⟨root, names ++ [name.toList], hroot, ?_, rfl⟩
  intro entry hentry
  rcases List.mem_append.mp hentry with hentry | hentry
  · exact hnames entry hentry
  · rwa [List.mem_singleton.mp hentry]

end BorgManager.PosixPaths
