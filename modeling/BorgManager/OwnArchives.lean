import BorgManager.BackupArtifacts
import BorgManager.BackupChecks

namespace BorgManager.OwnArchives

open PythonText ArtifactPaths JsonText BackupArchives BackupTrees BackupArtifacts BackupChecks

theorem plain_of_chars {part : List Char} (hne : part ≠ []) (hdot : part.head? ≠ some '.')
    (h : ∀ c ∈ part, c ≠ '/' ∧ c ≠ '\x00') : PlainPart part where
  nonempty := hne
  notDot := fun heq => hdot (by rw [heq]; rfl)
  notUp := fun heq => hdot (by rw [heq]; rfl)
  noSlash := fun hc => (h _ hc).1 rfl
  noNul := fun hc => (h _ hc).2 rfl

/-- The names that the manager gives its own files. -/
def ownNames : List String :=
  ["migration.env", "data", "manager.db", "settings.json", "notifications.json", "security", "security.db",
    "master.key",
    "manifest.json", "permissions.json", "borg-cache", "borg-security"]

theorem plain_ownNames : ∀ name ∈ ownNames, PlainPart name.toList ∧ '\\' ∉ name.toList := by
  simp only [ownNames, List.forall_mem_cons, List.not_mem_nil, false_implies, implies_true, and_true]
  refine ⟨?_, ?_, ?_, ?_, ?_, ?_, ?_, ?_, ?_, ?_, ?_, ?_⟩ <;>
    exact ⟨plain_of_chars (by simp) (by simp) (by simp), by simp⟩

/-- Paths of plain parts stay apart when they are joined. -/
theorem nodup_intercalate {paths : List (List (List Char))} (hne : ∀ path ∈ paths, path ≠ [])
    (hplain : ∀ path ∈ paths, ∀ part ∈ path, PlainPart part) (hnodup : paths.Nodup) :
    (paths.map (['/'].intercalate ·)).Nodup := by
  refine hnodup.map_on (fun a ha b hb hsame => ?_)
  rw [← pathParts_intercalate (hne a ha) (hplain a ha), hsame, pathParts_intercalate (hne b hb) (hplain b hb)]

/-- The paths of the members of a manager backup. -/
def managerPaths (data : ManagerData) : List (List String) :=
  ["migration.env"] :: ((managerFiles data).map (fun f => "data" :: f.1) ++ [["manifest.json"], ["permissions.json"]])

theorem managerPaths_own (data : ManagerData) :
    (∀ path ∈ managerPaths data, path ≠ [] ∧ ∀ name ∈ path, name ∈ ownNames) ∧ (managerPaths data).Nodup := by
  rw [managerPaths, managerFiles]
  cases data.settings <;> cases data.notificationSettings <;>
    simp only [Option.toList, List.map_nil, List.map_cons, List.nil_append, List.cons_append] <;> decide

theorem managerMembers_filenames (compress : Content → Nat) (environment : List UInt8) (manifest : Document)
    (data : ManagerData) :
    (managerMembers compress environment manifest data).map Member.filename =
      ((managerPaths data).map (List.map String.toList)).map (['/'].intercalate ·) := by
  have hsingle (name : String) : name.toList = ['/'].intercalate ([name].map String.toList) :=
    List.intercalate_singleton.symm
  rw [managerMembers, managerPaths]
  simp only [List.map_cons, List.map_append, List.map_map, List.map_nil, closing]
  refine congrArg₂ List.cons (hsingle _) (congrArg₂ (· ++ ·) rfl ?_)
  exact congrArg₂ List.cons (hsingle _) (congrArg (fun name => [name]) (hsingle _))

theorem distinct_of_paths {members : List Member} {paths : List (List (List Char))}
    (hnames : members.map Member.filename = paths.map (['/'].intercalate ·)) (hne : ∀ path ∈ paths, path ≠ [])
    (hplain : ∀ path ∈ paths, ∀ part ∈ path, PlainPart part) (hnodup : paths.Nodup)
    (htypes : ∀ member ∈ members, member.fileType ≠ .symlink) : Distinct members where
  named member hmember := by
    have hname : member.filename ∈ paths.map (['/'].intercalate ·) := hnames ▸ List.mem_map_of_mem hmember
    obtain ⟨path, hpath, heq⟩ := List.mem_map.mp hname
    exact ⟨path, hne path hpath, hplain path hpath, heq.symm⟩
  types := htypes
  nodup := hnames ▸ nodup_intercalate hne hplain hnodup

variable {compress : Content → Nat} {environment : List UInt8} {manifest : Document} {data : ManagerData}

theorem mem_closing {permissions : Document} {member : Member} :
    member ∈ closing compress manifest permissions ↔
      member = writestr compress manifestName (.json manifestStyle manifest) ∨
        member = writestr compress permissionsName (.json permissionsStyle (sortKeys permissions)) := by
  rw [closing, List.mem_cons, List.mem_singleton]

theorem mem_managerMembers {member : Member} :
    member ∈ managerMembers compress environment manifest data ↔
      member = writestr compress "migration.env".toList (.bytes environment) ∨
        (∃ f ∈ managerFiles data, member = writeFile compress (dataName f.1) f.2) ∨
          member ∈ closing compress manifest (managerPermissions data) := by
  rw [managerMembers, List.mem_cons, List.mem_append, List.mem_map]
  simp only [eq_comm]

theorem managerMembers_distinct (compress : Content → Nat) (environment : List UInt8) (manifest : Document)
    (data : ManagerData) : Distinct (managerMembers compress environment manifest data) := by
  obtain ⟨hown, hnodup⟩ := managerPaths_own data
  refine distinct_of_paths (managerMembers_filenames compress environment manifest data) ?_ ?_ ?_ ?_
  · rw [List.forall_mem_map]
    exact fun path hpath hnil => (hown path hpath).1 (List.map_eq_nil_iff.mp hnil)
  · rw [List.forall_mem_map]
    intro path hpath
    rw [List.forall_mem_map]
    exact fun name hname => (plain_ownNames name ((hown path hpath).2 name hname)).1
  · exact hnodup.map (List.map_injective_iff.mpr (fun a b hab => String.toList_inj.mp hab))
  · intro member hmember
    rcases mem_managerMembers.mp hmember with rfl | ⟨f, _, rfl⟩ | hclosing
    · exact FileType.noConfusion
    · exact FileType.noConfusion
    · rcases mem_closing.mp hclosing with rfl | rfl <;> exact FileType.noConfusion

/-- No name of the manager's own files has a backslash in it. -/
theorem managerMembers_noBackslash : ∀ member ∈ managerMembers compress environment manifest data,
    '\\' ∉ member.filename := by
  intro member hmember
  have hname : member.filename ∈ ((managerPaths data).map (List.map String.toList)).map (['/'].intercalate ·) :=
    managerMembers_filenames compress environment manifest data ▸ List.mem_map_of_mem hmember
  obtain ⟨parts, hparts, heq⟩ := List.mem_map.mp hname
  obtain ⟨path, hpath, rfl⟩ := List.mem_map.mp hparts
  rw [← heq, mem_intercalate (by decide)]
  rintro ⟨part, hpart, hback⟩
  obtain ⟨name, hin, rfl⟩ := List.mem_map.mp hpart
  exact (plain_ownNames name (((managerPaths_own data).1 path hpath).2 name hin)).2 hback

theorem managerMembers_own (compress : Content → Nat) (environment : List UInt8) (data : ManagerData)
    (h : Recognised manifest) :
    OwnArchive manifestStyle manifest (sortKeys (managerPermissions data))
      (managerMembers compress environment manifest data) where
  toDistinct := managerMembers_distinct compress environment manifest data
  recognised := h
  manifestMember := ⟨_, mem_managerMembers.mpr (.inr (.inr (mem_closing.mpr (.inl rfl)))), rfl, rfl⟩
  permissionsMember := ⟨_, mem_managerMembers.mpr (.inr (.inr (mem_closing.mpr (.inr rfl)))), rfl, _, rfl⟩
  modes f hf := by
    rw [sortKeys, List.mem_insertionSort, managerPermissions] at hf
    obtain ⟨file, hfile, rfl⟩ := List.mem_map.mp hf
    refine ⟨rfl, _, mem_managerMembers.mpr (.inr (.inl ⟨file, hfile, rfl⟩)), ?_⟩
    rw [String.toList_ofList]
    rfl
  fewer := by
    rw [sortKeys, List.length_insertionSort, managerPermissions, managerMembers]
    simp only [List.length_map, List.length_cons, List.length_append]
    omega

/-- A file of a tree that leaves data in the archive. -/
def stored (f : Found) : Bool := f.reading.data.isSome

def treePaths (treePrefix : List Char) (files : List Found) : List (List (List Char)) :=
  (files.filter stored).map (fun f => "data".toList :: treePrefix :: f.path)

theorem treeMembers_filenames (treePrefix : List Char) (files : List Found) :
    (treeMembers compress treePrefix files).map Member.filename = (treePaths treePrefix files).map
    (['/'].intercalate ·) := by
  induction files with
  | nil => rfl
  | cons f files ih =>
      rw [treeMembers, treePaths] at ih ⊢
      cases hdata : f.reading.data with
      | none =>
          rw [List.filterMap_cons_none (by rw [hdata]; rfl), List.filter_cons_of_neg (by simp [stored, hdata])]
          exact ih
      | some bytes =>
          rw [List.filterMap_cons_some (by rw [hdata]; rfl), List.filter_cons_of_pos (by simp [stored, hdata])]
          simp only [List.map_cons]
          exact congrArg₂ List.cons rfl ih

theorem treePaths_nodup {files : List Found} (h : (files.map Found.path).Nodup) (treePrefix : List Char) :
    (treePaths treePrefix files).Nodup := by
  have hpaths : ((files.filter stored).map Found.path).Nodup := h.sublist (List.filter_sublist.map _)
  have hmap : treePaths treePrefix files = ((files.filter stored).map Found.path).map
      ("data".toList :: treePrefix :: ·) := by
    rw [treePaths, List.map_map]
    rfl
  rw [hmap]
  exact hpaths.map (fun a b hab => (List.cons.inj (List.cons.inj hab).2).2)

theorem treePaths_shape {treePrefix : List Char} {files : List Found} {path : List (List Char)}
    (h : path ∈ treePaths treePrefix files) :
    ∃ f ∈ files, stored f = true ∧ path = "data".toList :: treePrefix :: f.path := by
  obtain ⟨f, hf, rfl⟩ := List.mem_map.mp h
  exact ⟨f, (List.mem_filter.mp hf).1, (List.mem_filter.mp hf).2, rfl⟩

variable {state : ManagerCache}

def cachePaths (state : ManagerCache) : List (List (List Char)) :=
  treePaths cacheTree (cacheFiles state) ++
    (treePaths securityTree (securityFiles state) ++ [[manifestName], [permissionsName]])

theorem cacheMembers_filenames (compress : Content → Nat) (manifest : Document) (state : ManagerCache) :
    (cacheMembers compress manifest state).map Member.filename = (cachePaths state).map (['/'].intercalate ·) := by
  rw [cacheMembers, cachePaths, List.map_append, List.map_append, List.map_append, List.map_append,
    treeMembers_filenames, treeMembers_filenames]
  refine congrArg₂ (· ++ ·) rfl (congrArg₂ (· ++ ·) rfl ?_)
  simp only [closing, writestr, List.map_cons, List.map_nil, List.intercalate_singleton]

theorem trees_differ : cacheTree ≠ securityTree := fun h => absurd (String.toList_inj.mp h) (by decide)

theorem closing_differ : manifestName ≠ permissionsName := fun h => absurd (String.toList_inj.mp h) (by decide)

theorem closingPaths_nodup : [[manifestName], [permissionsName]].Nodup :=
  List.nodup_cons.mpr ⟨fun h => closing_differ (List.singleton_inj.mp (List.mem_singleton.mp h)),
    List.nodup_singleton _⟩

theorem closingPaths_length {path : List (List Char)} (h : path ∈ [[manifestName], [permissionsName]]) :
    path.length = 1 := by
  rcases List.mem_cons.mp h with heq | h
  · rw [heq, List.length_singleton]
  · rw [List.mem_singleton.mp h, List.length_singleton]

theorem cachePaths_nodup (state : ManagerCache) : (cachePaths state).Nodup := by
  have hcache : (treePaths cacheTree (cacheFiles state)).Nodup := treePaths_nodup (treeFiles_nodup state.cache true) _
  have hsecurity : (treePaths securityTree (securityFiles state)).Nodup :=
    treePaths_nodup (treeFiles_nodup state.security false) _
  have hclosing (treePrefix : List Char) (files : List Found) :
      (treePaths treePrefix files).Disjoint [[manifestName], [permissionsName]] := by
    intro path hpath hmem
    obtain ⟨f, _, _, rfl⟩ := treePaths_shape hpath
    have hlength := closingPaths_length hmem
    simp only [List.length_cons] at hlength
    omega
  have htrees : (treePaths cacheTree (cacheFiles state)).Disjoint (treePaths securityTree (securityFiles state)) := by
    intro path hpath hmem
    obtain ⟨f, _, _, hf⟩ := treePaths_shape hpath
    obtain ⟨g, _, _, hg⟩ := treePaths_shape hmem
    exact trees_differ (List.cons.inj (List.cons.inj (hf.symm.trans hg)).2).1
  rw [cachePaths]
  exact hcache.append (hsecurity.append closingPaths_nodup (hclosing _ _))
    (List.disjoint_append_right.mpr ⟨htrees, hclosing _ _⟩)

theorem plain_own (name : String) (h : name ∈ ownNames) : PlainPart name.toList := (plain_ownNames name h).1

theorem treePath_plain {source : Option Directory} {skip : Bool} {f : Found} (h : f ∈ treeFiles source skip)
    (name : String) (hname : name ∈ ownNames) : ∀ part ∈ "data".toList :: name.toList :: f.path, PlainPart part := by
  rw [List.forall_mem_cons, List.forall_mem_cons]
  exact ⟨plain_own "data" (by decide), plain_own name hname, treeFiles_plain source skip f h⟩

theorem cachePaths_plain : ∀ path ∈ cachePaths state, path ≠ [] ∧ ∀ part ∈ path, PlainPart part := by
  intro path hpath
  rcases List.mem_append.mp hpath with hpath | hpath
  · obtain ⟨f, hf, _, rfl⟩ := treePaths_shape hpath
    exact ⟨List.cons_ne_nil _ _, treePath_plain hf "borg-cache" (by decide)⟩
  · rcases List.mem_append.mp hpath with hpath | hpath
    · obtain ⟨f, hf, _, rfl⟩ := treePaths_shape hpath
      exact ⟨List.cons_ne_nil _ _, treePath_plain hf "borg-security" (by decide)⟩
    · rcases List.mem_cons.mp hpath with rfl | hpath
      · exact ⟨List.cons_ne_nil _ _, List.forall_mem_singleton.mpr (plain_own "manifest.json" (by decide))⟩
      · rw [List.mem_singleton] at hpath
        rw [hpath]
        exact ⟨List.cons_ne_nil _ _, List.forall_mem_singleton.mpr (plain_own "permissions.json" (by decide))⟩

theorem mem_cacheMembers {member : Member} :
    member ∈ cacheMembers compress manifest state ↔
      member ∈ treeMembers compress cacheTree (cacheFiles state) ∨
        member ∈ treeMembers compress securityTree (securityFiles state) ∨
          member ∈ closing compress manifest (cachePermissions state) := by
  rw [cacheMembers, List.mem_append, List.mem_append]

theorem treeMembers_regular {treePrefix : List Char} {files : List Found} {member : Member}
    (h : member ∈ treeMembers compress treePrefix files) : member.fileType = .regular := by
  obtain ⟨f, _, hf⟩ := List.mem_filterMap.mp h
  obtain ⟨bytes, _, rfl⟩ := Option.map_eq_some_iff.mp hf
  rfl

theorem cacheMembers_distinct (compress : Content → Nat) (manifest : Document) (state : ManagerCache) :
    Distinct (cacheMembers compress manifest state) := by
  refine distinct_of_paths (cacheMembers_filenames compress manifest state)
    (fun path hpath => (cachePaths_plain path hpath).1)
    (fun path hpath => (cachePaths_plain path hpath).2) (cachePaths_nodup state) ?_
  intro member hmember
  rcases mem_cacheMembers.mp hmember with hmember | hmember | hmember
  · rw [treeMembers_regular hmember]
    exact FileType.noConfusion
  · rw [treeMembers_regular hmember]
    exact FileType.noConfusion
  · rcases mem_closing.mp hmember with rfl | rfl <;> exact FileType.noConfusion

/-- A file has its mode recorded only when it is in the archive. -/
theorem treePermission_member (compress : Content → Nat) {treePrefix : List Char} {files : List Found}
    {f : String × Value} (h : f ∈ treePermissions treePrefix files) :
    isMode f.2 = true ∧ ∃ member ∈ treeMembers compress treePrefix files, member.filename = f.1.toList := by
  obtain ⟨found, hfound, hf⟩ := List.mem_filterMap.mp h
  obtain ⟨mode, hmode, rfl⟩ := Option.map_eq_some_iff.mp hf
  cases hreading : found.reading with
  | unreadable => rw [hreading] at hmode; nomatch hmode
  | interrupted bytes => rw [hreading] at hmode; nomatch hmode
  | stored bytes bits size =>
      rw [hreading] at hmode
      cases hmode
      have hbits := bits.isLt
      refine ⟨by
        simp only [isMode, decide_eq_true_eq]; omega, writeFile compress (arcname treePrefix found.path) bytes, ?_, ?_⟩
      · exact List.mem_filterMap.mpr ⟨found, hfound, by rw [hreading]; rfl⟩
      · rw [String.toList_ofList]
        rfl

theorem treePermissions_length (compress : Content → Nat) (treePrefix : List Char) (files : List Found) :
    (treePermissions treePrefix files).length ≤ (treeMembers compress treePrefix files).length := by
  induction files with
  | nil => exact le_rfl
  | cons f files ih =>
      rw [treePermissions, treeMembers] at ih ⊢
      cases hreading : f.reading with
      | unreadable =>
          rw [List.filterMap_cons_none (by rw [hreading]; rfl), List.filterMap_cons_none (by rw [hreading]; rfl)]
          exact ih
      | interrupted bytes =>
          rw [List.filterMap_cons_none (by rw [hreading]; rfl), List.filterMap_cons_some (by rw [hreading]; rfl)]
          exact Nat.le_succ_of_le ih
      | stored bytes bits size =>
          rw [List.filterMap_cons_some (by rw [hreading]; rfl), List.filterMap_cons_some (by rw [hreading]; rfl)]
          exact Nat.succ_le_succ ih

theorem cacheMembers_own (compress : Content → Nat) (state : ManagerCache) (h : Recognised manifest) :
    OwnArchive manifestStyle manifest (sortKeys (cachePermissions state)) (cacheMembers compress manifest state) where
  toDistinct := cacheMembers_distinct compress manifest state
  recognised := h
  manifestMember := ⟨_, mem_cacheMembers.mpr (.inr (.inr (mem_closing.mpr (.inl rfl)))), rfl, rfl⟩
  permissionsMember := ⟨_, mem_cacheMembers.mpr (.inr (.inr (mem_closing.mpr (.inr rfl)))), rfl, _, rfl⟩
  modes f hf := by
    rw [sortKeys, List.mem_insertionSort] at hf
    rcases List.mem_append.mp hf with hf | hf
    · obtain ⟨hmode, member, hmember, hname⟩ := treePermission_member compress hf
      exact ⟨hmode, member, mem_cacheMembers.mpr (.inl hmember), hname⟩
    · obtain ⟨hmode, member, hmember, hname⟩ := treePermission_member compress hf
      exact ⟨hmode, member, mem_cacheMembers.mpr (.inr (.inl hmember)), hname⟩
  fewer := by
    have hcache := treePermissions_length compress cacheTree (cacheFiles state)
    have hsecurity := treePermissions_length compress securityTree (securityFiles state)
    rw [sortKeys, List.length_insertionSort, cachePermissions, cacheMembers]
    simp only [List.length_append]
    omega

/-- No file of the trees that comes into the archive has a backslash in its
path. -/
def NoBackslash (state : ManagerCache) : Prop :=
  ∀ f ∈ cacheFiles state ++ securityFiles state, stored f = true → ∀ part ∈ f.path, '\\' ∉ part

theorem treePath_backslash {name : String} (hname : name ∈ ownNames) (f : Found) :
    '\\' ∈ ['/'].intercalate ("data".toList :: name.toList :: f.path) ↔ ∃ part ∈ f.path, '\\' ∈ part := by
  rw [mem_intercalate (by decide)]
  simp only [List.mem_cons, or_and_right, exists_or, exists_eq_left]
  constructor
  · rintro (hback | hback | hback)
    exacts [((plain_ownNames "data" (by decide)).2 hback).elim, ((plain_ownNames name hname).2 hback).elim, hback]
  · exact fun hback => .inr (.inr hback)

theorem cacheMembers_noBackslash_iff (compress : Content → Nat) (manifest : Document) (state : ManagerCache) :
    (∀ member ∈ cacheMembers compress manifest state, '\\' ∉ member.filename) ↔ NoBackslash state := by
  have htrees (name : String) (hname : name ∈ ownNames) (files : List Found) :
      (∀ path ∈ treePaths name.toList files, '\\' ∉ ['/'].intercalate path) ↔
        ∀ f ∈ files, stored f = true → ∀ part ∈ f.path, '\\' ∉ part := by
    rw [treePaths, List.forall_mem_map]
    simp only [List.mem_filter, and_imp, treePath_backslash hname, not_exists, not_and]
  have hclosing : ∀ path ∈ [[manifestName], [permissionsName]], '\\' ∉ ['/'].intercalate path := by
    rw [List.forall_mem_cons, List.forall_mem_singleton, List.intercalate_singleton, List.intercalate_singleton]
    exact ⟨(plain_ownNames "manifest.json" (by decide)).2, (plain_ownNames "permissions.json" (by decide)).2⟩
  rw [← List.forall_mem_map (f := Member.filename) (P := fun name => '\\' ∉ name), cacheMembers_filenames,
    List.forall_mem_map,
    cachePaths, List.forall_mem_append, List.forall_mem_append, NoBackslash, List.forall_mem_append]
  rw [and_iff_left hclosing]
  exact and_congr (htrees "borg-cache" (by decide) _) (htrees "borg-security" (by decide) _)

end BorgManager.OwnArchives
