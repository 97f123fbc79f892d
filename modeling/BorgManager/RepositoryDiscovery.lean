import BorgManager.BackupChecks
import BorgManager.LevelOrder
import BorgManager.LogFilter
import BorgManager.SecretStore
import Mathlib.Data.List.Induction

namespace BorgManager.RepositoryDiscovery

open ArtifactPaths LevelOrder
open SecretStore (Text)

/-- What a directory holds besides directories. A file whose text cannot be
read has none, and a link may lead to a file. -/
inductive Leaf
  | file (text : Option Text)
  | link (leads : Option (Option Text))
  | special

/-- The entries of a directory, in the order of `iterdir`. -/
inductive Contents
  | nil
  | leaf (name : Text) (kind : Leaf) (rest : Contents)
  | dir (name : Text) (listable searchable : Bool) (children rest : Contents)

/-- A directory. Without the right to search it, none of its entries can be
asked for. -/
structure Directory where
  listable : Bool
  searchable : Bool
  contents : Contents

inductive Entry
  | leaf (kind : Leaf)
  | dir (directory : Directory)

def Contents.entries : Contents → List (Text × Entry)
  | .nil => []
  | .leaf name kind rest => (name, .leaf kind) :: rest.entries
  | .dir name listable searchable children rest => (name, .dir ⟨listable, searchable, children⟩) :: rest.entries

def Contents.names (c : Contents) : List Text := c.entries.map Prod.fst

/-- No two entries of one directory have the same name, and every name is one
part of a path. -/
def Contents.Valid : Contents → Prop
  | .nil => True
  | .leaf name _ rest => PlainPart name ∧ name ∉ rest.names ∧ rest.Valid
  | .dir name _ _ children rest => PlainPart name ∧ name ∉ rest.names ∧ children.Valid ∧ rest.Valid

def Directory.entry (d : Directory) (name : Text) : Option Entry := d.contents.entries.lookup name

def Directory.child (d : Directory) (name : Text) : Option Directory :=
  match d.entry name with
  | some (.dir child) => some child
  | _ => none

/-- The directory at a path, without a link on the way. -/
def Directory.at (d : Directory) : List Text → Option Directory
  | [] => some d
  | name :: names => (d.child name).bind (fun child => child.at names)

/-- The text of `config`, where that is a file. -/
def Directory.config (d : Directory) : Option (Option Text) :=
  if d.searchable then
    match d.entry "config".toList with
    | some (.leaf (.file text)) => some text
    | some (.leaf (.link leads)) => leads
    | _ => none
  else none

def joined (names : List Text) : Text := ['/'].intercalate names

/-- Python's tables of letters, and the text of an error of the system. -/
structure Runtime where
  casefold : Text → Text
  title : Text → Text
  notDirectory : Text

/-- The managed root with the directory that it is. A path without a link is
what it resolves to. -/
structure Storage where
  root : Text
  directory : Directory
  resolve : Text → Text
  valid : directory.contents.Valid
  resolve_at : ∀ names, (directory.at names).isSome = true →
    resolve (root ++ '/' :: joined names) = root ++ '/' :: joined names

structure Candidate where
  directoryName : Text
  path : Text
  suggestedName : Text
  repositoryId : Option Text
deriving DecidableEq

/-- An entry with the names that lead to it from the root. -/
structure Place where
  names : List Text
  entry : Entry

def Place.name (p : Place) : Text := p.names.getLastD []

section Discovery

variable (rt : Runtime) (s : Storage) (registered : List Text)

def Storage.path (names : List Text) : Text := s.root ++ '/' :: joined names

def entryOrder (a b : Text × Entry) : Prop := rt.casefold a.1 ≤ rt.casefold b.1

instance : DecidableRel (entryOrder rt) := fun _ _ => inferInstanceAs (Decidable (_ ≤ _))

def children (p : Place) : List Place :=
  match p.entry with
  | .dir d =>
      if d.listable && d.searchable then
        (d.contents.entries.insertionSort (entryOrder rt)).map (fun e => ⟨p.names ++ [e.1], e.2⟩)
      else []
  | .leaf _ => []

def hiddenNames : List Text := [".cache".toList, ".config".toList]

def idLine (line : Text) : Bool := "id".toList.isPrefixOf (SecretStore.strip line) && line.contains '='

/-- The first line that starts with `id` and has an equals sign decides. -/
def repositoryId (text : Text) : Option Text :=
  ((LogFilter.splitLines (LogFilter.normalizeNewlines text)).find? idLine).bind (fun line =>
    let value := SecretStore.strip ((line.dropWhile (· != '=')).tail)
    if value = [] then none else some value)

def suggestedName (name : Text) : Text :=
  let spaced := name.map (fun c => if c = '-' ∨ c = '_' then ' ' else c)
  let titled := rt.title (SecretStore.strip spaced)
  if titled = [] then name else titled

def candidate (p : Place) (config : Option Text) : Candidate :=
  ⟨joined p.names, s.path p.names, suggestedName rt p.name, config.bind repositoryId⟩

/-- A child of a directory that is read: links and files do not count, and a
repository is not entered. -/
def judge (p : Place) : Verdict Candidate :=
  match p.entry with
  | .leaf _ => .ignored
  | .dir d =>
      if hiddenNames.contains p.name then .visited none false
      else
        match d.config with
        | some text =>
            if (registered.map s.resolve).contains (s.path p.names) then .visited none false
            else .visited (some (candidate rt s p text)) false
        | none => .visited none true

def limits : Limits := ⟨5000, 500, 6⟩

/-- The search with the number of its rounds bounded. -/
def discovery (rounds : Nat) : Tally Candidate :=
  search (children rt) (judge rt s registered) limits rounds [(⟨[], .dir s.directory⟩, 0)] ⟨0, []⟩

def managedRepositoryCandidates : List Candidate := (discovery rt s registered 5001).found

end Discovery

/-- A path that leads through directories that can be read, of which only the
root may be a repository, and on which no name is hidden. -/
structure Reached (s : Storage) (names : List Text) : Prop where
  plain : ∀ name ∈ names, name ∉ hiddenNames
  ancestors : ∀ k < names.length, ∀ a, s.directory.at (names.take k) = some a →
    a.listable = true ∧ a.searchable = true ∧ (0 < k → a.config = none)

/-- A repository that is still to be taken over, at most six levels down. -/
structure Discoverable (s : Storage) (registered : List Text) (names : List Text) (d : Directory)
  (text : Option Text) : Prop where
  place : s.directory.at names = some d
  below : names ≠ []
  depth : names.length ≤ 6
  reached : Reached s names
  config : d.config = some text
  unregistered : s.path names ∉ registered.map s.resolve

section Trees

theorem at_append (d : Directory) (names : List Text) (name : Text) :
    d.at (names ++ [name]) = (d.at names).bind (fun a => a.child name) := by
  induction names generalizing d with
  | nil =>
      rw [List.nil_append, Directory.at, Directory.at, Option.bind_some]
      cases d.child name <;> rfl
  | cons first names ih =>
      rw [List.cons_append, Directory.at, Directory.at, Option.bind_assoc]
      congr 1
      funext child
      exact ih child

theorem valid_entry {c : Contents} (h : c.Valid) {name : Text} {e : Entry} (he : (name, e) ∈ c.entries) :
    PlainPart name ∧ ∀ d, e = .dir d → d.contents.Valid := by
  induction c with
  | nil => exact (List.not_mem_nil he).elim
  | leaf first kind rest ih =>
      rcases List.mem_cons.mp he with heq | he
      · cases heq
        refine ⟨h.1, ?_⟩
        rintro d ⟨⟩
      · exact ih h.2.2 he
  | dir first listable searchable children rest _ ih =>
      rcases List.mem_cons.mp he with heq | he
      · cases heq
        refine ⟨h.1, ?_⟩
        rintro d ⟨⟩
        exact h.2.2.1
      · exact ih h.2.2.2 he

theorem nodup_names {c : Contents} (h : c.Valid) : c.names.Nodup := by
  induction c with
  | nil => exact List.nodup_nil
  | leaf name kind rest ih => exact List.nodup_cons.mpr ⟨h.2.1, ih h.2.2⟩
  | dir name listable searchable children rest _ ih => exact List.nodup_cons.mpr ⟨h.2.1, ih h.2.2.2⟩

theorem lookup_iff {entries : List (Text × Entry)} (h : (entries.map Prod.fst).Nodup) {name : Text} {e : Entry} :
    entries.lookup name = some e ↔ (name, e) ∈ entries := by
  induction entries with
  | nil => simp
  | cons first entries ih =>
      rw [List.map_cons, List.nodup_cons] at h
      rw [List.lookup_cons, List.mem_cons]
      by_cases hname : name = first.1
      · subst hname
        rw [beq_self_eq_true]
        constructor
        · rintro ⟨⟩
          exact .inl rfl
        · rintro (heq | hmem)
          · rw [← heq]
          · exact absurd (List.mem_map.mpr ⟨_, hmem, rfl⟩) h.1
      · rw [beq_eq_false_iff_ne.mpr hname]
        dsimp only
        rw [ih h.2]
        constructor
        · exact .inr
        · rintro (heq | hmem)
          · rw [← heq] at hname
            exact absurd rfl hname
          · exact hmem

theorem child_iff {d : Directory} (h : d.contents.Valid) {name : Text} {child : Directory} :
    d.child name = some child ↔ (name, Entry.dir child) ∈ d.contents.entries := by
  rw [← lookup_iff (nodup_names h), Directory.child, Directory.entry]
  cases d.contents.entries.lookup name with
  | none => simp
  | some e => cases e <;> simp

/-- Below a valid directory every directory is valid, at a path of plain
parts. -/
theorem valid_at {d a : Directory} {names : List Text} (h : d.contents.Valid) (hat : d.at names = some a) :
    a.contents.Valid ∧ ∀ name ∈ names, PlainPart name := by
  induction names generalizing d with
  | nil =>
      cases hat
      exact ⟨h, List.forall_mem_nil _⟩
  | cons name names ih =>
      rw [Directory.at, Option.bind_eq_some_iff] at hat
      obtain ⟨child, hchild, hrest⟩ := hat
      obtain ⟨hplain, hvalid⟩ := valid_entry h ((child_iff h).mp hchild)
      obtain ⟨ha, hnames⟩ := ih (hvalid child rfl) hrest
      exact ⟨ha, List.forall_mem_cons.mpr ⟨hplain, hnames⟩⟩

end Trees

section Discovery

variable {rt : Runtime} {s : Storage} {registered : List Text}

theorem mem_children {p y : Place} :
    y ∈ children rt p ↔ ∃ d, p.entry = .dir d ∧ d.listable = true ∧ d.searchable = true ∧
    ∃ name, (name, y.entry) ∈ d.contents.entries ∧ y.names = p.names ++ [name] := by
  rw [children]
  cases p.entry with
  | leaf kind => simp
  | dir d =>
      dsimp only
      split
      · next hread =>
          rw [Bool.and_eq_true] at hread
          rw [List.mem_map]
          constructor
          · rintro ⟨e, he, rfl⟩
            exact ⟨d, rfl, hread.1, hread.2, e.1, (List.mem_insertionSort _).mp he, rfl⟩
          · rintro ⟨_, ⟨⟩, -, -, name, hname, hnames⟩
            refine ⟨(name, y.entry), (List.mem_insertionSort _).mpr hname, ?_⟩
            rw [← hnames]
      · next hread =>
          constructor
          · exact fun h => (List.not_mem_nil h).elim
          · rintro ⟨_, ⟨⟩, hlist, hsearch, -⟩
            rw [hlist, hsearch] at hread
            exact absurd rfl hread

theorem name_append (names : List Text) (name : Text) (e : Entry) : (Place.mk (names ++ [name]) e).name = name := by
  rw [Place.name, List.getLastD_concat]

theorem opens_judge {p : Place} : opens (judge rt s registered) p = true ↔
    ∃ d, p.entry = .dir d ∧ p.name ∉ hiddenNames ∧ d.config = none := by
  rw [opens, judge]
  cases p.entry with
  | leaf kind => simp
  | dir d =>
      simp only [List.contains_iff_mem]
      by_cases hhidden : p.name ∈ hiddenNames
      · simp [hhidden]
      · rw [if_neg hhidden]
        cases hconfig : d.config with
        | none => simp [hhidden, hconfig]
        | some text =>
            dsimp only
            by_cases hknown : s.path p.names ∈ registered.map s.resolve
            · rw [if_pos hknown]
              simp [hconfig]
            · rw [if_neg hknown]
              simp [hconfig]

theorem foundOf_judge {p : Place} {c : Candidate} : foundOf (judge rt s registered) p = some c ↔
    ∃ d text, p.entry = .dir d ∧ p.name ∉ hiddenNames ∧ d.config = some text ∧
    s.path p.names ∉ registered.map s.resolve ∧
      c = candidate rt s p text := by
  rw [foundOf, judge]
  cases p.entry with
  | leaf kind => simp
  | dir d =>
      simp only [List.contains_iff_mem]
      by_cases hhidden : p.name ∈ hiddenNames
      · simp [hhidden]
      · rw [if_neg hhidden]
        cases hconfig : d.config with
        | none => simp [hconfig]
        | some text =>
            dsimp only
            by_cases hknown : s.path p.names ∈ registered.map s.resolve
            · rw [if_pos hknown]
              constructor
              · rintro ⟨⟩
              · rintro ⟨_, _, -, -, -, hnew, -⟩
                exact absurd hknown hnew
            · rw [if_neg hknown]
              constructor
              · rintro ⟨⟩
                exact ⟨d, text, rfl, hhidden, hconfig, hknown, rfl⟩
              · rintro ⟨_, _, ⟨⟩, -, hsome, -, rfl⟩
                rw [hconfig] at hsome
                cases hsome
                rfl

theorem reached_root : Reached s [] := ⟨List.forall_mem_nil _, fun k hk => absurd hk (Nat.not_lt_zero k)⟩

theorem reached_append {names : List Text} {name : Text} {parent : Directory}
    (hparent : s.directory.at names = some parent) :
    Reached s (names ++ [name]) ↔
      Reached s names ∧ name ∉ hiddenNames ∧ parent.listable = true ∧ parent.searchable = true ∧
      (names ≠ [] → parent.config = none) := by
  have htake : (names ++ [name]).take names.length = names := List.take_left' rfl
  have hlt : names.length < (names ++ [name]).length := by simp
  constructor
  · intro h
    obtain ⟨hlist, hsearch, hconfig⟩ := h.ancestors names.length hlt parent (by rw [htake]; exact hparent)
    refine ⟨⟨fun n hn => h.plain n (List.mem_append_left _ hn), ?_⟩,
      h.plain name (List.mem_append_right _ (List.mem_singleton_self name)), hlist, hsearch,
      fun hne => hconfig (List.length_pos_iff.mpr hne)⟩
    intro k hk a ha
    refine h.ancestors k (Nat.lt_trans hk hlt) a ?_
    rw [List.take_append_of_le_length (Nat.le_of_lt hk)]
    exact ha
  · rintro ⟨h, hplain, hlist, hsearch, hconfig⟩
    refine ⟨?_, ?_⟩
    · intro other hother
      rcases List.mem_append.mp hother with hother | hother
      · exact h.plain other hother
      · rw [List.mem_singleton.mp hother]
        exact hplain
    · intro k hk a ha
      rw [List.length_append, List.length_singleton] at hk
      rcases Nat.lt_or_ge k names.length with hbefore | hlast
      · rw [List.take_append_of_le_length (Nat.le_of_lt hbefore)] at ha
        exact h.ancestors k hbefore a ha
      · have hklen : k = names.length := by omega
        rw [hklen, htake, hparent] at ha
        cases ha
        exact ⟨hlist, hsearch, fun hpos => hconfig (List.length_pos_iff.mp (hklen ▸ hpos))⟩

/-- What the search opens at its depth `k`. -/
def openedAt (rt : Runtime) (s : Storage) (registered : List Text) : Nat → Place → Prop :=
  Opened (children rt) (judge rt s registered) ⟨[], .dir s.directory⟩

/-- A child of an opened directory stands at its path in the tree. -/
theorem child_of_opened {x y : Place} {parent : Directory} (hentry : x.entry = .dir parent)
    (hplace : s.directory.at x.names = some parent) (hy : y ∈ children rt x) {d : Directory} (hdir : y.entry = .dir d) :
    parent.listable = true ∧ parent.searchable = true ∧ y.names = x.names ++ [y.name] ∧
    s.directory.at y.names = some d := by
  obtain ⟨_, hentry', hlist, hsearch, name, hname, hnames⟩ := mem_children.mp hy
  rw [hentry] at hentry'
  cases hentry'
  have hyname : y.name = name := by rw [Place.name, hnames, List.getLastD_concat]
  rw [hdir] at hname
  refine ⟨hlist, hsearch, by rw [hyname, hnames], ?_⟩
  rw [hnames, at_append, hplace, Option.bind_some]
  exact (child_iff (valid_at s.valid hplace).1).mpr hname

theorem opened_iff {k : Nat} {p : Place} : openedAt rt s registered k p ↔ ∃ d, p.entry = .dir d ∧ p.names.length = k ∧
    s.directory.at p.names = some d ∧ Reached s p.names ∧ (p.names ≠ [] → d.config = none) := by
  constructor
  · intro h
    induction h with
    | root => exact ⟨s.directory, rfl, rfl, rfl, reached_root, fun hne => absurd rfl hne⟩
    | child _ hmem hopens ih =>
        obtain ⟨parent, hentry, hlength, hplace, hreached, hown⟩ := ih
        obtain ⟨d, hdir, hplain, hconfig⟩ := opens_judge.mp hopens
        obtain ⟨hlist, hsearch, hnames, hat⟩ := child_of_opened hentry hplace hmem hdir
        refine ⟨d, hdir, ?_, hat, ?_, fun _ => hconfig⟩
        · rw [hnames, List.length_append, hlength, List.length_singleton]
        · rw [hnames]
          exact (reached_append hplace).mpr ⟨hreached, hplain, hlist, hsearch, hown⟩
  · rintro ⟨d, hentry, rfl, hplace, hreached, hown⟩
    obtain ⟨names, entry⟩ := p
    dsimp only at hentry hplace hreached hown ⊢
    subst hentry
    induction names using List.reverseRecOn generalizing d with
    | nil =>
        cases hplace
        exact .root
    | append_singleton names name ih =>
        rw [at_append, Option.bind_eq_some_iff] at hplace
        obtain ⟨parent, hparent, hchild⟩ := hplace
        obtain ⟨hbefore, hplain, hlist, hsearch, hconfig⟩ := (reached_append hparent).mp hreached
        have hmem := (child_iff (valid_at s.valid hparent).1).mp hchild
        rw [List.length_append, List.length_singleton]
        refine .child (ih parent hparent hbefore hconfig)
          (mem_children.mpr ⟨parent, rfl, hlist, hsearch, name, hmem, rfl⟩)
          (opens_judge.mpr ⟨d, rfl, ?_, hown (by simp)⟩)
        rw [name_append]
        exact hplain

/-- The levels of the tree hold what is to be taken over. -/
theorem mem_levels {c : Candidate} :
    c ∈ levelOrder (children rt) (judge rt s registered) limits.depth [⟨[], .dir s.directory⟩] ↔
      ∃ names d text, Discoverable s registered names d text ∧ c = candidate rt s ⟨names, .dir d⟩ text := by
  rw [mem_levelOrder]
  constructor
  · rintro ⟨k, hk, x, hx, y, hy, hfound⟩
    obtain ⟨parent, hentry, hlength, hplace, hreached, hown⟩ := opened_iff.mp (mem_iterate.mp hx)
    obtain ⟨d, text, hdir, hplain, hconfig, hnew, rfl⟩ := foundOf_judge.mp hfound
    obtain ⟨hlist, hsearch, hnames, hat⟩ := child_of_opened hentry hplace hy hdir
    refine ⟨y.names, d, text, ⟨hat, ?_, ?_, ?_, hconfig, hnew⟩, ?_⟩
    · rw [hnames]
      exact List.append_ne_nil_of_right_ne_nil _ (List.cons_ne_nil _ _)
    · rw [hnames, List.length_append, hlength, List.length_singleton]
      exact hk
    · rw [hnames]
      exact (reached_append hplace).mpr ⟨hreached, hplain, hlist, hsearch, hown⟩
    · rw [← hdir]
  · rintro ⟨names, d, text, h, rfl⟩
    obtain ⟨hat, hbelow, hdepth, hreached, hconfig, hnew⟩ := h
    obtain rfl | ⟨names, name, rfl⟩ := List.eq_nil_or_concat names
    · exact absurd rfl hbelow
    · rw [List.concat_eq_append] at *
      rw [at_append, Option.bind_eq_some_iff] at hat
      obtain ⟨parent, hparent, hchild⟩ := hat
      obtain ⟨hbefore, hplain, hlist, hsearch, hown⟩ := (reached_append hparent).mp hreached
      rw [List.length_append, List.length_singleton] at hdepth
      refine ⟨names.length, hdepth, ⟨names, .dir parent⟩,
        mem_iterate.mpr (opened_iff.mpr ⟨parent, rfl, rfl, hparent, hbefore, hown⟩),
        ⟨names ++ [name], .dir d⟩, mem_children.mpr ⟨parent, rfl, hlist, hsearch, name, ?_, rfl⟩, ?_⟩
      · exact (child_iff (valid_at s.valid hparent).1).mp hchild
      · refine foundOf_judge.mpr ⟨d, text, rfl, ?_, hconfig, hnew, rfl⟩
        rw [name_append]
        exact hplain

theorem levels_of_discovery : managedRepositoryCandidates rt s registered <+:
      levelOrder (children rt) (judge rt s registered) limits.depth [⟨[], .dir s.directory⟩] ∧
    ((discovery rt s registered 5001).open limits = true → managedRepositoryCandidates rt s registered =
      levelOrder (children rt) (judge rt s registered) limits.depth [⟨[], .dir s.directory⟩]) :=
  search_root (by decide) (by decide)

theorem discoverable_of_mem {c : Candidate} (h : c ∈ managedRepositoryCandidates rt s registered) :
    ∃ names d text, Discoverable s registered names d text ∧ c = candidate rt s ⟨names, .dir d⟩ text :=
  mem_levels.mp (levels_of_discovery.1.subset h)

/-- The number of parts of a directory name. -/
def depth (c : Candidate) : Nat := (c.directoryName.splitOn '/').length

/-- What holds of every place below the root. -/
def Placed (p : Place) : Prop := (∀ name ∈ p.names, PlainPart name) ∧ ∀ d, p.entry = .dir d → d.contents.Valid

theorem placed_children {x y : Place} (h : Placed x) (hy : y ∈ children rt x) : Placed y := by
  obtain ⟨d, hentry, -, -, name, hname, hnames⟩ := mem_children.mp hy
  obtain ⟨hplain, hvalid⟩ := valid_entry (h.2 d hentry) hname
  refine ⟨?_, hvalid⟩
  rw [hnames]
  intro other hother
  rcases List.mem_append.mp hother with hother | hother
  · exact h.1 other hother
  · rw [List.mem_singleton.mp hother]
    exact hplain

theorem nodup_childNames {x : Place} (h : Placed x) : ((children rt x).map Place.names).Nodup := by
  rw [children]
  cases hentry : x.entry with
  | leaf kind => exact List.nodup_nil
  | dir d =>
      dsimp only
      split
      · have hnames : ((d.contents.entries.insertionSort (entryOrder rt)).map Prod.fst).Nodup :=
          (((List.perm_insertionSort _ _).map Prod.fst).nodup_iff).mpr (nodup_names (h.2 d hentry))
        rw [List.map_map]
        have hmap : Place.names ∘ (fun e : Text × Entry => Place.mk (x.names ++ [e.1]) e.2) =
            (fun name => x.names ++ [name]) ∘ Prod.fst := rfl
        rw [hmap, ← List.map_map]
        exact hnames.map (fun a b hab => List.singleton_inj.mp (List.append_cancel_left hab))
      · exact List.nodup_nil

theorem splitOn_joined {names : List Text} (hne : names ≠ []) (h : ∀ name ∈ names, PlainPart name) :
    (joined names).splitOn '/' = names :=
  List.splitOn_intercalate '/' (fun name hname => (h name hname).noSlash) hne

/-- What is proposed for takeover are repositories below the root that are
not registered, each once and the higher ones first. If the search ends below
its limits, none of them is missing; more rounds would change nothing. -/
theorem candidates_by_level :
    (∀ c ∈ managedRepositoryCandidates rt s registered, ∃ names d text,
        Discoverable s registered names d text ∧ c = candidate rt s ⟨names, .dir d⟩ text) ∧
      ((discovery rt s registered 5001).scanned < 5000 → (managedRepositoryCandidates rt s registered).length < 500 →
        ∀ names d text, Discoverable s registered names d text →
          candidate rt s ⟨names, .dir d⟩ text ∈ managedRepositoryCandidates rt s registered) ∧
      (managedRepositoryCandidates rt s registered).Pairwise
      (fun a b => depth a ≤ depth b ∧ a.directoryName ≠ b.directoryName) ∧
      ∀ more, discovery rt s registered (5001 + more) = discovery rt s registered 5001 := by
  obtain ⟨hfirst, hall⟩ := @levels_of_discovery rt s registered
  have hordered : (levelOrder (children rt) (judge rt s registered) limits.depth [⟨[], .dir s.directory⟩]).Pairwise
      (fun a b => depth a ≤ depth b ∧ a.directoryName.splitOn '/' ≠ b.directoryName.splitOn '/') := by
    refine (levelOrder_pairwise Place.names (fun c : Candidate => c.directoryName.splitOn '/') Placed (r := 0)
      ?_ (fun x y => placed_children) ?_ (fun x => nodup_childNames) ?_ ?_ ?_).1
    · intro x hx
      rw [List.mem_singleton.mp hx]
      refine ⟨List.forall_mem_nil _, ?_⟩
      rintro d ⟨⟩
      exact s.valid
    · intro x y hy
      obtain ⟨-, -, -, -, name, -, hnames⟩ := mem_children.mp hy
      exact ⟨name, hnames⟩
    · intro x y c hx hy hfound
      obtain ⟨d, text, -, -, -, -, rfl⟩ := foundOf_judge.mp hfound
      obtain ⟨-, -, -, -, name, -, hnames⟩ := mem_children.mp hy
      refine splitOn_joined ?_ (placed_children hx hy).1
      rw [hnames]
      exact List.append_ne_nil_of_right_ne_nil _ (List.cons_ne_nil _ _)
    · exact List.nodup_singleton _
    · intro x hx
      rw [List.mem_singleton.mp hx]
      rfl
  refine ⟨?_, ?_, ?_, ?_⟩
  · exact fun c hc => discoverable_of_mem hc
  · intro hscanned hfound names d text h
    have hopen : (discovery rt s registered 5001).open limits = true := by
      rw [Tally.open, Bool.and_eq_true]
      exact ⟨decide_eq_true hscanned, decide_eq_true hfound⟩
    rw [hall hopen]
    exact mem_levels.mpr ⟨names, d, text, h, rfl⟩
  · refine (hordered.sublist hfirst.sublist).imp ?_
    rintro a b ⟨hdepth, hne⟩
    exact ⟨hdepth, fun heq => hne (by rw [heq])⟩
  · intro more
    exact search_rounds (Nat.zero_le _) (Nat.le_of_eq rfl)

end Discovery

end BorgManager.RepositoryDiscovery
