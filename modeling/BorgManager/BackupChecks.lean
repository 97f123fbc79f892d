import BorgManager.BackupArchives

namespace BorgManager.BackupChecks

open PythonText ArtifactPaths JsonText BackupArchives

/-- A member whose name is a path of plain parts. -/
def WellNamed (member : Member) : Prop :=
  ∃ parts, parts ≠ [] ∧ (∀ part ∈ parts, PlainPart part) ∧ member.filename = ['/'].intercalate parts

theorem getLast_intercalate {parts : List (List Char)} (h : ∀ part ∈ parts, PlainPart part) :
    (['/'].intercalate parts).getLast? ≠ some '/' := by
  induction parts with
  | nil => simp
  | cons part parts ih =>
      have hpart := h part (List.mem_cons_self ..)
      cases parts with
      | nil =>
          rw [List.intercalate_singleton]
          exact fun hlast => hpart.noSlash (List.mem_of_getLast? hlast)
      | cons next parts =>
          have hnext := h next (List.mem_cons_of_mem _ (List.mem_cons_self ..))
          have hne : ['/'].intercalate (next :: parts) ≠ [] := by
            intro hnil
            have hhead := head_intercalate hnext.nonempty parts
            rw [hnil] at hhead
            exact hnext.nonempty (List.head?_eq_none_iff.mp hhead.symm)
          rw [List.intercalate_cons_cons, List.getLast?_append_of_ne_nil _ hne]
          exact ih (fun p hp => h p (List.mem_cons_of_mem _ hp))

theorem relative_eq {member : Member} {parts : List (List Char)} (hne : parts ≠ []) (h : ∀ part ∈ parts, PlainPart part)
    (hname : member.filename = ['/'].intercalate parts) :
    member.relative = if '\\' ∈ member.filename then .error (unsafePath member.filename) else .ok parts := by
  have hlast := getLast_intercalate h
  rw [Member.relative, Member.isDir, hname, if_neg (by simpa using hlast), safeRelativePath_intercalate hne h]

theorem exceedsRatio_iff (limits : Limits) (size compressed : Nat) :
    exceedsRatio limits size compressed ↔ limits.maxCompressionRatio * max 1 compressed < size := by
  rw [exceedsRatio]
  constructor
  · exact And.right
  · exact fun h => ⟨by omega, h⟩

def tallied (tally : Tally) (member : Member) : Tally :=
  ⟨member.filename :: tally.names, tally.uncompressed + member.fileSize, tally.compressed + member.compressSize⟩

/-- What one member must meet: no backslash in its name and no more than the
ratio. -/
def MemberFits (limits : Limits) (member : Member) : Prop :=
  '\\' ∉ member.filename ∧ member.fileSize ≤ limits.maxCompressionRatio * max 1 member.compressSize

theorem checkMember_ok_iff {limits : Limits} {tally next : Tally} {member : Member} (hname : WellNamed member)
    (htype : member.fileType ≠ .symlink) (hnew : member.filename ∉ tally.names) :
    checkMember limits tally member = .ok next ↔
      MemberFits limits member ∧ tally.uncompressed + member.fileSize ≤ limits.maxUncompressedBytes ∧
        next = tallied tally member := by
  obtain ⟨parts, hne, hplain, hpath⟩ := hname
  have hposix : asPosix parts = member.filename := by rw [asPosix, if_neg hne, hpath]
  rw [checkMember, relative_eq hne hplain hpath, MemberFits, ← Nat.not_lt, ← exceedsRatio_iff, ← Nat.not_lt]
  by_cases hback : '\\' ∈ member.filename
  · rw [if_pos hback]
    exact ⟨fun h => (by cases h), fun h => (h.1.1 hback).elim⟩
  by_cases hratio : exceedsRatio limits member.fileSize member.compressSize
  · rw [if_neg hback]
    simp only [bind, Except.bind, hposix, if_neg hnew, containedTarget, if_neg hne, if_neg htype, if_pos hratio]
    exact ⟨fun h => (by cases h), fun h => (h.1.2 hratio).elim⟩
  by_cases htotal : limits.maxUncompressedBytes < tally.uncompressed + member.fileSize
  · rw [if_neg hback]
    simp only [bind, Except.bind, hposix, if_neg hnew, containedTarget, if_neg hne, if_neg htype, if_neg hratio,
      if_pos htotal]
    exact ⟨fun h => (by cases h), fun h => (h.2.1 htotal).elim⟩
  · rw [if_neg hback]
    simp only [bind, Except.bind, hposix, if_neg hnew, containedTarget, if_neg hne, if_neg htype, if_neg hratio,
      if_neg htotal]
    constructor
    · intro h
      cases h
      exact ⟨⟨hback, hratio⟩, htotal, rfl⟩
    · rintro ⟨_, _, rfl⟩
      rfl

def uncompressedTotal (members : List Member) : Nat := (members.map Member.fileSize).sum

def compressedTotal (members : List Member) : Nat := (members.map Member.compressSize).sum

theorem foldl_tallied (tally : Tally) (members : List Member) :
    (members.foldl tallied tally).uncompressed = tally.uncompressed + uncompressedTotal members ∧
      (members.foldl tallied tally).compressed = tally.compressed + compressedTotal members := by
  induction members generalizing tally with
  | nil => exact ⟨rfl, rfl⟩
  | cons member rest ih =>
      have hrest := ih (tallied tally member)
      simp only [List.foldl_cons, uncompressedTotal, compressedTotal, List.map_cons, List.sum_cons, ← Nat.add_assoc]
      exact hrest

/-- Members that an archive can have side by side. -/
structure Distinct (members : List Member) : Prop where
  named : ∀ member ∈ members, WellNamed member
  types : ∀ member ∈ members, member.fileType ≠ .symlink
  nodup : (members.map Member.filename).Nodup

theorem checkMembers_ok_iff {limits : Limits} {tally last : Tally} {members : List Member} (h : Distinct members)
    (hnew : ∀ member ∈ members, member.filename ∉ tally.names)
    (hstart : tally.uncompressed ≤ limits.maxUncompressedBytes) :
    checkMembers limits tally members = .ok last ↔
      (∀ member ∈ members, MemberFits limits member) ∧
        tally.uncompressed + uncompressedTotal members ≤ limits.maxUncompressedBytes ∧
          last = members.foldl tallied tally := by
  induction members generalizing tally with
  | nil =>
      rw [checkMembers, List.foldl_nil, uncompressedTotal, List.map_nil, List.sum_nil, Nat.add_zero, Except.ok.injEq]
      exact ⟨fun heq => ⟨fun _ hm => (List.not_mem_nil hm).elim, hstart, heq.symm⟩, fun hall => hall.2.2.symm⟩
  | cons member rest ih =>
      obtain ⟨hname, hnames⟩ := List.forall_mem_cons.mp h.named
      obtain ⟨htype, htypes⟩ := List.forall_mem_cons.mp h.types
      obtain ⟨hfresh, hnodup⟩ := List.nodup_cons.mp h.nodup
      have hstep (next : Tally) : checkMember limits tally member = .ok next ↔ _ :=
        checkMember_ok_iff hname htype (hnew member (List.mem_cons_self ..))
      have hnext : ∀ other ∈ rest, other.filename ∉ (tallied tally member).names := by
        intro other hother hmem
        rcases List.mem_cons.mp hmem with heq | hmem
        · exact hfresh (heq ▸ List.mem_map_of_mem hother)
        · exact hnew other (List.mem_cons_of_mem _ hother) hmem
      have hsum : uncompressedTotal (member :: rest) = member.fileSize + uncompressedTotal rest := by
        rw [uncompressedTotal, List.map_cons, List.sum_cons, ← uncompressedTotal]
      rw [List.forall_mem_cons, hsum, ← Nat.add_assoc]
      constructor
      · intro hall
        rw [checkMembers] at hall
        cases hmember : checkMember limits tally member with
        | error e =>
            rw [hmember] at hall
            nomatch hall
        | ok next =>
            rw [hmember] at hall
            obtain ⟨hfits, htotal, rfl⟩ := (hstep next).mp hmember
            obtain ⟨hothers, hlimit, hlast⟩ := (ih ⟨hnames, htypes, hnodup⟩ hnext htotal).mp hall
            exact ⟨⟨hfits, hothers⟩, hlimit, hlast⟩
      · rintro ⟨⟨hfits, hothers⟩, hlimit, hlast⟩
        have htotal : tally.uncompressed + member.fileSize ≤ limits.maxUncompressedBytes := le_trans (by omega) hlimit
        rw [checkMembers, (hstep _).mpr ⟨hfits, htotal, rfl⟩]
        exact (ih ⟨hnames, htypes, hnodup⟩ hnext htotal).mpr ⟨hothers, hlimit, hlast⟩

theorem getinfo_of_mem {members : List Member} (hnodup : (members.map Member.filename).Nodup) {member : Member}
    (hmem : member ∈ members) : getinfo members member.filename = some member := by
  have hfilter : members.filter (fun m => m.filename == member.filename) = [member] := by
    induction members with
    | nil => exact (List.not_mem_nil hmem).elim
    | cons first rest ih =>
        obtain ⟨hfresh, hnodup⟩ := List.nodup_cons.mp hnodup
        rcases List.mem_cons.mp hmem with rfl | hmem
        · rw [List.filter_cons_of_pos (by simp), List.cons.injEq, List.filter_eq_nil_iff]
          refine ⟨rfl, fun other hother hsame => hfresh ?_⟩
          exact List.mem_map.mpr ⟨other, hother, by simpa using hsame⟩
        · have hne : first.filename ≠ member.filename := fun heq => hfresh (heq ▸ List.mem_map_of_mem hmem)
          rw [List.filter_cons_of_neg (by simpa using hne), ih hnodup hmem]
  rw [getinfo, hfilter]
  rfl

/-- A version that restores still support. -/
def SupportedVersion (version : String) : Prop :=
  ∃ numbers, versionTuple version = some numbers ∧ olderThan numbers minSupportedBackupVersion = false

theorem requireSupportedBackupVersion_ok_iff (metadata : Document) :
    requireSupportedBackupVersion metadata = .ok () ↔ SupportedVersion (get metadata "app_version").textOr := by
  rw [requireSupportedBackupVersion, SupportedVersion]
  cases hversion : versionTuple (get metadata "app_version").textOr with
  | none => simp
  | some numbers => cases hold : olderThan numbers minSupportedBackupVersion <;> simp [hold]

/-- A manifest in one of the two formats that are written today. -/
def Recognised (manifest : Document) : Prop :=
  (get manifest "format").textOr = backupFormat ∧ (get manifest "format_version").numberOr = 7 ∨
    (get manifest "format").textOr = cacheBackupFormat ∧ (get manifest "format_version").numberOr = 2

theorem formats_differ : cacheBackupFormat ≠ backupFormat := by decide

/-- A manifest can be read when it is short enough and its version supported. -/
def ManifestReadable (style : Style) (manifest : Document) : Prop :=
  (Content.json style manifest).size ≤ maxManifestBytes ∧ SupportedVersion (get manifest "app_version").textOr

theorem readAnyBackupManifest_ok_iff {members : List Member} {member : Member} {style : Style}
    {manifest read : Document} (hinfo : getinfo members manifestName = some member)
    (hcontent : member.content = .json style manifest) (h : Recognised manifest) :
    readAnyBackupManifest members = .ok read ↔ ManifestReadable style manifest ∧ read = manifest := by
  have hloads : member.content.loads = some manifest := by rw [hcontent]; rfl
  have htwo : ¬ member.fileSize < 2 := by
    have hlength := length_dumps style manifest
    have hbytes := length_le_byteSize (dumps style manifest)
    rw [Member.fileSize, hcontent, Content.size]
    omega
  have hformat : ¬ ((get manifest "format").textOr ≠ backupFormat ∧ (get manifest "format").textOr ≠
      cacheBackupFormat) := by
    rintro ⟨hplain, hcache⟩
    rcases h with ⟨heq, -⟩ | ⟨heq, -⟩
    exacts [hplain heq, hcache heq]
  have hexpected : ¬ (get manifest "format_version").numberOr ≠
      if (get manifest "format").textOr = backupFormat then (7 : Int) else 2 := by
    rw [not_not]
    rcases h with ⟨heq, hversion⟩ | ⟨heq, hversion⟩
    · rw [if_pos heq, hversion]
    · rw [if_neg (by rw [heq]; exact formats_differ), hversion]
  rw [readAnyBackupManifest, hinfo, ManifestReadable, ← requireSupportedBackupVersion_ok_iff, ← hcontent,
    ← Member.fileSize]
  simp only [hloads]
  by_cases hsize : member.fileSize > maxManifestBytes
  · simp only [bind, Except.bind, if_pos (Or.inr hsize)]
    exact ⟨fun hread => (nomatch hread), fun hall => absurd hall.1.1 (Nat.not_le.mpr hsize)⟩
  · simp only [bind, Except.bind, if_neg (not_or.mpr ⟨htwo, hsize⟩), if_neg hformat]
    cases hversion : requireSupportedBackupVersion manifest with
    | error e => exact ⟨fun hread => (nomatch hread), fun hall => (nomatch hall.1.2)⟩
    | ok _ =>
        simp only [if_neg hexpected]
        constructor
        · intro hread
          cases hread
          exact ⟨⟨Nat.not_lt.mp hsize, trivial⟩, rfl⟩
        · rintro ⟨_, rfl⟩
          rfl

theorem checkPermissions_ok {limits : Limits} {permissions : Document} (hcount : permissions.length ≤ limits.maxEntries)
    (h : ∀ f ∈ permissions, isMode f.2 = true ∧ ∃ parts, parts ≠ [] ∧ safeRelativePath f.1.toList = .ok parts) :
    checkPermissions limits permissions = .ok () := by
  rw [checkPermissions, if_neg (Nat.not_lt.mpr hcount)]
  clear hcount
  induction permissions with
  | nil => rfl
  | cons f rest ih =>
      obtain ⟨hfirst, hrest⟩ := List.forall_mem_cons.mp h
      obtain ⟨hmode, parts, hne, hsafe⟩ := hfirst
      have hcheck : checkPermission f = .ok () := by
        rw [checkPermission, hmode, hsafe]
        simp only [bind, Except.bind, Bool.true_eq_false, if_false, containedTarget, if_neg hne]
      change (checkPermission f >>= fun _ => rest.forM checkPermission) = .ok ()
      rw [hcheck]
      exact ih hrest

/-- An archive as the manager writes it: its two JSON members, and modes for
files that it holds. -/
structure OwnArchive (style : Style) (manifest permissions : Document) (members : List Member) : Prop
    extends Distinct members where
  recognised : Recognised manifest
  manifestMember : ∃ member ∈ members, member.filename = manifestName ∧ member.content = .json style manifest
  permissionsMember : ∃ member ∈ members, member.filename = permissionsName ∧
    ∃ style, member.content = .json style permissions
  modes : ∀ f ∈ permissions, isMode f.2 = true ∧ ∃ member ∈ members, member.filename = f.1.toList
  fewer : permissions.length ≤ members.length

/-- The limits that a restore puts on the members of an archive. -/
structure Accepted (limits : Limits) (members : List Member) : Prop where
  count : members.length ≤ limits.maxEntries
  fits : ∀ member ∈ members, MemberFits limits member
  total : uncompressedTotal members ≤ limits.maxUncompressedBytes
  ratio : uncompressedTotal members ≤ limits.maxCompressionRatio * max 1 (compressedTotal members)

theorem getinfo_mem {members : List Member} {name : List Char} {member : Member}
    (h : getinfo members name = some member) :
    member ∈ members ∧ member.filename = name := by
  have hmem := List.mem_filter.mp (List.mem_of_getLast? h)
  exact ⟨hmem.1, by simpa using hmem.2⟩

theorem applyPermissions_ok {limits : Limits} {style : Style} {manifest permissions : Document} {members : List Member}
    (h : OwnArchive style manifest permissions members) (haccepted : Accepted limits members)
    (skipPrefixes : List (List Char)) : applyPermissions limits (extracted skipPrefixes members) = .ok () := by
  rw [applyPermissions]
  cases hinfo : getinfo (extracted skipPrefixes members) permissionsName with
  | none => rfl
  | some info =>
      obtain ⟨hmem, hname⟩ := getinfo_mem hinfo
      obtain ⟨member, hmember, hmembername, jsonStyle, hcontent⟩ := h.permissionsMember
      have hsame : info = member :=
        List.inj_on_of_nodup_map h.nodup (List.mem_of_mem_filter hmem) hmember (hname.trans hmembername.symm)
      simp only [hsame, hcontent, Content.loads]
      refine checkPermissions_ok (h.fewer.trans haccepted.count) (fun f hf => ?_)
      obtain ⟨hmode, file, hfile, hpath⟩ := h.modes f hf
      obtain ⟨parts, hne, hplain, hparts⟩ := h.named file hfile
      refine ⟨hmode, parts, hne, ?_⟩
      rw [← hpath, hparts, safeRelativePath_intercalate hne hplain, if_neg]
      rw [← hparts]
      exact (haccepted.fits file hfile).1

/-- The host opens every file that is extracted. -/
def Extractable (staging : Staging) (skipPrefixes : List (List Char)) (members : List Member) : Prop :=
  ∀ member ∈ extracted skipPrefixes members, staging.opens member = true

theorem extractMembers_ok_iff (staging : Staging) (files : List Member) :
    extractMembers staging files = .ok () ↔ ∀ member ∈ files, staging.opens member = true := by
  rw [extractMembers]
  cases hfind : files.find? (fun member => !staging.opens member) with
  | none => simpa using hfind
  | some member =>
      refine ⟨fun h => (nomatch h), fun h => ?_⟩
      have hclosed := List.find?_some hfind
      rw [h member (List.mem_of_find?_eq_some hfind)] at hclosed
      nomatch hclosed

/-- `_safe_extract` takes an archive of the manager just when its manifest can
be read, its members are within the limits and the host opens their files. -/
theorem safeExtract_ok_iff {limits : BackupLimits} {staging : Staging} {skipPrefixes : List (List Char)} {style : Style}
    {manifest permissions : Document} {members : List Member} (h : OwnArchive style manifest permissions members)
    {result : Document × List Member} :
    safeExtract limits staging skipPrefixes members = .ok result ↔
      (ManifestReadable style manifest ∧
        Accepted (limits.of (includesCache manifest)) members ∧ Extractable staging skipPrefixes members) ∧
        result = (manifest, extracted skipPrefixes members) := by
  obtain ⟨member, hmember, hname, hcontent⟩ := h.manifestMember
  have hinfo : getinfo members manifestName = some member := hname ▸ getinfo_of_mem h.nodup hmember
  have hread (read : Document) : readAnyBackupManifest members = .ok read ↔ _ :=
    readAnyBackupManifest_ok_iff hinfo hcontent h.recognised
  rw [safeExtract]
  cases hmanifest : readAnyBackupManifest members with
  | error e =>
      refine ⟨fun hall => (nomatch hall), fun hall => ?_⟩
      rw [(hread manifest).mpr ⟨hall.1.1, rfl⟩] at hmanifest
      nomatch hmanifest
  | ok read =>
      obtain ⟨hreadable, rfl⟩ := (hread read).mp hmanifest
      simp only [bind, Except.bind]
      generalize limits.of (includesCache read) = bounds
      have hchecks (last : Tally) : checkMembers bounds ⟨[], 0, 0⟩ members = .ok last ↔ _ :=
        checkMembers_ok_iff h.toDistinct (fun _ _ => List.not_mem_nil) (Nat.zero_le _)
      obtain ⟨huncompressed, hcompressed⟩ := foldl_tallied ⟨[], 0, 0⟩ members
      rw [Nat.zero_add] at huncompressed hcompressed
      by_cases hcount : bounds.maxEntries < members.length
      · simp only [if_pos hcount]
        exact ⟨fun hall => (nomatch hall), fun hall => absurd hall.1.2.1.count (Nat.not_le.mpr hcount)⟩
      · simp only [if_neg hcount]
        cases hmembers : checkMembers bounds ⟨[], 0, 0⟩ members with
        | error e =>
            refine ⟨fun hall => (nomatch hall), fun hall => ?_⟩
            have haccepted := hall.1.2.1
            rw [(hchecks _).mpr ⟨haccepted.fits, by rw [Nat.zero_add]; exact haccepted.total, rfl⟩] at hmembers
            nomatch hmembers
        | ok last =>
            obtain ⟨hfits, htotal, rfl⟩ := (hchecks last).mp hmembers
            rw [Nat.zero_add] at htotal
            simp only [huncompressed, hcompressed]
            by_cases hratio : exceedsRatio bounds (uncompressedTotal members) (compressedTotal members)
            · rw [if_pos hratio]
              refine ⟨fun hall => (nomatch hall), fun hall => ?_⟩
              exact absurd hall.1.2.1.ratio (Nat.not_le.mpr ((exceedsRatio_iff ..).mp hratio))
            · have haccepted : Accepted bounds members := ⟨Nat.not_lt.mp hcount, hfits, htotal,
                Nat.not_lt.mp (fun hlt => hratio ((exceedsRatio_iff ..).mpr hlt))⟩
              have hextract := extractMembers_ok_iff staging (extracted skipPrefixes members)
              rw [← Extractable] at hextract
              simp only [if_neg hratio, applyPermissions_ok h haccepted]
              cases hfiles : extractMembers staging (extracted skipPrefixes members) with
              | error e =>
                  refine ⟨fun hall => (nomatch hall), fun hall => ?_⟩
                  rw [hextract.mpr hall.1.2.2] at hfiles
                  nomatch hfiles
              | ok _ =>
                  constructor
                  · intro hall
                    cases hall
                    exact ⟨⟨hreadable, haccepted, hextract.mp hfiles⟩, rfl⟩
                  · rintro ⟨_, rfl⟩
                    rfl

end BorgManager.BackupChecks
