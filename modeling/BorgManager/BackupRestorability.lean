import BorgManager.DeviceArtifacts
import Mathlib.Algebra.Order.BigOperators.Group.List
import Mathlib.Algebra.Order.Group.Nat

namespace BorgManager.BackupRestorability

open Exceptions PythonText ArtifactPaths JsonText BackupArchives BackupTrees BackupArtifacts BackupChecks OwnArchives
open DeviceArtifacts

/-- The sizes of an archive are within the limits. -/
structure WithinLimits (limits : Limits) (members : List Member) : Prop where
  count : members.length ≤ limits.maxEntries
  ratios : ∀ member ∈ members, member.fileSize ≤ limits.maxCompressionRatio * max 1 member.compressSize
  total : uncompressedTotal members ≤ limits.maxUncompressedBytes
  ratio : uncompressedTotal members ≤ limits.maxCompressionRatio * max 1 (compressedTotal members)

theorem accepted_iff {limits : Limits} {members : List Member} :
    Accepted limits members ↔ WithinLimits limits members ∧ ∀ member ∈ members, '\\' ∉ member.filename := by
  constructor
  · rintro ⟨hcount, hfits, htotal, hratio⟩
    exact ⟨⟨hcount, fun member hmember => (hfits member hmember).2, htotal, hratio⟩,
      fun member hmember => (hfits member hmember).1⟩
  · rintro ⟨⟨hcount, hratios, htotal, hratio⟩, hback⟩
    exact ⟨hcount, fun member hmember => ⟨hback member hmember, hratios member hmember⟩, htotal, hratio⟩

/-- The host opens every file that a restore extracts: all but the tars of the
devices. -/
def FitsStaging (staging : Staging) (members : List Member) : Prop :=
  ∀ member ∈ members, skipExtractPrefixes.any (·.isPrefixOf member.filename) = false → staging.opens member = true

theorem extractable_iff {staging : Staging} {members : List Member} (h : Distinct members)
    (hback : ∀ member ∈ members, '\\' ∉ member.filename) :
    Extractable staging skipExtractPrefixes members ↔ FitsStaging staging members := by
  have hmem (member : Member) (hmember : member ∈ members) : member ∈ extracted skipExtractPrefixes members ↔
      skipExtractPrefixes.any (·.isPrefixOf member.filename) = false := by
    obtain ⟨parts, hne, hplain, hname⟩ := h.named member hmember
    have hposix : asPosix parts = member.filename := by rw [asPosix, if_neg hne, hname]
    rw [extracted, List.mem_filter, and_iff_right hmember, relative_eq hne hplain hname, if_neg (hback member hmember)]
    simp only [hposix, Bool.not_eq_true']
  constructor
  · exact fun hall member hmember hskip => hall member ((hmem member hmember).mpr hskip)
  · intro hall member hextracted
    have hmember := List.mem_of_mem_filter hextracted
    exact hall member hmember ((hmem member hmember).mp hextracted)

theorem header_long_enough (manifest : Document) (nonces : Nonces) :
    32 ≤ headerLength (envelopeHeader manifest nonces) := by
  have hlength := length_dumps headerStyle (sortKeys (envelopeHeader manifest nonces))
  have hbytes := length_le_byteSize (dumps headerStyle (sortKeys (envelopeHeader manifest nonces)))
  rw [sortKeys, List.length_insertionSort, ← sortKeys] at hlength
  rw [headerLength]
  simp only [envelopeHeader, List.length_cons, List.length_nil] at hlength ⊢
  simp only [envelopeHeader] at hbytes
  omega

def maxHeaderBytes : Nat := 65536

variable {codec : Codec} {limits : BackupLimits} {request : BackupRequest} {artifact : Artifact}

/-- The fields of a header that a restore checks. -/
theorem header_fields (manifest : Document) (nonces : Nonces) :
    get (envelopeHeader manifest nonces) "format" = .text "borgbackup-manager-encrypted-backup" ∧
      get (envelopeHeader manifest nonces) "format_version" = .number 2 ∧
        get (envelopeHeader manifest nonces) "cipher" = .text "AES-256-GCM-stream" ∧
          get (envelopeHeader manifest nonces) "tag_bytes" = .number tagBytes ∧
            get (envelopeHeader manifest nonces) "app_version" = get manifest "app_version" := ⟨rfl, rfl, rfl, rfl, rfl⟩

theorem header_includesCache (manifest : Document) (nonces : Nonces) :
    includesCache (envelopeHeader manifest nonces) = includesCache manifest := rfl

/-- With the passphrase of its creation an encrypted artifact opens, unless its
header is too long or its version too old. -/
theorem decryptBackup_ok_iff {manifest : Document} {nonces : Nonces} {passphrase : String} {given : Option String}
    {members read : List Member} (hgiven : truthy given = some passphrase) (hlength : 12 ≤ passphrase.toList.length)
    (hsize : validateBackupFileSize (limits.of (includesCache manifest))
      ((Artifact.encrypted (envelopeHeader manifest nonces) passphrase members).fileSize codec) = .ok ()) :
    decryptBackup codec limits (envelopeHeader manifest nonces) passphrase members given = .ok read ↔
      (headerLength (envelopeHeader manifest nonces) ≤ maxHeaderBytes ∧
        SupportedVersion (get manifest "app_version").textOr) ∧ read = members := by
  obtain ⟨hformat, hversion, hcipher, htag, happ⟩ := header_fields manifest nonces
  have hlong := header_long_enough manifest nonces
  have hzip := codec.zipSize_pos members
  have hshort : ¬ passphrase.toList.length < 8 := by omega
  rw [← happ, ← requireSupportedBackupVersion_ok_iff, maxHeaderBytes, decryptBackup, hgiven]
  simp only [hformat, hversion, hcipher, htag, header_includesCache, hsize, Value.textOr, Value.numberOr, bind,
    Except.bind,
    ne_eq, not_true_eq_false, if_false, or_self, if_neg hshort, if_neg hzip.ne']
  by_cases hbound : headerLength (envelopeHeader manifest nonces) > 65536
  · rw [if_pos (.inr hbound)]
    exact ⟨fun h => (nomatch h), fun h => absurd h.1.1 (Nat.not_le.mpr hbound)⟩
  · rw [if_neg (by omega)]
    cases hsupported : requireSupportedBackupVersion (envelopeHeader manifest nonces) with
    | error e => exact ⟨fun h => (nomatch h), fun h => (nomatch h.1.2)⟩
    | ok _ =>
        constructor
        · intro h
          cases h
          exact ⟨⟨Nat.not_lt.mp hbound, rfl⟩, rfl⟩
        · rintro ⟨_, rfl⟩
          rfl

theorem recognised_plainManifest (appVersion label createdAt : String) (compression : Compression)
    (inventory : SecurityInventory) : Recognised (plainManifest appVersion label createdAt compression inventory) :=
  .inl ⟨rfl, rfl⟩

theorem recognised_cacheManifest (state : ManagerCache) (appVersion label createdAt : String)
    (compression : Compression) :
    Recognised (cacheManifest state appVersion label createdAt compression) :=
  .inr ⟨rfl, rfl⟩

theorem writePlainBackup_ok {data : ManagerData} {appVersion label createdAt method : String} {manifest : Document}
    {members : List Member}
    (h : writePlainBackup codec data appVersion label createdAt method = .ok (manifest, members)) :
    ∃ inventory compression environment, data.securityPair = .ok inventory ∧
    compressionSettings method = .ok compression ∧
      environmentSnapshot data.environ = .ok environment ∧
        manifest = plainManifest appVersion label createdAt compression inventory ∧
          members = managerMembers (codec.compress compression) environment manifest data := by
  obtain ⟨_, _, h⟩ := bind_ok h
  obtain ⟨inventory, hinventory, h⟩ := bind_ok h
  obtain ⟨_, _, h⟩ := bind_ok h
  obtain ⟨compression, hcompression, h⟩ := bind_ok h
  obtain ⟨environment, henvironment, h⟩ := bind_ok h
  obtain ⟨snapshot, _, h⟩ := bind_ok h
  split at h
  · nomatch h
  · cases h
    exact ⟨inventory, compression, environment, hinventory, hcompression, henvironment, rfl, rfl⟩

theorem writeCacheBackup_ok {state : ManagerCache} {appVersion label createdAt method : String} {manifest : Document}
    {members : List Member}
    (h : writeCacheBackup codec state appVersion label createdAt method = .ok (manifest, members)) :
    ∃ compression, compressionSettings method = .ok compression ∧
      manifest = cacheManifest state appVersion label createdAt compression ∧
        members = cacheMembers (codec.compress compression) manifest state := by
  obtain ⟨compression, hcompression, h⟩ := bind_ok h
  cases h
  exact ⟨compression, hcompression, rfl, rfl⟩

theorem encryptBackup_ok {manifest : Document} {members : List Member} {passphrase : String} {nonces : Nonces}
    (h : encryptBackup manifest members passphrase nonces = .ok artifact) :
    12 ≤ passphrase.toList.length ∧ artifact = .encrypted (envelopeHeader manifest nonces) passphrase members := by
  rw [encryptBackup] at h
  split at h
  · nomatch h
  next hlength =>
    split at h
    · nomatch h
    · cases h
      exact ⟨Nat.not_lt.mp hlength, rfl⟩

theorem createFullBackup_ok {data : ManagerData} (h : createFullBackup codec limits data request = .ok artifact) :
    ∃ passphrase manifest members, truthy request.passphrase = some passphrase ∧ 12 ≤ passphrase.toList.length ∧
      writePlainBackup codec data request.appVersion (backupLabel request.label) request.createdAt request.compression =
        .ok (manifest, members) ∧
      artifact = .encrypted (envelopeHeader manifest request.nonces) passphrase members ∧
      validateBackupFileSize limits.manager (artifact.fileSize codec) = .ok () := by
  rw [createFullBackup] at h
  cases hpassphrase : truthy request.passphrase with
  | none =>
      rw [hpassphrase] at h
      nomatch h
  | some passphrase =>
      rw [hpassphrase] at h
      obtain ⟨⟨manifest, members⟩, hwrite, h⟩ := bind_ok h
      obtain ⟨sealed, hencrypt, h⟩ := bind_ok h
      obtain ⟨hlength, hsealed⟩ := encryptBackup_ok hencrypt
      obtain ⟨_, hsize, h⟩ := bind_ok h
      cases h
      exact ⟨passphrase, manifest, members, rfl, hlength, hwrite, hsealed, hsize⟩

theorem sealCacheBackup_ok {encrypted : Bool} {write : Except String (Document × List Member)}
    (h : sealCacheBackup codec limits encrypted request write = .ok artifact) :
    ∃ manifest members, write = .ok (manifest, members) ∧
      validateBackupFileSize limits.cache (artifact.fileSize codec) = .ok () ∧
      (encrypted = false ∧ artifact = .zip members ∨
        encrypted = true ∧ ∃ passphrase, truthy request.passphrase = some passphrase ∧ 12 ≤ passphrase.toList.length ∧
          artifact = .encrypted (envelopeHeader manifest request.nonces) passphrase members) := by
  rw [sealCacheBackup] at h
  cases encrypted with
  | false =>
      simp only [Bool.false_eq_true, false_and, if_false, true_and] at h
      split at h
      · nomatch h
      · obtain ⟨⟨manifest, members⟩, hwrite, h⟩ := bind_ok h
        obtain ⟨_, hzip, h⟩ := bind_ok h
        obtain ⟨_, hsize, h⟩ := bind_ok h
        cases hzip
        cases h
        exact ⟨manifest, members, hwrite, hsize, .inl ⟨rfl, rfl⟩⟩
  | true =>
      simp only [Bool.true_eq_false, false_and, if_false, true_and, if_true] at h
      split at h
      · nomatch h
      next hnone =>
        obtain ⟨passphrase, hpassphrase⟩ := Option.ne_none_iff_exists'.mp hnone
        have hgiven : request.passphrase.getD "" = passphrase := by
          rw [(truthy_eq_some.mp hpassphrase).1, Option.getD_some]
        obtain ⟨⟨manifest, members⟩, hwrite, h⟩ := bind_ok h
        obtain ⟨sealedArtifact, hencrypt, h⟩ := bind_ok h
        obtain ⟨_, hsize, h⟩ := bind_ok h
        obtain ⟨hlength, hsealed⟩ := encryptBackup_ok hencrypt
        rw [hgiven] at hlength hsealed
        cases h
        exact ⟨manifest, members, hwrite, hsize, .inr ⟨rfl, passphrase, hpassphrase, hlength, hsealed⟩⟩

/-- The persistent data that a backup is made of. -/
inductive BackupSource
  | manager (data : ManagerData)
  | cache (state : ManagerCache) (encrypted : Bool)
  | device (device : DeviceCache) (encrypted : Bool)

def createBackup (codec : Codec) (limits : BackupLimits) (source : BackupSource) (request : BackupRequest) :
    Except String Artifact :=
  match source with
  | .manager data => createFullBackup codec limits data request
  | .cache state encrypted => createCacheBackup codec limits state encrypted request
  | .device device encrypted => createDeviceBackup codec limits device encrypted request

/-- The restore of an artifact. That of a manager is the only one that takes an
artifact of a device, and ends for its format once the archive is extracted. -/
def restoreBackup (codec : Codec) (limits : BackupLimits) (staging : Staging) (source : BackupSource)
    (artifact : Artifact) (passphrase : Option String) : Except String (Document × List Member) :=
  match source with
  | .manager _ => prepareFullBackupRestore codec limits staging artifact passphrase
  | .cache _ _ => restoreManagerBorgCacheFromBackup codec limits staging artifact passphrase
  | .device _ _ => unpackBackup codec limits staging artifact passphrase

/-- What a restore asks of the persistent data of a backup: short texts in its
two headers, a supported version, sizes within the limits, no backslash in the
path of a cache file, and paths that are not too long below the directory of
the restore. -/
def Restorable (codec : Codec) (limits : BackupLimits) (staging : Staging) (request : BackupRequest) :
    BackupSource → Prop
  | .manager data =>
      ∃ inventory compression environment, data.securityPair = .ok inventory ∧
        compressionSettings request.compression = .ok compression ∧ environmentSnapshot data.environ = .ok environment ∧
        let manifest :=
          plainManifest request.appVersion (backupLabel request.label) request.createdAt compression inventory
        let members := managerMembers (codec.compress compression) environment manifest data
        ManifestReadable manifestStyle manifest ∧ headerLength (envelopeHeader manifest request.nonces) ≤
          maxHeaderBytes ∧
          WithinLimits limits.manager members ∧ FitsStaging staging members
  | .cache state encrypted =>
      ∃ compression, compressionSettings request.compression = .ok compression ∧
        let manifest := cacheManifest state request.appVersion (backupLabel request.label) request.createdAt compression
        let members := cacheMembers (codec.compress compression) manifest state
        ManifestReadable manifestStyle manifest ∧
          (encrypted = true → headerLength (envelopeHeader manifest request.nonces) ≤ maxHeaderBytes) ∧
          WithinLimits limits.cache members ∧ NoBackslash state ∧ FitsStaging staging members
  | .device device encrypted =>
      ∃ hostId compression, selectedHost device = .ok hostId ∧ compressionSettings request.compression =
        .ok compression ∧
        let manifest := cacheDeviceManifest hostId (deviceEntries device hostId) request.appVersion
          (backupLabel request.label) request.createdAt compression
        let members := deviceMembers (codec.compress compression) manifest device hostId
        ManifestReadable manifestStyle manifest ∧
          (encrypted = true → headerLength (envelopeHeader manifest request.nonces) ≤ maxHeaderBytes) ∧
          WithinLimits limits.cache members ∧ FitsStaging staging members

variable {staging : Staging} {manifest permissions : Document} {members read : List Member}

/-- What a restore finds in an archive once it is open. -/
structure Unpacks (limits : Limits) (staging : Staging) (manifest : Document) (members : List Member) : Prop where
  readable : ManifestReadable manifestStyle manifest
  within : WithinLimits limits members
  noBackslash : ∀ member ∈ members, '\\' ∉ member.filename
  fits : FitsStaging staging members

theorem safeExtract_own_iff (hown : OwnArchive manifestStyle manifest permissions members)
    {result : Document × List Member} :
    safeExtract limits staging skipExtractPrefixes members = .ok result ↔
      Unpacks (limits.of (includesCache manifest)) staging manifest members ∧
        result = (manifest, extracted skipExtractPrefixes members) := by
  rw [safeExtract_ok_iff hown]
  refine and_congr_left' ⟨fun ⟨hreadable, haccepted, hfiles⟩ => ?_, fun h => ⟨h.readable, ?_, ?_⟩⟩
  · obtain ⟨hwithin, hback⟩ := accepted_iff.mp haccepted
    exact ⟨hreadable, hwithin, hback, (extractable_iff hown.toDistinct hback).mp hfiles⟩
  · exact accepted_iff.mpr ⟨h.within, h.noBackslash⟩
  · exact (extractable_iff hown.toDistinct h.noBackslash).mpr h.fits

/-- The archive of an artifact that opens on a condition. -/
theorem unpackBackup_ok_iff {given : Option String} {opening : Prop}
    (hopens : ∀ read, plainBackupFile codec limits artifact given = .ok read ↔ opening ∧ read = members)
    (hown : OwnArchive manifestStyle manifest permissions members) {result : Document × List Member} :
    unpackBackup codec limits staging artifact given = .ok result ↔
      (opening ∧ Unpacks (limits.of (includesCache manifest)) staging manifest members) ∧
        result = (manifest, extracted skipExtractPrefixes members) := by
  constructor
  · intro hresult
    obtain ⟨read, hread, hrest⟩ := bind_ok hresult
    obtain ⟨hopening, rfl⟩ := (hopens read).mp hread
    obtain ⟨hunpacks, hsame⟩ := (safeExtract_own_iff hown).mp hrest
    exact ⟨⟨hopening, hunpacks⟩, hsame⟩
  · rintro ⟨⟨hopening, hunpacks⟩, hsame⟩
    exact bind_ok_iff.mpr ⟨members, (hopens members).mpr ⟨hopening, rfl⟩,
      (safeExtract_own_iff hown).mpr ⟨hunpacks, hsame⟩⟩

theorem prepareFullBackupRestore_ok_iff {given : Option String} {result : Document × List Member}
    (hformat : (get result.1 "format").textOr = backupFormat) :
    prepareFullBackupRestore codec limits staging artifact given = .ok result ↔
      unpackBackup codec limits staging artifact given = .ok result := by
  rw [prepareFullBackupRestore]
  cases hunpack : unpackBackup codec limits staging artifact given with
  | error e => exact ⟨fun h => (nomatch h), fun h => (nomatch h)⟩
  | ok pair =>
      obtain ⟨read, files⟩ := pair
      simp only [bind, Except.bind]
      split
      next hother =>
        refine ⟨fun h => (nomatch h), fun h => ?_⟩
        cases h
        exact (hother hformat).elim
      next => exact Iff.rfl

theorem full_restorable_iff {data : ManagerData} (h : createFullBackup codec limits data request = .ok artifact) :
    (∃ result, prepareFullBackupRestore codec limits staging artifact request.passphrase = .ok result) ↔
      Restorable codec limits staging request (.manager data) := by
  obtain ⟨passphrase, manifest, members, hgiven, hlength, hwrite, rfl, hsize⟩ := createFullBackup_ok h
  obtain ⟨inventory, compression, environment, hinventory, hcompression, henvironment, hmanifest, hmembers⟩ :=
    writePlainBackup_ok hwrite
  have hlimits : limits.of (includesCache manifest) = limits.manager := by rw [hmanifest]; rfl
  have hformat : (get manifest "format").textOr = backupFormat := by rw [hmanifest]; rfl
  have hown : OwnArchive manifestStyle manifest (sortKeys (managerPermissions data)) members := by
    rw [hmembers]
    exact managerMembers_own _ environment data (hmanifest ▸ recognised_plainManifest ..)
  have hback : ∀ member ∈ members, '\\' ∉ member.filename := hmembers ▸ managerMembers_noBackslash
  have hopens (read : List Member) : plainBackupFile codec limits
      (.encrypted (envelopeHeader manifest request.nonces) passphrase members) request.passphrase = .ok read ↔ _ :=
    decryptBackup_ok_iff hgiven hlength (by rw [hlimits]; exact hsize)
  have hrestore : (∃ result, prepareFullBackupRestore codec limits staging
      (.encrypted (envelopeHeader manifest request.nonces) passphrase members) request.passphrase = .ok result) ↔
        ManifestReadable manifestStyle manifest ∧ headerLength (envelopeHeader manifest request.nonces) ≤
          maxHeaderBytes ∧
          WithinLimits limits.manager members ∧ FitsStaging staging members := by
    constructor
    · rintro ⟨result, hresult⟩
      obtain ⟨pair, hpair, -⟩ := bind_ok hresult
      obtain ⟨⟨⟨hheader, -⟩, hunpacks⟩, -⟩ := (unpackBackup_ok_iff hopens hown).mp hpair
      exact ⟨hunpacks.readable, hheader, hlimits ▸ hunpacks.within, hunpacks.fits⟩
    · rintro ⟨hreadable, hheader, hwithin, hfits⟩
      refine ⟨(manifest, extracted skipExtractPrefixes members), (prepareFullBackupRestore_ok_iff hformat).mpr ?_⟩
      exact (unpackBackup_ok_iff hopens hown).mpr
        ⟨⟨⟨hheader, hreadable.2⟩, hreadable, hlimits ▸ hwithin, hback, hfits⟩, rfl⟩
  rw [hrestore]
  constructor
  · rintro hall
    rw [hmembers, hmanifest] at hall
    exact ⟨inventory, compression, environment, hinventory, hcompression, henvironment, hall⟩
  · rintro ⟨_, _, _, hinventory', hcompression', henvironment', hall⟩
    cases hinventory.symm.trans hinventory'
    cases hcompression.symm.trans hcompression'
    cases henvironment.symm.trans henvironment'
    rw [hmembers, hmanifest]
    exact hall

/-- An artifact with a cache, as its creation leaves it. -/
structure CacheArtifact (codec : Codec) (limits : BackupLimits) (request : BackupRequest) (encrypted : Bool)
    (manifest permissions : Document) (members : List Member) (artifact : Artifact) : Prop where
  format : (get manifest "format").textOr = cacheBackupFormat
  included : includesCache manifest = true
  own : OwnArchive manifestStyle manifest permissions members
  size : validateBackupFileSize limits.cache (artifact.fileSize codec) = .ok ()
  shape : encrypted = false ∧ artifact = .zip members ∨
    encrypted = true ∧ ∃ passphrase, truthy request.passphrase = some passphrase ∧ 12 ≤ passphrase.toList.length ∧
      artifact = .encrypted (envelopeHeader manifest request.nonces) passphrase members

variable {encrypted : Bool}

theorem CacheArtifact.limits_eq
    (h : CacheArtifact codec limits request encrypted manifest permissions members artifact) :
    limits.of (includesCache manifest) = limits.cache := by
  rw [h.included]
  rfl

theorem CacheArtifact.read_iff (h : CacheArtifact codec limits request encrypted manifest permissions members artifact)
    (other : Document) :
    readAnyBackupManifest members = .ok other ↔ ManifestReadable manifestStyle manifest ∧ other = manifest := by
  obtain ⟨member, hmember, hname, hcontent⟩ := h.own.manifestMember
  have hinfo : getinfo members manifestName = some member := hname ▸ getinfo_of_mem h.own.nodup hmember
  exact readAnyBackupManifest_ok_iff hinfo hcontent h.own.recognised

/-- An archive on its own opens by its manifest, a sealed one by its header. -/
def Opens (request : BackupRequest) (encrypted : Bool) (manifest : Document) : Prop :=
  if encrypted then
    headerLength (envelopeHeader manifest request.nonces) ≤ maxHeaderBytes ∧
      SupportedVersion (get manifest "app_version").textOr
  else ManifestReadable manifestStyle manifest

theorem opens_and_readable :
    Opens request encrypted manifest ∧ ManifestReadable manifestStyle manifest ↔
      ManifestReadable manifestStyle manifest ∧
        (encrypted = true → headerLength (envelopeHeader manifest request.nonces) ≤ maxHeaderBytes) := by
  cases encrypted with
  | false => exact ⟨fun h => ⟨h.2, fun hfalse => (nomatch hfalse)⟩, fun h => ⟨h.1, h.1⟩⟩
  | true => exact ⟨fun h => ⟨h.2, fun _ => h.1.1⟩, fun h => ⟨⟨h.2 rfl, h.1.2⟩, h.1⟩⟩

theorem CacheArtifact.opens_iff (h : CacheArtifact codec limits request encrypted manifest permissions members artifact)
    (read : List Member) :
    plainBackupFile codec limits artifact request.passphrase = .ok read ↔
      Opens request encrypted manifest ∧ read = members := by
  have hsize := h.size
  rcases h.shape with ⟨rfl, rfl⟩ | ⟨rfl, passphrase, hgiven, hlength, rfl⟩
  · have hbound : limits.of (includesCache manifest || (get manifest "format").textOr == cacheBackupFormat) =
        limits.cache := by
      rw [h.included, Bool.true_or]
      rfl
    rw [plainBackupFile, Opens, if_neg Bool.false_ne_true]
    constructor
    · intro hread
      obtain ⟨other, hother, hread⟩ := bind_ok hread
      obtain ⟨_, _, hread⟩ := bind_ok hread
      cases hread
      exact ⟨((h.read_iff other).mp hother).1, rfl⟩
    · rintro ⟨hreadable, rfl⟩
      rw [(h.read_iff manifest).mpr ⟨hreadable, rfl⟩]
      simp only [bind, Except.bind, hbound, hsize]
      rfl
  · rw [plainBackupFile, decryptBackup_ok_iff hgiven hlength (by rw [h.limits_eq]; exact hsize)]
    exact Iff.rfl

/-- An artifact with a cache is unpacked just when its manifest and its header
are short and its members acceptable. -/
theorem CacheArtifact.unpacks_iff
    (h : CacheArtifact codec limits request encrypted manifest permissions members artifact) :
    (∃ result, unpackBackup codec limits staging artifact request.passphrase = .ok result) ↔
      Opens request encrypted manifest ∧ Unpacks limits.cache staging manifest members := by
  rw [← h.limits_eq]
  constructor
  · exact fun ⟨result, hresult⟩ => ((unpackBackup_ok_iff h.opens_iff h.own).mp hresult).1
  · exact fun hall => ⟨_, (unpackBackup_ok_iff h.opens_iff h.own).mpr ⟨hall, rfl⟩⟩

/-- The restore of the manager's cache also reads the kind of the artifact. -/
theorem CacheArtifact.restores_iff
    (h : CacheArtifact codec limits request encrypted manifest permissions members artifact)
    (hversion : (get manifest "format_version").numberOr = 2)
    (hkind : (get manifest "cache_artifact_kind").textOr = "manager")
    (hincluded : (get manifest "borg_cache_included").truthy = true)
    (hclients : (get manifest "client_borg_cache_included").truthy = false) :
    (∃ result, restoreManagerBorgCacheFromBackup codec limits staging artifact request.passphrase = .ok result) ↔
      ∃ result, unpackBackup codec limits staging artifact request.passphrase = .ok result := by
  refine exists_congr (fun result => ?_)
  rw [restoreManagerBorgCacheFromBackup, unpackBackup]
  cases hopen : plainBackupFile codec limits artifact request.passphrase with
  | error e => exact Iff.rfl
  | ok read =>
      obtain ⟨hopens, rfl⟩ := (h.opens_iff read).mp hopen
      simp only [bind, Except.bind]
      cases hread : readAnyBackupManifest read with
      | error e =>
          rw [readCacheBackupManifest, hread, safeExtract, hread]
          exact Iff.rfl
      | ok other =>
          obtain ⟨_, rfl⟩ := (h.read_iff other).mp hread
          have hcache : readCacheBackupManifest read = .ok other := by
            rw [readCacheBackupManifest, hread]
            simp only [bind, Except.bind, h.format, hversion, hkind, hclients, ne_eq, not_true_eq_false,
              if_false, false_and,
              and_false, Bool.false_eq_true]
            rfl
          rw [hcache]
          simp only [hincluded, Bool.true_eq_false, if_false]

theorem cache_restorable_iff {state : ManagerCache}
    (h : createCacheBackup codec limits state encrypted request = .ok artifact) :
    (∃ result, restoreManagerBorgCacheFromBackup codec limits staging artifact request.passphrase = .ok result) ↔
      Restorable codec limits staging request (.cache state encrypted) := by
  obtain ⟨manifest, members, hwrite, hsize, hshape⟩ := sealCacheBackup_ok h
  obtain ⟨compression, hcompression, hmanifest, hmembers⟩ := writeCacheBackup_ok hwrite
  have hown : OwnArchive manifestStyle manifest (sortKeys (cachePermissions state)) members := by
    rw [hmembers]
    exact cacheMembers_own _ state (hmanifest ▸ recognised_cacheManifest ..)
  have hartifact : CacheArtifact codec limits request encrypted manifest
      (sortKeys (cachePermissions state)) members artifact := by
    refine ⟨?_, ?_, hown, hsize, hshape⟩ <;> (rw [hmanifest]; rfl)
  have hnames : (∀ member ∈ members, '\\' ∉ member.filename) ↔ NoBackslash state := by
    rw [hmembers, cacheMembers_noBackslash_iff]
  rw [hartifact.restores_iff (by rw [hmanifest]; rfl) (by rw [hmanifest]; rfl) (by rw [hmanifest]; rfl)
    (by rw [hmanifest]; rfl),
    hartifact.unpacks_iff]
  constructor
  · rintro ⟨hopens, hunpacks⟩
    obtain ⟨hreadable, hheader⟩ := opens_and_readable.mp ⟨hopens, hunpacks.readable⟩
    rw [hmanifest] at hreadable hheader
    refine ⟨compression, hcompression, hreadable, hheader, ?_⟩
    rw [← hmanifest, ← hmembers]
    exact ⟨hunpacks.within, hnames.mp hunpacks.noBackslash, hunpacks.fits⟩
  · rintro ⟨_, hcompression', hreadable, hheader, hwithin, hback, hfits⟩
    cases hcompression.symm.trans hcompression'
    simp only [← hmanifest, ← hmembers] at hreadable hheader hwithin hfits
    exact ⟨(opens_and_readable.mpr ⟨hreadable, hheader⟩).1, hreadable, hwithin, hnames.mpr hback, hfits⟩

theorem recognised_cacheDeviceManifest (hostId : Nat) (entries : List ClientCacheManifest.RawEntry)
    (appVersion label createdAt : String) (compression : Compression) :
    Recognised (cacheDeviceManifest hostId entries appVersion label createdAt compression) :=
  .inr ⟨rfl, rfl⟩

theorem writeDeviceBackup_ok {device : DeviceCache} {hostId : Nat} {appVersion label createdAt method : String}
    (h : writeDeviceBackup codec device hostId appVersion label createdAt method = .ok (manifest, members)) :
    ∃ compression, compressionSettings method = .ok compression ∧
      manifest = cacheDeviceManifest hostId (deviceEntries device hostId) appVersion label createdAt compression ∧
        members = deviceMembers (codec.compress compression) manifest device hostId := by
  obtain ⟨compression, hcompression, h⟩ := bind_ok h
  cases h
  exact ⟨compression, hcompression, rfl, rfl⟩

theorem device_restorable_iff {device : DeviceCache}
    (h : createDeviceBackup codec limits device encrypted request = .ok artifact) :
    (∃ result, unpackBackup codec limits staging artifact request.passphrase = .ok result) ↔
      Restorable codec limits staging request (.device device encrypted) := by
  obtain ⟨manifest, members, hselected, hsize, hshape⟩ := sealCacheBackup_ok h
  obtain ⟨hostId, hhost, hwrite⟩ := bind_ok hselected
  obtain ⟨compression, hcompression, hmanifest, hmembers⟩ := writeDeviceBackup_ok hwrite
  have hown : OwnArchive manifestStyle manifest [] members := by
    rw [hmembers]
    exact deviceMembers_own _ device hostId (hmanifest ▸ recognised_cacheDeviceManifest ..)
  have hartifact : CacheArtifact codec limits request encrypted manifest [] members artifact := by
    refine ⟨?_, ?_, hown, hsize, hshape⟩ <;> (rw [hmanifest]; rfl)
  have hback : ∀ member ∈ members, '\\' ∉ member.filename := hmembers ▸ deviceMembers_noBackslash
  rw [hartifact.unpacks_iff]
  constructor
  · rintro ⟨hopens, hunpacks⟩
    obtain ⟨hreadable, hheader⟩ := opens_and_readable.mp ⟨hopens, hunpacks.readable⟩
    rw [hmanifest] at hreadable hheader
    refine ⟨hostId, compression, hhost, hcompression, hreadable, hheader, ?_⟩
    rw [← hmanifest, ← hmembers]
    exact ⟨hunpacks.within, hunpacks.fits⟩
  · rintro ⟨_, _, hhost', hcompression', hreadable, hheader, hwithin, hfits⟩
    cases hhost.symm.trans hhost'
    cases hcompression.symm.trans hcompression'
    simp only [← hmanifest, ← hmembers] at hreadable hheader hwithin hfits
    exact ⟨(opens_and_readable.mpr ⟨hreadable, hheader⟩).1, hreadable, hwithin, hback, hfits⟩

/-- The header of a sealed backup is read again unless its values are very long. -/
theorem headerLength_envelopeHeader {manifest : Document} {nonces : Nonces}
    (hvalues : ((envelopeHeader manifest nonces).map (fun f => (f.2.dumps headerStyle).length)).sum ≤ 8000) :
    headerLength (envelopeHeader manifest nonces) ≤ maxHeaderBytes := by
  have hkeys : ((envelopeHeader manifest nonces).map (fun f => 12 * f.1.toList.length + 4)).sum ≤ 6332 := by
    simp only [envelopeHeader, List.map_cons, List.map_nil]
    decide
  have hperm : (sortKeys (envelopeHeader manifest nonces)).Perm (envelopeHeader manifest nonces) :=
    List.perm_insertionSort _ _
  have hsorted := length_dumps_le true (sortKeys (envelopeHeader manifest nonces))
  rw [(hperm.map _).sum_eq, (hperm.map _).sum_eq] at hsorted
  have hbytes := byteSize_le_length (dumps headerStyle (sortKeys (envelopeHeader manifest nonces)))
  rw [headerLength, maxHeaderBytes]
  rw [headerStyle] at hvalues hbytes ⊢
  omega

/-- The limits of an installation that sets none. -/
def defaultLimits : BackupLimits where
  manager := ⟨256 * 1024 * 1024, 1024 * 1024 * 1024, 5000, 250⟩
  cache := ⟨32 * 1024 * 1024 * 1024, 128 * 1024 * 1024 * 1024, 250000, 5000⟩

/-- A compressor that makes everything twenty times smaller. -/
def exampleCodec : Codec where
  compress _ content := content.size / 20
  zipSize _ := 100 * 1024 * 1024
  zipSize_pos _ := by decide

def exampleStaging : Staging where
  directory := "/data/restore-staging/cache-restore-k3x9a_0b".toList
  pathMax := 4096
  nameMax := 255

def exampleRequest : BackupRequest where
  appVersion := "1.3.10"
  label := ""
  passphrase := some "correct horse battery"
  compression := "standard"
  createdAt := "2026-01-01T00:00:00+00:00"
  nonces := ⟨"AAAAAAAAAAAAAAAAAAAAAA==", "AAAAAAAAAAAAAAAA"⟩

/-- A sealed artifact of the example compressor is below the limits of its file. -/
theorem sealed_fits (limits : Limits) (hlimit : 128 * 1024 * 1024 ≤ limits.maxFileBytes) {header : Document}
    (hheader : headerLength header ≤ maxHeaderBytes) (passphrase : String) (members : List Member) :
    validateBackupFileSize limits ((Artifact.encrypted header passphrase members).fileSize exampleCodec) = .ok () := by
  rw [maxHeaderBytes] at hheader
  rw [validateBackupFileSize, Artifact.fileSize, if_neg (by simp [tagBytes]), if_neg]
  simp only [exampleCodec, backupMagicLength, tagBytes]
  omega

theorem supported_example : SupportedVersion "1.3.10" := ⟨(1, 3, 10), by decide, by decide⟩

/-- What the cache of one repository holds: a lock that is left out, a file
that cannot be read and one in a directory of its own. -/
def repositoryListing : Listing :=
  .file "chunks".toList (.stored [1, 2, 3, 4] 0o600 4)
    (.file "lock.roster".toList (.stored [5] 0o600 1)
      (.file "files".toList .unreadable
        (.dir "chunks.archive.d".toList true (.file "a7f1".toList (.interrupted [6, 7]) .nil) .nil)))

def exampleCache : ManagerCache where
  cache := some ⟨.file "CACHEDIR.TAG".toList (.stored [8, 9] 0o644 2)
    (.dir "repository-1".toList true repositoryListing .nil), by decide⟩
  security := some ⟨.dir "3c1d".toList true (.file "location".toList (.stored [10] 0o600 1) .nil) .nil, by decide⟩

def exampleCacheManifest : Document :=
  cacheManifest exampleCache "1.3.10" "Manuell" "2026-01-01T00:00:00+00:00" .standard

def exampleCacheMembers : List Member :=
  cacheMembers (exampleCodec.compress .standard) exampleCacheManifest exampleCache

instance (staging : Staging) (members : List Member) : Decidable (FitsStaging staging members) :=
  inferInstanceAs (Decidable (∀ member ∈ members, _ = _ → _ = _))

instance (state : ManagerCache) : Decidable (NoBackslash state) :=
  inferInstanceAs (Decidable (∀ f ∈ cacheFiles state ++ securityFiles state, stored f = true → ∀ part ∈ f.path,
    '\\' ∉ part))

/-- The members of the two trees. -/
def exampleTrees : List Member :=
  let compress := exampleCodec.compress .standard
  treeMembers compress cacheTree (cacheFiles exampleCache) ++ treeMembers compress securityTree
    (securityFiles exampleCache)

theorem compress_example (method : Compression) (name : List Char) (content : Content) :
    (writestr (exampleCodec.compress method) name content).compressSize =
      (writestr (exampleCodec.compress method) name content).fileSize / 20 := rfl

/-- The example compressor keeps few members of a moderate size within the
limits of a cache. -/
theorem withinLimits_example {members : List Member}
    (hcodec : ∀ member ∈ members, member.compressSize = member.fileSize / 20) (hcount : members.length ≤ 200)
    (htotal : uncompressedTotal members ≤ 10 * maxManifestBytes) :
    WithinLimits defaultLimits.cache members := by
  have hsum : uncompressedTotal members ≤ 20 * compressedTotal members + 20 * members.length := by
    rw [uncompressedTotal, compressedTotal]
    clear hcount htotal
    induction members with
    | nil => exact Nat.zero_le _
    | cons member rest ih =>
        have hfirst := hcodec member (List.mem_cons_self ..)
        have hrest := ih (fun other hother => hcodec other (List.mem_cons_of_mem _ hother))
        simp only [List.map_cons, List.sum_cons, List.length_cons]
        omega
  refine ⟨hcount.trans (by decide), fun member hmember => ?_, htotal.trans (by decide), ?_⟩
  · rw [hcodec member hmember]
    change _ ≤ 5000 * _
    omega
  · change _ ≤ 5000 * _
    omega

theorem readable_exampleCache : ManifestReadable manifestStyle exampleCacheManifest :=
  ⟨by decide +kernel, supported_example⟩

theorem header_exampleCache :
    headerLength (envelopeHeader exampleCacheManifest exampleRequest.nonces) ≤ maxHeaderBytes :=
  headerLength_envelopeHeader (by decide)

theorem permissions_exampleCache :
    (Content.json permissionsStyle (sortKeys (cachePermissions exampleCache))).size ≤ maxManifestBytes := by
  decide +kernel

theorem total_closing (compress : Content → Nat) {manifest permissions : Document}
    (hmanifest : (Content.json manifestStyle manifest).size ≤ maxManifestBytes)
    (hpermissions : (Content.json permissionsStyle (sortKeys permissions)).size ≤ maxManifestBytes) :
    uncompressedTotal (closing compress manifest permissions) ≤ 2 * maxManifestBytes := by
  simp only [uncompressedTotal, closing, List.map_cons, List.map_nil, List.sum_cons, List.sum_nil,
    Member.fileSize, writestr]
  omega

theorem within_exampleCache : WithinLimits defaultLimits.cache exampleCacheMembers := by
  have hclosing := total_closing (exampleCodec.compress .standard) readable_exampleCache.1 permissions_exampleCache
  have hmembers : exampleCacheMembers = exampleTrees ++
      closing (exampleCodec.compress .standard) exampleCacheManifest (cachePermissions exampleCache) := rfl
  refine withinLimits_example ?_ (by decide) ?_
  · rw [hmembers, List.forall_mem_append]
    exact ⟨by
      decide, List.forall_mem_cons.mpr ⟨compress_example .., List.forall_mem_singleton.mpr (compress_example ..)⟩⟩
  · have htrees : uncompressedTotal exampleTrees ≤ maxManifestBytes := by decide
    rw [hmembers, uncompressedTotal, List.map_append, List.sum_append, ← uncompressedTotal, ← uncompressedTotal]
    exact (Nat.add_le_add htrees hclosing).trans (by decide)

def exampleInventory : SecurityInventory := ⟨1, 6, 6, 0, 0⟩

/-- A manager with a database of two gibibytes. -/
def largeData : ManagerData where
  databaseCheck := .ok ()
  securityPair := .ok exampleInventory
  snapshotCheck := .ok ()
  snapshotPair := .ok exampleInventory
  environ _ := ""
  database := List.replicate (2 * 1024 * 1024 * 1024) 0
  settings := none
  notificationSettings := none
  securityDatabase := []
  masterKey := []

def exampleManifest : Document :=
  plainManifest "1.3.10" "Manuell" "2026-01-01T00:00:00+00:00" .standard exampleInventory

theorem header_example : headerLength (envelopeHeader exampleManifest exampleRequest.nonces) ≤ maxHeaderBytes :=
  headerLength_envelopeHeader (by decide)

/-- The artifact of the large database is below the limit of its file. -/
theorem largeData_created :
    ∃ artifact, createFullBackup exampleCodec defaultLimits largeData exampleRequest = .ok artifact := by
  have hwrite : ∃ members, writePlainBackup exampleCodec largeData exampleRequest.appVersion
      (backupLabel exampleRequest.label) exampleRequest.createdAt exampleRequest.compression =
        .ok (exampleManifest, members) := ⟨_, rfl⟩
  obtain ⟨members, hwrite⟩ := hwrite
  have hencrypt : encryptBackup exampleManifest members "correct horse battery" exampleRequest.nonces =
      .ok (.encrypted (envelopeHeader exampleManifest exampleRequest.nonces) "correct horse battery" members) := rfl
  have hfits := sealed_fits defaultLimits.manager (by decide) header_example "correct horse battery" members
  exact ⟨_, bind_ok_iff.mpr ⟨_, hwrite, bind_ok_iff.mpr ⟨_, hencrypt, bind_ok_iff.mpr ⟨(), hfits, rfl⟩⟩⟩⟩

end BorgManager.BackupRestorability
