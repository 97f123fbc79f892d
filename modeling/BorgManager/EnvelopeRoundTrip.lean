import BorgManager.BackupEnvelope
import BorgManager.BackupRestorability

namespace BorgManager.EnvelopeRoundTrip

open Exceptions PythonText JsonText BackupArchives BackupChecks Framing BackupEnvelope
open BackupArtifacts hiding encryptBackup decryptBackup plainBackupFile
open BackupRestorability hiding decryptBackup_ok_iff

variable {rt : Primitives} {s : Stream}

theorem length_mask (s : Stream) (chunk : Bytes) : (s.mask rt chunk).length = chunk.length := List.length_mapIdx

/-- A text may be masked in pieces. -/
theorem mask_append (s : Stream) {first seen : Bytes} (hlength : seen.length = first.length) (second : Bytes) :
    s.mask rt (first ++ second) = s.mask rt first ++ (s.seen seen).mask rt second := by
  rw [Stream.mask, Stream.mask, Stream.mask, List.mapIdx_append]
  congr 1
  apply List.mapIdx_eq_mapIdx_iff.mpr
  intro i hi
  rw [Stream.seen, List.length_append, hlength, Nat.add_comm i first.length, Nat.add_assoc]

theorem mask_mask (s : Stream) (chunk : Bytes) : s.mask rt (s.mask rt chunk) = chunk := by
  apply List.ext_getElem
  · rw [length_mask, length_mask]
  · intro i hi hi'
    simp only [Stream.mask, List.getElem_mapIdx, UInt8.xor_assoc, UInt8.xor_self, UInt8.xor_zero]

theorem seen_seen (s : Stream) (first second : Bytes) : (s.seen first).seen second = s.seen (first ++ second) := by
  rw [Stream.seen, Stream.seen, Stream.seen, List.append_assoc]

theorem mask_nil (s : Stream) : s.mask rt [] = [] := rfl

theorem seen_nil (s : Stream) : s.seen [] = s := by
  rw [Stream.seen, List.append_nil]

theorem streamLimit_ok {chunk : Bytes} :
    streamLimit s chunk = .ok () ↔ s.ciphertext.length + chunk.length ≤ maxStreamBytes := by
  rw [streamLimit]
  split
  · next h => exact ⟨nofun, fun hle => absurd hle (Nat.not_le.mpr h)⟩
  · next h => exact ⟨fun _ => Nat.not_lt.mp h, fun _ => rfl⟩

theorem encryptUpdate_eq_ok {chunk : Bytes} {result : Bytes × Stream} : encryptUpdate rt s chunk = .ok result ↔
    s.ciphertext.length + chunk.length ≤ maxStreamBytes ∧ result = (s.mask rt chunk, s.seen (s.mask rt chunk)) := by
  rw [encryptUpdate, bind_ok_iff, ← streamLimit_ok]
  constructor
  · rintro ⟨⟨⟩, hlimit, hresult⟩
    cases hresult
    exact ⟨hlimit, rfl⟩
  · rintro ⟨hlimit, rfl⟩
    exact ⟨(), hlimit, rfl⟩

theorem decryptUpdate_eq_ok {chunk : Bytes} {result : Bytes × Stream} : decryptUpdate rt s chunk = .ok result ↔
    s.ciphertext.length + chunk.length ≤ maxStreamBytes ∧ result = (s.mask rt chunk, s.seen chunk) := by
  rw [decryptUpdate, bind_ok_iff, ← streamLimit_ok]
  constructor
  · rintro ⟨⟨⟩, hlimit, hresult⟩
    cases hresult
    exact ⟨hlimit, rfl⟩
  · rintro ⟨hlimit, rfl⟩
    exact ⟨(), hlimit, rfl⟩

/-- The chunks of a text are encrypted like the text as a whole. -/
theorem encryptLoop_eq_ok (s : Stream) (source : Bytes) (result : Bytes × Stream) :
    encryptLoop rt s source = .ok result ↔
      (source = [] ∨ s.ciphertext.length + source.length ≤ maxStreamBytes) ∧
        result = (s.mask rt source, s.seen (s.mask rt source)) := by
  induction s, source using encryptLoop.induct generalizing result with
  | case1 s =>
      rw [encryptLoop, if_pos rfl, mask_nil, seen_nil]
      exact ⟨fun h => ⟨.inl rfl, (Except.ok.inj h).symm⟩, fun h => congrArg Except.ok h.2.symm⟩
  | case2 s source hsource ih =>
      have hsplit : source.take chunkBytes ++ source.drop chunkBytes = source := List.take_append_drop ..
      have hlengths : (source.take chunkBytes).length + (source.drop chunkBytes).length = source.length := by
        rw [← List.length_append, hsplit]
      have hmask : s.mask rt (source.take chunkBytes) ++
          (s.seen (s.mask rt (source.take chunkBytes))).mask rt (source.drop chunkBytes) = s.mask rt source := by
        rw [← mask_append s (length_mask s _), hsplit]
      have hseen : (s.seen (s.mask rt (source.take chunkBytes))).ciphertext.length =
          s.ciphertext.length + (source.take chunkBytes).length := by
        rw [Stream.seen, List.length_append, length_mask]
      rw [encryptLoop, if_neg hsource, bind_ok_iff]
      constructor
      · rintro ⟨⟨encrypted, s'⟩, hupdate, hrest⟩
        obtain ⟨hlimit, hupdate⟩ := encryptUpdate_eq_ok.mp hupdate
        cases hupdate
        obtain ⟨⟨rest, s''⟩, hloop, hresult⟩ := bind_ok hrest
        obtain ⟨hbound, hrest⟩ := (ih _ _).mp hloop
        cases hrest
        cases hresult
        refine ⟨.inr ?_, ?_⟩
        · rcases hbound with hnil | hle
          · rw [← hlengths, hnil]
            exact hlimit
          · rw [hseen] at hle
            omega
        · rw [seen_seen, hmask]
      · rintro ⟨hbound, rfl⟩
        have hbound := hbound.resolve_left hsource
        refine ⟨_, encryptUpdate_eq_ok.mpr ⟨by omega, rfl⟩, bind_ok_iff.mpr ⟨_, (ih _ _).mpr ⟨.inr ?_, rfl⟩, ?_⟩⟩
        · rw [hseen]
          omega
        · rw [seen_seen, hmask]
          exact congrArg (fun text => Except.ok (text, _)) hmask

theorem take_chunk {n remaining : Nat} (hn : n ≤ remaining) (source : Bytes) :
    source.take n ++ (source.drop n).take (remaining - (source.take n).length) = source.take remaining := by
  rcases Nat.lt_or_ge source.length n with hshort | hlong
  · rw [List.drop_eq_nil_of_le (Nat.le_of_lt hshort), List.take_nil, List.append_nil,
      List.take_of_length_le (Nat.le_of_lt hshort),
        List.take_of_length_le (Nat.le_of_lt (Nat.lt_of_lt_of_le hshort hn))]
  · rw [List.length_take, Nat.min_eq_left hlong, ← List.take_add, Nat.add_sub_of_le hn]

/-- The chunks of a ciphertext are decrypted like the ciphertext as a whole, as
long as the file holds it. -/
theorem decryptLoop_eq_ok (s : Stream) (source : Bytes) (remaining : Nat) (written : Bytes) (s' : Stream) :
    decryptLoop rt s source remaining = (written, .ok s') ↔
      (remaining = 0 ∨ (s.ciphertext.length + remaining ≤ maxStreamBytes ∧ remaining ≤ source.length)) ∧
        written = s.mask rt (source.take remaining) ∧ s' = s.seen (source.take remaining) := by
  induction s, source, remaining using decryptLoop.induct rt generalizing written with
  | case1 s source =>
      rw [decryptLoop, if_pos rfl, List.take_zero, mask_nil, seen_nil, Prod.mk.injEq, Except.ok.injEq]
      exact ⟨fun h => ⟨.inl rfl, h.1.symm, h.2.symm⟩, fun h => ⟨h.2.1.symm, h.2.2.symm⟩⟩
  | case2 s remaining hremaining =>
      rw [decryptLoop, if_neg hremaining, if_pos rfl]
      refine ⟨nofun, ?_⟩
      rintro ⟨hzero | ⟨-, hle⟩, -⟩
      · exact absurd hzero hremaining
      · exact absurd (Nat.le_zero.mp hle) hremaining
  | case3 s source remaining hremaining hsource chunk text hupdate =>
      rw [decryptLoop, if_neg hremaining, if_neg hsource]
      simp only [show decryptUpdate rt s (source.take (min chunkBytes remaining)) = .error text from hupdate]
      refine ⟨nofun, ?_⟩
      rintro ⟨hzero | ⟨hlimit, -⟩, -⟩
      · exact absurd hzero hremaining
      · have hle : chunk.length ≤ remaining := by
          rw [List.length_take]
          omega
        have hok : decryptUpdate rt s chunk = .ok (s.mask rt chunk, s.seen chunk) :=
          decryptUpdate_eq_ok.mpr ⟨by omega, rfl⟩
        rw [hupdate] at hok
        nomatch hok
  | case4 s source remaining hremaining hsource chunk plaintext next hupdate rest result hloop ih =>
      obtain ⟨hlimit, hnext⟩ := decryptUpdate_eq_ok.mp hupdate
      cases hnext
      have hchunk : chunk.length = min (min chunkBytes remaining) source.length := List.length_take
      have hdrop : (source.drop (min chunkBytes remaining)).length = source.length - min chunkBytes remaining :=
        List.length_drop
      have htake := take_chunk (Nat.min_le_right chunkBytes remaining) source
      have hseen : (s.seen chunk).ciphertext.length = s.ciphertext.length + chunk.length := by
        rw [Stream.seen, List.length_append]
      have hbound : (remaining - chunk.length = 0 ∨
        ((s.seen chunk).ciphertext.length + (remaining - chunk.length) ≤ maxStreamBytes ∧
          remaining - chunk.length ≤ (source.drop (min chunkBytes remaining)).length)) ↔
            (remaining = 0 ∨ (s.ciphertext.length + remaining ≤ maxStreamBytes ∧ remaining ≤ source.length)) := by
        rw [hseen, hdrop]
        omega
      have hmask : s.mask rt (source.take remaining) = s.mask rt chunk ++
          (s.seen chunk).mask rt ((source.drop (min chunkBytes remaining)).take (remaining - chunk.length)) := by
        rw [← mask_append s rfl]
        exact congrArg (s.mask rt) htake.symm
      have hseens : s.seen (source.take remaining) =
          (s.seen chunk).seen ((source.drop (min chunkBytes remaining)).take (remaining - chunk.length)) := by
        rw [seen_seen]
        exact congrArg s.seen htake.symm
      rw [decryptLoop, if_neg hremaining, if_neg hsource]
      simp only [show decryptUpdate rt s (source.take (min chunkBytes remaining)) =
        .ok (s.mask rt chunk, s.seen chunk) from hupdate,
        show decryptLoop rt (s.seen chunk) (source.drop (min chunkBytes remaining))
          (remaining - (source.take (min chunkBytes remaining)).length) = (rest, result) from hloop]
      rw [Prod.mk.injEq, ← hbound, hmask, hseens]
      constructor
      · rintro ⟨rfl, rfl⟩
        obtain ⟨hcond, hrest, hresult⟩ := (ih rest).mp hloop
        exact ⟨hcond, by rw [hrest], hresult⟩
      · rintro ⟨hcond, rfl, hresult⟩
        have hall := (ih _).mpr ⟨hcond, rfl, hresult⟩
        rw [hloop] at hall
        cases hall
        exact ⟨rfl, rfl⟩

theorem lookup_eq_some_iff {document : Document} (h : (document.map Prod.fst).Nodup) {key : String} {value : Value} :
    document.lookup key = some value ↔ (key, value) ∈ document := by
  induction document with
  | nil => exact ⟨nofun, fun hmem => absurd hmem List.not_mem_nil⟩
  | cons field document ih =>
      obtain ⟨name, held⟩ := field
      obtain ⟨hfresh, hnodup⟩ := List.nodup_cons.mp h
      rw [List.lookup_cons, List.mem_cons, Prod.mk.injEq]
      by_cases hkey : key = name
      · rw [beq_iff_eq.mpr hkey]
        constructor
        · exact fun heq => .inl ⟨hkey, (Option.some.inj heq).symm⟩
        · rintro (⟨-, rfl⟩ | hmem)
          · rfl
          · exact absurd (List.mem_map.mpr ⟨_, hmem, hkey⟩) hfresh
      · rw [beq_eq_false_iff_ne.mpr hkey]
        change document.lookup key = some value ↔ _
        rw [ih hnodup]
        exact ⟨.inr, fun hmem => hmem.resolve_left (fun heq => hkey heq.1)⟩

/-- Sorted fields are the same fields. -/
theorem lookup_sortKeys {document : Document} (h : (document.map Prod.fst).Nodup) (key : String) :
    (sortKeys document).lookup key = document.lookup key := by
  have hperm : (sortKeys document).Perm document := List.perm_insertionSort _ document
  have hnodup : ((sortKeys document).map Prod.fst).Nodup := (hperm.map Prod.fst).nodup_iff.mpr h
  apply Option.ext
  intro value
  rw [lookup_eq_some_iff hnodup, lookup_eq_some_iff h]
  exact hperm.mem_iff

theorem header_nodup (manifest : Document) (nonces : Nonces) :
    ((envelopeHeader manifest nonces).map Prod.fst).Nodup := by
  simp only [envelopeHeader, List.map_cons, List.map_nil]
  decide

theorem lookup_header (manifest : Document) (nonces : Nonces) (key : String) :
    (sortKeys (envelopeHeader manifest nonces)).lookup key = (envelopeHeader manifest nonces).lookup key :=
  lookup_sortKeys (header_nodup manifest nonces) key

theorem get_header (manifest : Document) (nonces : Nonces) (key : String) :
    get (sortKeys (envelopeHeader manifest nonces)) key = get (envelopeHeader manifest nonces) key :=
  congrArg (·.getD .null) (lookup_header manifest nonces key)

theorem length_utf8 (text : List Char) : (utf8 text).length = byteSize text := by
  rw [utf8, List.length_flatMap, byteSize]
  congr 1
  apply List.map_congr_left
  intro c _
  exact String.length_utf8EncodeChar c

theorem length_headerBytes (header : Document) : (headerBytes header).length = headerLength header := length_utf8 _

theorem length_associatedData (header : Document) :
    (associatedData header).length = backupMagic.length + 4 + headerLength header := by
  rw [associatedData, List.length_append, List.length_append, length_bigEndian, length_headerBytes, Nat.add_assoc]

variable {limits : BackupLimits} {manifest : Document} {salt nonce source file : Bytes} {passphrase : String}

/-- The reader finds the parts of an envelope where they have been written. -/
theorem parts_of_envelope (header : Document) (rest : Bytes) :
    part (associatedData header ++ rest) 0 backupMagic.length = backupMagic ∧
      part (associatedData header ++ rest) backupMagic.length 4 = bigEndian (headerBytes header).length ∧
        part (associatedData header ++ rest) (backupMagic.length + 4)
          (headerBytes header).length = headerBytes header := by
  have hfile : associatedData header ++ rest =
      backupMagic ++ (bigEndian (headerBytes header).length ++ (headerBytes header ++ rest)) := by
    rw [associatedData, List.append_assoc, List.append_assoc]
  refine ⟨?_, ?_, ?_⟩
  · rw [hfile, part, List.drop_zero, List.take_left]
  · rw [hfile]
    exact part_append
  · rw [hfile, ← List.append_assoc]
    exact part_append

theorem validate_ok {limits : Limits} {size : Nat} :
    validateBackupFileSize limits size = .ok () ↔ size ≠ 0 ∧ size ≤ limits.maxFileBytes := by
  rw [validateBackupFileSize]
  split
  · next hzero => exact ⟨fun h => (by cases h), fun h => absurd hzero h.1⟩
  split
  · next hlarge => exact ⟨fun h => (by cases h), fun h => absurd h.2 (Nat.not_le.mpr hlarge)⟩
  · next hzero hlarge => exact ⟨fun _ => ⟨hzero, Nat.not_lt.mp hlarge⟩, fun _ => rfl⟩

/-- A reader accepts the envelope of a header whose fields it supports, unless
the file is too large. -/
theorem readEncryptedHeader_ok_iff {header : Document} {rest : Bytes} {v : Bool} {result : Document × Bytes × Nat}
    (hloads : rt.loads (headerBytes header) = some (sortKeys header))
    (hformat : get (sortKeys header) "format" = .text "borgbackup-manager-encrypted-backup")
    (hversion : SupportedVersion (get (sortKeys header) "app_version").textOr)
    (hformatVersion : get (sortKeys header) "format_version" = .number 2)
    (hcipher : get (sortKeys header) "cipher" = .text "AES-256-GCM-stream")
    (hlong : 32 ≤ headerLength header) (hlength : headerLength header ≤ maxHeaderBytes) :
    readEncryptedHeader rt limits (associatedData header ++ rest) v = .ok result ↔
      (v = true → (associatedData header ++ rest).length ≤ (limits.of (includesCache (sortKeys header))).maxFileBytes) ∧
        result = (sortKeys header, associatedData header, (associatedData header).length) := by
  have hnonempty : (associatedData header ++ rest).length ≠ 0 := by
    rw [List.length_append, length_associatedData]
    omega
  have hsmall : (headerBytes header).length < 2 ^ 32 := by
    rw [length_headerBytes]
    exact Nat.lt_of_le_of_lt hlength (by decide)
  have hbounds : ¬ ((headerBytes header).length < 32 ∨ 65536 < (headerBytes header).length) := by
    rw [length_headerBytes, not_or, Nat.not_lt, Nat.not_lt]
    exact ⟨hlong, hlength⟩
  have haad : backupMagic ++ bigEndian (headerBytes header).length ++ headerBytes header = associatedData header :=
    List.append_assoc ..
  have hoffset : backupMagic.length + 4 + (headerBytes header).length = (associatedData header).length := by
    rw [length_associatedData, length_headerBytes]
  have hsupported : requireSupportedBackupVersion (sortKeys header) = .ok () :=
    (requireSupportedBackupVersion_ok_iff _).mpr hversion
  obtain ⟨hmagic, hraw, htext⟩ := parts_of_envelope header rest
  have hread : ofBigEndian (part (associatedData header ++ rest) backupMagic.length 4) =
      (headerBytes header).length := by
    rw [hraw, ofBigEndian_bigEndian hsmall]
  rw [readEncryptedHeader]
  simp only [hread]
  rw [if_neg hnonempty, if_neg (not_not.mpr hmagic), hraw, htext, if_neg (not_not.mpr (length_bigEndian _)),
    if_neg hbounds,
    if_neg (not_not.mpr rfl)]
  simp only [hloads]
  rw [if_neg (not_not.mpr hformat), hsupported, haad, hoffset]
  change (if get (sortKeys header) "format_version" ≠ .number 2 ∨ get (sortKeys header) "cipher" ≠
    .text "AES-256-GCM-stream" then
    _ else _) = _ ↔ _
  rw [if_neg (not_or.mpr ⟨not_not.mpr hformatVersion, not_not.mpr hcipher⟩)]
  cases v with
  | false => exact ⟨fun h => ⟨nofun, (Except.ok.inj h).symm⟩, fun h => congrArg Except.ok h.2.symm⟩
  | true =>
      rw [if_pos rfl, bind_ok_iff]
      constructor
      · rintro ⟨⟨⟩, hvalid, h⟩
        exact ⟨fun _ => (validate_ok.mp hvalid).2, (Except.ok.inj h).symm⟩
      · rintro ⟨hsize, hresult⟩
        exact ⟨(), validate_ok.mpr ⟨hnonempty, hsize rfl⟩, congrArg Except.ok hresult.symm⟩

/-- The header that has been written is read back, with the offset of what
follows it. -/
theorem readEncryptedHeader_envelope {manifest : Document} {nonces : Nonces} {rest : Bytes} {v : Bool}
    {result : Document × Bytes × Nat}
    (hloads : rt.loads (headerBytes (envelopeHeader manifest nonces)) =
      some (sortKeys (envelopeHeader manifest nonces))) (hversion :
    SupportedVersion (get manifest "app_version").textOr) (hlength :
    headerLength (envelopeHeader manifest nonces) ≤ maxHeaderBytes) :
    readEncryptedHeader rt limits (associatedData (envelopeHeader manifest nonces) ++ rest) v = .ok result ↔
      (v = true → (associatedData (envelopeHeader manifest nonces) ++ rest).length ≤
        (limits.of (includesCache manifest)).maxFileBytes) ∧
          result = (sortKeys (envelopeHeader manifest nonces), associatedData (envelopeHeader manifest nonces),
            (associatedData (envelopeHeader manifest nonces)).length) := by
  obtain ⟨hformat, hformatVersion, hcipher, -, happ⟩ := header_fields manifest nonces
  have hcache : includesCache (sortKeys (envelopeHeader manifest nonces)) = includesCache manifest := by
    rw [includesCache, get_header, get_header]
    exact header_includesCache manifest nonces
  rw [← get_header] at hformat hformatVersion hcipher happ
  rw [← happ] at hversion
  rw [readEncryptedHeader_ok_iff hloads hformat hversion hformatVersion hcipher
    (header_long_enough manifest nonces) hlength, hcache]

/-- The associated data are the octets before the offset. -/
theorem readEncryptedHeader_part {v : Bool} {header : Document} {aad : Bytes} {offset : Nat}
    (h : readEncryptedHeader rt limits file v = .ok (header, aad, offset)) :
    aad = part file 0 offset ∧ offset ≤ file.length := by
  rw [readEncryptedHeader] at h
  split at h
  · nomatch h
  split at h
  · nomatch h
  next hmagic =>
  split at h
  · nomatch h
  next hraw =>
  split at h
  · nomatch h
  split at h
  · nomatch h
  next htext =>
  split at h
  · nomatch h
  split at h
  · nomatch h
  obtain ⟨⟨⟩, -, h⟩ := bind_ok h
  split at h
  · nomatch h
  have hresult : aad = backupMagic ++ part file backupMagic.length 4 ++
      part file (backupMagic.length + 4) (ofBigEndian (part file backupMagic.length 4)) ∧
        offset = backupMagic.length + 4 + ofBigEndian (part file backupMagic.length 4) := by
    cases v with
    | true =>
        obtain ⟨⟨⟩, -, h⟩ := bind_ok h
        cases h
        exact ⟨rfl, rfl⟩
    | false =>
        cases h
        exact ⟨rfl, rfl⟩
  obtain ⟨rfl, rfl⟩ := hresult
  have hmagic := not_not.mp hmagic
  have hraw := not_not.mp hraw
  have htext := not_not.mp htext
  constructor
  · have hparts := part_part file 0 backupMagic.length 4
    rw [Nat.zero_add, hmagic] at hparts
    rw [hparts]
    have hwhole := part_part file 0 (backupMagic.length + 4) (ofBigEndian (part file backupMagic.length 4))
    rw [Nat.zero_add] at hwhole
    exact hwhole
  · rw [part, List.length_take, List.length_drop] at hraw
    rw [part, List.length_take, List.length_drop] at htext
    omega

/-- The parts of a file that opens: the associated data, the ciphertext and a
tag of 16 octets. -/
theorem openEnvelope_part {given : Option String} {opening : Opening}
    (h : openEnvelope rt limits file given = .ok opening) :
    opening.stream.ciphertext = [] ∧ opening.stream.aad = part file 0 opening.offset ∧
      opening.offset + opening.size + 16 = file.length ∧ opening.tag = part file
        (opening.offset + opening.size) 16 := by
  rw [openEnvelope] at h
  split at h
  · nomatch h
  next p hgiven =>
  obtain ⟨⟨header, aad, offset⟩, hread, h⟩ := bind_ok h
  obtain ⟨salt', -, h⟩ := bind_ok h
  obtain ⟨nonce', -, h⟩ := bind_ok h
  obtain ⟨key, -, h⟩ := bind_ok h
  obtain ⟨haad, -⟩ := readEncryptedHeader_part hread
  split at h
  · nomatch h
  split at h
  · nomatch h
  next hlong =>
  split at h
  · nomatch h
  cases h
  refine ⟨rfl, haad, ?_, ?_⟩
  · change offset + (file.length - offset - 16) + 16 = file.length
    omega
  · change part file (file.length - 16) 16 = part file (offset + (file.length - offset - 16)) 16
    congr 1
    omega

/-- The stream of an encryption. -/
def encryptor (rt : Primitives) (manifest : Document) (passphrase : String) (salt nonce : Bytes) : Stream :=
  ⟨rt.scrypt (utf8 passphrase.toList) salt, nonce, associatedData (envelopeHeader manifest (nonces salt nonce)), []⟩

def sealTag (rt : Primitives) (s : Stream) : Bytes := rt.tag s.key s.nonce s.aad s.ciphertext

theorem verifies_iff {tag : Bytes} : rt.verifies s.key s.nonce s.aad s.ciphertext tag = true ↔ tag = sealTag rt s :=
  beq_iff_eq

/-- The stream after an encryption. -/
def sealed (rt : Primitives) (s : Stream) (source : Bytes) : Stream := s.seen (s.mask rt source)

/-- What an encryption writes with its stream. -/
def envelope (rt : Primitives) (s : Stream) (source : Bytes) : Bytes :=
  s.aad ++ (s.mask rt source ++ sealTag rt (sealed rt s source))

/-- What an encryption accepts. -/
structure Encryptable (source : Bytes) (manifest : Document) (passphrase : String) (nonces : Nonces) : Prop where
  long : 12 ≤ passphrase.toList.length
  oneLine : passphrase.toList.any (fun c => c == Char.ofNat 0 || c == '\r' || c == '\n') = false
  counts : countKeys.any (fun key => (get manifest key).toInt?.isNone) = false
  header : headerLength (envelopeHeader manifest nonces) < 2 ^ 32
  size : source = [] ∨ source.length ≤ maxStreamBytes

theorem encryptBackup_eq_ok : encryptBackup rt source manifest passphrase salt nonce = .ok file ↔
    Encryptable source manifest passphrase (nonces salt nonce) ∧
      file = envelope rt (encryptor rt manifest passphrase salt nonce) source := by
  rw [encryptBackup, length_headerBytes]
  split
  · next hshort => exact ⟨nofun, fun h => absurd h.1.long (Nat.not_le.mpr hshort)⟩
  split
  · next hchar => exact ⟨nofun, fun h => absurd (h.1.oneLine.symm.trans hchar) Bool.false_ne_true⟩
  split
  · next hcount => exact ⟨nofun, fun h => absurd (h.1.counts.symm.trans hcount) Bool.false_ne_true⟩
  split
  · next hlarge => exact ⟨nofun, fun h => absurd h.1.header (Nat.not_lt.mpr hlarge)⟩
  next hlong hchars hcounts hsmall =>
  have hkey : deriveBackupKey rt passphrase salt = .ok (rt.scrypt (utf8 passphrase.toList) salt) :=
    if_neg (by omega)
  have hloop := @encryptLoop_eq_ok rt (encryptor rt manifest passphrase salt nonce) source
  have hstart : (encryptor rt manifest passphrase salt nonce).ciphertext.length + source.length = source.length :=
    Nat.zero_add _
  rw [hstart] at hloop
  constructor
  · intro h
    obtain ⟨key, hderived, h⟩ := bind_ok h
    rw [hkey] at hderived
    cases hderived
    obtain ⟨⟨ciphertext, s⟩, hencrypt, hfile⟩ := bind_ok h
    obtain ⟨hbound, hresult⟩ := (hloop _).mp hencrypt
    cases hresult
    cases hfile
    exact ⟨⟨Nat.not_lt.mp hlong, eq_false_of_ne_true hchars, eq_false_of_ne_true hcounts, Nat.not_le.mp hsmall,
      hbound⟩, rfl⟩
  · rintro ⟨haccepted, rfl⟩
    exact bind_ok_iff.mpr ⟨_, hkey, bind_ok_iff.mpr ⟨_, (hloop _).mpr ⟨haccepted.size, rfl⟩, rfl⟩⟩

theorem parameter_header {header : Document} {key : String} {octets : Bytes}
    (h : header.lookup key = some (.text (String.ofList (Base64.encode octets)))) :
    parameter header key = .ok octets := by
  rw [parameter, h]
  simp only [String.toList_ofList, Base64.decode_encode]

theorem length_envelope (s : Stream) (source : Bytes) :
    (envelope rt s source).length = s.aad.length + source.length + 16 := by
  rw [envelope, List.length_append, List.length_append, length_mask, sealTag, rt.tag_length, tagBytes, Nat.add_assoc]

theorem truthy_passphrase (haccepted : Encryptable source manifest passphrase (nonces salt nonce)) :
    truthy (some passphrase) = some passphrase := by
  apply truthy_eq_some.mpr ⟨rfl, _⟩
  rintro rfl
  exact absurd haccepted.long (by decide)

/-- A file whose header has been read opens with the parameters of the header. -/
theorem openEnvelope_of_read {header : Document} {rest : Bytes} (hgiven : truthy (some passphrase) = some passphrase)
    (hread : readEncryptedHeader rt limits (s.aad ++ rest) true = .ok (header, s.aad, s.aad.length))
    (hsalt : parameter header "salt" = .ok salt) (hiv : parameter header "nonce" = .ok s.nonce)
    (hkey : deriveBackupKey rt passphrase salt = .ok s.key) (hstart : s.ciphertext = [])
    (htag : tagSize header = some 16) (hnonce : s.nonce.length = 12) (hrest : 16 < rest.length) :
    openEnvelope rt limits (s.aad ++ rest) (some passphrase) =
      .ok ⟨s, s.aad.length, rest.length - 16, rest.drop (rest.length - 16)⟩ := by
  have hfile : (s.aad ++ rest).length = s.aad.length + rest.length := List.length_append
  have hlast : part (s.aad ++ rest) ((s.aad ++ rest).length - 16) 16 = rest.drop (rest.length - 16) := by
    rw [part, hfile, Nat.add_sub_assoc (Nat.le_of_lt hrest), ← List.drop_drop, List.drop_left, List.take_of_length_le]
    rw [List.length_drop]
    omega
  have hstream : (⟨s.key, s.nonce, s.aad, []⟩ : Stream) = s := by
    rw [← hstart]
  have hsize : (s.aad ++ rest).length - s.aad.length - 16 = rest.length - 16 := by omega
  rw [openEnvelope, hgiven]
  change (readEncryptedHeader rt limits (s.aad ++ rest) true >>= _) = _
  rw [hread]
  change (parameter header "salt" >>= _) = _
  rw [hsalt]
  change (parameter header "nonce" >>= _) = _
  rw [hiv]
  change (deriveBackupKey rt passphrase salt >>= _) = _
  rw [hkey]
  change (if tagSize header ≠ some 16 then _ else _) = _
  rw [if_neg (not_not.mpr htag), if_neg (by omega), if_neg (by omega), hstream, hlast, hsize]
  rfl

theorem readEncryptedHeader_encrypted {v : Bool} {result : Document × Bytes × Nat} {rest : Bytes}
    (hloads : rt.loads (headerBytes (envelopeHeader manifest (nonces salt nonce))) =
      some (sortKeys (envelopeHeader manifest (nonces salt nonce))))
    (hversion : SupportedVersion (get manifest "app_version").textOr)
    (hlength : headerLength (envelopeHeader manifest (nonces salt nonce)) ≤ maxHeaderBytes) :
    readEncryptedHeader rt limits ((encryptor rt manifest passphrase salt nonce).aad ++ rest) v = .ok result ↔
      (v = true → ((encryptor rt manifest passphrase salt nonce).aad ++ rest).length ≤
        (limits.of (includesCache manifest)).maxFileBytes) ∧
          result = (sortKeys (envelopeHeader manifest (nonces salt nonce)),
            (encryptor rt manifest passphrase salt nonce).aad,
            (encryptor rt manifest passphrase salt nonce).aad.length) :=
  readEncryptedHeader_envelope hloads hversion hlength

/-- The parameters that an encryption has written are found again. -/
theorem parameters_header (manifest : Document) (salt nonce : Bytes) :
    parameter (sortKeys (envelopeHeader manifest (nonces salt nonce))) "salt" = .ok salt ∧
      parameter (sortKeys (envelopeHeader manifest (nonces salt nonce))) "nonce" = .ok nonce ∧
        tagSize (sortKeys (envelopeHeader manifest (nonces salt nonce))) = some 16 := by
  have hsalt : (envelopeHeader manifest (nonces salt nonce)).lookup "salt" =
      some (.text (String.ofList (Base64.encode salt))) := rfl
  have hiv : (envelopeHeader manifest (nonces salt nonce)).lookup "nonce" =
      some (.text (String.ofList (Base64.encode nonce))) := rfl
  have htag : (envelopeHeader manifest (nonces salt nonce)).lookup "tag_bytes" = some (.number 16) := rfl
  rw [← lookup_header] at hsalt hiv htag
  refine ⟨parameter_header hsalt, parameter_header hiv, ?_⟩
  rw [tagSize, htag]

/-- What begins like the file of an encryption opens with the parameters of the
encryption, unless it is too large. -/
theorem openEnvelope_rest {opening : Opening} {rest : Bytes}
    (haccepted : Encryptable source manifest passphrase (nonces salt nonce)) (hnonce : nonce.length = 12)
    (hloads : rt.loads (headerBytes (envelopeHeader manifest (nonces salt nonce))) =
      some (sortKeys (envelopeHeader manifest (nonces salt nonce))))
    (hversion : SupportedVersion (get manifest "app_version").textOr)
    (hlength : headerLength (envelopeHeader manifest (nonces salt nonce)) ≤ maxHeaderBytes) (hrest : 16 < rest.length) :
    openEnvelope rt limits ((encryptor rt manifest passphrase salt nonce).aad ++ rest) (some passphrase) = .ok opening ↔
      ((encryptor rt manifest passphrase salt nonce).aad ++ rest).length ≤
        (limits.of (includesCache manifest)).maxFileBytes ∧
        opening = ⟨encryptor rt manifest passphrase salt nonce,
          (encryptor rt manifest passphrase salt nonce).aad.length,
          rest.length - 16, rest.drop (rest.length - 16)⟩ := by
  have hlong := haccepted.long
  have hgiven := truthy_passphrase haccepted
  have hkey : deriveBackupKey rt passphrase salt = .ok (encryptor rt manifest passphrase salt nonce).key :=
    if_neg (by omega)
  have hstart : (encryptor rt manifest passphrase salt nonce).ciphertext = [] := rfl
  have hiv : (encryptor rt manifest passphrase salt nonce).nonce = nonce := rfl
  obtain ⟨hsalt, hnonces, htag⟩ := parameters_header manifest salt nonce
  have hread (result : Document × Bytes × Nat) :=
    @readEncryptedHeader_encrypted rt limits manifest salt nonce passphrase true result rest hloads hversion hlength
  generalize encryptor rt manifest passphrase salt nonce = s at hkey hstart hiv hread ⊢
  subst hiv
  have hopen (hsize : (s.aad ++ rest).length ≤ (limits.of (includesCache manifest)).maxFileBytes) :=
    openEnvelope_of_read hgiven ((hread _).mpr ⟨fun _ => hsize, rfl⟩) hsalt hnonces hkey hstart htag hnonce hrest
  constructor
  · intro h
    have hopened := h
    rw [openEnvelope, hgiven] at hopened
    obtain ⟨result, hresult, -⟩ := bind_ok hopened
    have hsize := ((hread result).mp hresult).1 rfl
    exact ⟨hsize, Except.ok.inj (h.symm.trans (hopen hsize))⟩
  · rintro ⟨hsize, rfl⟩
    exact hopen hsize

/-- The file of an encryption holds its ciphertext and its tag. -/
theorem openEnvelope_envelope {opening : Opening}
    (haccepted : Encryptable source manifest passphrase (nonces salt nonce)) (hsource : source ≠ [])
    (hnonce : nonce.length = 12) (hloads : rt.loads (headerBytes (envelopeHeader manifest (nonces salt nonce))) =
      some (sortKeys (envelopeHeader manifest (nonces salt nonce))))
    (hversion : SupportedVersion (get manifest "app_version").textOr)
    (hlength : headerLength (envelopeHeader manifest (nonces salt nonce)) ≤ maxHeaderBytes) :
    openEnvelope rt limits (envelope rt (encryptor rt manifest passphrase salt nonce) source)
      (some passphrase) = .ok opening ↔
      (envelope rt (encryptor rt manifest passphrase salt nonce) source).length ≤
        (limits.of (includesCache manifest)).maxFileBytes ∧
        opening = ⟨encryptor rt manifest passphrase salt nonce,
          (encryptor rt manifest passphrase salt nonce).aad.length, source.length,
          sealTag rt (sealed rt (encryptor rt manifest passphrase salt nonce) source)⟩ := by
  have hpos := List.length_pos_of_ne_nil hsource
  have hmask := @length_mask rt (encryptor rt manifest passphrase salt nonce) source
  have htag : (sealTag rt (sealed rt (encryptor rt manifest passphrase salt nonce) source)).length = 16 :=
    rt.tag_length ..
  have hrest := @openEnvelope_rest rt limits manifest salt nonce source passphrase opening
    ((encryptor rt manifest passphrase salt nonce).mask rt source ++
      sealTag rt (sealed rt (encryptor rt manifest passphrase salt nonce) source))
    haccepted hnonce hloads hversion hlength (by rw [List.length_append, hmask, htag]; omega)
  have hsize : ((encryptor rt manifest passphrase salt nonce).mask rt source ++
      sealTag rt (sealed rt (encryptor rt manifest passphrase salt nonce) source)).length - 16 = source.length := by
    rw [List.length_append, hmask, htag, Nat.add_sub_cancel]
  rw [hsize] at hrest
  nth_rewrite 2 [← hmask] at hrest
  rw [List.drop_left] at hrest
  exact hrest

/-- A file that opens is decrypted as a whole. -/
theorem decryptBackup_of_open {destination : Option Bytes}
    (hopen : openEnvelope rt limits (envelope rt s source) (some passphrase) =
      .ok ⟨s, s.aad.length, source.length, sealTag rt (sealed rt s source)⟩)
    (hstart : s.ciphertext = []) (hbound : source.length ≤ maxStreamBytes) :
    decryptBackup rt limits (envelope rt s source) (some passphrase) destination = (.ok (), some source) := by
  have hdrop : (envelope rt s source).drop s.aad.length = s.mask rt source ++ sealTag rt (sealed rt s source) :=
    List.drop_left
  have htake : (s.mask rt source ++ sealTag rt (sealed rt s source)).take source.length = s.mask rt source := by
    have hlength : (s.mask rt source).length = source.length := length_mask s source
    rw [← hlength, List.take_left]
  have hloop : decryptLoop rt s ((envelope rt s source).drop s.aad.length) source.length =
      (source, .ok (s.seen (s.mask rt source))) := by
    rw [hdrop]
    apply (decryptLoop_eq_ok ..).mpr
    rw [htake, mask_mask, hstart]
    refine ⟨.inr ⟨?_, ?_⟩, rfl, rfl⟩
    · rw [List.length_nil, Nat.zero_add]
      exact hbound
    · rw [List.length_append, length_mask]
      exact Nat.le_add_right ..
  rw [decryptBackup, hopen]
  simp only [hloop]
  exact if_pos (verifies_iff.mpr rfl)

/-- The stream that a file presents with its tag. -/
def presented (opening : Opening) (file : Bytes) : Stream := opening.stream.seen (part file opening.offset opening.size)

/-- A file that is accepted consists of what its tag has been checked for, and the
tag. -/
theorem decryptBackup_accepted {given : Option String} {destination result : Option Bytes}
    (h : decryptBackup rt limits file given destination = (.ok (), result)) :
    ∃ opening, openEnvelope rt limits file given = .ok opening ∧ opening.tag = sealTag rt (presented opening file) ∧
      file = (presented opening file).aad ++ ((presented opening file).ciphertext ++ opening.tag) := by
  rw [decryptBackup] at h
  split at h
  · cases h
  next opening hopen =>
  obtain ⟨hstart, haad, hlength, htag⟩ := openEnvelope_part hopen
  split at h
  · cases h
  next written s' hloop =>
  split at h
  · next hverified =>
      obtain ⟨-, -, hs'⟩ := (decryptLoop_eq_ok ..).mp hloop
      refine ⟨opening, hopen, ?_, ?_⟩
      · rw [verifies_iff, hs'] at hverified
        exact hverified
      · have hciphertext : (presented opening file).ciphertext = part file opening.offset opening.size := by
          rw [presented, Stream.seen, hstart, List.nil_append]
        have hpresented : (presented opening file).aad = part file 0 opening.offset := haad
        have hhead := part_part file 0 opening.offset (opening.size + 16)
        rw [Nat.zero_add] at hhead
        rw [hciphertext, hpresented, htag, part_part, hhead, part_all (by omega)]
  · cases h

/-- A call of `_encrypt_backup`, with the file that it has written. -/
structure Call (rt : Primitives) where
  source : Bytes
  manifest : Document
  passphrase : String
  salt : Bytes
  nonce : Bytes
  file : Bytes
  encrypted : encryptBackup rt source manifest passphrase salt nonce = .ok file

def Call.header (call : Call rt) : Document := envelopeHeader call.manifest (nonces call.salt call.nonce)

/-- What a call has sealed. -/
def Call.sealed (call : Call rt) : Stream :=
  EnvelopeRoundTrip.sealed rt (encryptor rt call.manifest call.passphrase call.salt call.nonce) call.source

/-- AES-GCM is authentic: no file presents a key, a nonce, associated data and a
ciphertext with their tag, unless one of the calls has sealed them. -/
def Authentic (limits : BackupLimits) (calls : Set (Call rt)) (file : Bytes) (given : Option String) : Prop :=
  ∀ opening, openEnvelope rt limits file given = .ok opening → opening.tag = sealTag rt (presented opening file) →
    ∃ call ∈ calls, presented opening file = call.sealed

theorem Call.file_eq (call : Call rt) :
    call.file = call.sealed.aad ++ (call.sealed.ciphertext ++ sealTag rt call.sealed) := by
  obtain ⟨-, hfile⟩ := encryptBackup_eq_ok.mp call.encrypted
  have hciphertext : call.sealed.ciphertext =
      (encryptor rt call.manifest call.passphrase call.salt call.nonce).mask rt call.source := List.nil_append _
  rw [hciphertext]
  exact hfile

theorem decryptBackup_rejects {given : Option String} {calls : Set (Call rt)} {other : Bytes}
    (hother : ∀ call ∈ calls, other ≠ call.file) (hauthentic : Authentic limits calls other given)
    (destination : Option Bytes) :
    ∃ text result, decryptBackup rt limits other given destination = (.error text, result) := by
  cases h : decryptBackup rt limits other given destination with
  | mk outcome result =>
      cases outcome with
      | error text => exact ⟨text, result, rfl⟩
      | ok done =>
          obtain ⟨opening, hopen, htag, hfile⟩ := decryptBackup_accepted h
          obtain ⟨call, hcall, hsealed⟩ := hauthentic opening hopen htag
          rw [htag, hsealed, ← call.file_eq] at hfile
          exact absurd hfile (hother call hcall)

/-- An encrypted backup that is not too large is read back, and no file is taken for
a backup that no call has written. -/
theorem backup_envelope_round_trip (call : Call rt) (v : Bool) (destination : Option Bytes) (hsource : call.source ≠ [])
    (hnonce : call.nonce.length = 12) (hloads : rt.loads (headerBytes call.header) = some (sortKeys call.header))
    (hversion : SupportedVersion (get call.manifest "app_version").textOr)
    (hlength : headerLength call.header ≤ maxHeaderBytes)
    (hsize : call.file.length ≤ (limits.of (includesCache call.manifest)).maxFileBytes) :
    (∃ header offset, readEncryptedHeader rt limits call.file v = .ok (header, call.file.take offset, offset) ∧
      (∀ key, header.lookup key = call.header.lookup key) ∧
        call.file = call.file.take offset ++ (call.sealed.ciphertext ++ sealTag rt call.sealed)) ∧
      decryptBackup rt limits call.file (some call.passphrase) destination = (.ok (), some call.source) ∧
        ∀ (others : Set (Call rt)) (other : Bytes) (given : Option String), other ≠ call.file →
        (∀ c ∈ others, other ≠ c.file) →
          Authentic limits (insert call others) other given →
            (∃ text result, decryptBackup rt limits other given destination = (.error text, result)) ∧
              ∀ {α : Type} (body : Bytes → Except String α),
                ∃ text, plainBackupFile rt limits other given body = (.error text, none) := by
  obtain ⟨haccepted, hfile⟩ := encryptBackup_eq_ok.mp call.encrypted
  have hstart : (encryptor rt call.manifest call.passphrase call.salt call.nonce).ciphertext = [] := rfl
  have hparts := call.file_eq
  have haad : call.sealed.aad = (encryptor rt call.manifest call.passphrase call.salt call.nonce).aad := rfl
  refine ⟨⟨_, call.sealed.aad.length, ?_, lookup_header call.manifest (nonces call.salt call.nonce), ?_⟩, ?_, ?_⟩
  · have htake : call.file.take call.sealed.aad.length = call.sealed.aad := by
      conv_lhs => rw [hparts]
      exact List.take_left
    have hread := (@readEncryptedHeader_encrypted rt limits call.manifest call.salt call.nonce call.passphrase v _
      (call.sealed.ciphertext ++ sealTag rt call.sealed) hloads hversion hlength).mpr ⟨fun _ => ?_, rfl⟩
    · rw [htake, haad]
      rw [← haad, ← hparts] at hread
      exact hread
    · rw [← haad, ← hparts]
      exact hsize
  · conv_lhs => rw [hparts]
    congr 1
    conv_rhs => rw [hparts]
    exact List.take_left.symm
  · have hopen := (openEnvelope_envelope haccepted hsource hnonce hloads hversion hlength).mpr ⟨hfile ▸ hsize, rfl⟩
    rw [hfile]
    exact decryptBackup_of_open hopen hstart (haccepted.size.resolve_left hsource)
  · intro others other given hne hothers hauthentic
    have hother : ∀ c ∈ insert call others, other ≠ c.file := by
      rintro c (rfl | hc)
      · exact hne
      · exact hothers c hc
    constructor
    · exact decryptBackup_rejects hother hauthentic destination
    · intro α body
      obtain ⟨text, result, hrejected⟩ := decryptBackup_rejects hother hauthentic (some [])
      refine ⟨text, ?_⟩
      rw [plainBackupFile, hrejected]

section Samples

def exampleSalt : Bytes := List.replicate 16 0

def exampleNonce : Bytes := List.replicate 12 0

def secondNonce : Bytes := List.replicate 12 1

def exampleHeader (nonce : Bytes) : Document := envelopeHeader exampleManifest (nonces exampleSalt nonce)

def exampleLoads (octets : Bytes) : Option Document :=
  if octets = headerBytes (exampleHeader exampleNonce) then some (sortKeys (exampleHeader exampleNonce))
  else if octets = headerBytes (exampleHeader secondNonce) then some (sortKeys (exampleHeader secondNonce))
  else none

/-- The sum of some octets. -/
def checksum (octets : Bytes) : UInt8 := octets.foldl (· + ·) 0

/-- A library that reads two headers, and whose tag is a sum over all that it is for. -/
def examplePrimitives : Primitives where
  loads := exampleLoads
  scrypt passphrase salt := passphrase ++ salt
  keystream _ _ i := UInt8.ofNat (7 * i + 1)
  tag key nonce aad ciphertext := List.replicate 16 (checksum (key ++ nonce ++ aad ++ ciphertext))
  tag_length _ _ _ _ := List.length_replicate

theorem headers_differ :
    headerBytes (exampleHeader exampleNonce) ≠ headerBytes (exampleHeader secondNonce) := by decide +kernel

theorem example_loads {nonce : Bytes} (hnonce : nonce = exampleNonce ∨ nonce = secondNonce) :
    examplePrimitives.loads (headerBytes (exampleHeader nonce)) = some (sortKeys (exampleHeader nonce)) := by
  have hloads : examplePrimitives.loads = exampleLoads := rfl
  rw [hloads, exampleLoads]
  rcases hnonce with rfl | rfl
  · rw [if_pos rfl]
  · rw [if_neg headers_differ.symm, if_pos rfl]

theorem example_headerLength {nonce : Bytes} (hnonce : nonce = exampleNonce ∨ nonce = secondNonce) :
    headerLength (exampleHeader nonce) ≤ maxHeaderBytes := by
  apply headerLength_envelopeHeader
  rcases hnonce with rfl | rfl <;> decide

theorem example_version : SupportedVersion (get exampleManifest "app_version").textOr :=
  ⟨(1, 3, 10), by decide, rfl⟩

theorem example_limit : (defaultLimits.of (includesCache exampleManifest)).maxFileBytes = 256 * 1024 * 1024 := by decide

def exampleEncryptor (nonce : Bytes) : Stream :=
  encryptor examplePrimitives exampleManifest "correct horse battery" exampleSalt nonce

theorem example_encryptable {nonce source : Bytes} (hnonce : nonce = exampleNonce ∨ nonce = secondNonce)
    (hsize : source.length ≤ maxStreamBytes) :
    Encryptable source exampleManifest "correct horse battery" (nonces exampleSalt nonce) :=
  ⟨by decide, by decide, by decide, Nat.lt_of_le_of_lt (example_headerLength hnonce) (by decide), .inr hsize⟩

/-- The backup of some octets. -/
def exampleCall (nonce source : Bytes) (hnonce : nonce = exampleNonce ∨ nonce = secondNonce)
    (hsize : source.length ≤ maxStreamBytes) : Call examplePrimitives where
  source := source
  manifest := exampleManifest
  passphrase := "correct horse battery"
  salt := exampleSalt
  nonce := nonce
  file := envelope examplePrimitives (exampleEncryptor nonce) source
  encrypted := encryptBackup_eq_ok.mpr ⟨example_encryptable hnonce hsize, rfl⟩

theorem length_example {nonce : Bytes} (hnonce : nonce = exampleNonce ∨ nonce = secondNonce) (source : Bytes) :
    (envelope examplePrimitives (exampleEncryptor nonce) source).length ≤ source.length + 65569 ∧
      source.length < (envelope examplePrimitives (exampleEncryptor nonce) source).length := by
  have hmagic : backupMagic.length = 13 := by decide
  have hheader := example_headerLength hnonce
  have haad : (exampleEncryptor nonce).aad = associatedData (exampleHeader nonce) := rfl
  rw [maxHeaderBytes] at hheader
  rw [length_envelope, haad, length_associatedData, hmagic]
  omega

theorem checksum_append (first second : Bytes) : checksum (first ++ second) = checksum first + checksum second := by
  have hstart (octets : Bytes) (start : UInt8) : octets.foldl (· + ·) start = start + checksum octets := by
    rw [checksum]
    induction octets generalizing start with
    | nil => exact (UInt8.add_zero start).symm
    | cons octet octets ih => rw [List.foldl_cons, List.foldl_cons, ih, ih (0 + octet), UInt8.zero_add, UInt8.add_assoc]
  rw [checksum, List.foldl_append, hstart, ← checksum]

def firstBackup : Call examplePrimitives := exampleCall exampleNonce [80, 75] (.inl rfl) (by decide)

/-- Another backup with the same passphrase. -/
def secondBackup : Call examplePrimitives := exampleCall secondNonce [80, 76] (.inr rfl) (by decide)

/-- The first backup with other octets in its ciphertext. -/
def changedBackup : Bytes :=
  (exampleEncryptor exampleNonce).aad ++
    ((exampleEncryptor exampleNonce).mask examplePrimitives [81, 75] ++ sealTag examplePrimitives firstBackup.sealed)

theorem tag_injective {s s' : Stream} (hkey : s.key = s'.key) (hnonce : s.nonce = s'.nonce) (haad : s.aad = s'.aad)
    (h : sealTag examplePrimitives s = sealTag examplePrimitives s') :
    checksum s.ciphertext = checksum s'.ciphertext := by
  have hsum : checksum (s.key ++ s.nonce ++ s.aad ++ s.ciphertext) = checksum
      (s'.key ++ s'.nonce ++ s'.aad ++ s'.ciphertext) :=
    (List.replicate_inj.mp h).2.resolve_left (by decide)
  rw [checksum_append, checksum_append _ s'.ciphertext, hkey, hnonce, haad] at hsum
  exact (UInt8.add_right_inj _).mp hsum

/-- What begins like a backup opens with the parameters of that backup. -/
theorem example_opening {nonce rest : Bytes} {opening : Opening} (hnonce : nonce = exampleNonce ∨ nonce = secondNonce)
    (hrest : 16 < rest.length)
    (h : openEnvelope examplePrimitives defaultLimits ((exampleEncryptor nonce).aad ++ rest)
      (some "correct horse battery") =
      .ok opening) :
    opening = ⟨exampleEncryptor nonce, (exampleEncryptor nonce).aad.length, rest.length - 16,
      rest.drop (rest.length - 16)⟩ := by
  have hlength : nonce.length = 12 := by rcases hnonce with rfl | rfl <;> rfl
  have hencryptable := @example_encryptable nonce [80, 75] hnonce (by decide)
  exact ((openEnvelope_rest hencryptable hlength (example_loads hnonce)
    example_version (example_headerLength hnonce) hrest).mp h).2

theorem example_open {nonce source : Bytes} (hnonce : nonce = exampleNonce ∨ nonce = secondNonce)
    (hsource : source ≠ []) (hsize : source.length ≤ 1000) :
    openEnvelope examplePrimitives defaultLimits (envelope examplePrimitives (exampleEncryptor nonce) source)
      (some "correct horse battery") = .ok ⟨exampleEncryptor nonce, (exampleEncryptor nonce).aad.length, source.length,
        sealTag examplePrimitives (sealed examplePrimitives (exampleEncryptor nonce) source)⟩ := by
  have hlength : nonce.length = 12 := by rcases hnonce with rfl | rfl <;> rfl
  refine (openEnvelope_envelope (example_encryptable hnonce (hsize.trans (by decide))) hsource hlength
    (example_loads hnonce)
    example_version (example_headerLength hnonce)).mpr ⟨?_, rfl⟩
  rw [example_limit]
  have hfile := (length_example hnonce source).1
  exact hfile.trans (by omega)

theorem length_changed : (sealTag examplePrimitives firstBackup.sealed).length = 16 ∧
    ((exampleEncryptor exampleNonce).mask examplePrimitives [81, 75] ++
      sealTag examplePrimitives firstBackup.sealed).length = 18 := by
  have htag : (sealTag examplePrimitives firstBackup.sealed).length = 16 := examplePrimitives.tag_length ..
  exact ⟨htag, by rw [List.length_append, length_mask, htag]; rfl⟩

/-- No file of the second backup begins like the first one. -/
theorem ne_second {rest : Bytes} (hrest : 16 < rest.length) :
    (exampleEncryptor exampleNonce).aad ++ rest ≠ secondBackup.file := by
  intro heq
  have hopen := @example_open secondNonce [80, 76] (.inr rfl) (List.cons_ne_nil _ _) (by decide)
  change openEnvelope examplePrimitives defaultLimits secondBackup.file _ = _ at hopen
  rw [← heq] at hopen
  have hnonces : secondNonce = exampleNonce :=
    congrArg (fun opening => opening.stream.nonce) (example_opening (.inl rfl) hrest hopen)
  exact absurd hnonces (by decide)

theorem changed_authentic :
    Authentic defaultLimits {firstBackup, secondBackup} changedBackup (some "correct horse battery") := by
  intro opening hopen htag
  have hopened := example_opening (.inl rfl) (by rw [length_changed.2]; decide) hopen
  have hlength := @length_mask examplePrimitives (exampleEncryptor exampleNonce) [81, 75]
  rw [length_changed.2] at hopened
  change opening = ⟨_, _, [(81 : UInt8), 75].length, List.drop [(81 : UInt8), 75].length _⟩ at hopened
  rw [← hlength, List.drop_left] at hopened
  subst hopened
  have hpart : part changedBackup (exampleEncryptor exampleNonce).aad.length
      ((exampleEncryptor exampleNonce).mask examplePrimitives [81, 75]).length =
        (exampleEncryptor exampleNonce).mask examplePrimitives [81, 75] := part_append
  rw [presented] at htag
  dsimp only at htag
  rw [hpart] at htag
  have hsealed : firstBackup.sealed =
      (exampleEncryptor exampleNonce).seen ((exampleEncryptor exampleNonce).mask examplePrimitives [80, 75]) := rfl
  rw [hsealed] at htag
  have hsum : checksum ((exampleEncryptor exampleNonce).mask examplePrimitives [80, 75]) =
      checksum ((exampleEncryptor exampleNonce).mask examplePrimitives [81, 75]) :=
    @tag_injective ((exampleEncryptor exampleNonce).seen
      ((exampleEncryptor exampleNonce).mask examplePrimitives [80, 75]))
      ((exampleEncryptor exampleNonce).seen ((exampleEncryptor exampleNonce).mask examplePrimitives [81, 75]))
        rfl rfl rfl htag
  have hmasks (s : Stream) (hs : s.ciphertext = []) :
      s.mask examplePrimitives [80, 75] = [81, 67] ∧ s.mask examplePrimitives [81, 75] = [80, 67] := by
    rw [Stream.mask, Stream.mask, hs]
    change [80, 75].mapIdx (fun i octet => octet ^^^ UInt8.ofNat (7 * (0 + i) + 1)) = _ ∧
      [81, 75].mapIdx (fun i octet => octet ^^^ UInt8.ofNat (7 * (0 + i) + 1)) = _
    decide
  rw [(hmasks _ rfl).1, (hmasks _ rfl).2] at hsum
  exact absurd hsum (by decide)

/-- The backup is read back, and it is refused after a change in its ciphertext,
although there is another backup with the passphrase. -/
theorem backup_envelope_round_trip_changed :
    decryptBackup examplePrimitives defaultLimits firstBackup.file
      (some "correct horse battery") none = (.ok (), some [80, 75]) ∧
      ∃ text result, decryptBackup examplePrimitives defaultLimits changedBackup (some "correct horse battery") none =
        (.error text, result) := by
  obtain ⟨-, hdecrypt, hothers⟩ := @backup_envelope_round_trip examplePrimitives defaultLimits firstBackup true none
    (List.cons_ne_nil _ _) rfl (example_loads (.inl rfl)) example_version (example_headerLength (.inl rfl))
    (by
      change _ ≤ (defaultLimits.of (includesCache exampleManifest)).maxFileBytes
      rw [example_limit]
      exact (length_example (.inl rfl) [80, 75]).1.trans (by decide))
  refine ⟨hdecrypt, (hothers {secondBackup} changedBackup (some "correct horse battery") ?_ ?_ changed_authentic).1⟩
  · intro heq
    have hmasks := List.append_cancel_right (List.append_cancel_left heq)
    exact absurd hmasks (by decide)
  · intro c hc
    rw [Set.mem_singleton_iff.mp hc]
    exact ne_second (by rw [length_changed.2]; decide)

/-- A file below the limit can be above it once its header and its tag have been
added, and another backup with the passphrase is no change that is noticed. -/
theorem largest_zip_not_restored :
    (¬ ∀ (rt : Primitives) (limits : BackupLimits) (call : Call rt) (destination : Option Bytes),
      call.source ≠ [] → call.source.length ≤ (limits.of (includesCache call.manifest)).maxFileBytes →
      call.nonce.length = 12 →
        rt.loads (headerBytes call.header) = some (sortKeys call.header) →
          SupportedVersion (get call.manifest "app_version").textOr → headerLength call.header ≤ maxHeaderBytes →
            decryptBackup rt limits call.file (some call.passphrase) destination = (.ok (), some call.source)) ∧
      secondBackup.file ≠ firstBackup.file ∧ secondBackup.passphrase = firstBackup.passphrase ∧
        decryptBackup examplePrimitives defaultLimits secondBackup.file
          (some firstBackup.passphrase) none = (.ok (), some [80, 76]) := by
  refine ⟨?_, ?_, rfl, ?_⟩
  · intro hall
    let source : Bytes := List.replicate (256 * 1024 * 1024) 0
    have hsize : source.length = 256 * 1024 * 1024 := List.length_replicate
    have hsource : source ≠ [] := by
      rw [← List.length_pos_iff_ne_nil, hsize]
      decide
    have hbound : source.length ≤ maxStreamBytes := by rw [hsize]; decide
    have hheader := example_headerLength (.inl rfl)
    have hshort := (length_example (.inl rfl) source).2
    have hlarge := example_limit
    have hdecrypt := hall examplePrimitives defaultLimits (exampleCall exampleNonce source (.inl rfl) hbound)
      none hsource
      (by
        change _ ≤ (defaultLimits.of (includesCache exampleManifest)).maxFileBytes
        rw [hlarge]
        exact Nat.le_of_eq hsize)
      rfl (example_loads (.inl rfl)) example_version hheader
    rw [decryptBackup] at hdecrypt
    split at hdecrypt
    · nomatch hdecrypt
    next opening hopen =>
    have hfits := ((openEnvelope_envelope (example_encryptable (.inl rfl) hbound) hsource rfl (example_loads (.inl rfl))
      example_version hheader).mp hopen).1
    rw [hlarge, ← hsize] at hfits
    exact absurd hshort (Nat.not_lt.mpr hfits)
  · have htag := examplePrimitives.tag_length
    have hlength : ((exampleEncryptor exampleNonce).mask examplePrimitives [80, 75] ++
        sealTag examplePrimitives (sealed examplePrimitives (exampleEncryptor exampleNonce) [80, 75])).length = 18 := by
      rw [List.length_append, length_mask, sealTag, htag]
      rfl
    exact (ne_second (by rw [hlength]; decide)).symm
  · exact decryptBackup_of_open (example_open (.inr rfl) (List.cons_ne_nil _ _) (by decide)) rfl (by decide)

end Samples

end BorgManager.EnvelopeRoundTrip
