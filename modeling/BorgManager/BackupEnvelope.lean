import BorgManager.BackupArtifacts
import BorgManager.Base64
import BorgManager.Framing

namespace BorgManager.BackupEnvelope

open PythonText JsonText BackupArchives BackupArtifacts Framing

/-- What an envelope takes from other libraries: `json.loads`, scrypt, and
AES-GCM as the octets of its key stream and its tag. -/
structure Primitives where
  loads : Bytes → Option Document
  scrypt : Bytes → Bytes → Bytes
  keystream : Bytes → Bytes → Nat → UInt8
  tag : Bytes → Bytes → Bytes → Bytes → Bytes
  tag_length : ∀ key nonce aad ciphertext, (tag key nonce aad ciphertext).length = tagBytes

variable (rt : Primitives)

/-- The check of a tag computes it again. -/
def Primitives.verifies (key nonce aad ciphertext tag : Bytes) : Bool := tag == rt.tag key nonce aad ciphertext

def utf8 (text : List Char) : Bytes := text.flatMap String.utf8EncodeChar

def backupMagic : Bytes := utf8 "BBM-BACKUP-1\n".toList

def chunkBytes : Nat := 1024 * 1024

/-- An encryptor or decryptor, with the ciphertext that it has seen. -/
structure Stream where
  key : Bytes
  nonce : Bytes
  aad : Bytes
  ciphertext : Bytes

/-- The octets of a chunk with the key stream at its position. -/
def Stream.mask (s : Stream) (chunk : Bytes) : Bytes :=
  chunk.mapIdx (fun i octet => octet ^^^ rt.keystream s.key s.nonce (s.ciphertext.length + i))

def Stream.seen (s : Stream) (chunk : Bytes) : Stream := { s with ciphertext := s.ciphertext ++ chunk }

def maxStreamBytes : Nat := 2 ^ 36 - 32

def streamLimit (s : Stream) (chunk : Bytes) : Except String Unit :=
  if maxStreamBytes < s.ciphertext.length + chunk.length then
    .error "GCM has a maximum encrypted byte limit of 68719476704"
  else .ok ()

/-- `encryptor.update`. -/
def encryptUpdate (s : Stream) (chunk : Bytes) : Except String (Bytes × Stream) := do
  streamLimit s chunk
  pure (s.mask rt chunk, s.seen (s.mask rt chunk))

/-- `decryptor.update`. -/
def decryptUpdate (s : Stream) (chunk : Bytes) : Except String (Bytes × Stream) := do
  streamLimit s chunk
  pure (s.mask rt chunk, s.seen chunk)

/-- The loop of `_encrypt_backup`. -/
def encryptLoop (s : Stream) (source : Bytes) : Except String (Bytes × Stream) :=
  if source = [] then .ok ([], s)
  else do
    let (encrypted, s) ← encryptUpdate rt s (source.take chunkBytes)
    let (rest, s) ← encryptLoop s (source.drop chunkBytes)
    pure (encrypted ++ rest, s)
termination_by source.length
decreasing_by
  have hlength := List.length_pos_of_ne_nil ‹source ≠ []›
  rw [List.length_drop, chunkBytes]
  omega

def incomplete : String := "Verschlüsseltes Backup ist unvollständig"

/-- The loop of `_decrypt_backup`: what it has written, and how it has ended. -/
def decryptLoop (s : Stream) (source : Bytes) (remaining : Nat) : Bytes × Except String Stream :=
  if remaining = 0 then ([], .ok s)
  else if source = [] then ([], .error incomplete)
  else
    let chunk := source.take (min chunkBytes remaining)
    match decryptUpdate rt s chunk with
    | .error text => ([], .error text)
    | .ok (plaintext, s) =>
        let (rest, result) := decryptLoop s (source.drop (min chunkBytes remaining)) (remaining - chunk.length)
        (plaintext ++ rest, result)
termination_by remaining
decreasing_by
  have hlength := List.length_pos_of_ne_nil ‹source ≠ []›
  rw [List.length_take, chunkBytes]
  omega

/-- `_derive_backup_key`. -/
def deriveBackupKey (passphrase : String) (salt : Bytes) : Except String Bytes :=
  if passphrase.toList.length < 8 then .error "Die Backup-Passphrase muss mindestens 8 Zeichen lang sein"
  else .ok (rt.scrypt (utf8 passphrase.toList) salt)

def nonces (salt nonce : Bytes) : Nonces := ⟨String.ofList (Base64.encode salt), String.ofList (Base64.encode nonce)⟩

def countKeys : List String :=
  ["client_borg_cache_target_count", "client_borg_cache_saved_count", "client_borg_cache_missing_count",
    "client_borg_cache_skipped_count", "client_borg_cache_warning_count", "client_borg_security_saved_count",
    "client_borg_security_missing_count", "client_borg_security_unresolved_count"]

def headerBytes (header : Document) : Bytes := utf8 (dumps headerStyle (sortKeys header))

/-- All octets before the ciphertext. -/
def associatedData (header : Document) : Bytes :=
  backupMagic ++ (bigEndian (headerBytes header).length ++ headerBytes header)

/-- `_encrypt_backup`: the octets of the destination. -/
def encryptBackup (source : Bytes) (manifest : Document) (passphrase : String) (salt nonce : Bytes) :
    Except String Bytes :=
  if passphrase.toList.length < 12 then
    .error "Verschlüsselte Backups benötigen eine Passphrase mit mindestens 12 Zeichen"
  else if passphrase.toList.any (fun c => c == Char.ofNat 0 || c == '\r' || c == '\n') then
    .error "Die Backup-Passphrase muss einzeilig sein"
  else if countKeys.any (fun key => (get manifest key).toInt?.isNone) then .error "invalid literal for int()"
  else if 2 ^ 32 ≤ (headerBytes (envelopeHeader manifest (nonces salt nonce))).length then
    .error "argument out of range"
  else do
    let aad := associatedData (envelopeHeader manifest (nonces salt nonce))
    let key ← deriveBackupKey rt passphrase salt
    let (ciphertext, s) ← encryptLoop rt ⟨key, nonce, aad, []⟩ source
    pure (aad ++ (ciphertext ++ rt.tag s.key s.nonce s.aad s.ciphertext))

/-- `_read_encrypted_header`: the header, the associated data and the offset of
the ciphertext. -/
def readEncryptedHeader (limits : BackupLimits) (file : Bytes) (validateSize : Bool) :
    Except String (Document × Bytes × Nat) :=
  let rawLength := part file backupMagic.length 4
  let length := ofBigEndian rawLength
  let headerText := part file (backupMagic.length + 4) length
  if file.length = 0 then .error "Backup-Datei ist leer"
  else if part file 0 backupMagic.length ≠ backupMagic then .error "Unbekanntes verschlüsseltes Backup-Format"
  else if rawLength.length ≠ 4 then .error "Backup-Header ist unvollständig"
  else if length < 32 ∨ 65536 < length then .error "Backup-Header hat eine ungültige Größe"
  else if headerText.length ≠ length then .error "Backup-Header ist unvollständig"
  else
    match rt.loads headerText with
    | none => .error "Backup-Header ist ungültig"
    | some header =>
        if get header "format" ≠ .text "borgbackup-manager-encrypted-backup" then
          .error "Datei ist kein verschlüsseltes BorgBackup-Manager-Backup"
        else do
          requireSupportedBackupVersion header
          if get header "format_version" ≠ .number 2 ∨ get header "cipher" ≠ .text "AES-256-GCM-stream" then
            throw "Backup verwendet ein nicht mehr unterstütztes Verschlüsselungsformat"
          else do
            if validateSize then validateBackupFileSize (limits.of (includesCache header)) file.length
            pure (header, backupMagic ++ rawLength ++ headerText, backupMagic.length + 4 + length)

def invalidParameters : String := "Backup-Header enthält ungültige Verschlüsselungsparameter"

/-- `base64.b64decode(header[key], validate=True)`. -/
def parameter (header : Document) (key : String) : Except String Bytes :=
  match header.lookup key with
  | none => .error invalidParameters
  | some (.text s) =>
      match Base64.decode s.toList with
      | none => .error invalidParameters
      | some octets => .ok octets
  | some _ => .error "argument should be a bytes-like object or ASCII string"

/-- `int(header.get("tag_bytes", 16))`. -/
def tagSize (header : Document) : Option Int :=
  match header.lookup "tag_bytes" with
  | none => some 16
  | some (.flag b) => some (if b then 1 else 0)
  | some (.number n) => some n
  | some (.text s) => intOfText s.toList
  | some _ => none

/-- What `_decrypt_backup` finds out before it opens the destination. -/
structure Opening where
  stream : Stream
  offset : Nat
  size : Nat
  tag : Bytes

def openEnvelope (limits : BackupLimits) (file : Bytes) (passphrase : Option String) : Except String Opening :=
  match truthy passphrase with
  | none => .error "Für dieses Backup ist die Backup-Passphrase erforderlich"
  | some passphrase => do
      let (header, aad, offset) ← readEncryptedHeader rt limits file true
      let salt ← parameter header "salt"
      let nonce ← parameter header "nonce"
      let key ← deriveBackupKey rt passphrase salt
      if tagSize header ≠ some 16 then throw "Backup-Header enthält eine ungültige GCM-Tag-Größe"
      else if file.length ≤ offset + 16 then throw incomplete
      else if nonce.length < 8 ∨ 128 < nonce.length then
        throw "initialization_vector must be between 8 and 128 bytes (64 and 1024 bits)."
      else pure ⟨⟨key, nonce, aad, []⟩, offset, file.length - offset - 16, part file (file.length - 16) 16⟩

/-- `_decrypt_backup`, with the file at the destination before and after it. -/
def decryptBackup (limits : BackupLimits) (file : Bytes) (passphrase : Option String) (destination : Option Bytes) :
    Except String Unit × Option Bytes :=
  match openEnvelope rt limits file passphrase with
  | .error text => (.error text, destination)
  | .ok opening =>
      match decryptLoop rt opening.stream (file.drop opening.offset) opening.size with
      | (written, .error text) => (.error text, some written)
      | (written, .ok s) =>
          if rt.verifies s.key s.nonce s.aad s.ciphertext opening.tag then (.ok (), some written)
          else (.error "Backup-Passphrase ist falsch oder das Backup wurde verändert", none)

/-- `plain_backup_file` around a body, for a file that is no ZIP file: the result
and the temporary file after it. -/
def plainBackupFile {α : Type} (limits : BackupLimits) (file : Bytes) (passphrase : Option String)
    (body : Bytes → Except String α) : Except String α × Option Bytes :=
  match decryptBackup rt limits file passphrase (some []) with
  | (.error text, _) => (.error text, none)
  | (.ok (), decrypted) => (body (decrypted.getD []), none)

end BorgManager.BackupEnvelope
