import Mathlib
import BorgManager.Dictionaries
import BorgManager.Exceptions
import BorgManager.PythonText
import BorgManager.Utf8Decoding

namespace BorgManager.SecretStore

open Dictionaries Exceptions

abbrev Text : Type := List Char

/-- The primary key of the table of secrets. -/
structure SecretKey where
  scope : Text
  name : Text
  deriving DecidableEq

/-- `_SECRET_SCOPE_RE` and `_SECRET_NAME_RE` are one pattern. -/
def isKeyPart (part : Text) : Bool :=
  1 ≤ part.length && part.length ≤ 160 && part.all (fun c => c.isAlphanum || "_.:-".toList.contains c)

def strip (t : Text) : Text := PythonText.stripWhile PythonText.isSpace t

def invalidKey : Text := "Ungültiger Schlüssel für den Sicherheitsspeicher".toList

def validateSecretKey (scope name : Text) : Except Text SecretKey :=
  let scope := strip scope
  let name := strip name
  if isKeyPart scope && isKeyPart name then .ok ⟨scope, name⟩ else .error invalidKey

/-- The cipher behind the master key: a token depends on a random part. -/
structure Fernet where
  encrypt : Nat → List UInt8 → Text
  decrypt : Text → Option (List UInt8)

/-- What was encrypted is decrypted, and tokens are ASCII. -/
structure Fernet.Lawful (f : Fernet) : Prop where
  decrypt_encrypt : ∀ nonce octets, f.decrypt (f.encrypt nonce octets) = some octets
  ascii : ∀ nonce octets, ∀ c ∈ f.encrypt nonce octets, c.toNat < 128

def utf8 (t : Text) : List UInt8 := t.flatMap String.utf8EncodeChar

/-- `bytes.decode("utf-8")`: a text whose encoding the bytes are. -/
def decodeUtf8 (octets : List UInt8) : Option Text :=
  let t := Utf8Decoding.decode octets
  if utf8 t = octets then some t else none

theorem decodeUtf8_utf8 (t : Text) : decodeUtf8 (utf8 t) = some t := by
  have hdecode : Utf8Decoding.decode (utf8 t) = t := Utf8Decoding.decode_encode t
  rw [decodeUtf8, hdecode]
  exact if_pos rfl

def masterPrefix : Text := "v2:".toList

def encryptValue (f : Fernet) (nonce : Nat) (value : Text) : Text := masterPrefix ++ f.encrypt nonce (utf8 value)

def unsupportedFormat : Text := "Geheimnis verwendet ein nicht unterstütztes Verschlüsselungsformat".toList

def undecryptable : Text := "Geheimnis kann mit dem aktuellen Master-Key nicht entschlüsselt werden".toList

def decryptValue (f : Fernet) (value : Text) : Except Text Text :=
  match masterPrefix.isPrefixOf? value with
  | none => .error unsupportedFormat
  | some token =>
      if token.all (fun c => c.toNat < 128) then
        match (f.decrypt token).bind decodeUtf8 with
        | some t => .ok t
        | none => .error undecryptable
      else .error undecryptable

theorem decryptValue_encryptValue {f : Fernet} (hf : f.Lawful) (nonce : Nat) (value : Text) :
    decryptValue f (encryptValue f nonce value) = .ok value := by
  have hprefix : masterPrefix.isPrefixOf? (encryptValue f nonce value) = some (f.encrypt nonce (utf8 value)) := by
    simp [encryptValue, masterPrefix, List.isPrefixOf?]
  have hascii : (f.encrypt nonce (utf8 value)).all (fun c => decide (c.toNat < 128)) = true :=
    List.all_eq_true.mpr (fun c hc => decide_eq_true (hf.ascii nonce _ c hc))
  rw [decryptValue, hprefix]
  dsimp only
  rw [if_pos hascii, hf.decrypt_encrypt, Option.bind_some, decodeUtf8_utf8]

/-- The table of secrets. Only what the key patterns allow is ever stored. -/
structure Store where
  rows : Dict SecretKey Text
  valid : ∀ k ∈ rows.keys, validateSecretKey k.scope k.name = .ok k

def emptySecret : Text := "Geheimnis darf nicht leer sein".toList

theorem rstripWhile_of_last {p : Char → Bool} {cs : List Char} (h : ∀ c ∈ cs.getLast?, p c = false) :
    PythonText.rstripWhile p cs = cs := by
  rw [PythonText.rstripWhile]
  rcases List.eq_nil_or_concat cs with rfl | ⟨init, c, rfl⟩
  · rfl
  · rw [List.concat_eq_append] at h ⊢
    rw [List.reverse_append, List.reverse_singleton, List.singleton_append, List.dropWhile_cons_of_neg]
    · simp
    · rw [h c (by simp)]
      exact Bool.false_ne_true

theorem stripWhile_of_ends {p : Char → Bool} {cs : List Char} (hhead : ∀ c ∈ cs.head?, p c = false)
    (hlast : ∀ c ∈ cs.getLast?, p c = false) : PythonText.stripWhile p cs = cs := by
  have hdrop : cs.dropWhile p = cs := by
    cases cs with
    | nil => rfl
    | cons c cs =>
        rw [List.dropWhile_cons_of_neg]
        rw [hhead c rfl]
        exact Bool.false_ne_true
  rw [PythonText.stripWhile, hdrop]
  exact rstripWhile_of_last hlast

theorem strip_of_ends {t : Text} (hhead : ∀ c ∈ t.head?, PythonText.isSpace c = false)
    (hlast : ∀ c ∈ t.getLast?, PythonText.isSpace c = false) : strip t = t := stripWhile_of_ends hhead hlast

theorem isSpace_of_keyChar {c : Char} (h : (c.isAlphanum || "_.:-".toList.contains c) = true) :
    PythonText.isSpace c = false := by
  rw [Bool.or_eq_true] at h
  rcases h with h | h
  · have hrange : 48 ≤ c.toNat ∧ c.toNat < 128 := by
      simp only [Char.isAlphanum, Char.isAlpha, Char.isUpper, Char.isLower, Char.isDigit, Bool.or_eq_true,
        Bool.and_eq_true, decide_eq_true_eq, UInt32.le_iff_toNat_le, ge_iff_le] at h
      have hval : c.val.toNat = c.toNat := rfl
      simp at h
      omega
    simp [PythonText.isSpace]
    omega
  · simp only [List.contains_eq_mem, decide_eq_true_eq] at h
    have hall : ("_.:-".toList.all (fun d => !PythonText.isSpace d)) = true := by decide
    simpa using List.all_eq_true.mp hall c h

/-- A part of a key that the patterns allow has nothing to strip. -/
theorem strip_of_isKeyPart {part : Text} (h : isKeyPart part = true) : strip part = part := by
  simp only [isKeyPart, Bool.and_eq_true] at h
  have hall := List.all_eq_true.mp h.2
  exact strip_of_ends (fun c hc => isSpace_of_keyChar (hall c (List.mem_of_mem_head? hc)))
    (fun c hc => isSpace_of_keyChar (hall c (List.mem_of_mem_getLast? hc)))

theorem validateSecretKey_ok {scope name : Text} {k : SecretKey} (h : validateSecretKey scope name = .ok k) :
    k = ⟨strip scope, strip name⟩ ∧ isKeyPart k.scope = true ∧ isKeyPart k.name = true := by
  rw [validateSecretKey] at h
  split at h
  · next hparts =>
      cases h
      rw [Bool.and_eq_true] at hparts
      exact ⟨rfl, hparts⟩
  · cases h

theorem validateSecretKey_self {k : SecretKey} (hscope : isKeyPart k.scope = true) (hname : isKeyPart k.name = true) :
    validateSecretKey k.scope k.name = .ok k := by
  rw [validateSecretKey, strip_of_isKeyPart hscope, strip_of_isKeyPart hname]
  simp [hscope, hname]

theorem valid_of_validated {scope name : Text} {k : SecretKey} (h : validateSecretKey scope name = .ok k) :
    validateSecretKey k.scope k.name = .ok k := by
  obtain ⟨-, hscope, hname⟩ := validateSecretKey_ok h
  exact validateSecretKey_self hscope hname

def Store.put (s : Store) (k : SecretKey) (h : validateSecretKey k.scope k.name = .ok k) (encrypted : Text) :
    Store where
  rows := s.rows.set k encrypted
  valid := by
    intro j hj
    obtain ⟨a, ha⟩ := Dict.mem_keys.mp hj
    rw [Dict.get?_set] at ha
    split at ha
    · next heq =>
        rw [heq]
        exact h
    · exact s.valid j (Dict.mem_keys.mpr ⟨a, ha⟩)

def Store.filter (s : Store) (p : SecretKey → Bool) : Store where
  rows := s.rows.filter p
  valid := by
    intro j hj
    obtain ⟨a, ha⟩ := Dict.mem_keys.mp hj
    rw [Dict.get?_filter] at ha
    split at ha
    · exact s.valid j (Dict.mem_keys.mpr ⟨a, ha⟩)
    · cases ha

def setSecret (f : Fernet) (nonce : Nat) (scope name value : Text) (s : Store) : Except Text Store :=
  match h : validateSecretKey scope name with
  | .error e => .error e
  | .ok k =>
      if value = [] ∨ '\x00' ∈ value then .error emptySecret
      else .ok (s.put k (valid_of_validated h) (encryptValue f nonce value))

/-- What a row of the table decrypts to. -/
def Store.secret (f : Fernet) (s : Store) (k : SecretKey) : Except Text (Option Text) :=
  match s.rows.get? k with
  | none => .ok none
  | some encrypted => (decryptValue f encrypted).map some

def getSecret (f : Fernet) (s : Store) (scope name : Text) (fallback : Option Text) : Except Text (Option Text) := do
  let k ← validateSecretKey scope name
  match s.rows.get? k with
  | none => pure fallback
  | some encrypted => (decryptValue f encrypted).map some

def secretExists (s : Store) (scope name : Text) : Except Text Bool := do
  let k ← validateSecretKey scope name
  pure (s.rows.get? k).isSome

def deleteSecret (scope name : Text) (s : Store) : Except Text Store := do
  let k ← validateSecretKey scope name
  pure (s.filter (fun j => !decide (j = k)))

def invalidScope : Text := "Ungültiger Bereich für den Sicherheitsspeicher".toList

def validateScope (scope : Text) : Except Text Text :=
  let scope := strip scope
  if isKeyPart scope then .ok scope else .error invalidScope

def deleteSecretScope (scope : Text) (s : Store) : Except Text Store := do
  let scope ← validateScope scope
  pure (s.filter (fun j => !decide (j.scope = scope)))

def listSecretNames (s : Store) (scope : Text) : Except Text (List Text) := do
  let scope ← validateScope scope
  pure (((s.rows.keys.filter (fun k => k.scope = scope)).map SecretKey.name).insertionSort (fun a b => decide (a ≤ b)))

variable {f : Fernet} {s t : Store} {scope name value : Text} {k j : SecretKey}

theorem validateScope_ok {checked : Text} (h : validateScope scope = .ok checked) :
    checked = strip scope ∧ isKeyPart checked = true := by
  rw [validateScope] at h
  split at h
  · next hpart =>
      cases h
      exact ⟨rfl, hpart⟩
  · cases h

@[simp] theorem secret_put {h : validateSecretKey k.scope k.name = .ok k} {encrypted : Text} :
    (s.put k h encrypted).secret f j = if j = k then (decryptValue f encrypted).map some else s.secret f j := by
  rw [Store.secret, Store.put, Dict.get?_set]
  by_cases hkey : j = k
  · rw [if_pos hkey, if_pos hkey]
  · rw [if_neg hkey, if_neg hkey]
    rfl

@[simp] theorem secret_filter (p : SecretKey → Bool) :
    (s.filter p).secret f j = if p j then s.secret f j else .ok none := by
  rw [Store.secret, Store.filter, Dict.get?_filter]
  cases p j <;> rfl

/-- A secret that is set reads as its value, and no other secret changes. -/
theorem secret_setSecret (hf : f.Lawful) {nonce : Nat} (h : setSecret f nonce scope name value s = .ok t) :
    validateSecretKey scope name = .ok ⟨strip scope, strip name⟩ ∧
      ∀ j, t.secret f j = if j = ⟨strip scope, strip name⟩ then .ok (some value) else s.secret f j := by
  rw [setSecret] at h
  split at h
  · cases h
  · next k hk =>
      split at h
      · cases h
      · cases h
        have hkey := (validateSecretKey_ok hk).1
        refine ⟨hkey ▸ hk, fun j => ?_⟩
        rw [secret_put, decryptValue_encryptValue hf, ← hkey]
        rfl

theorem secret_deleteSecret (h : deleteSecret scope name s = .ok t) :
    ∀ j, t.secret f j = if j = ⟨strip scope, strip name⟩ then .ok none else s.secret f j := by
  obtain ⟨k, hk, h⟩ := bind_ok h
  cases h
  intro j
  rw [← (validateSecretKey_ok hk).1, secret_filter]
  by_cases hkey : j = k <;> simp [hkey]

theorem secret_deleteSecretScope (h : deleteSecretScope scope s = .ok t) :
    ∀ j, t.secret f j = if j.scope = strip scope then .ok none else s.secret f j := by
  obtain ⟨checked, hchecked, h⟩ := bind_ok h
  cases h
  intro j
  rw [← (validateScope_ok hchecked).1, secret_filter]
  by_cases hkey : j.scope = checked <;> simp [hkey]

theorem getSecret_eq (h : validateSecretKey scope name = .ok k) :
    getSecret f s scope name none = s.secret f k := by
  rw [getSecret, h]
  rfl

theorem mem_listSecretNames {names : List Text} (h : listSecretNames s scope = .ok names) :
    name ∈ names ↔ ⟨strip scope, name⟩ ∈ s.rows.keys := by
  obtain ⟨checked, hchecked, h⟩ := bind_ok h
  cases h
  rw [List.mem_insertionSort, List.mem_map, (validateScope_ok hchecked).1]
  constructor
  · rintro ⟨k, hk, rfl⟩
    rw [List.mem_filter, decide_eq_true_eq] at hk
    rw [← hk.2]
    exact hk.1
  · exact fun hmem => ⟨_, List.mem_filter.mpr ⟨hmem, by simp⟩, rfl⟩

end BorgManager.SecretStore
