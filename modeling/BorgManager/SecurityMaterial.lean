import BorgManager.Histories
import BorgManager.SecretStore
import Mathlib.Logic.Function.Basic

namespace BorgManager.SecurityMaterial

open Histories
open SecretStore (Text)

/-- What `set_secret` takes. -/
def IsSecret (t : Text) : Prop := t ≠ [] ∧ '\x00' ∉ t

abbrev Secret : Type := {t : Text // IsSecret t}

/-- The library of SSH keys and `openssl`. A number stands for the randomness
of a call; a call of `openssl` may fail. -/
structure Tools where
  keypair : Nat → Secret × Secret
  publicText : Secret → Option Secret
  publicText_keypair : ∀ n, publicText (keypair n).1 = some (keypair n).2
  certificate : Nat → Text → Option (Secret × Secret)

/-- The secrets in the scope of the system. -/
inductive SystemSecret
  | controllerPrivateKey
  | controllerPublicKey
  | controllerPrivateKeyArchive (stamp : Text)
  | controllerPublicKeyArchive (stamp : Text)
  | repositorySshHostPrivateKey
  | repositorySshHostPublicKey
  | tlsCertificate
  | tlsPrivateKey
  deriving DecidableEq

abbrev Secrets : Type := SystemSecret → Option Secret

structure Write where
  name : SystemSecret
  value : Secret

def Secrets.after (s : Secrets) (writes : List Write) : Secrets :=
  writes.foldl (fun s w => Function.update s w.name (some w.value)) s

def defaultComment : Text := "borgbackup-manager".toList

def safeComment (comment : Text) : Text :=
  let safe := (comment.filter (fun c => c.isAlphanum || "-_.@".toList.contains c)).take 80
  if safe.isEmpty then defaultComment else safe

theorem nul_notMem_safeComment (comment : Text) : '\x00' ∉ safeComment comment := by
  rw [safeComment]
  split
  · decide
  · intro h
    have hfilter := (List.mem_filter.mp (List.mem_of_mem_take h)).2
    revert hfilter
    decide

/-- The line of a public key. -/
def publicLine (text : Secret) (comment : Text) : Secret :=
  ⟨text.1 ++ ' ' :: safeComment comment, by simp, by
    rw [List.mem_append, List.mem_cons, not_or, not_or]
    exact ⟨text.2.2, by decide, nul_notMem_safeComment comment⟩⟩

variable (tools : Tools)

def generateKeypair (draw : Nat) (comment : Text) : Secret × Secret :=
  ((tools.keypair draw).1, publicLine (tools.keypair draw).2 comment)

/-- The writes of `_get_or_generate_ed25519`; a private key that is no Ed25519
key raises an error. -/
def getOrGenerate (s : Secrets) (draw : Nat) (privateName publicName : SystemSecret) (comment : Text) :
    Option (List Write) :=
  match s privateName, s publicName with
  | none, _ =>
      let pair := generateKeypair tools draw comment
      some [⟨privateName, pair.1⟩, ⟨publicName, pair.2⟩]
  | some privateKey, none => (tools.publicText privateKey).map (fun text => [⟨publicName, publicLine text comment⟩])
  | some _, some _ => some []

def tlsWrites (s : Secrets) (draw : Nat) (hosts : Text) : List Write :=
  match s .tlsCertificate, s .tlsPrivateKey with
  | some _, some _ => []
  | _, _ =>
      match tools.certificate draw hosts with
      | none => []
      | some (certificate, key) => [⟨.tlsCertificate, certificate⟩, ⟨.tlsPrivateKey, key⟩]

structure Draws where
  controller : Nat
  repository : Nat
  certificate : Nat

def controllerComment : Text := "borgbackup-manager-controller".toList

def repositoryComment : Text := "borgbackup-manager-repository-host".toList

/-- The writes of `bootstrap_security_material` in their order. -/
def bootstrapWrites (s : Secrets) (draws : Draws) (hosts : Text) : List Write :=
  match getOrGenerate tools s draws.controller .controllerPrivateKey .controllerPublicKey controllerComment with
  | none => []
  | some controller =>
      let s := s.after controller
      controller ++
        match getOrGenerate tools s draws.repository .repositorySshHostPrivateKey .repositorySshHostPublicKey
            repositoryComment with
        | none => []
        | some repository => repository ++ tlsWrites tools (s.after repository) draws.certificate hosts

/-- What a running `rotate_controller_key` keeps in its variables. -/
structure Rotation where
  stamp : Text
  previousPrivate : Option Secret
  previousPublic : Option Secret
  pair : Secret × Secret

inductive Stage
  | idle
  | readPublic (stamp : Text) (previousPrivate : Option Secret)
  | archivePrivate (r : Rotation)
  | archivePublic (r : Rotation)
  | setPrivate (r : Rotation)
  | setPublic (r : Rotation)

def Secrets.archive (s : Secrets) (name : SystemSecret) : Option Secret → Secrets
  | none => s
  | some value => s.after [⟨name, value⟩]

/-- The next read or write of a rotation; every write is a transaction of its
own. -/
def proceed (draw : Nat) (s : Secrets) : Stage → Stage × Secrets
  | .idle => (.idle, s)
  | .readPublic stamp previousPrivate =>
      (.archivePrivate ⟨stamp, previousPrivate, s .controllerPublicKey,
        generateKeypair tools draw (controllerComment ++ '-' :: stamp)⟩, s)
  | .archivePrivate r => (.archivePublic r, s.archive (.controllerPrivateKeyArchive r.stamp) r.previousPrivate)
  | .archivePublic r => (.setPrivate r, s.archive (.controllerPublicKeyArchive r.stamp) r.previousPublic)
  | .setPrivate r => (.setPublic r, s.after [⟨.controllerPrivateKey, r.pair.1⟩])
  | .setPublic r => (.idle, s.after [⟨.controllerPublicKey, r.pair.2⟩])

variable {Client : Type} [DecidableEq Client]

structure System (Client : Type) where
  secrets : Secrets
  stage : Client → Stage

def System.fresh : System Client := ⟨fun _ => none, fun _ => .idle⟩

inductive Event (Client : Type)
  | start (client : Client) (stamp : Text)
  | proceed (client : Client) (draw : Nat)
  | abandon (client : Client)
  | restart (draws : Draws) (hosts : Text) (count : Nat)

/-- Requests for a new key run side by side and may fail at any point. A
restart ends them all; of the writes of its bootstrap the first `count` get
done. -/
inductive Step : Transition (System Client) (Event Client)
  | start {s : System Client} {client} (stamp) (idle : s.stage client = .idle) :
      Step s (.start client stamp)
        { s with stage := Function.update s.stage client (.readPublic stamp (s.secrets .controllerPrivateKey)) }
  | proceed {s : System Client} (client draw) :
      Step s (.proceed client draw)
        ⟨(proceed tools draw s.secrets (s.stage client)).2,
          Function.update s.stage client (proceed tools draw s.secrets (s.stage client)).1⟩
  | abandon {s : System Client} (client) :
      Step s (.abandon client) { s with stage := Function.update s.stage client .idle }
  | restart {s : System Client} (draws hosts count) :
      Step s (.restart draws hosts count)
        ⟨s.secrets.after ((bootstrapWrites tools s.secrets draws hosts).take count), fun _ => .idle⟩

/-- The rotation that a request carries on. -/
def Stage.rotation? : Stage → Option Rotation
  | .idle | .readPublic .. => none
  | .archivePrivate r | .archivePublic r | .setPrivate r | .setPublic r => some r

/-- The secrets of the system that belong to the key of the controller. -/
def isController : SystemSecret → Bool
  | .controllerPrivateKey | .controllerPublicKey | .controllerPrivateKeyArchive _
  | .controllerPublicKeyArchive _ => true
  | _ => false

/-- The public key was made for the private key. -/
def Matched (privateKey publicKey : Secret) : Prop :=
  ∃ text comment, tools.publicText privateKey = some text ∧ publicKey = publicLine text comment

/-- Both come from one call of `openssl`. -/
def Issued (certificate key : Secret) : Prop := ∃ draw hosts, tools.certificate draw hosts = some (certificate, key)

/-- There is no public key without the private key it was made for. -/
def Paired (s : Secrets) (privateName publicName : SystemSecret) : Prop :=
  ∀ publicKey, s publicName = some publicKey → ∃ privateKey, s privateName = some privateKey ∧
    Matched tools privateKey publicKey

/-- There is no key without the certificate it was issued with. -/
def Certified (s : Secrets) : Prop :=
  ∀ key, s .tlsPrivateKey = some key → ∃ certificate, s .tlsCertificate = some certificate ∧
    Issued tools certificate key

/-- The library knows the private key that is stored. -/
def Readable (s : Secrets) (privateName : SystemSecret) : Prop :=
  ∀ privateKey, s privateName = some privateKey → ∃ text, tools.publicText privateKey = some text

section Writes

variable {tools} {s : Secrets} {privateName publicName : SystemSecret}

theorem matched_generate (draw : Nat) (comment : Text) :
    Matched tools (generateKeypair tools draw comment).1 (generateKeypair tools draw comment).2 :=
  ⟨(tools.keypair draw).2, comment, tools.publicText_keypair draw, rfl⟩

theorem after_append (first second : List Write) : s.after (first ++ second) = (s.after first).after second :=
  List.foldl_append

theorem after_self (name : SystemSecret) (value : Secret) : s.after [⟨name, value⟩] name = some value :=
  Function.update_self ..

theorem after_of_notMem {writes : List Write} {name : SystemSecret} (h : ∀ w ∈ writes, w.name ≠ name) :
    s.after writes name = s name := by
  induction writes generalizing s with
  | nil => rfl
  | cons w writes ih =>
      rw [Secrets.after, List.foldl_cons]
      have hrest := ih (s := Function.update s w.name (some w.value)) (fun v hv => h v (List.mem_cons_of_mem w hv))
      rw [Secrets.after] at hrest
      rw [hrest, Function.update_of_ne (h w (List.mem_cons_self ..)).symm]

/-- What holds however many of the first writes were done and, once they all
were, of the second, holds of both. -/
theorem take_append {I : Secrets → Prop} {first second : List Write} (hfirst : ∀ n, I (s.after (first.take n)))
    (hsecond : ∀ n, I ((s.after first).after (second.take n))) (n : Nat) : I (s.after ((first ++ second).take n)) := by
  rw [List.take_append, after_append]
  by_cases hn : n ≤ first.length
  · rw [Nat.sub_eq_zero_of_le hn, List.take_zero]
    exact hfirst n
  · rw [List.take_of_length_le (Nat.le_of_not_le hn)]
    exact hsecond _

theorem names_getOrGenerate {draw : Nat} {comment : Text} {writes : List Write}
    (h : getOrGenerate tools s draw privateName publicName comment = some writes) :
    ∀ w ∈ writes, w.name = privateName ∨ w.name = publicName := by
  rw [getOrGenerate] at h
  split at h
  · cases h
    simp
  · obtain ⟨text, -, rfl⟩ := Option.map_eq_some_iff.mp h
    simp
  · cases h
    simp

theorem names_tlsWrites (draw : Nat) (hosts : Text) :
    ∀ w ∈ tlsWrites tools s draw hosts, w.name = .tlsCertificate ∨ w.name = .tlsPrivateKey := by
  rw [tlsWrites]
  split
  · simp
  · split <;> simp

theorem paired_of_eq {t : Secrets} (h : Paired tools s privateName publicName)
    (hprivate : t privateName = s privateName) (hpublic : t publicName = s publicName) :
    Paired tools t privateName publicName := by
  rw [Paired, hprivate, hpublic]
  exact h

theorem certified_of_eq {t : Secrets} (h : Certified tools s) (hcertificate : t .tlsCertificate = s .tlsCertificate)
    (hkey : t .tlsPrivateKey = s .tlsPrivateKey) : Certified tools t := by
  rw [Certified, hcertificate, hkey]
  exact h

theorem paired_of_private (hne : privateName ≠ publicName) (hpublic : s publicName = none) (value : Secret) :
    Paired tools (s.after [⟨privateName, value⟩]) privateName publicName := by
  intro publicKey hkey
  rw [after_of_notMem (by simpa using hne), hpublic] at hkey
  cases hkey

theorem paired_of_public (hne : privateName ≠ publicName) {privateKey publicKey : Secret}
    (hprivate : s privateName = some privateKey) (hmatched : Matched tools privateKey publicKey) :
    Paired tools (s.after [⟨publicName, publicKey⟩]) privateName publicName := by
  intro key hkey
  rw [after_self] at hkey
  cases hkey
  exact ⟨privateKey, (after_of_notMem (by simpa using hne.symm)).trans hprivate, hmatched⟩

theorem take_pair (a b : Write) (n : Nat) : [a, b].take n = [] ∨ [a, b].take n = [a] ∨ [a, b].take n = [a, b] := by
  rcases n with _ | _ | n
  · exact .inl rfl
  · exact .inr (.inl rfl)
  · exact .inr (.inr (by simp))

theorem paired_getOrGenerate (hne : privateName ≠ publicName) (h : Paired tools s privateName publicName)
    {draw : Nat} {comment : Text} {writes : List Write}
    (hwrites : getOrGenerate tools s draw privateName publicName comment = some writes) (n : Nat) :
    Paired tools (s.after (writes.take n)) privateName publicName := by
  rw [getOrGenerate] at hwrites
  split at hwrites
  · next hprivate =>
      cases hwrites
      have hpublic : s publicName = none := by
        rw [Option.eq_none_iff_forall_not_mem]
        intro key hkey
        obtain ⟨other, hother, -⟩ := h key hkey
        rw [hprivate] at hother
        cases hother
      rcases take_pair ⟨privateName, (generateKeypair tools draw comment).1⟩
        ⟨publicName, (generateKeypair tools draw comment).2⟩ n
        with htake | htake | htake
      · rw [htake]
        exact h
      · rw [htake]
        exact paired_of_private hne hpublic _
      · rw [htake]
        exact paired_of_public (s := s.after [⟨privateName, (generateKeypair tools draw comment).1⟩]) hne
          (after_self ..)
          (matched_generate draw comment)
  · next privateKey hprivate hpublic =>
      obtain ⟨text, htext, rfl⟩ := Option.map_eq_some_iff.mp hwrites
      cases n with
      | zero => exact h
      | succ n =>
          rw [List.take_succ_cons, List.take_nil]
          exact paired_of_public hne hprivate ⟨text, comment, htext, rfl⟩
  · cases hwrites
    rw [List.take_nil]
    exact h

theorem certified_tlsWrites (h : Certified tools s) (draw : Nat) (hosts : Text) (n : Nat) :
    Certified tools (s.after ((tlsWrites tools s draw hosts).take n)) := by
  rw [tlsWrites]
  split
  · rw [List.take_nil]
    exact h
  · next hmissing =>
      have hkey : s .tlsPrivateKey = none := by
        rw [Option.eq_none_iff_forall_not_mem]
        intro key hkey
        obtain ⟨certificate, hcertificate, -⟩ := h key hkey
        exact hmissing certificate key hcertificate hkey
      split
      · rw [List.take_nil]
        exact h
      · next certificate key hissued =>
          rcases take_pair ⟨.tlsCertificate, certificate⟩ ⟨.tlsPrivateKey, key⟩ n with htake | htake | htake
          · rw [htake]
            exact h
          · rw [htake]
            intro other hother
            rw [after_of_notMem (by simp), hkey] at hother
            cases hother
          · rw [htake]
            intro other hother
            rw [Secrets.after, List.foldl_cons, List.foldl_cons, List.foldl_nil, Function.update_self] at hother
            cases hother
            refine ⟨certificate, ?_, draw, hosts, hissued⟩
            rw [Secrets.after, List.foldl_cons, List.foldl_cons, List.foldl_nil,
              Function.update_of_ne SystemSecret.noConfusion,
              Function.update_self]

end Writes

section Bootstrap

variable {tools} {s : Secrets}

variable (tools) in
/-- An invariant that each part of the bootstrap keeps, wherever it is cut off. -/
theorem bootstrap_keeps (I : Secrets → Prop) (hs : I s)
    (hcontroller : ∀ {s : Secrets} {draw writes}, I s →
      getOrGenerate tools s draw .controllerPrivateKey .controllerPublicKey controllerComment = some writes →
      ∀ n, I (s.after (writes.take n))) (hrepository : ∀ {s : Secrets} {draw writes}, I s →
      getOrGenerate tools s draw .repositorySshHostPrivateKey .repositorySshHostPublicKey repositoryComment =
        some writes →
        ∀ n, I (s.after (writes.take n)))
    (htls : ∀ {s : Secrets} {draw hosts}, I s → ∀ n, I (s.after ((tlsWrites tools s draw hosts).take n)))
    (draws : Draws) (hosts : Text) (n : Nat) : I (s.after ((bootstrapWrites tools s draws hosts).take n)) := by
  have hwhole : ∀ {s : Secrets} {writes : List Write}, (∀ n, I (s.after (writes.take n))) → I (s.after writes) := by
    intro s writes h
    have hall := h writes.length
    rwa [List.take_length] at hall
  rw [bootstrapWrites]
  split
  · rw [List.take_nil]
    exact hs
  · next controller hwrites =>
      refine take_append (hcontroller hs hwrites) ?_ n
      have hs' := hwhole (hcontroller hs hwrites)
      intro n
      split
      · rw [List.take_nil]
        exact hs'
      · next repository hwrites' =>
          exact take_append (hrepository hs' hwrites') (htls (hwhole (hrepository hs' hwrites'))) n

theorem after_take_of_notMem {writes : List Write} {name : SystemSecret} (h : ∀ w ∈ writes, w.name ≠ name) (n : Nat) :
    s.after (writes.take n) name = s name :=
  after_of_notMem fun w hw => h w (List.mem_of_mem_take hw)

theorem getOrGenerate_other {draw : Nat} {privateName publicName name : SystemSecret} {comment : Text}
    {writes : List Write} (h : getOrGenerate tools s draw privateName publicName comment = some writes)
    (hprivate : privateName ≠ name) (hpublic : publicName ≠ name) (n : Nat) :
    s.after (writes.take n) name = s name := by
  refine after_take_of_notMem (fun w hw => ?_) n
  rcases names_getOrGenerate h w hw with heq | heq
  · rw [heq]
    exact hprivate
  · rw [heq]
    exact hpublic

theorem tlsWrites_other {draw : Nat} {hosts : Text} {name : SystemSecret} (hcertificate : .tlsCertificate ≠ name)
    (hkey : .tlsPrivateKey ≠ name) (n : Nat) : s.after ((tlsWrites tools s draw hosts).take n) name = s name := by
  refine after_take_of_notMem (fun w hw => ?_) n
  rcases names_tlsWrites draw hosts w hw with heq | heq
  · rw [heq]
    exact hcertificate
  · rw [heq]
    exact hkey

theorem bootstrap_controller (h : Paired tools s .controllerPrivateKey .controllerPublicKey) (draws : Draws)
    (hosts : Text) (n : Nat) :
    Paired tools (s.after ((bootstrapWrites tools s draws hosts).take n)) .controllerPrivateKey .controllerPublicKey :=
  bootstrap_keeps tools _ h (fun h hwrites => paired_getOrGenerate (by decide) h hwrites)
    (fun h hwrites n => paired_of_eq h (getOrGenerate_other hwrites (by decide) (by decide) n)
      (getOrGenerate_other hwrites (by decide) (by decide) n))
    (fun h n => paired_of_eq h (tlsWrites_other (by decide) (by decide) n)
      (tlsWrites_other (by decide) (by decide) n)) draws hosts n

theorem bootstrap_repository (h : Paired tools s .repositorySshHostPrivateKey .repositorySshHostPublicKey)
    (draws : Draws) (hosts : Text) (n : Nat) :
    Paired tools (s.after ((bootstrapWrites tools s draws hosts).take n)) .repositorySshHostPrivateKey
      .repositorySshHostPublicKey :=
  bootstrap_keeps tools _ h
    (fun h hwrites n => paired_of_eq h (getOrGenerate_other hwrites (by decide) (by decide) n)
      (getOrGenerate_other hwrites (by decide) (by decide) n))
    (fun h hwrites => paired_getOrGenerate (by decide) h hwrites)
    (fun h n => paired_of_eq h (tlsWrites_other (by decide) (by decide) n)
      (tlsWrites_other (by decide) (by decide) n)) draws hosts n

theorem bootstrap_certified (h : Certified tools s) (draws : Draws) (hosts : Text) (n : Nat) :
    Certified tools (s.after ((bootstrapWrites tools s draws hosts).take n)) :=
  bootstrap_keeps tools _ h
    (fun h hwrites n => certified_of_eq h (getOrGenerate_other hwrites (by decide) (by decide) n)
      (getOrGenerate_other hwrites (by decide) (by decide) n))
    (fun h hwrites n => certified_of_eq h (getOrGenerate_other hwrites (by decide) (by decide) n)
      (getOrGenerate_other hwrites (by decide) (by decide) n))
    (fun h n => certified_tlsWrites h _ _ n) draws hosts n

variable {privateName publicName : SystemSecret}

theorem getOrGenerate_kept (hne : privateName ≠ publicName)
    (hprivate : ∃ privateKey, s privateName = some privateKey) {draw : Nat} {comment : Text}
    {writes : List Write} (hwrites : getOrGenerate tools s draw privateName publicName comment = some writes)
    (n : Nat) {name : SystemSecret} (hname : name = privateName ∨ name = publicName) {value : Secret}
    (hvalue : s name = some value) :
    s.after (writes.take n) name = some value := by
  obtain ⟨privateKey, hprivate⟩ := hprivate
  rw [getOrGenerate, hprivate] at hwrites
  cases hpublic : s publicName with
  | some publicKey =>
      rw [hpublic] at hwrites
      cases hwrites
      rw [List.take_nil]
      exact hvalue
  | none =>
      rw [hpublic] at hwrites
      obtain ⟨text, -, rfl⟩ := Option.map_eq_some_iff.mp hwrites
      rcases hname with rfl | rfl
      · rw [after_take_of_notMem (by simpa using hne.symm), hvalue]
      · rw [hpublic] at hvalue
        cases hvalue

theorem private_of_paired (h : Paired tools s privateName publicName) {name : SystemSecret}
    (hname : name = privateName ∨ name = publicName) {value : Secret} (hvalue : s name = some value) :
    ∃ privateKey, s privateName = some privateKey := by
  rcases hname with rfl | rfl
  · exact ⟨value, hvalue⟩
  · obtain ⟨privateKey, hkey, -⟩ := h value hvalue
    exact ⟨privateKey, hkey⟩

theorem tlsWrites_of_key (h : Certified tools s) {key : Secret} (hkey : s .tlsPrivateKey = some key)
    (draw : Nat) (hosts : Text) :
    tlsWrites tools s draw hosts = [] := by
  obtain ⟨certificate, hcertificate, -⟩ := h key hkey
  rw [tlsWrites, hcertificate, hkey]

/-- No later bootstrap replaces the host key of the repository server. -/
theorem bootstrap_repository_kept (h : Paired tools s .repositorySshHostPrivateKey .repositorySshHostPublicKey)
    {name : SystemSecret} (hname : name = .repositorySshHostPrivateKey ∨ name = .repositorySshHostPublicKey)
    {value : Secret} (hvalue : s name = some value) (draws : Draws) (hosts : Text) (n : Nat) :
    s.after ((bootstrapWrites tools s draws hosts).take n) name = some value := by
  have hcontroller : .controllerPrivateKey ≠ name ∧ .controllerPublicKey ≠ name := by
    rcases hname with rfl | rfl <;> decide
  have htls : .tlsCertificate ≠ name ∧ .tlsPrivateKey ≠ name := by rcases hname with rfl | rfl <;> decide
  refine (bootstrap_keeps tools
    (fun t => Paired tools t .repositorySshHostPrivateKey .repositorySshHostPublicKey ∧ t name = some value) ⟨h, hvalue⟩
    ?_ ?_ ?_ draws hosts n).2
  · intro t draw writes ht hwrites n
    have hother : ∀ {other : SystemSecret}, .controllerPrivateKey ≠ other → .controllerPublicKey ≠ other →
        t.after (writes.take n) other = t other := fun hprivate hpublic =>
          getOrGenerate_other hwrites hprivate hpublic n
    exact ⟨paired_of_eq ht.1 (hother (by decide) (by decide)) (hother (by decide) (by decide)),
      (hother hcontroller.1 hcontroller.2).trans ht.2⟩
  · intro t draw writes ht hwrites n
    exact ⟨paired_getOrGenerate (by decide) ht.1 hwrites n,
      getOrGenerate_kept (by decide) (private_of_paired ht.1 hname ht.2) hwrites n hname ht.2⟩
  · intro t draw hosts ht n
    have hother : ∀ {other : SystemSecret}, .tlsCertificate ≠ other → .tlsPrivateKey ≠ other →
        t.after ((tlsWrites tools t draw hosts).take n) other = t other := fun hcertificate hkey =>
          tlsWrites_other hcertificate hkey n
    exact ⟨paired_of_eq ht.1 (hother (by decide) (by decide)) (hother (by decide) (by decide)),
      (hother htls.1 htls.2).trans ht.2⟩

/-- A key that is there keeps the certificate, too. -/
theorem bootstrap_certificate_kept (h : Certified tools s) {key : Secret} (hkey : s .tlsPrivateKey = some key)
    {name : SystemSecret} (hname : name = .tlsPrivateKey ∨ name = .tlsCertificate) (draws : Draws)
    (hosts : Text) (n : Nat) :
    s.after ((bootstrapWrites tools s draws hosts).take n) name = s name := by
  have hother : ∀ other : SystemSecret, other = .controllerPrivateKey ∨ other = .controllerPublicKey ∨
      other = .repositorySshHostPrivateKey ∨ other = .repositorySshHostPublicKey → other ≠ .tlsPrivateKey ∧
        other ≠ .tlsCertificate ∧ other ≠ name := by
    rintro other (rfl | rfl | rfl | rfl) <;> rcases hname with rfl | rfl <;> decide
  refine (bootstrap_keeps tools (fun t => Certified tools t ∧ t .tlsPrivateKey = some key ∧ t name = s name)
    ⟨h, hkey, rfl⟩ ?_ ?_ ?_ draws hosts n).2.2
  · intro t draw writes ht hwrites n
    obtain ⟨hprivate, hprivate', hprivate''⟩ := hother .controllerPrivateKey (by simp)
    obtain ⟨hpublic, hpublic', hpublic''⟩ := hother .controllerPublicKey (by simp)
    have hkept := getOrGenerate_other hwrites hprivate hpublic n
    exact ⟨certified_of_eq ht.1 (getOrGenerate_other hwrites hprivate' hpublic' n) hkept, hkept.trans ht.2.1,
      (getOrGenerate_other hwrites hprivate'' hpublic'' n).trans ht.2.2⟩
  · intro t draw writes ht hwrites n
    obtain ⟨hprivate, hprivate', hprivate''⟩ := hother .repositorySshHostPrivateKey (by simp)
    obtain ⟨hpublic, hpublic', hpublic''⟩ := hother .repositorySshHostPublicKey (by simp)
    have hkept := getOrGenerate_other hwrites hprivate hpublic n
    exact ⟨certified_of_eq ht.1 (getOrGenerate_other hwrites hprivate' hpublic' n) hkept, hkept.trans ht.2.1,
      (getOrGenerate_other hwrites hprivate'' hpublic'' n).trans ht.2.2⟩
  · intro t draw hosts ht n
    rw [tlsWrites_of_key ht.1 ht.2.1, List.take_nil]
    exact ht

theorem readable_of_eq {t : Secrets} (h : Readable tools s privateName) (hprivate : t privateName = s privateName) :
    Readable tools t privateName := by
  rw [Readable, hprivate]
  exact h

theorem readable_generate (draw : Nat) (comment : Text) :
    ∃ text, tools.publicText (generateKeypair tools draw comment).1 = some text :=
  ⟨_, tools.publicText_keypair draw⟩

theorem readable_getOrGenerate (hne : privateName ≠ publicName) (h : Readable tools s privateName) {draw : Nat}
    {comment : Text} {writes : List Write}
    (hwrites : getOrGenerate tools s draw privateName publicName comment = some writes) (n : Nat) :
    Readable tools (s.after (writes.take n)) privateName := by
  rw [getOrGenerate] at hwrites
  split at hwrites
  · cases hwrites
    cases n with
    | zero => exact h
    | succ n =>
        intro privateKey hkey
        have hrest : ∀ w ∈ ([⟨publicName, (generateKeypair tools draw comment).2⟩] : List Write),
            w.name ≠ privateName := by
          simpa using hne.symm
        rw [List.take_succ_cons, Secrets.after, List.foldl_cons] at hkey
        have hlast := after_take_of_notMem
          (s := Function.update s privateName (some (generateKeypair tools draw comment).1)) hrest n
        rw [Secrets.after] at hlast
        rw [hlast, Function.update_self] at hkey
        cases hkey
        exact readable_generate draw comment
  · obtain ⟨text, -, rfl⟩ := Option.map_eq_some_iff.mp hwrites
    exact readable_of_eq h (after_take_of_notMem (by simpa using hne.symm) n)
  · cases hwrites
    rw [List.take_nil]
    exact h

variable (privateName publicName) in
/-- Where the private key can be read, both keys are there afterwards. -/
theorem getOrGenerate_present (hne : privateName ≠ publicName) (h : Readable tools s privateName) (draw : Nat)
    (comment : Text) :
    ∃ writes, getOrGenerate tools s draw privateName publicName comment = some writes ∧
      ((s.after writes) privateName).isSome ∧ ((s.after writes) publicName).isSome := by
  rw [getOrGenerate]
  cases hprivate : s privateName with
  | none =>
      refine ⟨_, rfl, ?_, ?_⟩
      · rw [Secrets.after, List.foldl_cons, List.foldl_cons, List.foldl_nil, Function.update_of_ne hne,
          Function.update_self]
        rfl
      · rw [Secrets.after, List.foldl_cons, List.foldl_cons, List.foldl_nil, Function.update_self]
        rfl
  | some privateKey =>
      cases hpublic : s publicName with
      | none =>
          obtain ⟨text, htext⟩ := h privateKey hprivate
          refine ⟨[⟨publicName, publicLine text comment⟩], by dsimp only; rw [htext]; rfl, ?_, ?_⟩
          · rw [Secrets.after, List.foldl_cons, List.foldl_nil, Function.update_of_ne hne, hprivate]
            rfl
          · rw [Secrets.after, List.foldl_cons, List.foldl_nil, Function.update_self]
            rfl
      | some publicKey =>
          refine ⟨[], rfl, ?_, ?_⟩
          · rw [Secrets.after, List.foldl_nil, hprivate]
            rfl
          · rw [Secrets.after, List.foldl_nil, hpublic]
            rfl

theorem tlsWrites_present {draw : Nat} {hosts : Text} (h : tools.certificate draw hosts ≠ none) :
    ((s.after (tlsWrites tools s draw hosts)) .tlsCertificate).isSome ∧
    ((s.after (tlsWrites tools s draw hosts)) .tlsPrivateKey).isSome := by
  rw [tlsWrites]
  split
  · next certificate key hcertificate hkey =>
      rw [Secrets.after, List.foldl_nil, hcertificate, hkey]
      exact ⟨rfl, rfl⟩
  · split
    · next hfailed => exact absurd hfailed h
    · rw [Secrets.after, List.foldl_cons, List.foldl_cons, List.foldl_nil, Function.update_self,
        Function.update_of_ne SystemSecret.noConfusion, Function.update_self]
      exact ⟨rfl, rfl⟩

end Bootstrap

section Samples

def sampleText (c : Char) (n : Nat) (hc : c ≠ '\x00') : Secret :=
  ⟨c :: List.replicate n 'x', List.cons_ne_nil _ _, by
    rw [List.mem_cons, not_or]
    refine ⟨hc.symm, fun h => ?_⟩
    have heq := List.eq_of_mem_replicate h
    revert heq
    decide⟩

/-- Tools whose n-th key is a letter and `n` times another. -/
def sampleTools : Tools where
  keypair n := (sampleText 'k' n (by decide), sampleText 'p' n (by decide))
  publicText key := some (sampleText 'p' key.1.tail.length (by decide))
  publicText_keypair n := by
    change some (sampleText 'p' (List.replicate n 'x').length (by decide)) = some (sampleText 'p' n (by decide))
    rw [List.length_replicate]
  certificate n _ := some (sampleText 'c' n (by decide), sampleText 'k' n (by decide))

def sampleStart : System Unit :=
  ⟨Secrets.after (fun _ => none) ((bootstrapWrites sampleTools (fun _ => none) ⟨0, 1, 2⟩ []).take 6), fun _ => .idle⟩

end Samples

section Runs

variable {tools} {s t : System Client} {es fs : List (Event Client)}

theorem archive_of_ne {s : Secrets} {name other : SystemSecret} (h : name ≠ other) (value : Option Secret) :
    s.archive name value other = s other := by
  cases value with
  | none => rfl
  | some value => exact after_of_notMem (by simpa using h)

theorem proceed_other {s : Secrets} {name : SystemSecret} (h : isController name = false) (draw : Nat) (stage : Stage) :
    (proceed tools draw s stage).2 name = s name := by
  have hne : ∀ {other : SystemSecret}, isController other = true → other ≠ name := by
    rintro other hother rfl
    rw [h] at hother
    cases hother
  cases stage with
  | idle => rfl
  | readPublic stamp previousPrivate => rfl
  | archivePrivate r => exact archive_of_ne (hne rfl) _
  | archivePublic r => exact archive_of_ne (hne rfl) _
  | setPrivate r => exact after_of_notMem (by simpa using hne rfl)
  | setPublic r => exact after_of_notMem (by simpa using hne rfl)

/-- The private key that the next step of a request stores. -/
def Stage.newPrivate? : Stage → Option Secret
  | .setPrivate r => some r.pair.1
  | _ => none

theorem proceed_private {s : Secrets} (draw : Nat) (stage : Stage) :
    (proceed tools draw s stage).2 .controllerPrivateKey = stage.newPrivate?.or (s .controllerPrivateKey) := by
  cases stage with
  | idle => rfl
  | readPublic stamp previousPrivate => rfl
  | archivePrivate r => exact archive_of_ne SystemSecret.noConfusion _
  | archivePublic r => exact archive_of_ne SystemSecret.noConfusion _
  | setPrivate r => exact after_self (s := s) .controllerPrivateKey r.pair.1
  | setPublic r => exact after_of_notMem (by simp)

theorem rotation_proceed {s : Secrets} {draw : Nat} {stage : Stage} {r : Rotation}
    (h : (proceed tools draw s stage).1.rotation? = some r) :
    stage.rotation? = some r ∨ ∃ comment, r.pair = generateKeypair tools draw comment := by
  cases stage with
  | idle => cases h
  | readPublic stamp previousPrivate =>
      cases h
      exact .inr ⟨_, rfl⟩
  | archivePrivate q => exact .inl h
  | archivePublic q => exact .inl h
  | setPrivate q => exact .inl h
  | setPublic q => cases h

theorem rotation_update {P : Rotation → Prop} {stage : Client → Stage} {client : Client} {next : Stage}
    (hstage : ∀ c r, (stage c).rotation? = some r → P r) (hnext : ∀ r, next.rotation? = some r → P r) :
    ∀ c r, (Function.update stage client next c).rotation? = some r → P r := by
  intro c r h
  by_cases hc : c = client
  · subst hc
    rw [Function.update_self] at h
    exact hnext r h
  · rw [Function.update_of_ne hc] at h
    exact hstage c r h

/-- What every run keeps, however its requests overlap and wherever it is cut
off. -/
structure Sound (tools : Tools) (s : System Client) : Prop where
  made : ∀ client r, (s.stage client).rotation? = some r → ∃ draw comment, r.pair = generateKeypair tools draw comment
  repository : Paired tools s.secrets .repositorySshHostPrivateKey .repositorySshHostPublicKey
  certified : Certified tools s.secrets
  controllerReadable : Readable tools s.secrets .controllerPrivateKey
  repositoryReadable : Readable tools s.secrets .repositorySshHostPrivateKey

omit [DecidableEq Client] in
theorem sound_fresh : Sound tools (System.fresh : System Client) where
  made := by
    intro client r h
    cases h
  repository := by
    intro key h
    cases h
  certified := by
    intro key h
    cases h
  controllerReadable := by
    intro key h
    cases h
  repositoryReadable := by
    intro key h
    cases h

theorem bootstrap_readable {s : Secrets} (hcontroller : Readable tools s .controllerPrivateKey)
    (hrepository : Readable tools s .repositorySshHostPrivateKey) (draws : Draws) (hosts : Text) (n : Nat) :
    Readable tools (s.after ((bootstrapWrites tools s draws hosts).take n)) .controllerPrivateKey ∧
      Readable tools (s.after ((bootstrapWrites tools s draws hosts).take n)) .repositorySshHostPrivateKey :=
  bootstrap_keeps tools
    (fun t => Readable tools t .controllerPrivateKey ∧ Readable tools t .repositorySshHostPrivateKey)
      ⟨hcontroller, hrepository⟩
    (fun h hwrites n => ⟨readable_getOrGenerate (by decide) h.1 hwrites n,
      readable_of_eq h.2 (getOrGenerate_other hwrites (by decide) (by decide) n)⟩)
    (fun h hwrites n => ⟨readable_of_eq h.1 (getOrGenerate_other hwrites (by decide) (by decide) n),
      readable_getOrGenerate (by decide) h.2 hwrites n⟩)
    (fun h n => ⟨readable_of_eq h.1 (tlsWrites_other (by decide) (by decide) n),
      readable_of_eq h.2 (tlsWrites_other (by decide) (by decide) n)⟩) draws hosts n

theorem Sound.step {e : Event Client} (h : Sound tools s) (hstep : Step tools s e t) : Sound tools t := by
  cases hstep with
  | start stamp idle => exact { h with made := rotation_update h.made (by simp [Stage.rotation?]) }
  | proceed client draw =>
      refine ⟨rotation_update h.made ?_, ?_, ?_, ?_, ?_⟩
      · intro r hr
        rcases rotation_proceed hr with hr | ⟨comment, hr⟩
        · exact h.made client r hr
        · exact ⟨draw, comment, hr⟩
      · exact paired_of_eq h.repository (proceed_other rfl draw _) (proceed_other rfl draw _)
      · exact certified_of_eq h.certified (proceed_other rfl draw _) (proceed_other rfl draw _)
      · intro key hkey
        change (proceed tools draw s.secrets (s.stage client)).2 .controllerPrivateKey = some key at hkey
        rw [proceed_private] at hkey
        cases hstage : s.stage client with
        | setPrivate r =>
            rw [hstage] at hkey
            cases hkey
            obtain ⟨draw', comment, hpair⟩ := h.made client r (by rw [hstage]; rfl)
            rw [hpair]
            exact readable_generate draw' comment
        | _ =>
            rw [hstage] at hkey
            exact h.controllerReadable key hkey
      · exact readable_of_eq h.repositoryReadable (proceed_other rfl draw _)
  | abandon client => exact { h with made := rotation_update h.made (by simp [Stage.rotation?]) }
  | restart draws hosts count =>
      have hreadable := bootstrap_readable h.controllerReadable h.repositoryReadable draws hosts count
      refine ⟨?_, bootstrap_repository h.repository draws hosts count,
        bootstrap_certified h.certified draws hosts count, hreadable.1,
        hreadable.2⟩
      intro other r hr
      cases hr

theorem Sound.run (h : Sound tools s) (hrun : History (Step tools) s es t) : Sound tools t :=
  hrun.invariant (Sound tools) h (fun _ _ _ hs hstep => hs.step hstep)

theorem repository_step {e : Event Client} (h : Sound tools s) (hstep : Step tools s e t) {name : SystemSecret}
    (hname : name = .repositorySshHostPrivateKey ∨ name = .repositorySshHostPublicKey) {value : Secret}
    (hvalue : s.secrets name = some value) : t.secrets name = some value := by
  cases hstep with
  | start stamp idle => exact hvalue
  | proceed client draw => exact (proceed_other (by rcases hname with rfl | rfl <;> rfl) draw _).trans hvalue
  | abandon client => exact hvalue
  | restart draws hosts count => exact bootstrap_repository_kept h.repository hname hvalue draws hosts count

theorem certificate_step {e : Event Client} (h : Sound tools s) (hstep : Step tools s e t) {key : Secret}
    (hkey : s.secrets .tlsPrivateKey = some key) {name : SystemSecret}
    (hname : name = .tlsPrivateKey ∨ name = .tlsCertificate) :
    t.secrets name = s.secrets name := by
  cases hstep with
  | start stamp idle => rfl
  | proceed client draw => exact proceed_other (by rcases hname with rfl | rfl <;> rfl) draw _
  | abandon client => rfl
  | restart draws hosts count => exact bootstrap_certificate_kept h.certified hkey hname draws hosts count

/-- Whatever requests and restarts there are and wherever they are cut off,
the host key of the repository server and the certificate fit together, and
what clients have seen of them stays. -/
theorem host_key_stays (hs : History (Step tools) (System.fresh : System Client) es s)
    (ht : History (Step tools) s fs t) :
    (∀ privateKey publicKey, s.secrets .repositorySshHostPrivateKey = some privateKey →
        s.secrets .repositorySshHostPublicKey = some publicKey → Matched tools privateKey publicKey) ∧
      (∀ certificate key, s.secrets .tlsCertificate = some certificate → s.secrets .tlsPrivateKey = some key →
        Issued tools certificate key ∧ t.secrets .tlsCertificate = some certificate ∧
        t.secrets .tlsPrivateKey = some key) ∧
      ∀ name value, name = .repositorySshHostPrivateKey ∨ name = .repositorySshHostPublicKey →
        s.secrets name = some value → t.secrets name = some value := by
  have hsound := sound_fresh.run hs
  refine ⟨?_, ?_, ?_⟩
  · intro privateKey publicKey hprivate hpublic
    obtain ⟨other, hother, hmatched⟩ := hsound.repository publicKey hpublic
    rw [hprivate] at hother
    cases hother
    exact hmatched
  · intro certificate key hcertificate hkey
    obtain ⟨other, hother, hissued⟩ := hsound.certified key hkey
    rw [hcertificate] at hother
    cases hother
    have hkept := ht.invariant (fun u => Sound tools u ∧ u.secrets .tlsPrivateKey = some key ∧
      u.secrets .tlsCertificate = some certificate)
      ⟨hsound, hkey, hcertificate⟩
        (fun _ _ _ hu hstep => ⟨hu.1.step hstep, (certificate_step hu.1 hstep hu.2.1 (.inl rfl)).trans hu.2.1,
        (certificate_step hu.1 hstep hu.2.1 (.inr rfl)).trans hu.2.2⟩)
    exact ⟨hissued, hkept.2.2, hkept.2.1⟩
  · intro name value hname hvalue
    exact (ht.invariant (fun u => Sound tools u ∧ u.secrets name = some value) ⟨hsound, hvalue⟩
      (fun _ _ _ hu hstep => ⟨hu.1.step hstep, repository_step hu.1 hstep hname hu.2⟩)).2

/-- A first bootstrap is cut off behind the private host key and a rotation
between its two writes; the bootstrap after them makes the rest. -/
def cutOffRuns : List (Event Unit) :=
  [.restart ⟨0, 1, 2⟩ [] 3, .start () [], .proceed () 3, .proceed () 0, .proceed () 0, .proceed () 0,
    .restart ⟨5, 6, 7⟩ [] 3]

theorem host_key_stays_rotated : ∃ s t : System Unit, History (Step sampleTools) System.fresh cutOffRuns s ∧
    Matched sampleTools (sampleText 'k' 1 (by decide)) (publicLine (sampleText 'p' 1 (by decide)) repositoryComment) ∧
      Issued sampleTools (sampleText 'c' 7 (by decide)) (sampleText 'k' 7 (by decide)) ∧
      t.secrets .tlsCertificate = some (sampleText 'c' 7 (by decide)) ∧
      t.secrets .repositorySshHostPublicKey = s.secrets .repositorySshHostPublicKey ∧
      s.secrets .controllerPrivateKey = some (sampleText 'k' 3 (by decide)) ∧
      t.secrets .controllerPrivateKey = some (sampleText 'k' 8 (by decide)) := by
  have hs : History (Step sampleTools) System.fresh cutOffRuns _ :=
    .cons (.restart ⟨0, 1, 2⟩ [] 3) (.cons (.start [] rfl) (.cons (.proceed () 3) (.cons (.proceed () 0)
      (.cons (.proceed () 0) (.cons (.proceed () 0) (.single (.restart ⟨5, 6, 7⟩ [] 3)))))))
  obtain ⟨hmatched, hcertificate, hkept⟩ := host_key_stays hs
    (.cons (show Step sampleTools _ (.start () ['1']) _ from .start ['1'] rfl) (.cons (.proceed () 8)
      (.cons (.proceed () 0) (.cons (.proceed () 0) (.cons (.proceed () 0) (.cons (.proceed () 0)
        (.single (.restart ⟨9, 10, 11⟩ [] 6))))))))
  obtain ⟨hissued, hcertificate', -⟩ := hcertificate _ _ rfl rfl
  exact ⟨_, _, hs, hmatched _ _ rfl rfl, hissued, hcertificate', hkept _ _ (.inr rfl) rfl, rfl, rfl⟩

/-- The names a bootstrap provides for. -/
def provided : List SystemSecret :=
  [.controllerPrivateKey, .controllerPublicKey, .repositorySshHostPrivateKey, .repositorySshHostPublicKey,
    .tlsCertificate, .tlsPrivateKey]

/-- After any run, a bootstrap that is not cut off leaves nothing missing. -/
theorem restart_completes (hs : History (Step tools) (System.fresh : System Client) es s) (draws : Draws) (hosts : Text)
    (hcertificate : tools.certificate draws.certificate hosts ≠ none) :
    ∀ name ∈ provided, ((s.secrets.after (bootstrapWrites tools s.secrets draws hosts)) name).isSome = true := by
  have hsound := sound_fresh.run hs
  obtain ⟨controller, hcontroller, hprivate, hpublic⟩ := getOrGenerate_present .controllerPrivateKey
    .controllerPublicKey (by decide) hsound.controllerReadable draws.controller controllerComment
  have hreadable : Readable tools (s.secrets.after controller) .repositorySshHostPrivateKey := by
    have hother : s.secrets.after (controller.take controller.length) .repositorySshHostPrivateKey =
        s.secrets .repositorySshHostPrivateKey :=
      getOrGenerate_other hcontroller (by decide) (by decide) controller.length
    rw [List.take_length] at hother
    exact readable_of_eq hsound.repositoryReadable hother
  obtain ⟨repository, hrepository, hhost, hhost'⟩ := getOrGenerate_present .repositorySshHostPrivateKey
    .repositorySshHostPublicKey (by decide) hreadable draws.repository repositoryComment
  have htls := tlsWrites_present (s := (s.secrets.after controller).after repository) hcertificate
  have hwrites : s.secrets.after (bootstrapWrites tools s.secrets draws hosts) =
    ((s.secrets.after controller).after repository).after
      (tlsWrites tools ((s.secrets.after controller).after repository) draws.certificate hosts) := by
    rw [bootstrapWrites, hcontroller]
    dsimp only
    rw [hrepository, after_append]
    dsimp only
    rw [after_append]
  have hlast : ∀ {name : SystemSecret}, .tlsCertificate ≠ name → .tlsPrivateKey ≠ name →
      s.secrets.after (bootstrapWrites tools s.secrets draws hosts) name =
        ((s.secrets.after controller).after repository) name := by
    intro name hne hne'
    have hother : ((s.secrets.after controller).after repository).after
        ((tlsWrites tools ((s.secrets.after controller).after repository) draws.certificate hosts).take
          (tlsWrites tools ((s.secrets.after controller).after repository) draws.certificate hosts).length) name =
        ((s.secrets.after controller).after repository) name := tlsWrites_other hne hne' _
    rw [List.take_length] at hother
    rw [hwrites, hother]
  have hmiddle : ∀ {name : SystemSecret}, .repositorySshHostPrivateKey ≠ name → .repositorySshHostPublicKey ≠ name →
      (s.secrets.after controller).after repository name = s.secrets.after controller name := by
    intro name hne hne'
    have hother := getOrGenerate_other hrepository hne hne' repository.length
    rwa [List.take_length] at hother
  intro name hname
  simp only [provided, List.mem_cons, List.not_mem_nil, or_false] at hname
  rcases hname with rfl | rfl | rfl | rfl | rfl | rfl
  · rw [hlast (by decide) (by decide), hmiddle (by decide) (by decide)]
    exact hprivate
  · rw [hlast (by decide) (by decide), hmiddle (by decide) (by decide)]
    exact hpublic
  · rw [hlast (by decide) (by decide)]
    exact hhost
  · rw [hlast (by decide) (by decide)]
    exact hhost'
  · rw [hwrites]
    exact htls.1
  · rw [hwrites]
    exact htls.2

/-- The bootstrap that comes after one that was cut off and after a rotation
that was. -/
theorem restart_completes_cut_off : ∃ s : System Unit,
    s.secrets .repositorySshHostPublicKey = none ∧ s.secrets .tlsCertificate = none ∧
      s.secrets .controllerPrivateKey = some (sampleText 'k' 3 (by decide)) ∧
      ∀ name ∈ provided, ((s.secrets.after (bootstrapWrites sampleTools s.secrets ⟨5, 6, 7⟩ [])) name).isSome =
        true := by
  have hs : History (Step sampleTools) (System.fresh : System Unit)
      [.restart ⟨0, 1, 2⟩ [] 3, .start () [], .proceed () 3, .proceed () 0, .proceed () 0, .proceed () 0,
        .abandon ()] _ :=
    .cons (.restart ⟨0, 1, 2⟩ [] 3) (.cons (.start [] rfl) (.cons (.proceed () 3) (.cons (.proceed () 0)
      (.cons (.proceed () 0) (.cons (.proceed () 0) (.single (.abandon ())))))))
  exact ⟨_, rfl, rfl, rfl, restart_completes hs ⟨5, 6, 7⟩ [] (by simp [sampleTools])⟩

/-- Between the two writes of a new pair no other request writes a private
key, and the request is not cut off. -/
def Undisturbed (s : System Client) : Event Client → Prop
  | .start .. => True
  | .proceed client _ => ∀ other r, s.stage other = .setPublic r → other = client ∨ (s.stage client).newPrivate? = none
  | .abandon client => ∀ r, s.stage client ≠ .setPublic r
  | .restart .. => ∀ client r, s.stage client ≠ .setPublic r

structure Swapping (tools : Tools) (s : System Client) : Prop where
  settled : (∀ client r, s.stage client ≠ .setPublic r) →
    Paired tools s.secrets .controllerPrivateKey .controllerPublicKey
  swapping : ∀ client r, s.stage client = .setPublic r → s.secrets .controllerPrivateKey = some r.pair.1
  alone : ∀ client other r q, s.stage client = .setPublic r → s.stage other = .setPublic q → client = other

theorem swapping_update (h : Swapping tools s) {client : Client} {next : Stage} {secrets : Secrets}
    (hbefore : ∀ r, s.stage client ≠ .setPublic r) (hafter : ∀ r, next ≠ .setPublic r)
    (hprivate : secrets .controllerPrivateKey = s.secrets .controllerPrivateKey)
    (hpublic : secrets .controllerPublicKey = s.secrets .controllerPublicKey) :
    Swapping tools (⟨secrets, Function.update s.stage client next⟩ : System Client) := by
  have hstage : ∀ {c r}, Function.update s.stage client next c = .setPublic r ↔ s.stage c = .setPublic r := by
    intro c r
    by_cases hc : c = client
    · subst hc
      rw [Function.update_self]
      exact ⟨fun h => absurd h (hafter r), fun h => absurd h (hbefore r)⟩
    · rw [Function.update_of_ne hc]
  refine ⟨?_, ?_, ?_⟩
  · intro hnone
    exact paired_of_eq (h.settled fun c r hc => hnone c r (hstage.mpr hc)) hprivate hpublic
  · intro c r hc
    exact hprivate.trans (h.swapping c r (hstage.mp hc))
  · intro c d r q hc hd
    exact h.alone c d r q (hstage.mp hc) (hstage.mp hd)

theorem swapping_step {e : Event Client} (hsound : Sound tools s) (h : Swapping tools s)
    (hstep : meeting (Step tools) Undisturbed s e t) : Swapping tools t := by
  obtain ⟨hstep, hcond⟩ := hstep
  cases hstep with
  | start stamp idle => exact swapping_update h (by simp [idle]) (by simp) rfl rfl
  | abandon client => exact swapping_update h hcond (by simp) rfl rfl
  | restart draws hosts count =>
      refine ⟨fun _ => bootstrap_controller (h.settled hcond) draws hosts count, ?_, ?_⟩
      · intro client r hclient
        cases hclient
      · intro client other r q hclient
        cases hclient
  | proceed client draw =>
      cases hstage : s.stage client with
      | idle => exact swapping_update h (by simp [hstage]) (by simp [proceed]) rfl rfl
      | readPublic stamp previousPrivate => exact swapping_update h (by simp [hstage]) (by simp [proceed]) rfl rfl
      | archivePrivate r =>
          exact swapping_update h (by simp [hstage]) (by simp [proceed]) (archive_of_ne SystemSecret.noConfusion _)
            (archive_of_ne SystemSecret.noConfusion _)
      | archivePublic r =>
          exact swapping_update h (by simp [hstage]) (by simp [proceed]) (archive_of_ne SystemSecret.noConfusion _)
            (archive_of_ne SystemSecret.noConfusion _)
      | setPrivate r =>
          have hnone : ∀ other q, s.stage other ≠ .setPublic q := by
            intro other q hother
            rcases hcond other q hother with rfl | hnew
            · rw [hstage] at hother
              cases hother
            · rw [hstage] at hnew
              cases hnew
          have honly : ∀ c q, Function.update s.stage client (.setPublic r) c = .setPublic q → c = client ∧ q = r := by
            intro c q hc
            by_cases hclient : c = client
            · subst hclient
              rw [Function.update_self] at hc
              cases hc
              exact ⟨rfl, rfl⟩
            · rw [Function.update_of_ne hclient] at hc
              exact absurd hc (hnone c q)
          refine ⟨?_, ?_, ?_⟩
          · intro hsettled
            exact absurd (Function.update_self ..) (hsettled client r)
          · intro c q hc
            obtain ⟨-, rfl⟩ := honly c q hc
            exact after_self (s := s.secrets) .controllerPrivateKey q.pair.1
          · intro c d q q' hc hd
            exact (honly c q hc).1.trans (honly d q' hd).1.symm
      | setPublic r =>
          have hnone : ∀ c q, Function.update s.stage client .idle c ≠ .setPublic q := by
            intro c q hc
            by_cases hclient : c = client
            · subst hclient
              rw [Function.update_self] at hc
              cases hc
            · rw [Function.update_of_ne hclient] at hc
              exact hclient (h.alone c client q r hc hstage)
          obtain ⟨draw', comment, hpair⟩ := hsound.made client r (by rw [hstage]; rfl)
          refine ⟨fun _ => ?_, fun c q hc => absurd hc (hnone c q), fun c d q q' hc => absurd hc (hnone c q)⟩
          exact paired_of_public (by decide) (h.swapping client r hstage)
            (by rw [hpair]; exact matched_generate draw' comment)

/-- While no new pair is cut off or overtaken between its two writes, the
public key that devices are given belongs to the private key that is used. -/
theorem controller_pair_matches (hs : History (meeting (Step tools) Undisturbed) (System.fresh : System Client) es s)
    (hsettled : ∀ client r, s.stage client ≠ .setPublic r) :
    ∀ publicKey, s.secrets .controllerPublicKey = some publicKey →
      ∃ privateKey, s.secrets .controllerPrivateKey = some privateKey ∧ Matched tools privateKey publicKey := by
  have hfresh : Swapping tools (System.fresh : System Client) := by
    refine ⟨?_, ?_, ?_⟩
    · intro _ key hkey
      cases hkey
    · intro client r hclient
      cases hclient
    · intro client other r q hclient
      cases hclient
  have hinv := hs.invariant (fun u => Sound tools u ∧ Swapping tools u) ⟨sound_fresh, hfresh⟩
    (fun _ _ _ hu hstep => ⟨hu.1.step hstep.1, swapping_step hu.1 hu.2 hstep⟩)
  exact hinv.2.settled hsettled

/-- One of two requests changes the pair while the other one has read the old
one; a restart ends the other. -/
theorem controller_pair_matches_rotated : ∃ s : System Bool,
    s.secrets .controllerPrivateKey = some (sampleText 'k' 3 (by decide)) ∧
      ∃ privateKey, s.secrets .controllerPrivateKey = some privateKey ∧ Matched sampleTools privateKey
        (publicLine (sampleText 'p' 3 (by decide)) (controllerComment ++ ['-'])) := by
  have hs : History (meeting (Step sampleTools) Undisturbed) (System.fresh : System Bool)
      [.restart ⟨0, 1, 2⟩ [] 6, .start false [], .proceed false 3, .start true ['1'], .proceed false 0,
        .proceed false 0, .proceed false 0, .proceed true 4, .proceed false 0, .restart ⟨5, 6, 7⟩ [] 6] _ :=
    .cons ⟨.restart ⟨0, 1, 2⟩ [] 6, fun _ _ h => by cases h⟩ (.cons ⟨.start [] rfl, trivial⟩
      (.cons ⟨.proceed false 3, fun _ _ _ => .inr rfl⟩ (.cons ⟨.start ['1'] rfl, trivial⟩
        (.cons ⟨.proceed false 0, fun _ _ _ => .inr rfl⟩ (.cons ⟨.proceed false 0, fun _ _ _ => .inr rfl⟩
          (.cons ⟨.proceed false 0, fun other _ h => by cases other <;> cases h⟩
            (.cons ⟨.proceed true 4, fun _ _ _ => .inr rfl⟩
              (.cons ⟨.proceed false 0, fun _ _ _ => .inr rfl⟩
                (.single ⟨.restart ⟨5, 6, 7⟩ [] 6, fun client _ h => by cases client <;> cases h⟩)))))))))
  exact ⟨_, rfl, controller_pair_matches hs (fun _ _ h => by cases h) _ rfl⟩

/-- Once there, the pair of the controller stays as it is over restarts. -/
theorem bootstrap_controller_kept {s : Secrets} {privateKey publicKey : Secret}
    (hprivate : s .controllerPrivateKey = some privateKey) (hpublic : s .controllerPublicKey = some publicKey)
    (draws : Draws) (hosts : Text) (n : Nat) :
    s.after ((bootstrapWrites tools s draws hosts).take n) .controllerPrivateKey = some privateKey ∧
      s.after ((bootstrapWrites tools s draws hosts).take n) .controllerPublicKey = some publicKey := by
  refine bootstrap_keeps tools
    (fun t => t .controllerPrivateKey = some privateKey ∧ t .controllerPublicKey = some publicKey)
      ⟨hprivate, hpublic⟩ ?_ ?_ ?_
    draws hosts n
  · intro t draw writes ht hwrites n
    exact ⟨getOrGenerate_kept (by decide) ⟨_, ht.1⟩ hwrites n (.inl rfl) ht.1,
      getOrGenerate_kept (by decide) ⟨_, ht.1⟩ hwrites n (.inr rfl) ht.2⟩
  · intro t draw writes ht hwrites n
    exact ⟨(getOrGenerate_other hwrites (by decide) (by decide) n).trans ht.1,
      (getOrGenerate_other hwrites (by decide) (by decide) n).trans ht.2⟩
  · intro t draw hosts ht n
    exact ⟨(tlsWrites_other (by decide) (by decide) n).trans ht.1,
      (tlsWrites_other (by decide) (by decide) n).trans ht.2⟩

def IsRestart : Event Client → Prop
  | .restart .. => True
  | _ => False

/-- A request cut off between its two writes leaves a pair that does not fit
together, and no number of restarts mends it. -/
theorem cut_off_rotation_stays :
    ∃ (es : List (Event Unit)) (s : System Unit), History (Step sampleTools) System.fresh es s ∧
    ∀ fs t, (∀ e ∈ fs, IsRestart e) → History (Step sampleTools) s fs t →
      ¬ Paired sampleTools t.secrets .controllerPrivateKey .controllerPublicKey := by
  refine ⟨[.restart ⟨0, 1, 2⟩ [] 6, .start () [], .proceed () 3, .proceed () 0, .proceed () 0, .proceed () 0,
    .abandon ()], _,
    .cons (.restart ⟨0, 1, 2⟩ [] 6)
      (.cons (.start [] rfl) (.cons (.proceed () 3) (.cons (.proceed () 0) (.cons (.proceed () 0)
      (.cons (.proceed () 0) (.single (.abandon ()))))))), ?_⟩
  intro fs t hfs ht
  have hkept := ht.invariant_of_mem (fun u => u.secrets .controllerPrivateKey = some (sampleText 'k' 3 (by decide)) ∧
    u.secrets .controllerPublicKey = some (publicLine (sampleText 'p' 0 (by decide)) controllerComment)) ⟨rfl, rfl⟩ ?_
  · intro hpaired
    obtain ⟨privateKey, hprivate, text, comment, htext, hline⟩ := hpaired _ hkept.2
    rw [hkept.1] at hprivate
    cases hprivate
    cases htext
    have hsecond := congrArg (fun line : Secret => line.1[1]?) hline
    revert hsecond
    simp [publicLine, sampleText]
  · intro a e b he ha hstep
    cases hstep with
    | restart draws hosts count => exact bootstrap_controller_kept ha.1 ha.2 draws hosts count
    | _ => exact (hfs _ he).elim

/-- Requests come one at a time, each in a second of its own. -/
def OneByOne (s : System Client) : Event Client → Prop
  | .start _ stamp => (∀ other, s.stage other = .idle) ∧ s.secrets (.controllerPrivateKeyArchive stamp) = none
  | _ => True

/-- The key is the one in use or one in the archive. -/
def Holds (s : Secrets) (key : Secret) : Prop :=
  s .controllerPrivateKey = some key ∨ ∃ stamp, s (.controllerPrivateKeyArchive stamp) = some key

/-- What a stage owes to the archive. -/
def Stage.Saved (s : Secrets) : Stage → Prop
  | .idle | .setPublic _ => True
  | .readPublic stamp previousPrivate =>
      previousPrivate = s .controllerPrivateKey ∧ s (.controllerPrivateKeyArchive stamp) = none
  | .archivePrivate r => r.previousPrivate = s .controllerPrivateKey ∧ s (.controllerPrivateKeyArchive r.stamp) = none
  | .archivePublic r | .setPrivate r =>
      ∀ key, s .controllerPrivateKey = some key → s (.controllerPrivateKeyArchive r.stamp) = some key

structure Serial (s : System Client) : Prop where
  saved : ∀ client, (s.stage client).Saved s.secrets
  alone : ∀ client other, s.stage client ≠ .idle → s.stage other ≠ .idle → client = other

theorem holds_of_eq {s t : Secrets} {key : Secret} (h : Holds s key)
    (hprivate : t .controllerPrivateKey = s .controllerPrivateKey) (harchive : ∀ stamp value,
      s (.controllerPrivateKeyArchive stamp) = some value → t (.controllerPrivateKeyArchive stamp) = some value) :
    Holds t key := by
  rcases h with h | ⟨stamp, h⟩
  · exact .inl (hprivate.trans h)
  · exact .inr ⟨stamp, harchive stamp key h⟩

theorem bootstrap_holds {s : Secrets} {key : Secret} (h : Holds s key) (draws : Draws) (hosts : Text) (n : Nat) :
    Holds (s.after ((bootstrapWrites tools s draws hosts).take n)) key := by
  rcases h with h | ⟨stamp, h⟩
  · refine .inl (bootstrap_keeps tools (fun t => t .controllerPrivateKey = some key) h ?_ ?_ ?_ draws hosts n)
    · intro t draw writes ht hwrites n
      exact getOrGenerate_kept (by decide) ⟨key, ht⟩ hwrites n (.inl rfl) ht
    · intro t draw writes ht hwrites n
      exact (getOrGenerate_other hwrites (by decide) (by decide) n).trans ht
    · intro t draw hosts ht n
      exact (tlsWrites_other (by decide) (by decide) n).trans ht
  · refine .inr ⟨stamp, bootstrap_keeps tools (fun t => t (.controllerPrivateKeyArchive stamp) = some key) h ?_ ?_ ?_
      draws hosts n⟩
    · intro t draw writes ht hwrites n
      exact (getOrGenerate_other hwrites SystemSecret.noConfusion SystemSecret.noConfusion n).trans ht
    · intro t draw writes ht hwrites n
      exact (getOrGenerate_other hwrites SystemSecret.noConfusion SystemSecret.noConfusion n).trans ht
    · intro t draw hosts ht n
      exact (tlsWrites_other SystemSecret.noConfusion SystemSecret.noConfusion n).trans ht

variable (tools) in
/-- The next step of a stage that owes nothing loses no key. -/
theorem proceed_saved {s : Secrets} {stage : Stage} (h : stage.Saved s) (draw : Nat) :
    (proceed tools draw s stage).1.Saved (proceed tools draw s stage).2 ∧
      ∀ key, Holds s key → Holds (proceed tools draw s stage).2 key := by
  cases stage with
  | idle => exact ⟨trivial, fun _ hkey => hkey⟩
  | readPublic stamp previousPrivate => exact ⟨h, fun _ hkey => hkey⟩
  | archivePrivate r =>
      obtain ⟨hprevious, hfree⟩ := h
      have hprivate : (s.archive (.controllerPrivateKeyArchive r.stamp) r.previousPrivate)
          .controllerPrivateKey = s .controllerPrivateKey :=
        archive_of_ne SystemSecret.noConfusion _
      refine ⟨?_, fun key hkey => holds_of_eq hkey hprivate ?_⟩
      · intro key hkey
        rw [proceed] at hkey ⊢
        dsimp only at hkey ⊢
        rw [hprivate] at hkey
        rw [hprevious, hkey]
        exact after_self ..
      · intro stamp value hvalue
        have hne : SystemSecret.controllerPrivateKeyArchive r.stamp ≠ .controllerPrivateKeyArchive stamp := by
          intro heq
          rw [← heq, hfree] at hvalue
          cases hvalue
        exact (archive_of_ne hne _).trans hvalue
  | archivePublic r =>
      have hkept : ∀ {name : SystemSecret}, (∀ stamp, name ≠ .controllerPublicKeyArchive stamp) →
          (proceed tools draw s (.archivePublic r)).2 name = s name :=
        fun hne => archive_of_ne (hne r.stamp).symm _
      refine ⟨?_, fun key hkey =>
        holds_of_eq hkey (hkept (by simp)) (fun stamp value hvalue => (hkept (by simp)).trans hvalue)⟩
      intro key hkey
      rw [hkept (by simp)] at hkey ⊢
      exact h key hkey
  | setPrivate r =>
      have hkept : ∀ stamp, (proceed tools draw s (.setPrivate r)).2 (.controllerPrivateKeyArchive stamp) =
          s (.controllerPrivateKeyArchive stamp) := fun stamp => after_of_notMem (by simp)
      refine ⟨trivial, fun key hkey => ?_⟩
      rcases hkey with hkey | ⟨stamp, hkey⟩
      · exact .inr ⟨r.stamp, (hkept r.stamp).trans (h key hkey)⟩
      · exact .inr ⟨stamp, (hkept stamp).trans hkey⟩
  | setPublic r =>
      have hkept : ∀ {name : SystemSecret}, name ≠ .controllerPublicKey →
          (proceed tools draw s (.setPublic r)).2 name = s name :=
        fun hne => after_of_notMem (by simpa using hne.symm)
      exact ⟨trivial, fun key hkey =>
        holds_of_eq hkey (hkept (by simp)) (fun stamp value hvalue => (hkept (by simp)).trans hvalue)⟩

theorem saved_update {secrets : Secrets} {stage : Client → Stage} {client : Client} {next : Stage}
    (hnext : next.Saved secrets) (hothers : ∀ other, other ≠ client → (stage other).Saved secrets) :
    ∀ other, (Function.update stage client next other).Saved secrets := by
  intro other
  by_cases hother : other = client
  · subst hother
    rw [Function.update_self]
    exact hnext
  · rw [Function.update_of_ne hother]
    exact hothers other hother

theorem serial_update {client : Client} {next : Stage} {secrets : Secrets} (hnext : next.Saved secrets)
    (hothers : ∀ other, other ≠ client → s.stage other = .idle) :
    Serial (⟨secrets, Function.update s.stage client next⟩ : System Client) where
  saved := saved_update hnext fun other hother => by
    rw [hothers other hother]
    trivial
  alone := by
    have honly : ∀ other, Function.update s.stage client next other ≠ .idle → other = client := by
      intro other hother
      by_contra hne
      rw [Function.update_of_ne hne] at hother
      exact hother (hothers other hne)
    exact fun c d hc hd => (honly c hc).trans (honly d hd).symm

theorem serial_step {e : Event Client} (h : Serial s) (hstep : meeting (Step tools) OneByOne s e t) :
    Serial t ∧ ∀ key, Holds s.secrets key → Holds t.secrets key := by
  obtain ⟨hstep, hcond⟩ := hstep
  cases hstep with
  | start stamp idle => exact ⟨serial_update ⟨rfl, hcond.2⟩ (fun other _ => hcond.1 other), fun _ hkey => hkey⟩
  | abandon client =>
      refine ⟨⟨saved_update trivial fun other _ => h.saved other, fun c d hc hd => ?_⟩, fun _ hkey => hkey⟩
      have hbusy : ∀ {c}, Function.update s.stage client .idle c ≠ .idle → s.stage c ≠ .idle := by
        intro c hc hidle
        by_cases hother : c = client
        · rw [hother, Function.update_self] at hc
          exact hc rfl
        · rw [Function.update_of_ne hother] at hc
          exact hc hidle
      exact h.alone c d (hbusy hc) (hbusy hd)
  | restart draws hosts count =>
      refine ⟨⟨fun _ => trivial, fun c d hc => absurd rfl hc⟩, fun key hkey => bootstrap_holds hkey draws hosts count⟩
  | proceed client draw =>
      obtain ⟨hnext, hkept⟩ := proceed_saved tools (h.saved client) draw
      by_cases hidle : s.stage client = .idle
      · have hsame : proceed tools draw s.secrets (s.stage client) = (.idle, s.secrets) := by
          rw [hidle]
          rfl
        rw [hsame]
        rw [← hidle, Function.update_eq_self]
        exact ⟨h, fun _ hkey => hkey⟩
      · refine ⟨serial_update hnext fun other hother => ?_, hkept⟩
        by_contra hbusy
        exact hother (h.alone other client hbusy hidle)

/-- No key that was ever in use is lost, wherever requests are cut off. -/
theorem controller_keys_kept (hs : History (meeting (Step tools) OneByOne) (System.fresh : System Client) es s)
    (ht : History (meeting (Step tools) OneByOne) s fs t) {key : Secret} (hkey : Holds s.secrets key) :
    Holds t.secrets key := by
  have hfresh : Serial (System.fresh : System Client) := ⟨fun _ => trivial, fun c d hc => absurd rfl hc⟩
  have hserial := hs.invariant Serial hfresh (fun _ _ _ hu hstep => (serial_step hu hstep).1)
  exact (ht.invariant (fun u => Serial u ∧ Holds u.secrets key) ⟨hserial, hkey⟩
    (fun _ _ _ hu hstep => ⟨(serial_step hu.1 hstep).1, (serial_step hu.1 hstep).2 key hu.2⟩)).2

theorem controller_keys_kept_sample : ∃ t : System Unit, Holds t.secrets (sampleText 'k' 0 (by decide)) ∧
    t.secrets .controllerPrivateKey = some (sampleText 'k' 3 (by decide)) := by
  have hs : History (meeting (Step sampleTools) OneByOne) System.fresh [.restart ⟨0, 1, 2⟩ [] 6] sampleStart :=
    .single ⟨.restart ⟨0, 1, 2⟩ [] 6, trivial⟩
  have ht : History (meeting (Step sampleTools) OneByOne) sampleStart
      [.start () [], .proceed () 3, .proceed () 0, .proceed () 0, .proceed () 0] _ :=
    .cons ⟨.start [] rfl, fun _ => rfl, rfl⟩ (.cons ⟨.proceed () 3, trivial⟩ (.cons ⟨.proceed () 0, trivial⟩
      (.cons ⟨.proceed () 0, trivial⟩ (.single ⟨.proceed () 0, trivial⟩))))
  exact ⟨_, controller_keys_kept hs ht (.inl rfl), rfl⟩

end Runs

end BorgManager.SecurityMaterial
