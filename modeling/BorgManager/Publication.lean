import BorgManager.Histories
import Mathlib.Logic.Function.Basic

namespace BorgManager.Publication

open Histories

variable {Client Content : Type} [DecidableEq Client]

/-- What a client of the board still has to do. `due since` owes a publication
for the source as it was in version `since`; `holding` has read the source. -/
inductive Stage (Content : Type)
  | idle
  | due (since : Nat)
  | holding (content : Content) (version : Nat)
  | failed

/-- A published copy of a source that changes version by version, and clients
that read the source first and publish what they have read later. -/
structure Board (Client Content : Type) where
  source : Content
  version : Nat
  published : Content
  publishedVersion : Nat
  stage : Client → Stage Content

inductive BoardEvent (Client Content : Type)
  | change (client : Client) (content : Content)
  | call (client : Client)
  | abandon (client : Client)
  | read (client : Client)
  | publish (client : Client)
  | fail (client : Client)

/-- A client that has changed the source goes on to publish it. It may give up
only when the source has been changed by another client since. -/
inductive Step : Transition (Board Client Content) (BoardEvent Client Content)
  | change {b : Board Client Content} {client} (content) (free : ∀ c v, b.stage client ≠ .holding c v)
      (working : b.stage client ≠ .failed) :
      Step b (.change client content)
        { b with
          source := content, version := b.version + 1
          stage := Function.update b.stage client (.due (b.version + 1)) }
  | call {b : Board Client Content} {client} (idle : b.stage client = .idle) :
      Step b (.call client) { b with stage := Function.update b.stage client (.due 0) }
  | abandon {b : Board Client Content} {client since} (due : b.stage client = .due since)
      (overtaken : since < b.version) :
      Step b (.abandon client) { b with stage := Function.update b.stage client .idle }
  | read {b : Board Client Content} {client since} (due : b.stage client = .due since) :
      Step b (.read client) { b with stage := Function.update b.stage client (.holding b.source b.version) }
  | publish {b : Board Client Content} {client content version} (holding : b.stage client = .holding content version) :
      Step b (.publish client)
        { b with
          published := content, publishedVersion := max b.publishedVersion version
          stage := Function.update b.stage client .idle }
  | fail {b : Board Client Content} {client} (busy : b.stage client ≠ .idle) :
      Step b (.fail client) { b with stage := Function.update b.stage client .failed }

/-- A publication comes in time if nothing read later has been published
before it, or if it publishes the same again. -/
def Timely (b : Board Client Content) : BoardEvent Client Content → Prop
  | .publish client => ∀ content version, b.stage client = .holding content version →
      b.publishedVersion ≤ version ∨ content = b.published
  | _ => True

def Quiet (b : Board Client Content) : Prop := ∀ client, b.stage client = .idle

/-- The client still owes the publication of the newest version. -/
def Owes (b : Board Client Content) (client : Client) : Prop :=
  b.stage client = .due b.version ∨ b.stage client = .holding b.source b.version ∨ b.stage client = .failed

/-- Whatever is as new as the source agrees with it, and an older publication
has a client that will replace it. -/
structure Current (b : Board Client Content) : Prop where
  notNewer : b.publishedVersion ≤ b.version
  published : b.publishedVersion = b.version → b.published = b.source
  heldNotNewer : ∀ client content version, b.stage client = .holding content version → version ≤ b.version
  held : ∀ client content, b.stage client = .holding content b.version → content = b.source
  owed : b.publishedVersion < b.version → ∃ client, Owes b client

variable {b b' : Board Client Content}

theorem holding_of_update {client c : Client} {st : Stage Content} (hst : ∀ x v, st ≠ .holding x v)
    {content : Content} {version : Nat} (h : Function.update b.stage client st c = .holding content version) :
    b.stage c = .holding content version := by
  by_cases hc : c = client
  · rw [hc, Function.update_self] at h
    exact absurd h (hst content version)
  · rwa [Function.update_of_ne hc] at h

/-- A client that owes nothing for the newest version is not the one that
will publish it. -/
theorem owed_of_update {client : Client} (st : Stage Content) (h : Current b) (hnot : ¬ Owes b client)
    (hlt : b.publishedVersion < b.version) :
    ∃ c, Owes { b with stage := Function.update b.stage client st } c := by
  obtain ⟨c, hc⟩ := h.owed hlt
  have hne : c ≠ client := by
    rintro rfl
    exact hnot hc
  refine ⟨c, ?_⟩
  simpa only [Owes, Function.update_of_ne hne] using hc

theorem Current.change {client : Client} (h : Current b) (content : Content) :
    Current { b with
      source := content, version := b.version + 1
      stage := Function.update b.stage client (.due (b.version + 1)) } where
  notNewer := Nat.le_succ_of_le h.notNewer
  published := by
    intro he
    have := h.notNewer
    simp only at he
    omega
  heldNotNewer := by
    intro c x v hc
    exact Nat.le_succ_of_le (h.heldNotNewer c x v (holding_of_update (by simp) hc))
  held := by
    intro c x hc
    have := h.heldNotNewer c x _ (holding_of_update (by simp) hc)
    simp only at this
    omega
  owed := fun _ => ⟨client, .inl (by simp)⟩

/-- A client that neither holds nor owes anything may move freely. -/
theorem Current.move {client : Client} {st : Stage Content} (h : Current b)
    (hst : ∀ x v, st = .holding x v → x = b.source ∧ v = b.version)
    (howed : b.publishedVersion < b.version → ∃ c, Owes { b with stage := Function.update b.stage client st } c) :
    Current { b with stage := Function.update b.stage client st } where
  notNewer := h.notNewer
  published := h.published
  heldNotNewer := by
    intro c x v hc
    by_cases hcl : c = client
    · simp only [hcl, Function.update_self] at hc
      exact Nat.le_of_eq (hst x v hc).2
    · simp only [Function.update_of_ne hcl] at hc
      exact h.heldNotNewer c x v hc
  held := by
    intro c x hc
    by_cases hcl : c = client
    · simp only [hcl, Function.update_self] at hc
      exact (hst x _ hc).1
    · simp only [Function.update_of_ne hcl] at hc
      exact h.held c x hc
  owed := howed

theorem Current.call {client : Client} (h : Current b) (hidle : b.stage client = .idle) :
    Current { b with stage := Function.update b.stage client (.due 0) } := by
  refine h.move (fun _ _ => nofun) (owed_of_update _ h ?_)
  simp [Owes, hidle]

theorem Current.abandon {client : Client} {since : Nat} (h : Current b) (hdue : b.stage client = .due since)
    (hlt : since < b.version) : Current { b with stage := Function.update b.stage client .idle } := by
  refine h.move (fun _ _ => nofun) (owed_of_update _ h ?_)
  simp [Owes, hdue, Nat.ne_of_lt hlt]

theorem Current.read {client : Client} (h : Current b) :
    Current { b with stage := Function.update b.stage client (.holding b.source b.version) } := by
  refine h.move ?_ (fun _ => ⟨client, .inr (.inl (by simp))⟩)
  intro x v he
  cases he
  exact ⟨rfl, rfl⟩

theorem Current.fail {client : Client} (h : Current b) :
    Current { b with stage := Function.update b.stage client .failed } :=
  h.move (fun _ _ => nofun) (fun _ => ⟨client, .inr (.inr (by simp))⟩)

theorem Current.publish {client : Client} {content : Content} {version : Nat} (h : Current b)
    (hhold : b.stage client = .holding content version)
    (htimely : b.publishedVersion ≤ version ∨ content = b.published) :
    Current { b with
      published := content, publishedVersion := max b.publishedVersion version
      stage := Function.update b.stage client .idle } where
  notNewer := Nat.max_le.mpr ⟨h.notNewer, h.heldNotNewer client content version hhold⟩
  published := by
    intro he
    simp only at he
    by_cases hv : version = b.version
    · exact h.held client content (hv ▸ hhold)
    · have := h.heldNotNewer client content version hhold
      have hp : b.publishedVersion = b.version := by omega
      rcases htimely with hle | rfl
      · omega
      · exact h.published hp
  heldNotNewer := fun c x v hc => h.heldNotNewer c x v (holding_of_update (by simp) hc)
  held := fun c x hc => h.held c x (holding_of_update (by simp) hc)
  owed := by
    intro hlt
    simp only at hlt
    have hnot : ¬ Owes b client := by
      simp only [Owes, hhold, reduceCtorEq, Stage.holding.injEq, false_or, or_false, not_and]
      omega
    obtain ⟨c, hc⟩ := owed_of_update .idle h hnot (by omega)
    exact ⟨c, hc⟩

/-- Each step keeps the board current if its publications come in time. -/
theorem Current.step {e : BoardEvent Client Content} (h : Current b) (hs : Step b e b') (ht : Timely b e) :
    Current b' := by
  cases hs with
  | change content _ _ => exact h.change content
  | call idle => exact h.call idle
  | abandon due overtaken => exact h.abandon due overtaken
  | read _ => exact h.read
  | publish holding => exact h.publish holding (ht _ _ holding)
  | fail _ => exact h.fail

theorem Current.history {es : List (BoardEvent Client Content)} (h : Current b)
    (hs : History (meeting Step Timely) b es b') : Current b' :=
  hs.invariant Current h (fun _ _ _ ha hm => ha.step hm.1 hm.2)

omit [DecidableEq Client] in
theorem Current.quiet (h : Current b) (hq : Quiet b) : b.published = b.source := by
  apply h.published
  rcases Nat.lt_or_eq_of_le h.notNewer with hlt | heq
  · obtain ⟨c, hc⟩ := h.owed hlt
    simp [Owes, hq c] at hc
  · exact heq

/-- The last publication before a quiet board is right exactly if it comes in
time. -/
theorem Current.last_iff {client : Client} (h : Current b) (hs : Step b (.publish client) b') (hq : Quiet b') :
    b'.published = b'.source ↔ Timely b (.publish client) := by
  constructor
  · intro heq content version hhold
    cases hs with
    | publish holding =>
        rw [holding] at hhold
        cases hhold
        by_cases hle : b.publishedVersion ≤ version
        · exact .inl hle
        · right
          have hothers : ¬ b.publishedVersion < b.version := by
            intro hlt
            obtain ⟨c, hc⟩ := h.owed hlt
            by_cases hcl : c = client
            · rw [hcl] at hc
              simp only [Owes, holding, reduceCtorEq, Stage.holding.injEq, false_or, or_false] at hc
              omega
            · have := hq c
              simp only [Function.update_of_ne hcl] at this
              simp [Owes, this] at hc
          have hp := h.published (Nat.le_antisymm h.notNewer (by omega))
          exact heq.trans hp.symm
  · intro ht
    exact (h.step hs ht).quiet hq

end BorgManager.Publication
