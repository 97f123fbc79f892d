import Mathlib.Data.List.Nodup
import Mathlib.Data.List.Perm.Basic
import Mathlib.Logic.Relation
import Mathlib.Algebra.Order.Ring.Nat

namespace BorgManager.Worklists

open Relation

/-- What a search has met, and what of it still has to be opened. -/
structure Search (α : Type) where
  seen : List α
  pending : List α

section Operations

variable {α : Type} [DecidableEq α] (opens : α → Bool) (next : α → List α)

def visit (s : Search α) (x : α) : Search α :=
  if x ∈ s.seen then s
  else if opens x then ⟨x :: s.seen, x :: s.pending⟩
  else ⟨x :: s.seen, s.pending⟩

def visitAll (s : Search α) (xs : List α) : Search α := xs.foldl (visit opens) s

def drain : Nat → Search α → Option (Search α)
  | 0, s => if s.pending = [] then some s else none
  | n + 1, s =>
      match s.pending with
      | [] => some s
      | x :: rest => drain n (visitAll opens ⟨s.seen, rest⟩ (next x))

/-- Only what is opened leads on. -/
def Edge (x y : α) : Prop := opens x = true ∧ y ∈ next x

end Operations

def Search.weight {α : Type} (weight : α → Nat) (s : Search α) : Nat := (s.pending.map weight).sum

section Visits

variable {α : Type} [DecidableEq α] {opens : α → Bool} {s : Search α}

theorem mem_seen_visit {x y : α} : y ∈ (visit opens s x).seen ↔ y ∈ s.seen ∨ y = x := by
  unfold visit
  split
  · next hx => exact ⟨Or.inl, fun h => h.elim id (fun h => h ▸ hx)⟩
  · split <;> simp [or_comm]

theorem mem_pending_visit {x y : α} :
    y ∈ (visit opens s x).pending ↔ y ∈ s.pending ∨ (y = x ∧ x ∉ s.seen ∧ opens x = true) := by
  unfold visit
  split
  · next hx => simp [hx]
  · next hx =>
      split
      · next hopens => simp [hx, hopens, or_comm]
      · next hopens => simp [hopens]

theorem nodup_visit {x : α} (h : s.seen.Nodup) : (visit opens s x).seen.Nodup := by
  unfold visit
  split
  · exact h
  · next hx => split <;> exact List.nodup_cons.mpr ⟨hx, h⟩

theorem mem_seen_visitAll {xs : List α} {y : α} : y ∈ (visitAll opens s xs).seen ↔ y ∈ s.seen ∨ y ∈ xs := by
  induction xs generalizing s with
  | nil => simp [visitAll]
  | cons x xs ih =>
      rw [visitAll, List.foldl_cons, ← visitAll, ih, mem_seen_visit, List.mem_cons, or_assoc]

/-- What a row of visits leaves to be opened is old, or new and opened. -/
theorem mem_pending_visitAll {xs : List α} {y : α} (h : y ∈ (visitAll opens s xs).pending) :
    y ∈ s.pending ∨ (y ∈ xs ∧ opens y = true) := by
  induction xs generalizing s with
  | nil => exact Or.inl h
  | cons x xs ih =>
      rw [visitAll, List.foldl_cons, ← visitAll] at h
      rcases ih h with hy | ⟨hy, hopens⟩
      · rcases mem_pending_visit.mp hy with hy | ⟨rfl, -, hopens⟩
        · exact Or.inl hy
        · exact Or.inr ⟨List.mem_cons_self .., hopens⟩
      · exact Or.inr ⟨List.mem_cons_of_mem _ hy, hopens⟩

theorem pending_visitAll_of_mem {xs : List α} {y : α} (h : y ∈ s.pending) : y ∈ (visitAll opens s xs).pending := by
  induction xs generalizing s with
  | nil => exact h
  | cons x xs ih => exact ih (mem_pending_visit.mpr (Or.inl h))

theorem pending_visitAll_of_new {xs : List α} {y : α} (hy : y ∈ xs) (hnew : y ∉ s.seen) (hopens : opens y = true) :
    y ∈ (visitAll opens s xs).pending := by
  induction xs generalizing s with
  | nil => cases hy
  | cons x xs ih =>
      by_cases hx : y = x
      · subst hx
        rw [visitAll, List.foldl_cons, ← visitAll]
        exact pending_visitAll_of_mem (mem_pending_visit.mpr (Or.inr ⟨rfl, hnew, hopens⟩))
      · apply ih ((List.mem_cons.mp hy).resolve_left hx)
        rw [mem_seen_visit]
        exact not_or.mpr ⟨hnew, hx⟩

theorem nodup_visitAll {xs : List α} (h : s.seen.Nodup) : (visitAll opens s xs).seen.Nodup := by
  induction xs generalizing s with
  | nil => exact h
  | cons x xs ih => exact ih (nodup_visit h)

theorem weight_visitAll (weight : α → Nat) (xs : List α) :
    Search.weight weight (visitAll opens s xs) ≤ Search.weight weight s + ((xs.filter opens).map weight).sum := by
  induction xs generalizing s with
  | nil => exact Nat.le_refl _
  | cons x xs ih =>
      have hvisit : Search.weight weight (visit opens s x) ≤ Search.weight weight s +
          ((([x].filter opens)).map weight).sum := by
        unfold visit
        split
        · exact Nat.le_add_right _ _
        · split
          · next hopens => simp [Search.weight, hopens, Nat.add_comm]
          · exact Nat.le_add_right _ _
      rw [List.filter_singleton] at hvisit
      have hrest := @ih (visit opens s x)
      rw [visitAll, List.foldl_cons, ← visitAll, List.filter_cons]
      split
      · next hopens =>
          rw [hopens] at hvisit
          simp only [List.map_cons, List.map_nil, List.sum_cons, List.sum_nil, cond_true] at hvisit ⊢
          omega
      · next hopens =>
          rw [Bool.not_eq_true] at hopens
          rw [hopens] at hvisit
          simp only [List.map_nil, List.sum_nil, cond_false] at hvisit ⊢
          omega

end Visits

/-- A search from some starts: it has met nothing twice and nothing out of
reach, and what it has opened has been followed. -/
structure Searching {α : Type} (opens : α → Bool) (next : α → List α) (start : α → Prop) (s : Search α) : Prop where
  nodup : s.seen.Nodup
  reached : ∀ x ∈ s.seen, ∃ r, start r ∧ ReflTransGen (Edge opens next) r x
  pending : ∀ x ∈ s.pending, x ∈ s.seen ∧ opens x = true
  followed : ∀ x ∈ s.seen, opens x = true → x ∈ s.pending ∨ ∀ y ∈ next x, y ∈ s.seen

namespace Searching

variable {α : Type} {opens : α → Bool} {next : α → List α} {start : α → Prop} {s : Search α}

theorem init : Searching opens next start ⟨[], []⟩ where
  nodup := List.nodup_nil
  reached := by rintro x ⟨⟩
  pending := by rintro x ⟨⟩
  followed := by rintro x ⟨⟩

/-- A search that is over and has met its starts has met all that is in reach, and nothing else. -/
theorem mem_seen_iff (h : Searching opens next start s) (hnil : s.pending = [])
    (hstart : ∀ r, start r → r ∈ s.seen) {x : α} :
    x ∈ s.seen ↔ ∃ r, start r ∧ ReflTransGen (Edge opens next) r x := by
  refine ⟨h.reached x, ?_⟩
  rintro ⟨r, hr, hreach⟩
  induction hreach with
  | refl => exact hstart r hr
  | tail _ hedge ih =>
      refine ((h.followed _ ih hedge.1).resolve_left ?_) _ hedge.2
      rw [hnil]
      exact List.not_mem_nil

/-- What two searches from the same starts have met is the same up to its order. -/
theorem seen_perm {start' : α → Prop} {t : Search α} (hs : Searching opens next start s) (hsnil : s.pending = [])
    (hsstart : ∀ r, start r → r ∈ s.seen) (ht : Searching opens next start' t) (htnil : t.pending = [])
    (htstart : ∀ r, start' r → r ∈ t.seen) (hsame : ∀ r, start r ↔ start' r) : s.seen.Perm t.seen := by
  rw [List.perm_ext_iff_of_nodup hs.nodup ht.nodup]
  intro x
  rw [hs.mem_seen_iff hsnil hsstart, ht.mem_seen_iff htnil htstart]
  exact exists_congr (fun r => and_congr_left' (hsame r))

variable [DecidableEq α]

/-- Visiting what is in reach. -/
theorem visitAll (h : Searching opens next start s) {xs : List α}
    (hxs : ∀ x ∈ xs, ∃ r, start r ∧ ReflTransGen (Edge opens next) r x) :
    Searching opens next start (visitAll opens s xs) where
  nodup := nodup_visitAll h.nodup
  reached := by
    intro x hx
    exact (mem_seen_visitAll.mp hx).elim (h.reached x) (hxs x)
  pending := by
    intro x hx
    rw [mem_seen_visitAll]
    rcases mem_pending_visitAll hx with hx | ⟨hx, hopens⟩
    · exact (h.pending x hx).imp_left Or.inl
    · exact ⟨Or.inr hx, hopens⟩
  followed := by
    intro x hx hopens
    by_cases hold : x ∈ s.seen
    · rcases h.followed x hold hopens with hpending | hnext
      · exact Or.inl (pending_visitAll_of_mem hpending)
      · exact Or.inr (fun y hy => mem_seen_visitAll.mpr (Or.inl (hnext y hy)))
    · exact Or.inl (pending_visitAll_of_new ((mem_seen_visitAll.mp hx).resolve_left hold) hold hopens)

theorem visit (h : Searching opens next start s) {x : α} (hx : ∃ r, start r ∧ ReflTransGen (Edge opens next) r x) :
    Searching opens next start (Worklists.visit opens s x) := by
  have hvisits := @visitAll _ _ _ _ _ _ h [x] (List.forall_mem_singleton.mpr hx)
  exact hvisits

/-- Opening what is pending. -/
theorem expand {x : α} {rest : List α} (h : Searching opens next start s) (hpending : s.pending = x :: rest) :
    Searching opens next start (Worklists.visitAll opens ⟨s.seen, rest⟩ (next x)) where
  nodup := nodup_visitAll h.nodup
  reached := by
    intro y hy
    rcases mem_seen_visitAll.mp hy with hy | hy
    · exact h.reached y hy
    · obtain ⟨hseen, hopens⟩ := h.pending x (hpending ▸ List.mem_cons_self ..)
      obtain ⟨r, hr, hreach⟩ := h.reached x hseen
      exact ⟨r, hr, hreach.tail ⟨hopens, hy⟩⟩
  pending := by
    intro y hy
    rw [mem_seen_visitAll]
    rcases mem_pending_visitAll hy with hy | ⟨hy, hopens⟩
    · exact (h.pending y (hpending ▸ List.mem_cons_of_mem _ hy)).imp_left Or.inl
    · exact ⟨Or.inr hy, hopens⟩
  followed := by
    intro y hy hopens
    by_cases hold : y ∈ s.seen
    · rcases h.followed y hold hopens with hy | hnext
      · rw [hpending] at hy
        rcases List.mem_cons.mp hy with rfl | hy
        · exact Or.inr (fun z hz => mem_seen_visitAll.mpr (Or.inr hz))
        · exact Or.inl (pending_visitAll_of_mem hy)
      · exact Or.inr (fun z hz => mem_seen_visitAll.mpr (Or.inl (hnext z hz)))
    · exact Or.inl (pending_visitAll_of_new ((mem_seen_visitAll.mp hy).resolve_left hold) hold hopens)

/-- A search whose pending work has a finite weight comes to its end. -/
theorem drain {weight : α → Nat} (hweight : ∀ x, (((next x).filter opens).map weight).sum < weight x)
    (h : Searching opens next start s) {n : Nat} (hn : Search.weight weight s ≤ n) :
    ∃ t, Worklists.drain opens next n s = some t ∧ Searching opens next start t ∧ t.pending = [] ∧ ∀ x ∈ s.seen,
      x ∈ t.seen := by
  induction n generalizing s with
  | zero =>
      have hnil : s.pending = [] := by
        cases hpending : s.pending with
        | nil => rfl
        | cons x rest =>
            rw [Search.weight, hpending, List.map_cons, List.sum_cons] at hn
            have hx := hweight x
            omega
      exact ⟨s, by rw [Worklists.drain, if_pos hnil], h, hnil, fun _ hx => hx⟩
  | succ n ih =>
      rw [Worklists.drain]
      cases hpending : s.pending with
      | nil => exact ⟨s, rfl, h, hpending, fun _ hx => hx⟩
      | cons x rest =>
          have hx := hweight x
          have hvisits := @weight_visitAll _ _ opens ⟨s.seen, rest⟩ weight (next x)
          rw [Search.weight, hpending, List.map_cons, List.sum_cons] at hn
          obtain ⟨t, ht, hsearching, hnil, hseen⟩ := ih (h.expand hpending) (by
            rw [show Search.weight weight ⟨s.seen, rest⟩ = (rest.map weight).sum from rfl] at hvisits
            omega)
          exact ⟨t, ht, hsearching, hnil, fun y hy => hseen y (mem_seen_visitAll.mpr (Or.inl hy))⟩

end Searching

end BorgManager.Worklists
