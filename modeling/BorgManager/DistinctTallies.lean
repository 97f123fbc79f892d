import Mathlib.Algebra.BigOperators.Group.List.Lemmas
import Mathlib.Algebra.Order.Ring.Nat
import Mathlib.Data.Finset.Card
import Mathlib.Data.List.Perm.Basic
import Mathlib.Logic.Function.Basic

namespace BorgManager.DistinctTallies

variable {κ τ : Type} [DecidableEq κ] [DecidableEq τ]

/-- The distinct keys so far, their number, their numbers by sort, and the first of
them up to a limit. -/
structure Tally (κ τ : Type) where
  seen : List κ
  total : Nat
  counts : τ → Nat
  items : List κ

section Operations

variable (sort : κ → τ) (limit : Nat)

def Tally.add (t : Tally κ τ) (key : κ) : Tally κ τ :=
  if key ∈ t.seen then t
  else {
    seen := t.seen ++ [key]
    total := t.total + 1
    counts := Function.update t.counts (sort key) (t.counts (sort key) + 1)
    items := if t.items.length < limit then t.items ++ [key] else t.items }

def Tally.addAll (t : Tally κ τ) (keys : List κ) : Tally κ τ := keys.foldl (Tally.add sort limit) t

end Operations

def Tally.empty : Tally κ τ := ⟨[], 0, fun _ => 0, []⟩

/-- The tally is of these keys. -/
structure Tallies (sort : κ → τ) (limit : Nat) (keys : List κ) (t : Tally κ τ) : Prop where
  nodup : t.seen.Nodup
  mem : ∀ key, key ∈ t.seen ↔ key ∈ keys
  total : t.total = t.seen.length
  counts : ∀ s, t.counts s = t.seen.countP (fun key => sort key = s)
  items : t.items = t.seen.take limit

variable {sort : κ → τ} {limit : Nat} {keys : List κ} {t : Tally κ τ}

omit [DecidableEq κ] in
theorem tallies_empty : Tallies sort limit [] (Tally.empty : Tally κ τ) where
  nodup := List.nodup_nil
  mem := fun _ => Iff.rfl
  total := rfl
  counts := fun _ => rfl
  items := List.take_nil.symm

theorem Tallies.add (h : Tallies sort limit keys t) (key : κ) :
    Tallies sort limit (keys ++ [key]) (t.add sort limit key) := by
  unfold Tally.add
  split
  · next hold =>
      refine ⟨h.nodup, ?_, h.total, h.counts, h.items⟩
      intro k
      rw [List.mem_append, List.mem_singleton, ← h.mem]
      exact ⟨Or.inl, fun hk => hk.elim id (fun heq => heq ▸ hold)⟩
  · next hnew =>
      refine ⟨?_, ?_, ?_, ?_, ?_⟩
      · exact List.nodup_append.mpr ⟨h.nodup, List.nodup_singleton _, by
          intro a ha b hb heq
          rw [List.mem_singleton.mp hb] at heq
          exact hnew (heq ▸ ha)⟩
      · intro k
        rw [List.mem_append, List.mem_append, h.mem]
      · rw [List.length_append, List.length_singleton, h.total]
      · intro s
        rw [List.countP_append, List.countP_singleton, ← h.counts]
        dsimp only
        by_cases hs : sort key = s
        · rw [← hs, Function.update_self]
          simp
        · rw [Function.update_of_ne (Ne.symm hs)]
          simp [hs]
      · rw [h.items, List.length_take]
        split
        · next hshort =>
            have hle : t.seen.length < limit := by omega
            rw [List.take_of_length_le (Nat.le_of_lt hle), List.take_of_length_le]
            rw [List.length_append, List.length_singleton]
            exact hle
        · next hfull => rw [List.take_append_of_le_length (by omega)]

theorem Tallies.addAll (h : Tallies sort limit keys t) (more : List κ) :
    Tallies sort limit (keys ++ more) (t.addAll sort limit more) := by
  induction more generalizing keys t with
  | nil => rwa [List.append_nil]
  | cons key more ih =>
      have hrest := ih (h.add key)
      rwa [List.append_assoc, List.singleton_append] at hrest

omit [DecidableEq κ] in
theorem Tallies.congr (h : Tallies sort limit keys t) {more : List κ} (hsame : ∀ key, key ∈ keys ↔ key ∈ more) :
    Tallies sort limit more t :=
  ⟨h.nodup, fun key => (h.mem key).trans (hsame key), h.total, h.counts, h.items⟩

theorem Tallies.toFinset (h : Tallies sort limit keys t) : t.seen.toFinset = keys.toFinset := by
  ext key
  rw [List.mem_toFinset, List.mem_toFinset, h.mem]

theorem Tallies.total_card (h : Tallies sort limit keys t) : t.total = keys.toFinset.card := by
  rw [h.total, ← h.toFinset, List.toFinset_card_of_nodup h.nodup]

theorem Tallies.counts_card (h : Tallies sort limit keys t) (s : τ) :
    t.counts s = (keys.toFinset.filter (fun key => sort key = s)).card := by
  have hsame : (t.seen.filter (fun key => sort key = s)).toFinset = keys.toFinset.filter (fun key => sort key = s) := by
    ext key
    simp [h.mem]
  rw [h.counts, List.countP_eq_length_filter, ← hsame, List.toFinset_card_of_nodup (h.nodup.filter _)]

omit [DecidableEq κ] in
/-- Every key has one of the sorts, so their numbers add up. -/
theorem Tallies.sum_counts (h : Tallies sort limit keys t) {sorts : List τ} (hnodup : sorts.Nodup)
    (hall : ∀ s, s ∈ sorts) :
    (sorts.map t.counts).sum = t.total := by
  have hone (x : τ) : (sorts.map (fun s => if decide (x = s) = true then 1 else 0)).sum = 1 := by
    refine Eq.trans ?_ (List.count_eq_one_of_mem hnodup (hall x))
    clear hnodup hall
    induction sorts with
    | nil => rfl
    | cons s sorts ih =>
        rw [List.map_cons, List.sum_cons, ih, List.count_cons, Nat.add_comm]
        simp only [decide_eq_true_eq, beq_iff_eq, @eq_comm _ s x]
  have hcount (l : List κ) : (sorts.map (fun s => l.countP (fun key => sort key = s))).sum = l.length := by
    induction l with
    | nil => simp
    | cons key l ih =>
        simp only [List.countP_cons, List.sum_map_add, ih, List.length_cons]
        rw [hone]
  rw [h.total, ← hcount t.seen, List.map_congr_left (fun s _ => h.counts s)]

omit [DecidableEq κ] in
theorem Tallies.length_items (h : Tallies sort limit keys t) : t.items.length = min t.total limit := by
  rw [h.items, h.total, List.length_take, Nat.min_comm]

theorem Tallies.items_keys (h : Tallies sort limit keys t) : t.items.Nodup ∧ ∀ key ∈ t.items, key ∈ keys.toFinset := by
  rw [h.items]
  constructor
  · exact h.nodup.sublist (List.take_sublist _ _)
  · intro key hkey
    exact List.mem_toFinset.mpr ((h.mem key).mp (List.mem_of_mem_take hkey))

end BorgManager.DistinctTallies
