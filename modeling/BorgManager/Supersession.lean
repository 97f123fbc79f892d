import Mathlib.Data.List.Count
import Mathlib.Order.MinMax

namespace BorgManager.Supersession

variable {α κ τ : Type} [DecidableEq κ] (key : α → Option κ) (stamp : α → Option τ)

/-- The stamps of the records that carry a key. -/
def stampsOf (items : List α) (k : κ) : List τ :=
  items.filterMap (fun item => if key item = some k then stamp item else none)

theorem mem_stampsOf {items : List α} {k : κ} {t : τ} :
    t ∈ stampsOf key stamp items k ↔ ∃ item ∈ items, key item = some k ∧ stamp item = some t := by
  simp only [stampsOf, List.mem_filterMap, Option.ite_none_right_eq_some]

variable [LinearOrder τ]

/-- A record is outdated when a single record has the newest stamp of its key
and it is another one. -/
def outdated (items : List α) (item : α) : Bool :=
  match key item, stamp item with
  | some k, some t =>
      let stamps := stampsOf key stamp items k
      match stamps.max? with
      | some newest => decide (2 ≤ stamps.length) && stamps.count newest == 1 && decide (t ≠ newest)
      | none => false
  | _, _ => false

theorem outdated_keyless {items : List α} {item : α} (h : key item = none) :
    outdated key stamp items item = false := by
  simp only [outdated, h]

theorem outdated_map {β : Type} (f : β → α) (items : List β) (item : β) :
    outdated key stamp (items.map f) (f item) = outdated (fun x => key (f x)) (fun x => stamp (f x)) items item := by
  simp only [outdated, stampsOf, List.filterMap_map, Function.comp_def]

/-- A record is outdated exactly when one record alone is newest under its key
and newer than this one. -/
theorem outdated_iff {items : List α} {item : α} (hitem : item ∈ items) :
    outdated key stamp items item = true ↔
      ∃ k t newest, key item = some k ∧ stamp item = some t ∧ newest ∈ stampsOf key stamp items k ∧
        (∀ s ∈ stampsOf key stamp items k, s ≤ newest) ∧ (stampsOf key stamp items k).count newest = 1 ∧
        t < newest := by
  constructor
  · intro h
    simp only [outdated] at h
    split at h
    · next k t hk ht =>
        split at h
        · next newest hmax =>
            obtain ⟨hmem, hle⟩ := List.max?_eq_some_iff.mp hmax
            simp only [Bool.and_eq_true, decide_eq_true_eq, beq_iff_eq] at h
            have hown := (mem_stampsOf key stamp).mpr ⟨item, hitem, hk, ht⟩
            exact ⟨k, t, newest, hk, ht, hmem, hle, h.1.2, lt_of_le_of_ne (hle t hown) h.2⟩
        · cases h
    · cases h
  · rintro ⟨k, t, newest, hk, ht, hmem, hle, hcount, hlt⟩
    have hmax : (stampsOf key stamp items k).max? = some newest := List.max?_eq_some_iff.mpr ⟨hmem, hle⟩
    have hown := (mem_stampsOf key stamp).mpr ⟨item, hitem, hk, ht⟩
    have hlength : 2 ≤ (stampsOf key stamp items k).length := by
      by_contra hshort
      obtain ⟨s, hs⟩ := List.length_eq_one_iff.mp
        (Nat.le_antisymm (Nat.le_of_lt_succ (Nat.lt_of_not_le hshort)) (List.length_pos_of_mem hmem))
      rw [hs, List.mem_singleton] at hmem hown
      exact hlt.ne (hown.trans hmem.symm)
    simp only [outdated, hk, ht, hmax, hcount, hlength, hlt.ne, ne_eq, not_false_eq_true, decide_true, beq_self_eq_true,
      Bool.and_self]

end BorgManager.Supersession
