import Mathlib.Data.List.MinMax
import Mathlib.Data.List.Sort

namespace BorgManager.Rankings

variable {α : Type} (rank : α → Nat)

/-- An element of highest rank stands before every element of the same rank. -/
theorem first_of_argmax {xs ys : List α} {a m : α} (h : (xs ++ a :: ys).argmax rank = some m) (heq : rank a = rank m) :
    m = a ∨ m ∈ xs := by
  induction xs generalizing m with
  | nil =>
      left
      rw [List.nil_append, List.argmax_cons] at h
      cases hys : ys.argmax rank with
      | none =>
          rw [hys] at h
          exact (Option.some.inj h).symm
      | some c =>
          rw [hys] at h
          by_cases hlt : rank a < rank c
          · have hc : c = m := by simpa only [if_pos hlt, Option.some.injEq] using h
            rw [hc, heq] at hlt
            exact absurd hlt (Nat.lt_irrefl _)
          · have ha : a = m := by simpa only [if_neg hlt, Option.some.injEq] using h
            exact ha.symm
  | cons x xs ih =>
      rw [List.cons_append, List.argmax_cons] at h
      cases hrest : (xs ++ a :: ys).argmax rank with
      | none =>
          rw [hrest] at h
          exact .inr (List.mem_cons.mpr (.inl (Option.some.inj h).symm))
      | some c =>
          rw [hrest] at h
          by_cases hlt : rank x < rank c
          · have hc : c = m := by simpa only [if_pos hlt, Option.some.injEq] using h
            rw [hc] at hrest
            exact (ih hrest heq).imp_right (List.mem_cons_of_mem x)
          · have hx : x = m := by simpa only [if_neg hlt, Option.some.injEq] using h
            exact .inr (List.mem_cons.mpr (.inl hx.symm))

theorem argmax_split {l : List α} {m : α} (h : l.argmax rank = some m) :
    ∃ xs ys, l = xs ++ m :: ys ∧ ∀ a ∈ xs, rank a < rank m := by
  induction l generalizing m with
  | nil => nomatch h
  | cons x l ih =>
      rw [List.argmax_cons] at h
      cases hrest : l.argmax rank with
      | none =>
          rw [hrest] at h
          have hx : x = m := Option.some.inj h
          exact ⟨[], l, by rw [hx, List.nil_append], fun a ha => absurd ha List.not_mem_nil⟩
      | some c =>
          rw [hrest] at h
          by_cases hlt : rank x < rank c
          · have hc : c = m := by simpa only [if_pos hlt, Option.some.injEq] using h
            subst hc
            obtain ⟨xs, ys, rfl, hbelow⟩ := ih hrest
            refine ⟨x :: xs, ys, rfl, fun a ha => ?_⟩
            rcases List.mem_cons.mp ha with rfl | ha
            · exact hlt
            · exact hbelow a ha
          · have hx : x = m := by simpa only [if_neg hlt, Option.some.injEq] using h
            exact ⟨[], l, by rw [hx, List.nil_append], fun a ha => absurd ha List.not_mem_nil⟩

/-- A stable sort by falling rank. -/
def sorted (l : List α) : List α := l.insertionSort (fun a b => rank b ≤ rank a)

theorem find?_orderedInsert (p : α → Bool) {l : List α} (hl : l.Pairwise (fun a b => rank b ≤ rank a)) (a : α) :
    (l.orderedInsert (fun a b => rank b ≤ rank a) a).find? p =
      if p a then (l.find? p).elim (some a) (fun c => if rank a < rank c then some c else some a) else l.find? p := by
  induction l with
  | nil =>
      rw [List.orderedInsert_nil, List.find?_singleton, List.find?_nil, Option.elim_none]
  | cons b l ih =>
      obtain ⟨hb, hl⟩ := List.pairwise_cons.mp hl
      by_cases hab : rank b ≤ rank a
      · rw [List.orderedInsert_cons, if_pos hab, List.find?_cons]
        cases hp : p a with
        | false => rfl
        | true =>
            cases hfound : (b :: l).find? p with
            | none => rfl
            | some c =>
                have hc : rank c ≤ rank b := by
                  rcases List.mem_cons.mp (List.mem_of_find?_eq_some hfound) with rfl | hc
                  · exact Nat.le_refl _
                  · exact hb c hc
                rw [if_pos rfl, Option.elim_some, if_neg (Nat.not_lt.mpr (Nat.le_trans hc hab))]
      · rw [List.orderedInsert_cons, if_neg hab, List.find?_cons, List.find?_cons, ih hl]
        cases hp : p b with
        | false => rfl
        | true =>
            cases p a with
            | false => rfl
            | true => exact (if_pos (Nat.lt_of_not_le hab)).symm

/-- The first match of the sorted list is the first of highest rank among the
matches. -/
theorem find?_sorted (p : α → Bool) (l : List α) : (sorted rank l).find? p = (l.filter p).argmax rank := by
  induction l with
  | nil => rfl
  | cons a l ih =>
      rw [sorted, List.insertionSort_cons, find?_orderedInsert rank p (List.pairwise_insertionSort _ l)]
      cases hp : p a with
      | false =>
          rw [List.filter_cons_of_neg (by rw [hp]; exact Bool.false_ne_true)]
          exact ih
      | true =>
          rw [List.filter_cons_of_pos hp, List.argmax_cons, ← ih, sorted]
          cases (l.insertionSort (fun a b => rank b ≤ rank a)).find? p <;> rfl

end BorgManager.Rankings
