import Mathlib.Data.List.Induction

namespace BorgManager.Meters

/-- What a counter has risen since the first reading of its source. -/
structure Meter (κ : Type) where
  first : Option (κ × Nat)
  total : Nat

variable {κ : Type} [DecidableEq κ]

/-- A reading of another source starts anew, and one below the first reading is
passed over. -/
def Meter.read (m : Meter κ) (x : κ × Nat) : Meter κ :=
  match m.first with
  | some (source, n) => if source = x.1 then { m with total := if n ≤ x.2 then x.2 - n else m.total } else ⟨some x, 0⟩
  | none => ⟨some x, 0⟩

def after (xs : List (κ × Nat)) : Meter κ := xs.foldl Meter.read ⟨none, 0⟩

def extend (current : List (κ × Nat)) (x : κ × Nat) : List (κ × Nat) :=
  if current.all (fun y => y.1 = x.1) then current ++ [x] else [x]

/-- The readings since the source last changed. -/
def stretch (xs : List (κ × Nat)) : List (κ × Nat) := xs.foldl extend []

theorem after_concat (xs : List (κ × Nat)) (x : κ × Nat) : after (xs ++ [x]) = (after xs).read x := by
  simp [after]

theorem stretch_concat (xs : List (κ × Nat)) (x : κ × Nat) : stretch (xs ++ [x]) = extend (stretch xs) x := by
  simp [stretch]

theorem stretch_source {xs : List (κ × Nat)} {x y : κ × Nat} (hx : x ∈ stretch xs) (hy : y ∈ stretch xs) :
    x.1 = y.1 := by
  induction xs using List.reverseRecOn generalizing x y with
  | nil => cases hx
  | append_singleton xs z ih =>
      rw [stretch_concat, extend] at hx hy
      split at hx
      · next hall =>
          rw [if_pos hall] at hy
          simp only [List.all_eq_true, decide_eq_true_eq] at hall
          have hz {w : κ × Nat} (hw : w ∈ stretch xs ++ [z]) : w.1 = z.1 := by
            rcases List.mem_append.mp hw with hw | hw
            · exact hall w hw
            · rw [List.mem_singleton.mp hw]
          rw [hz hx, hz hy]
      · next hall =>
          rw [if_neg hall] at hy
          rw [List.mem_singleton.mp hx, List.mem_singleton.mp hy]

/-- The next reading belongs to the stretch exactly if its first one does. -/
theorem extend_stretch {xs : List (κ × Nat)} {n : κ × Nat} (hn : (stretch xs).head? = some n) (x : κ × Nat) :
    extend (stretch xs) x = if n.1 = x.1 then stretch xs ++ [x] else [x] := by
  have hmem : n ∈ stretch xs := List.mem_of_head? hn
  rw [extend]
  congr 1
  simp only [List.all_eq_true, decide_eq_true_eq, eq_iff_iff]
  exact ⟨fun h => h n hmem, fun h y hy => (stretch_source hy hmem).trans h⟩

/-- What a meter knows of the readings: the first of the stretch, and one that
its total comes from. -/
structure Metered (xs : List (κ × Nat)) (m : Meter κ) : Prop where
  first : m.first = (stretch xs).head?
  attained : m.total = 0 ∨
    ∃ n y, (stretch xs).head? = some n ∧ y ∈ stretch xs ∧ n.2 ≤ y.2 ∧ m.total = y.2 - n.2

theorem metered_after (xs : List (κ × Nat)) : Metered xs (after xs) := by
  induction xs using List.reverseRecOn with
  | nil => exact ⟨rfl, Or.inl rfl⟩
  | append_singleton xs x ih =>
      rw [after_concat, Meter.read]
      cases hfirst : (after xs).first with
      | none =>
          have hnil : stretch xs = [] := List.head?_eq_none_iff.mp (ih.first ▸ hfirst)
          refine ⟨?_, Or.inl rfl⟩
          rw [stretch_concat, hnil]
          rfl
      | some n =>
          have hn : (stretch xs).head? = some n := ih.first ▸ hfirst
          obtain ⟨source, value⟩ := n
          dsimp only
          have hstretch := extend_stretch hn x
          by_cases hsource : source = x.1
          · rw [if_pos hsource] at hstretch ⊢
            have hhead : (stretch (xs ++ [x])).head? = some (source, value) := by
              rw [stretch_concat, hstretch, List.head?_append, hn]
              rfl
            refine ⟨by rw [hhead, ← hfirst], ?_⟩
            by_cases hvalue : value ≤ x.2
            · rw [if_pos hvalue]
              exact Or.inr ⟨_, x, hhead, by rw [stretch_concat, hstretch]; simp, hvalue, rfl⟩
            · rw [if_neg hvalue]
              rcases ih.attained with hzero | ⟨m, y, hm, hy, hle, htotal⟩
              · exact Or.inl hzero
              · rw [hn] at hm
                cases hm
                exact Or.inr ⟨_, y, hhead,
                  by rw [stretch_concat, hstretch]; exact List.mem_append_left _ hy, hle, htotal⟩
          · rw [if_neg hsource] at hstretch ⊢
            exact ⟨by rw [stretch_concat, hstretch]; rfl, Or.inl rfl⟩

/-- A reading with which the total gets smaller: it is below an earlier one of
the stretch, though not below the first, or it is of another source while the
counter has risen. -/
def Falls (xs : List (κ × Nat)) (x : κ × Nat) : Prop :=
  ∃ n y, (stretch xs).head? = some n ∧ y ∈ stretch xs ∧ if n.1 = x.1 then n.2 ≤ x.2 ∧ x.2 < y.2 else n.2 < y.2

theorem falls_of_lt {xs : List (κ × Nat)} {x : κ × Nat} (h : (after (xs ++ [x])).total < (after xs).total) :
    Falls xs x := by
  have hmetered := metered_after xs
  rcases hmetered.attained with hzero | ⟨n, y, hn, hy, hle, htotal⟩
  · rw [hzero] at h
    cases h
  · refine ⟨n, y, hn, hy, ?_⟩
    have hread : (after xs).first = some (n.1, n.2) := hmetered.first.trans hn
    rw [after_concat, Meter.read, hread] at h
    dsimp only at h
    split at h
    · next hsource =>
        rw [if_pos hsource]
        dsimp only at h
        split at h
        · omega
        · omega
    · next hsource =>
        rw [if_neg hsource]
        omega

/-- The total is at least what any reading of the stretch is above the first. -/
def Grown (xs : List (κ × Nat)) : Prop :=
  ∀ n y, (stretch xs).head? = some n → y ∈ stretch xs → y.2 - n.2 ≤ (after xs).total

theorem grown_concat {xs : List (κ × Nat)} {x : κ × Nat} (h : Grown xs)
    (hle : (after xs).total ≤ (after (xs ++ [x])).total) :
    Grown (xs ++ [x]) := by
  intro m y hm hy
  cases hfirst : (stretch xs).head? with
  | none =>
      rw [stretch_concat, List.head?_eq_none_iff.mp hfirst] at hm hy
      have hmx : x = m := Option.some.inj hm
      rw [show y = x from List.mem_singleton.mp hy, ← hmx, Nat.sub_self]
      exact Nat.zero_le _
  | some n =>
      have hread : (after xs).first = some (n.1, n.2) := (metered_after xs).first.trans hfirst
      rw [stretch_concat, extend_stretch hfirst] at hm hy
      split at hm
      · next hsource =>
          rw [if_pos hsource] at hy
          rw [List.head?_append, hfirst] at hm
          cases hm
          rcases List.mem_append.mp hy with hy | hy
          · exact Nat.le_trans (h _ y hfirst hy) hle
          · rw [List.mem_singleton.mp hy, after_concat, Meter.read, hread]
            dsimp only
            rw [if_pos hsource]
            dsimp only
            split
            · exact Nat.le_refl _
            · next hbelow => rw [Nat.sub_eq_zero_of_le (Nat.le_of_not_le hbelow)]; exact Nat.zero_le _
      · next hsource =>
          rw [if_neg hsource] at hy
          have hmx : x = m := Option.some.inj hm
          rw [show y = x from List.mem_singleton.mp hy, ← hmx, Nat.sub_self]
          exact Nat.zero_le _

theorem not_falls {xs : List (κ × Nat)} {x : κ × Nat} (h : Grown xs)
    (hle : (after xs).total ≤ (after (xs ++ [x])).total) :
    ¬ Falls xs x := by
  rintro ⟨n, y, hn, hy, hfalls⟩
  have hread : (after xs).first = some (n.1, n.2) := (metered_after xs).first.trans hn
  have hgrown := h n y hn hy
  rw [after_concat, Meter.read, hread] at hle
  dsimp only at hle
  split at hle
  · next hsource =>
      rw [if_pos hsource] at hfalls
      rw [if_pos hfalls.1] at hle
      dsimp only at hle
      omega
  · next hsource =>
      rw [if_neg hsource] at hfalls
      dsimp only at hle
      omega

/-- The total never falls exactly if no reading makes it fall. -/
theorem grows_iff (xs : List (κ × Nat)) :
    (∀ done x rest, xs = done ++ x :: rest → (after done).total ≤ (after (done ++ [x])).total) ↔
      ∀ done x rest, xs = done ++ x :: rest → ¬ Falls done x := by
  constructor
  · intro h
    have hgrown {done rest : List (κ × Nat)} (hxs : xs = done ++ rest) : Grown done := by
      induction done using List.reverseRecOn generalizing rest with
      | nil => rintro n y ⟨⟩
      | append_singleton done x ih =>
          rw [List.append_assoc] at hxs
          exact grown_concat (ih hxs) (h done x rest hxs)
    intro done x rest hxs
    exact not_falls (hgrown hxs) (h done x rest hxs)
  · intro h done x rest hxs
    exact Nat.le_of_not_lt (fun hlt => h done x rest hxs (falls_of_lt hlt))

/-- On one source the total is what the last reading is above the first, if it is. -/
theorem total_last {x : κ × Nat} {ys : List (κ × Nat)} (hsource : ∀ y ∈ ys, y.1 = x.1) {last : κ × Nat}
    (hlast : (x :: ys).getLast? = some last) (hle : x.2 ≤ last.2) : (after (x :: ys)).total = last.2 - x.2 := by
  have hfirst (ys : List (κ × Nat)) (hsource : ∀ y ∈ ys, y.1 = x.1) : (after (x :: ys)).first = some x := by
    induction ys using List.reverseRecOn with
    | nil => rfl
    | append_singleton ys y ih =>
        rw [← List.cons_append, after_concat, Meter.read, ih (fun z hz => hsource z (List.mem_append_left _ hz))]
        dsimp only
        rw [if_pos (hsource y (by simp)).symm]
  cases ys using List.reverseRecOn with
  | nil =>
      rw [← show x = last from Option.some.inj hlast, Nat.sub_self]
      rfl
  | append_singleton ys y =>
      have hy : y = last := by rw [← List.cons_append, List.getLast?_concat] at hlast; exact Option.some.inj hlast
      subst hy
      rw [← List.cons_append, after_concat, Meter.read, hfirst ys (fun z hz => hsource z (List.mem_append_left _ hz))]
      dsimp only
      rw [if_pos (hsource y (by simp)).symm, if_pos hle]

end BorgManager.Meters
