import Mathlib.Data.List.Basic
import Mathlib.Data.List.Nodup
import Mathlib.Data.List.Perm.Basic

namespace BorgManager.GreedyAdmission

variable {α ι : Type} [DecidableEq ι]

/-- A first-come admission policy over several resource layers. An item
charges one unit on each of its layers; a held item is never admitted. -/
structure Policy (α ι : Type) where
  held : α → Bool
  layers : α → List ι
  capacity : ι → Option Nat

def occupancy (P : Policy α ι) (occ : List α) (i : ι) : Nat :=
  occ.countP (fun a => decide (i ∈ P.layers a))

/-- A layer without a capacity is never exhausted. -/
def exhausted (P : Policy α ι) (occ : List α) (i : ι) : Bool :=
  match P.capacity i with
  | none => false
  | some c => decide (c ≤ occupancy P occ i)

def admits (P : Policy α ι) (occ : List α) (a : α) : Bool :=
  !P.held a && (P.layers a).all (fun i => !exhausted P occ i)

/-- One pass over the queue; every admitted item occupies its layers at once. -/
def select (P : Policy α ι) : List α → List α → List α
  | _, [] => []
  | occ, a :: queue =>
      if admits P occ a then a :: select P (occ ++ [a]) queue else select P occ queue

theorem select_cons_of_admits {P : Policy α ι} {occ queue : List α} {a : α}
    (h : admits P occ a = true) :
    select P occ (a :: queue) = a :: select P (occ ++ [a]) queue := by
  rw [select, if_pos h]

theorem select_cons_of_not_admits {P : Policy α ι} {occ queue : List α} {a : α}
    (h : ¬ admits P occ a = true) : select P occ (a :: queue) = select P occ queue := by
  rw [select, if_neg h]

@[simp] theorem occupancy_append (P : Policy α ι) (xs ys : List α) (i : ι) :
    occupancy P (xs ++ ys) i = occupancy P xs i + occupancy P ys i := by
  simp [occupancy, List.countP_append]

theorem occupancy_single_of_mem {P : Policy α ι} {a : α} {i : ι} (h : i ∈ P.layers a) :
    occupancy P [a] i = 1 := by
  simp [occupancy, h]

theorem occupancy_single_of_notMem {P : Policy α ι} {a : α} {i : ι} (h : i ∉ P.layers a) :
    occupancy P [a] i = 0 := by
  simp [occupancy, h]

theorem occupancy_perm (P : Policy α ι) {xs ys : List α} (h : xs.Perm ys) (i : ι) :
    occupancy P xs i = occupancy P ys i :=
  h.countP_eq _

theorem exhausted_iff {P : Policy α ι} {occ : List α} {i : ι} :
    exhausted P occ i = true ↔ ∃ c, P.capacity i = some c ∧ c ≤ occupancy P occ i := by
  rw [exhausted]
  cases P.capacity i <;> simp

theorem admits_iff {P : Policy α ι} {occ : List α} {a : α} :
    admits P occ a = true ↔ P.held a = false ∧ ∀ i ∈ P.layers a, exhausted P occ i = false := by
  simp [admits]

theorem exhausted_congr {P Q : Policy α ι} (hlayers : Q.layers = P.layers)
    (hcapacity : Q.capacity = P.capacity) (occ : List α) (i : ι) :
    exhausted Q occ i = exhausted P occ i := by
  unfold exhausted occupancy
  rw [hlayers, hcapacity]

theorem exhausted_mono {P : Policy α ι} {occ more : List α} {i : ι}
    (h : exhausted P occ i = true) : exhausted P (occ ++ more) i = true := by
  obtain ⟨c, hc, hle⟩ := exhausted_iff.mp h
  refine exhausted_iff.mpr ⟨c, hc, ?_⟩
  rw [occupancy_append]
  omega

theorem select_congr {P : Policy α ι} {xs ys : List α} (h : ∀ i, occupancy P xs i = occupancy P ys i)
    (queue : List α) : select P xs queue = select P ys queue := by
  have hadmits (xs ys : List α) (h : ∀ i, occupancy P xs i = occupancy P ys i) (a : α) :
      admits P xs a = admits P ys a := by
    simp only [admits, exhausted, h]
  induction queue generalizing xs ys with
  | nil => rfl
  | cons a queue ih =>
      have hlater (i : ι) : occupancy P (xs ++ [a]) i = occupancy P (ys ++ [a]) i := by
        rw [occupancy_append, occupancy_append, h i]
      simp only [select, hadmits xs ys h a, ih h, ih hlater]

theorem select_perm {P : Policy α ι} {xs ys : List α} (h : xs.Perm ys) (queue : List α) :
    select P xs queue = select P ys queue :=
  select_congr (occupancy_perm P h) queue

theorem select_sublist (P : Policy α ι) (occ queue : List α) :
    (select P occ queue).Sublist queue := by
  induction queue generalizing occ with
  | nil => exact .slnil
  | cons a queue ih =>
      simp only [select]
      split
      · exact (ih _).cons_cons a
      · exact (ih _).cons a

theorem select_append (P : Policy α ι) (occ xs ys : List α) :
    select P occ (xs ++ ys) = select P occ xs ++ select P (occ ++ select P occ xs) ys := by
  induction xs generalizing occ with
  | nil => simp [select]
  | cons a xs ih =>
      rw [List.cons_append]
      by_cases ha : admits P occ a = true
      · rw [select_cons_of_admits ha, select_cons_of_admits ha, ih]
        simp only [List.cons_append, List.append_assoc, List.nil_append]
      · rw [select_cons_of_not_admits ha, select_cons_of_not_admits ha, ih]

theorem mem_of_mem_select {P : Policy α ι} {occ queue : List α} {a : α}
    (h : a ∈ select P occ queue) : a ∈ queue :=
  (select_sublist P occ queue).subset h

theorem held_eq_false_of_mem_select {P : Policy α ι} {occ queue : List α} {a : α}
    (h : a ∈ select P occ queue) : P.held a = false := by
  induction queue generalizing occ with
  | nil => simp [select] at h
  | cons b queue ih =>
      simp only [select] at h
      split at h
      next hb =>
        rcases List.mem_cons.mp h with rfl | h
        · exact (admits_iff.mp hb).1
        · exact ih h
      next => exact ih h

/-- A selected item found every one of its layers open, even among the
occupants that were there before the pass started. -/
theorem open_of_mem_select {P : Policy α ι} {occ queue : List α} {a : α}
    (h : a ∈ select P occ queue) {i : ι} (hi : i ∈ P.layers a) : exhausted P occ i = false := by
  induction queue generalizing occ with
  | nil => simp [select] at h
  | cons b queue ih =>
      simp only [select] at h
      split at h
      next hb =>
        rcases List.mem_cons.mp h with rfl | h
        · exact (admits_iff.mp hb).2 i hi
        · have ho := ih h
          by_contra hc
          have hx : exhausted P occ i = true := by simpa using hc
          rw [exhausted_mono hx] at ho
          exact Bool.noConfusion ho
      next => exact ih h

/-- Capacity safety of one admission: once a selected item joins the
occupants, each of its layers is still within its capacity. -/
theorem occupancy_le_of_mem_select {P : Policy α ι} {occ queue : List α} {a : α}
    (h : a ∈ select P occ queue) {i : ι} (hi : i ∈ P.layers a) {c : Nat}
    (hc : P.capacity i = some c) : occupancy P (occ ++ [a]) i ≤ c := by
  have ho := open_of_mem_select h hi
  simp only [exhausted, hc, decide_eq_false_iff_not] at ho
  rw [occupancy_append, occupancy_single_of_mem hi]
  omega

theorem eq_of_mem_select_of_unit {P : Policy α ι} {occ queue : List α} {a b : α}
    (ha : a ∈ select P occ queue) (hb : b ∈ select P occ queue) {i : ι} (hia : i ∈ P.layers a)
    (hib : i ∈ P.layers b) (hc : P.capacity i = some 1) : a = b := by
  -- Once one of them is admitted the layer is exhausted for the rest of the pass.
  have hone {occ queue : List α} {c d : α} (hd : d ∈ select P (occ ++ [c]) queue) (hic : i ∈ P.layers c)
      (hid : i ∈ P.layers d) : False := by
    have ho := open_of_mem_select hd hid
    have hx : exhausted P (occ ++ [c]) i = true := by
      refine exhausted_iff.mpr ⟨1, hc, ?_⟩
      rw [occupancy_append, occupancy_single_of_mem hic]
      omega
    rw [hx] at ho
    cases ho
  induction queue generalizing occ with
  | nil => cases ha
  | cons c queue ih =>
      by_cases hadm : admits P occ c = true
      · rw [select_cons_of_admits hadm] at ha hb
        rcases List.mem_cons.mp ha with rfl | ha <;> rcases List.mem_cons.mp hb with hbc | hb
        · exact hbc.symm
        · exact (hone hb hia hib).elim
        · exact (hone ha (hbc ▸ hib) hia).elim
        · exact ih ha hb
      · rw [select_cons_of_not_admits hadm] at ha hb
        exact ih ha hb

/-- Work conservation: an item left out without being held meets an
exhausted layer among the occupants and the selected items. -/
theorem exhausted_of_not_mem_select {P : Policy α ι} {occ queue : List α} {a : α}
    (ha : a ∈ queue) (hn : a ∉ select P occ queue) (hh : P.held a = false) :
    ∃ i ∈ P.layers a, exhausted P (occ ++ select P occ queue) i = true := by
  induction queue generalizing occ with
  | nil => simp at ha
  | cons b queue ih =>
      simp only [select] at hn ⊢
      split at hn
      next hb =>
        rw [List.mem_cons, not_or] at hn
        have hq := (List.mem_cons.mp ha).resolve_left hn.1
        simpa only [if_pos hb, List.append_assoc, List.singleton_append] using ih hq hn.2
      next hb =>
        rw [if_neg hb]
        rcases List.mem_cons.mp ha with rfl | hq
        · have hb' : ¬ ∀ i ∈ P.layers a, exhausted P occ i = false := fun hall =>
            hb (admits_iff.mpr ⟨hh, hall⟩)
          simp only [not_forall, Bool.not_eq_false] at hb'
          obtain ⟨i, hi, hx⟩ := hb'
          exact ⟨i, hi, exhausted_mono hx⟩
        · exact ih hq hn

/-- The pass reads the hold of a rejected item only to reject it, so holding
more items that were not selected changes nothing. -/
theorem select_eq_of_held {P Q : Policy α ι} {occ queue : List α}
    (hlayers : Q.layers = P.layers) (hcapacity : Q.capacity = P.capacity)
    (hheld : ∀ b ∈ queue, P.held b = true → Q.held b = true)
    (hfree : ∀ b ∈ select P occ queue, Q.held b = false) :
    select Q occ queue = select P occ queue := by
  have hx := exhausted_congr hlayers hcapacity
  induction queue generalizing occ with
  | nil => rfl
  | cons b queue ih =>
      have hrest := fun c hc => hheld c (List.mem_cons_of_mem b hc)
      by_cases hb : admits P occ b = true
      · rw [select_cons_of_admits hb] at hfree ⊢
        have hq : admits Q occ b = true :=
          admits_iff.mpr ⟨hfree b (List.mem_cons_self ..), fun i hi => by
            rw [hx]; exact (admits_iff.mp hb).2 i (hlayers ▸ hi)⟩
        rw [select_cons_of_admits hq, ih hrest (fun c hc => hfree c (List.mem_cons_of_mem b hc))]
      · rw [select_cons_of_not_admits hb] at hfree ⊢
        have hq : ¬ admits Q occ b = true := by
          intro hq
          refine hb (admits_iff.mpr ⟨?_, ?_⟩)
          · by_contra hc
            have := hheld b (List.mem_cons_self ..) (by simpa using hc)
            simp [(admits_iff.mp hq).1] at this
          · intro i hi
            rw [← hx]
            exact (admits_iff.mp hq).2 i (hlayers ▸ hi)
        rw [select_cons_of_not_admits hq, ih hrest hfree]

/-- Turning one selected item into an occupant before the pass leaves the
admission of every other item as it was. -/
theorem admits_of_selected_later {P : Policy α ι} {occ queue : List α} {a b : α}
    (hb : admits P occ b = true) (ha : a ∈ select P (occ ++ [b]) queue) :
    admits P (occ ++ [a]) b = true := by
  obtain ⟨hheld, hopen⟩ := admits_iff.mp hb
  refine admits_iff.mpr ⟨hheld, ?_⟩
  intro i hi
  by_cases hia : i ∈ P.layers a
  · have hlater := open_of_mem_select ha hia
    have heq : occupancy P (occ ++ [a]) i = occupancy P (occ ++ [b]) i := by
      simp only [occupancy_append, occupancy_single_of_mem hia, occupancy_single_of_mem hi]
    simpa only [exhausted, heq] using hlater
  · have heq : occupancy P (occ ++ [a]) i = occupancy P occ i := by
      simp only [occupancy_append, occupancy_single_of_notMem hia, Nat.add_zero]
    simpa only [exhausted, heq] using hopen i hi

/-- Stability of the greedy pass: after one selected item has become an
occupant, the pass over the remaining queue selects exactly the others. The
later policy may hold additional items, but none of the selected ones. -/
theorem select_erase [DecidableEq α] {P Q : Policy α ι} {occ queue : List α} {a : α}
    (hlayers : Q.layers = P.layers) (hcapacity : Q.capacity = P.capacity)
    (hnodup : queue.Nodup) (ha : a ∈ select P occ queue)
    (hheld : ∀ b ∈ queue, b ≠ a → P.held b = true → Q.held b = true)
    (hfree : ∀ b ∈ select P occ queue, b ≠ a → Q.held b = false) :
    select Q (occ ++ [a]) (queue.erase a) = (select P occ queue).erase a := by
  have hx := exhausted_congr hlayers hcapacity
  induction queue generalizing occ with
  | nil => simp [select] at ha
  | cons b queue ih =>
      obtain ⟨hbq, hnodup⟩ := List.nodup_cons.mp hnodup
      by_cases hba : b = a
      · subst b
        have hadm : admits P occ a = true := by
          by_contra hn
          rw [select_cons_of_not_admits hn] at ha
          exact hbq (mem_of_mem_select ha)
        rw [select_cons_of_admits hadm] at hfree ⊢
        rw [List.erase_cons_head, List.erase_cons_head]
        have hne (c : α) (hc : c ∈ queue) : c ≠ a := fun h => hbq (h ▸ hc)
        exact select_eq_of_held hlayers hcapacity
          (fun c hc => hheld c (List.mem_cons_of_mem a hc) (hne c hc))
          (fun c hc => hfree c (List.mem_cons_of_mem a hc) (hne c (mem_of_mem_select hc)))
      · have hrest := fun c hc => hheld c (List.mem_cons_of_mem b hc)
        rw [List.erase_cons_tail (by simpa using hba)]
        by_cases hb : admits P occ b = true
        · rw [select_cons_of_admits hb] at ha hfree ⊢
          have ha' := (List.mem_cons.mp ha).resolve_left (Ne.symm hba)
          have hfree' := fun c hc => hfree c (List.mem_cons_of_mem b hc)
          have hlater := admits_of_selected_later hb ha'
          have hq : admits Q (occ ++ [a]) b = true :=
            admits_iff.mpr ⟨hfree b (List.mem_cons_self ..) hba, fun i hi => by
              rw [hx]; exact (admits_iff.mp hlater).2 i (hlayers ▸ hi)⟩
          have hswap : (occ ++ [a] ++ [b]).Perm (occ ++ [b] ++ [a]) := by
            simp only [List.append_assoc]
            exact List.Perm.append_left occ (List.Perm.swap b a [])
          rw [select_cons_of_admits hq, select_perm hswap, ih hnodup ha' hrest hfree',
            List.erase_cons_tail (by simpa using hba)]
        · rw [select_cons_of_not_admits hb] at ha hfree ⊢
          have hq : ¬ admits Q (occ ++ [a]) b = true := by
            intro hq
            obtain ⟨hqh, hqo⟩ := admits_iff.mp hq
            refine hb (admits_iff.mpr ⟨?_, ?_⟩)
            · by_contra hc
              have := hheld b (List.mem_cons_self ..) hba (by simpa using hc)
              simp [hqh] at this
            · intro i hi
              by_contra hc
              have hfull : exhausted P occ i = true := by simpa using hc
              have := hqo i (hlayers ▸ hi)
              rw [hx, exhausted_mono hfull] at this
              exact Bool.noConfusion this
          rw [select_cons_of_not_admits hq, ih hnodup ha hrest hfree]

end BorgManager.GreedyAdmission
