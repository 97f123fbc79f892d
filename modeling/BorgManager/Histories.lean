import Mathlib.Data.List.Basic

namespace BorgManager.Histories

variable {State Event : Type}

abbrev Transition (State Event : Type) := State → Event → State → Prop

/-- A finite history of labelled transitions. Its event list is read from
the first transition to the last. -/
inductive History (step : Transition State Event) : State → List Event → State → Prop
  | nil (s) : History step s [] s
  | cons {s e t es u} (head : step s e t) (tail : History step t es u) : History step s (e :: es) u

variable {step : Transition State Event}

theorem History.single {s t : State} {e : Event} (h : step s e t) : History step s [e] t :=
  .cons h (.nil t)

theorem History.append {s t u : State} {es fs : List Event}
    (h : History step s es t) (k : History step t fs u) : History step s (es ++ fs) u := by
  induction h with
  | nil => exact k
  | cons head _ ih => exact .cons head (ih k)

theorem History.snoc {s t u : State} {es : List Event} {e : Event}
    (h : History step s es t) (k : step t e u) : History step s (es ++ [e]) u :=
  h.append (.single k)

theorem History.split {s u : State} {es fs : List Event} (h : History step s (es ++ fs) u) :
    ∃ t, History step s es t ∧ History step t fs u := by
  induction es generalizing s with
  | nil => exact ⟨s, .nil s, h⟩
  | cons e es ih =>
      cases h with
      | cons head tail =>
          obtain ⟨t, hbefore, hafter⟩ := ih tail
          exact ⟨t, .cons head hbefore, hafter⟩

/-- The induction rule used for every safety result: an invariant of single
transitions is an invariant of whole histories. -/
theorem History.invariant {s t : State} {es : List Event}
    (h : History step s es t) (Inv : State → Prop) (hs : Inv s)
    (hstep : ∀ a e b, Inv a → step a e b → Inv b) : Inv t := by
  induction h with
  | nil => exact hs
  | cons head _ ih => exact ih (hstep _ _ _ hs head)

/-- An invariant that only the events of the history have to respect. -/
theorem History.invariant_of_mem {s t : State} {es : List Event}
    (h : History step s es t) (Inv : State → Prop) (hs : Inv s)
    (hstep : ∀ a e b, e ∈ es → Inv a → step a e b → Inv b) : Inv t := by
  induction h with
  | nil => exact hs
  | cons head _ ih =>
      refine ih (hstep _ _ _ (List.mem_cons_self ..) hs head) ?_
      intro a e b he
      exact hstep a e b (List.mem_cons_of_mem _ he)

/-- A history of one system is a history of another, up to its silent steps,
if each step is at most one step of the other. -/
theorem History.simulate {State' Event' : Type} {step' : Transition State' Event'} {s t : State} {es : List Event}
    (h : History step s es t) (f : State → State') (Inv : State → Prop) (hs : Inv s)
    (hstep : ∀ a e b, Inv a → step a e b → Inv b ∧ (f b = f a ∨ ∃ e', step' (f a) e' (f b))) :
    Inv t ∧ ∃ es', History step' (f s) es' (f t) := by
  induction h with
  | nil => exact ⟨hs, [], .nil _⟩
  | cons head _ ih =>
      obtain ⟨hinv, hmove⟩ := hstep _ _ _ hs head
      obtain ⟨hinv', es', hes'⟩ := ih hinv
      refine ⟨hinv', ?_⟩
      rcases hmove with heq | ⟨e', he'⟩
      · exact ⟨es', heq ▸ hes'⟩
      · exact ⟨e' :: es', .cons he' hes'⟩

theorem History.mono {step' : Transition State Event} {s t : State} {es : List Event}
    (h : History step s es t) (hsub : ∀ a e b, step a e b → step' a e b) :
    History step' s es t := by
  induction h with
  | nil => exact .nil _
  | cons head _ ih => exact .cons (hsub _ _ _ head) ih

/-- The transitions whose source state and event meet a condition. -/
def meeting (step : Transition State Event) (cond : State → Event → Prop) : Transition State Event :=
  fun s e t => step s e t ∧ cond s e

theorem History.forget {cond : State → Event → Prop} {s t : State} {es : List Event}
    (h : History (meeting step cond) s es t) : History step s es t :=
  h.mono (fun _ _ _ hm => hm.1)

/-- A system that also keeps the list of its past events. -/
def recording (step : Transition State Event) : Transition (List Event × State) Event :=
  fun a e b => b.1 = a.1 ++ [e] ∧ step a.2 e b.2

theorem History.recorded {cond : List Event × State → Event → Prop} {a b : List Event × State} {es : List Event}
    (h : History (meeting (recording step) cond) a es b) : b.1 = a.1 ++ es ∧ History step a.2 es b.2 := by
  induction h with
  | nil => exact ⟨(List.append_nil _).symm, .nil _⟩
  | cons head _ ih =>
      refine ⟨?_, .cons head.1.2 ih.2⟩
      rw [ih.1, head.1.1, List.append_assoc, List.singleton_append]

/-- What is added at the end of a list can only end a sublist. -/
theorem sublist_snoc {α : Type} {xs ys : List α} {x y : α} (h : (xs ++ [x]).Sublist (ys ++ [y])) :
    (xs ++ [x]).Sublist ys ∨ (x = y ∧ xs.Sublist ys) := by
  rw [← List.reverse_sublist, List.reverse_append, List.reverse_append, List.reverse_singleton, List.reverse_singleton,
    List.singleton_append, List.singleton_append, List.cons_sublist_cons'] at h
  rcases h with h | ⟨heq, h⟩
  · left
    rw [← List.reverse_sublist, List.reverse_append, List.reverse_singleton, List.singleton_append]
    exact h
  · exact .inr ⟨heq, List.reverse_sublist.mp h⟩

/-- Execution of a partial step function along a list of events. -/
def exec (next : State → Event → Option State) : State → List Event → Option State
  | s, [] => some s
  | s, e :: es => (next s e).bind (fun t => exec next t es)

def graph (next : State → Event → Option State) : Transition State Event :=
  fun s e t => next s e = some t

theorem history_of_exec {next : State → Event → Option State} {s t : State} {es : List Event}
    (h : exec next s es = some t) : History (graph next) s es t := by
  induction es generalizing s with
  | nil => cases h; exact .nil _
  | cons e es ih =>
      obtain ⟨u, hu, ht⟩ := Option.bind_eq_some_iff.mp h
      exact .cons hu (ih ht)

theorem exec_of_history {next : State → Event → Option State} {s t : State} {es : List Event}
    (h : History (graph next) s es t) : exec next s es = some t := by
  induction h with
  | nil => rfl
  | cons head _ ih => rw [exec, head, Option.bind_some, ih]

theorem exec_append {next : State → Event → Option State} (s : State) (es fs : List Event) :
    exec next s (es ++ fs) = (exec next s es).bind (fun t => exec next t fs) := by
  induction es generalizing s with
  | nil => rfl
  | cons e es ih =>
      rw [List.cons_append, exec, exec, Option.bind_assoc]
      congr 1
      funext t
      exact ih t

/-- What is seen of the events of an execution, each in the state it finds. -/
def observed {α : Type} (next : State → Event → Option State) (see : State → Event → Option α) :
    State → List Event → List α
  | _, [] => []
  | s, e :: es => (see s e).toList ++ (next s e).elim [] (fun t => observed next see t es)

theorem History.record {next : State → Event → Option State} {cond : List Event × State → Event → Prop}
    {past : List Event} {s t : State} {e : Event} {es : List Event} {b : List Event × State}
    (head : next s e = some t) (hcond : cond (past, s) e)
    (tail : History (meeting (recording (graph next)) cond) (past ++ [e], t) es b) :
    History (meeting (recording (graph next)) cond) (past, s) (e :: es) b :=
  .cons (t := (past ++ [e], t)) ⟨⟨rfl, head⟩, hcond⟩ tail

/-- Every event of an execution meets a condition in the state that it finds. -/
def Along (next : State → Event → Option State) (cond : State → Event → Prop) : State → List Event → Prop
  | _, [] => True
  | s, e :: es => cond s e ∧ ∀ t ∈ next s e, Along next cond t es

def decidableAlong (next : State → Event → Option State) (cond : State → Event → Prop)
    [∀ s e, Decidable (cond s e)] : (es : List Event) → (s : State) → Decidable (Along next cond s es)
  | [], _ => .isTrue trivial
  | e :: es, s =>
      have := decidableAlong next cond es
      inferInstanceAs (Decidable (cond s e ∧ ∀ t ∈ next s e, Along next cond t es))

instance (next : State → Event → Option State) (cond : State → Event → Prop) [∀ s e, Decidable (cond s e)]
    (s : State) (es : List Event) : Decidable (Along next cond s es) := decidableAlong next cond es s

theorem history_of_along {next : State → Event → Option State} {cond : State → Event → Prop} {s t : State}
    {es : List Event} (h : exec next s es = some t) (hcond : Along next cond s es) :
    History (meeting (graph next) cond) s es t := by
  induction es generalizing s with
  | nil => cases h; exact .nil _
  | cons e es ih =>
      obtain ⟨u, hu, ht⟩ := Option.bind_eq_some_iff.mp h
      exact .cons ⟨hu, hcond.1⟩ (ih ht (hcond.2 u hu))

end BorgManager.Histories
