import Mathlib.Logic.Basic

namespace BorgManager.Blocks

variable {Exn State α β : Type}

/-- A block of statements that changes a state and either ends with a value or
raises. -/
def Block (Exn State α : Type) := State → Except Exn α × State

instance : Monad (Block Exn State) where
  pure a := fun s => (.ok a, s)
  bind x f := fun s =>
    match x s with
    | (.ok a, t) => f a t
    | (.error e, t) => (.error e, t)

/-- A statement whose outcome is decided outside of the program. -/
def effect (outcome : Except Exn α) : Block Exn State α := fun s => (outcome, s)

def update (f : State → State) : Block Exn State Unit := fun s => (.ok (), f s)

def read (f : State → α) : Block Exn State α := fun s => (.ok (f s), s)

def raise (e : Exn) : Block Exn State α := effect (.error e)

def when (condition : Bool) (body : Block Exn State Unit) : Block Exn State Unit :=
  if condition then body else pure ()

/-- `try: body except: handler`. A handler raises again what it does not
handle. -/
def tryExcept (body : Block Exn State α) (handler : Exn → Block Exn State α) : Block Exn State α :=
  fun s =>
    match body s with
    | (.ok a, t) => (.ok a, t)
    | (.error e, t) => handler e t

/-- `try: body finally: cleanup`. An exception of the cleanup takes the place
of the outcome of the body. -/
def tryFinally (body : Block Exn State α) (cleanup : Block Exn State Unit) : Block Exn State α :=
  fun s =>
    match body s with
    | (outcome, t) =>
        match cleanup t with
        | (.ok _, u) => (outcome, u)
        | (.error e, u) => (.error e, u)

/-- The block ends in an outcome and a state with the property. The rules below
compute the weakest condition for it, statement by statement. -/
def Ends (x : Block Exn State α) (s : State) (Q : Except Exn α → State → Prop) : Prop := Q (x s).1 (x s).2

variable {s : State} {Q : Except Exn β → State → Prop}

@[simp] theorem ends_pure {b : β} : Ends (pure b) s Q ↔ Q (.ok b) s := Iff.rfl

@[simp] theorem ends_effect {outcome : Except Exn β} : Ends (effect outcome) s Q ↔ Q outcome s := Iff.rfl

@[simp] theorem ends_update {f : State → State} {P : Except Exn Unit → State → Prop} :
    Ends (update f) s P ↔ P (.ok ()) (f s) := Iff.rfl

@[simp] theorem ends_read {f : State → β} : Ends (read f) s Q ↔ Q (.ok (f s)) s := Iff.rfl

@[simp] theorem pure_ok (a : α) : (pure a : Except Exn α) = .ok a := rfl

@[simp] theorem ok_bind (a : α) (f : α → Except Exn β) : (Except.ok a >>= f) = f a := rfl

@[simp] theorem error_bind (e : Exn) (f : α → Except Exn β) : (Except.error e >>= f) = Except.error e := rfl

theorem ends_bind {x : Block Exn State α} {f : α → Block Exn State β} :
    Ends (x >>= f) s Q ↔ Ends x s (fun outcome t =>
      match outcome with
      | .ok a => Ends (f a) t Q
      | .error e => Q (.error e) t) := by
  simp only [Ends, Bind.bind]
  cases h : x s with
  | mk outcome t => cases outcome <;> rfl

theorem ends_when {condition : Bool} {body : Block Exn State Unit} {P : Except Exn Unit → State → Prop} :
    Ends (when condition body) s P ↔ (condition = true → Ends body s P) ∧ (condition = false → P (.ok ()) s) := by
  cases condition with
  | true => exact ⟨fun h => ⟨fun _ => h, nofun⟩, fun h => h.1 rfl⟩
  | false => exact ⟨fun h => ⟨nofun, fun _ => h⟩, fun h => h.2 rfl⟩

theorem ends_tryExcept {body : Block Exn State β} {handler : Exn → Block Exn State β} :
    Ends (tryExcept body handler) s Q ↔ Ends body s (fun outcome t =>
      match outcome with
      | .ok b => Q (.ok b) t
      | .error e => Ends (handler e) t Q) := by
  simp only [Ends, tryExcept]
  cases h : body s with
  | mk outcome t => cases outcome <;> rfl

theorem ends_tryFinally {body : Block Exn State β} {cleanup : Block Exn State Unit} :
    Ends (tryFinally body cleanup) s Q ↔ Ends body s (fun outcome t =>
      Ends cleanup t (fun ended u =>
        match ended with
        | .ok _ => Q outcome u
        | .error e => Q (.error e) u)) := by
  simp only [Ends, tryFinally]
  cases h : body s with
  | mk outcome t =>
      cases h' : cleanup t with
      | mk ended u => cases ended <;> simp

theorem ends_mono {x : Block Exn State β} {P : Except Exn β → State → Prop} (h : Ends x s P)
    (hpq : ∀ outcome t, P outcome t → Q outcome t) : Ends x s Q := hpq _ _ h

/-- `for x in xs: body`. -/
def forEach (xs : List α) (body : α → Block Exn State Unit) : Block Exn State Unit :=
  match xs with
  | [] => pure ()
  | x :: xs => do
      body x
      forEach xs body

/-- An invariant of what a loop still has to do holds at its end, and an
exception leaves the loop where the body raises it. -/
theorem ends_forEach {body : α → Block Exn State Unit} {I : List α → State → Prop} {E : Exn → State → Prop}
    (hbody : ∀ x xs s, I (x :: xs) s →
      Ends (body x) s (fun outcome t => (outcome = .ok () ∧ I xs t) ∨ ∃ e, outcome = .error e ∧ E e t))
    {xs : List α} (h : I xs s) :
    Ends (forEach xs body) s (fun outcome t => (outcome = .ok () ∧ I [] t) ∨ ∃ e, outcome = .error e ∧ E e t) := by
  induction xs generalizing s with
  | nil => exact .inl ⟨rfl, h⟩
  | cons x xs ih =>
      rw [forEach, ends_bind]
      apply ends_mono (hbody x xs s h)
      rintro outcome t (⟨rfl, ht⟩ | ⟨e, rfl, ht⟩)
      · exact ih ht
      · exact .inr ⟨e, rfl, ht⟩

/-- What every round of a loop preserves, the loop preserves. -/
theorem ends_forEach_invariant {body : α → Block Exn State Unit} {I : State → Prop} {xs : List α}
    (hbody : ∀ x ∈ xs, ∀ s, I s → Ends (body x) s (fun _ t => I t)) (h : I s) :
    Ends (forEach xs body) s (fun _ t => I t) := by
  have hloop : Ends (forEach xs body) s (fun outcome t =>
      (outcome = .ok () ∧ (∀ x ∈ [], x ∈ xs) ∧ I t) ∨ ∃ e, outcome = .error e ∧ I t) := by
    apply ends_forEach (I := fun rest t => (∀ x ∈ rest, x ∈ xs) ∧ I t) (E := fun _ t => I t) _ ⟨fun _ hx => hx, h⟩
    rintro x rest t ⟨hrest, ht⟩
    apply ends_mono (hbody x (hrest x (List.mem_cons_self ..)) t ht)
    intro outcome u hu
    cases outcome with
    | ok _ => exact .inl ⟨rfl, fun y hy => hrest y (List.mem_cons_of_mem _ hy), hu⟩
    | error e => exact .inr ⟨e, rfl, hu⟩
  apply ends_mono hloop
  rintro outcome t (⟨-, -, ht⟩ | ⟨-, -, ht⟩)
  · exact ht
  · exact ht

end BorgManager.Blocks
