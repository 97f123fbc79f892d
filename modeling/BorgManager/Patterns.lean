import Mathlib.Data.List.Basic

namespace BorgManager.Patterns

/-- Regular expressions with groups, as a backtracking matcher reads them:
the first alternative and the longest or shortest repetition come first. -/
inductive Pattern
  | char (accepts : Char → Bool)
  | nothing
  | seq (first second : Pattern)
  | alt (first second : Pattern)
  | many (greedy : Bool) (body : Pattern)
  | group (index : Nat) (body : Pattern)
  | lineStart
  | lineEnd

/-- A position in a text: the character before it, the text after it, and the
groups that are closed by then. -/
structure Cursor where
  before : Option Char
  rest : List Char
  groups : List (Nat × List Char)

def advances (c d : Cursor) : Bool := decide (d.rest.length < c.rest.length)

/-- All ends of a repetition. Each round consumes a character, so the length of
the text bounds the rounds. -/
def rounds (step : Cursor → List Cursor) (greedy : Bool) : Nat → Cursor → List Cursor
  | 0, c => [c]
  | n + 1, c =>
      let more := ((step c).filter (advances c)).flatMap (rounds step greedy n)
      if greedy then more ++ [c] else c :: more

/-- The ends of all matches that start at a position, in the order in which a
backtracking matcher finds them. -/
def Pattern.ends : Pattern → Cursor → List Cursor
  | .char accepts, c =>
      match c.rest with
      | [] => []
      | x :: xs => if accepts x then [⟨some x, xs, c.groups⟩] else []
  | .nothing, c => [c]
  | .seq p q, c => (p.ends c).flatMap q.ends
  | .alt p q, c => p.ends c ++ q.ends c
  | .many greedy p, c => rounds p.ends greedy c.rest.length c
  | .group index p, c =>
      (p.ends c).map (fun d =>
        { d with groups := (index, c.rest.take (c.rest.length - d.rest.length)) :: d.groups })
  | .lineStart, c => if c.before = none ∨ c.before = some '\n' then [c] else []
  | .lineEnd, c => if c.rest = [] ∨ c.rest.head? = some '\n' then [c] else []

def Cursor.group (c : Cursor) (index : Nat) : String := String.ofList ((c.groups.lookup index).getD [])

/-- `re.fullmatch`. -/
def Pattern.fullmatch (p : Pattern) (text : List Char) : Option Cursor :=
  (p.ends ⟨none, text, []⟩).find? (fun d => d.rest == [])

/-- One scan of `re.finditer`, from left to right and without overlaps. -/
def Pattern.scan (p : Pattern) : Nat → Cursor → List Cursor
  | 0, c => (p.ends c).head?.toList
  | n + 1, c =>
      match (p.ends c).head?, c.rest with
      | some d, x :: xs =>
          if advances c d then d :: p.scan n { d with groups := [] }
          else d :: p.scan n ⟨some x, xs, []⟩
      | some d, [] => [d]
      | none, x :: xs => p.scan n ⟨some x, xs, []⟩
      | none, [] => []

def Pattern.finditer (p : Pattern) (text : List Char) : List Cursor := p.scan text.length ⟨none, text, []⟩

def Pattern.search (p : Pattern) (text : List Char) : Option Cursor := (p.finditer text).head?

def literal (same : Char → Char → Bool) (text : List Char) : Pattern :=
  text.foldr (fun c rest => .seq (.char (same c)) rest) .nothing

def plus (greedy : Bool) (p : Pattern) : Pattern := .seq p (.many greedy p)

def optional (p : Pattern) : Pattern := .alt p .nothing

def sequence : List Pattern → Pattern := List.foldr .seq .nothing

def oneOf : List Pattern → Pattern
  | [] => .char (fun _ => false)
  | [p] => p
  | p :: ps => .alt p (oneOf ps)

/-- `^` and `$` around a pattern. -/
def anchored (p : Pattern) : Pattern := .seq .lineStart (.seq p .lineEnd)

/-- A pattern can take a word off the front of any text. -/
def Consumes (p : Pattern) (word : List Char) : Prop :=
  ∀ before rest groups, ∃ before', (⟨before', rest, groups⟩ : Cursor) ∈ p.ends ⟨before, word ++ rest, groups⟩

theorem consumes_nothing : Consumes .nothing [] := fun before _ _ => ⟨before, List.mem_singleton_self _⟩

theorem consumes_char {accepts : Char → Bool} {c : Char} (h : accepts c = true) : Consumes (.char accepts) [c] := by
  intro before rest groups
  refine ⟨some c, ?_⟩
  simp only [Pattern.ends, List.singleton_append, h, if_true, List.mem_singleton]

theorem Consumes.seq {p q : Pattern} {u v : List Char} (hp : Consumes p u) (hq : Consumes q v) :
    Consumes (.seq p q) (u ++ v) := by
  intro before rest groups
  obtain ⟨middle, hmiddle⟩ := hp before (v ++ rest) groups
  obtain ⟨after, hafter⟩ := hq middle rest groups
  rw [List.append_assoc]
  exact ⟨after, List.mem_flatMap.mpr ⟨_, hmiddle, hafter⟩⟩

theorem consumes_literal (text : List Char) : Consumes (literal (fun a b => a == b) text) text := by
  induction text with
  | nil => exact consumes_nothing
  | cons c text ih => exact Consumes.seq (u := [c]) (consumes_char (beq_self_eq_true c)) ih

theorem rounds_char {accepts : Char → Bool} {greedy : Bool} {word : List Char} (h : ∀ c ∈ word, accepts c = true)
    {fuel : Nat} (hfuel : word.length ≤ fuel) (before : Option Char) (rest : List Char)
    (groups : List (Nat × List Char)) :
    ∃ before', (⟨before', rest, groups⟩ : Cursor) ∈
      rounds (Pattern.char accepts).ends greedy fuel ⟨before, word ++ rest, groups⟩ := by
  induction word generalizing fuel before with
  | nil =>
      refine ⟨before, ?_⟩
      cases fuel with
      | zero => exact List.mem_singleton_self _
      | succ fuel => cases greedy <;> simp [rounds]
  | cons c word ih =>
      cases fuel with
      | zero => simp at hfuel
      | succ fuel =>
          obtain ⟨after, hafter⟩ := ih (fun d hd => h d (List.mem_cons_of_mem _ hd))
            (Nat.le_of_succ_le_succ hfuel) (some c)
          have hstep : (⟨some c, word ++ rest, groups⟩ : Cursor) ∈
              ((Pattern.char accepts).ends ⟨before, c :: word ++ rest, groups⟩).filter
                (advances ⟨before, c :: word ++ rest, groups⟩) := by
            simp [Pattern.ends, advances, h c (List.mem_cons_self ..)]
          have hmore := List.mem_flatMap.mpr ⟨_, hstep, hafter⟩
          refine ⟨after, ?_⟩
          rw [rounds]
          cases greedy
          · exact List.mem_cons_of_mem _ hmore
          · exact List.mem_append_left _ hmore

theorem consumes_many {accepts : Char → Bool} (greedy : Bool) {word : List Char} (h : ∀ c ∈ word, accepts c = true) :
    Consumes (.many greedy (.char accepts)) word := by
  intro before rest groups
  exact rounds_char h (by simp) before rest groups

theorem consumes_plus {accepts : Char → Bool} (greedy : Bool) {word : List Char} (hne : word ≠ [])
    (h : ∀ c ∈ word, accepts c = true) : Consumes (plus greedy (.char accepts)) word := by
  obtain ⟨c, word, rfl⟩ := List.exists_cons_of_ne_nil hne
  exact Consumes.seq (u := [c]) (consumes_char (h c (List.mem_cons_self ..)))
    (consumes_many greedy (fun d hd => h d (List.mem_cons_of_mem _ hd)))

theorem consumes_sequence {ps : List Pattern} {words : List (List Char)} (h : List.Forall₂ Consumes ps words) :
    Consumes (sequence ps) words.flatten := by
  induction h with
  | nil => exact consumes_nothing
  | cons hp _ ih => exact hp.seq ih

theorem fullmatch_anchored {p : Pattern} {word : List Char} (h : Consumes p word) :
    ((anchored p).fullmatch word).isSome = true := by
  obtain ⟨before, hbefore⟩ := h none [] []
  rw [List.append_nil] at hbefore
  rw [Pattern.fullmatch, List.find?_isSome]
  refine ⟨⟨before, [], []⟩, ?_, rfl⟩
  refine List.mem_flatMap.mpr ⟨⟨none, word, []⟩, by simp [Pattern.ends], ?_⟩
  exact List.mem_flatMap.mpr ⟨_, hbefore, by simp [Pattern.ends]⟩

end BorgManager.Patterns
