import Mathlib.Data.List.Basic
import Mathlib.Data.List.TakeWhile

namespace BorgManager.ShellWords

/-- A character of a word, and whether quoting took its special meaning away. -/
structure Letter where
  char : Char
  quoted : Bool
  deriving DecidableEq

abbrev Word : Type := List Letter

def plain (c : Char) : Letter := ⟨c, false⟩

def literal (c : Char) : Letter := ⟨c, true⟩

def text (w : Word) : List Char := w.map Letter.char

def isBlank (c : Char) : Bool := c == ' ' || c == '\t'

/-- Unquoted, these are operators, ends of a command, expansions, patterns or
comments; a reader of words does not go on after them. -/
def special : List Char := "|&;<>()$\n*?[]#~\x7b\x7d!^".toList ++ [Char.ofNat 96]

/-- Between double quotes these keep their meaning. -/
def expands (c : Char) : Bool := c == '$' || c == Char.ofNat 96

inductive Quoting
  | none
  | escaped
  | single
  | double
  | doubleEscaped
  deriving DecidableEq

/-- Where a reader stands: the quoting it is in, and the word it has begun. -/
structure Reader where
  quoting : Quoting
  word : Option Word

def begin : Reader := ⟨.none, none⟩

def Reader.put (r : Reader) (quoting : Quoting) (letters : Word) : Reader :=
  ⟨quoting, some (r.word.getD [] ++ letters)⟩

/-- One character: the words that end with it, and the reader behind it. There
is none where the line is more than words. -/
def step (r : Reader) (c : Char) : Option (List Word × Reader) :=
  match r.quoting with
  | .none =>
      if isBlank c then some (r.word.toList, begin)
      else if c = '\'' then some ([], r.put .single [])
      else if c = '"' then some ([], r.put .double [])
      else if c = '\\' then some ([], r.put .escaped [])
      else if c ∈ special then none
      else some ([], r.put .none [plain c])
  | .escaped => if c = '\n' then none else some ([], r.put .none [literal c])
  | .single => if c = '\'' then some ([], r.put .none []) else some ([], r.put .single [literal c])
  | .double =>
      if c = '"' then some ([], r.put .none [])
      else if c = '\\' then some ([], r.put .doubleEscaped [])
      else if expands c then none
      else some ([], r.put .double [literal c])
  | .doubleEscaped =>
      if c = '\n' then none
      else if c = '"' || c = '\\' || expands c then some ([], r.put .double [literal c])
      else some ([], r.put .double [literal '\\', literal c])

def feed (r : Reader) : List Char → Option (List Word × Reader)
  | [] => some ([], r)
  | c :: cs => do
      let (done, r) ← step r c
      let (more, r) ← feed r cs
      pure (done ++ more, r)

def finish (r : Reader) : Option (List Word) :=
  match r.quoting with
  | .none => some r.word.toList
  | _ => none

/-- The words of a line that is nothing but words. -/
def words (line : List Char) : Option (List Word) := do
  let (done, r) ← feed begin line
  let last ← finish r
  pure (done ++ last)

theorem feed_append {r s t : Reader} {a b : List Char} {xs ys : List Word} (ha : feed r a = some (xs, s))
    (hb : feed s b = some (ys, t)) : feed r (a ++ b) = some (xs ++ ys, t) := by
  induction a generalizing r xs with
  | nil =>
      rw [feed, Option.some_inj, Prod.mk.injEq] at ha
      obtain ⟨rfl, rfl⟩ := ha
      exact hb
  | cons c a ih =>
      simp only [feed, Option.bind_eq_bind, Option.bind_eq_some_iff, Option.pure_def, Option.some_inj] at ha
      obtain ⟨⟨done, middle⟩, hstep, ⟨more, last⟩, hmore, heq⟩ := ha
      rw [Prod.mk.injEq] at heq
      obtain ⟨rfl, rfl⟩ := heq
      simp [feed, hstep, ih hmore]

/-- A text that is one word wherever a word may begin. -/
def Spells (t : List Char) (w : Word) : Prop := feed begin t = some ([], ⟨.none, some w⟩)

theorem words_join {spellings : List (List Char × Word)} (h : ∀ s ∈ spellings, Spells s.1 s.2) :
    words (List.intercalate [' '] (spellings.map Prod.fst)) = some (spellings.map Prod.snd) := by
  have hfeed : ∀ spellings : List (List Char × Word), spellings ≠ [] → (∀ s ∈ spellings, Spells s.1 s.2) →
      ∃ done last, feed begin (List.intercalate [' '] (spellings.map Prod.fst)) = some (done, ⟨.none, some last⟩) ∧
        done ++ [last] = spellings.map Prod.snd := by
    intro spellings hne hall
    induction spellings with
    | nil => exact absurd rfl hne
    | cons s rest ih =>
        have hs := hall s (List.mem_cons_self ..)
        cases rest with
        | nil =>
            refine ⟨[], s.2, ?_, rfl⟩
            rw [List.map_singleton, List.intercalate_singleton]
            exact hs
        | cons t rest =>
            obtain ⟨done, last, hdone, heq⟩ := ih (by simp) (fun u hu => hall u (List.mem_cons_of_mem _ hu))
            have hblank : feed ⟨.none, some s.2⟩ [' '] = some ([s.2], begin) := rfl
            refine ⟨s.2 :: done, last, ?_, by rw [List.cons_append, heq, ← List.map_cons]⟩
            rw [List.map_cons, List.map_cons, List.intercalate_cons_cons, ← List.map_cons]
            have hboth := feed_append hs (feed_append hblank hdone)
            simpa using hboth
  cases spellings with
  | nil => rfl
  | cons s rest =>
      obtain ⟨done, last, hdone, heq⟩ := hfeed (s :: rest) (by simp) h
      rw [words, hdone]
      simp [finish, heq]

def isNameStart (c : Char) : Bool := c.isAlpha || c == '_'

def isNameChar (c : Char) : Bool := c.isAlphanum || c == '_'

/-- A name as variables have it. -/
def IsName (name : List Char) : Prop := (∃ c ∈ name.head?, isNameStart c = true) ∧ ∀ c ∈ name, isNameChar c = true

instance (name : List Char) : Decidable (IsName name) :=
  decidable_of_iff ((name.head?.any isNameStart && name.all isNameChar) = true) (by simp [IsName, Option.any_eq_true])

/-- A word that sets a variable: an unquoted name and an unquoted equals sign
come before the value. -/
def assignment (w : Word) : Option (List Char × List Char) :=
  let name := w.takeWhile (fun l => l != plain '=')
  match w.drop name.length with
  | [] => none
  | _ :: value => if name.all (fun l => !l.quoted) ∧ IsName (text name) then some (text name, text value) else none

/-- Words that are no command of their own where a command is expected. -/
def reserved : List (List Char) :=
  ["case", "do", "done", "elif", "else", "esac", "fi", "for", "if", "in", "then", "until", "while",
    "coproc", "function", "select", "time"].map String.toList

def isReserved (w : Word) : Bool := w.all (fun l => !l.quoted) && reserved.contains (text w)

/-- What a simple command runs, and the variables it runs with. -/
structure Invocation where
  environment : List (List Char × List Char)
  arguments : List (List Char)
  deriving DecidableEq

def invocation : List Word → Option Invocation
  | [] => some ⟨[], []⟩
  | w :: ws =>
      match assignment w with
      | some binding => (invocation ws).map (fun i => { i with environment := binding :: i.environment })
      | none => if isReserved w then none else some ⟨[], (w :: ws).map text⟩

def runs (line : List Char) : Option Invocation := (words line).bind invocation

theorem plain_injective {c d : Char} (h : plain c = plain d) : c = d := congrArg Letter.char h

theorem assignment_binding {name : List Char} (hname : IsName name) {value : Word} :
    assignment (name.map plain ++ plain '=' :: value) = some (name, text value) := by
  have hne : ∀ l ∈ name.map plain, (l != plain '=') = true := by
    intro l hl
    obtain ⟨c, hc, rfl⟩ := List.mem_map.mp hl
    rw [bne_iff_ne]
    intro heq
    have hchar := hname.2 c hc
    rw [plain_injective heq] at hchar
    exact absurd hchar (by decide)
  have htake : (name.map plain ++ plain '=' :: value).takeWhile (fun l => l != plain '=') = name.map plain := by
    rw [List.takeWhile_append_of_pos hne, List.takeWhile_cons_of_neg (by simp), List.append_nil]
  have htext : text (name.map plain) = name := by
    simp [text, plain, Function.comp_def]
  have hquoted : (name.map plain).all (fun l => !l.quoted) = true := by
    simp [plain]
  rw [assignment, htake, List.drop_left, htext]
  simp [hquoted, hname]

theorem invocation_bindings (bindings : List (List Char × Word)) (hnames : ∀ b ∈ bindings, IsName b.1)
    (ws : List Word) :
    invocation (bindings.map (fun b => b.1.map plain ++ plain '=' :: b.2) ++ ws) =
      (invocation ws).map
      (fun i => { i with environment := bindings.map (fun b => (b.1, text b.2)) ++ i.environment }) := by
  induction bindings with
  | nil => simp
  | cons b bindings ih =>
      rw [List.map_cons, List.cons_append, invocation, assignment_binding (hnames b (List.mem_cons_self ..))]
      dsimp only
      rw [ih (fun c hc => hnames c (List.mem_cons_of_mem _ hc)), Option.map_map]
      rfl

theorem assignment_eq_none {w : Word} (h : ∀ l ∈ w, l ≠ plain '=') : assignment w = none := by
  have hall : ∀ l ∈ w, (l != plain '=') = true := fun l hl => bne_iff_ne.mpr (h l hl)
  have htake : w.takeWhile (fun l => l != plain '=') = w := List.takeWhile_eq_self_iff.mpr hall
  rw [assignment, htake, List.drop_length]

/-- The characters that need no quotes anywhere in a word. -/
def isSafe (c : Char) : Bool := c.isAlphanum || "_@%+=:,./-".toList.contains c

/-- Single quotes around the text, and each single quote of the text between
double quotes of its own. -/
def quote (s : List Char) : List Char :=
  if s ≠ [] ∧ s.all isSafe then s
  else '\'' :: (s.flatMap (fun c => if c = '\'' then "'\"'\"'".toList else [c]) ++ ['\''])

def spelling (s : List Char) : Word := if s ≠ [] ∧ s.all isSafe then s.map plain else s.map literal

@[simp] theorem text_spelling (s : List Char) : text (spelling s) = s := by
  rw [spelling]
  split <;> simp [text, plain, literal, Function.comp_def]

theorem feed_cons {r s t : Reader} {c : Char} {cs : List Char} {xs : List Word} (hstep : step r c = some ([], s))
    (hrest : feed s cs = some (xs, t)) : feed r (c :: cs) = some (xs, t) := by
  simp [feed, hstep, hrest]

theorem step_safe {c : Char} (h : isSafe c = true) (w : Option Word) :
    step ⟨.none, w⟩ c = some ([], ⟨.none, some (w.getD [] ++ [plain c])⟩) := by
  have hne : ∀ d : Char, isSafe d = false → c ≠ d := fun d hd heq => Bool.false_ne_true (hd.symm.trans (heq ▸ h))
  have hblank : isBlank c = false := by simp [isBlank, hne ' ' rfl, hne '\t' rfl]
  have hspecial : c ∉ special := by
    intro hmem
    have hall : special.all (fun d => !isSafe d) = true := by decide
    have hunsafe := List.all_eq_true.mp hall c hmem
    rw [h] at hunsafe
    cases hunsafe
  rw [step]
  dsimp only
  rw [hblank, if_neg Bool.false_ne_true, if_neg (hne _ rfl), if_neg (hne _ rfl), if_neg (hne _ rfl), if_neg hspecial]
  rfl

theorem feed_safe {s : List Char} (h : ∀ c ∈ s, isSafe c = true) (w : Word) :
    feed ⟨.none, some w⟩ s = some ([], ⟨.none, some (w ++ s.map plain)⟩) := by
  induction s generalizing w with
  | nil => simp [feed]
  | cons c s ih =>
      refine feed_cons (step_safe (h c (List.mem_cons_self ..)) (some w)) ?_
      rw [ih (fun d hd => h d (List.mem_cons_of_mem _ hd))]
      simp

/-- Within single quotes, a text whose single quotes are replaced stands for
itself. -/
theorem feed_replaced (s : List Char) (w : Word) :
    feed ⟨.single, some w⟩ (s.flatMap (fun c => if c = '\'' then "'\"'\"'".toList else [c])) =
      some ([], ⟨.single, some (w ++ s.map literal)⟩) := by
  induction s generalizing w with
  | nil => simp [feed]
  | cons c s ih =>
      rw [List.flatMap_cons]
      by_cases hc : c = '\''
      · have hquote : feed ⟨.single, some w⟩ "'\"'\"'".toList = some ([], ⟨.single, some (w ++ [literal '\''])⟩) := by
          simp [feed, step, Reader.put, isBlank, expands]
        rw [if_pos hc, feed_append hquote (ih _)]
        simp [hc]
      · have hstep : step ⟨.single, some w⟩ c = some ([], ⟨.single, some (w ++ [literal c])⟩) := by
          simp [step, hc, Reader.put]
        rw [if_neg hc, List.singleton_append, feed_cons hstep (ih _)]
        simp

theorem feed_quote (s : List Char) (w : Option Word) :
    feed ⟨.none, w⟩ (quote s) = some ([], ⟨.none, some (w.getD [] ++ spelling s)⟩) := by
  rw [quote, spelling]
  by_cases hs : s ≠ [] ∧ s.all isSafe
  · rw [if_pos hs, if_pos hs]
    have hall := List.all_eq_true.mp hs.2
    cases s with
    | nil => exact absurd rfl hs.1
    | cons c s =>
        refine feed_cons (step_safe (hall c (List.mem_cons_self ..)) w) ?_
        rw [feed_safe (fun d hd => hall d (List.mem_cons_of_mem _ hd))]
        simp
  · rw [if_neg hs, if_neg hs]
    have hopen : step ⟨.none, w⟩ '\'' = some ([], ⟨.single, some (w.getD [])⟩) := by
      simp [step, isBlank, Reader.put]
    have hclose : feed ⟨.single, some (w.getD [] ++ s.map literal)⟩ ['\''] =
        some ([], ⟨.none, some (w.getD [] ++ s.map literal)⟩) := by
      simp [feed, step, Reader.put]
    exact feed_cons hopen (feed_append (feed_replaced s _) hclose)

theorem spells_quote (s : List Char) : Spells (quote s) (spelling s) := by
  rw [Spells, begin, feed_quote]
  rfl

/-- A name that is set to a quoted text. -/
theorem spells_binding {name : List Char} (hname : IsName name) (value : List Char) :
    Spells (name ++ '=' :: quote value) (name.map plain ++ plain '=' :: spelling value) := by
  have hsafe : ∀ c ∈ name, isSafe c = true := by
    intro c hc
    have hchar := hname.2 c hc
    rw [isNameChar, Bool.or_eq_true, beq_iff_eq] at hchar
    rcases hchar with halnum | rfl
    · rw [isSafe, halnum, Bool.true_or]
    · rfl
  cases name with
  | nil => obtain ⟨c, hc, -⟩ := hname.1; cases hc
  | cons c name =>
      refine feed_cons (step_safe (hsafe c (List.mem_cons_self ..)) none) ?_
      have hrest := feed_safe (fun d hd => hsafe d (List.mem_cons_of_mem _ hd)) [plain c]
      refine feed_append hrest (feed_cons (step_safe rfl _) ?_)
      rw [feed_quote]
      simp

def join (parts : List (List Char)) : List Char := List.intercalate [' '] (parts.map quote)

/-- A command line of assignments and quoted arguments sets these variables and
runs these arguments, whatever characters the values and arguments have. -/
theorem runs_command {bindings : List (List Char × List Char)} (hnames : ∀ b ∈ bindings, IsName b.1)
    {command : List Char} {arguments : List (List Char)} (hcommand : '=' ∉ command) (hreserved : command ∉ reserved) :
    runs (List.intercalate [' ']
      (bindings.map (fun b => b.1 ++ '=' :: quote b.2) ++ (command :: arguments).map quote)) =
      some ⟨bindings, command :: arguments⟩ := by
  have hspell := @words_join
    (bindings.map (fun b => (b.1 ++ '=' :: quote b.2, b.1.map plain ++ plain '=' :: spelling b.2)) ++
      (command :: arguments).map (fun a => (quote a, spelling a)))
    (by
      intro s hs
      rcases List.mem_append.mp hs with hs | hs
      · obtain ⟨b, hb, rfl⟩ := List.mem_map.mp hs
        exact spells_binding (hnames b hb) b.2
      · obtain ⟨a, -, rfl⟩ := List.mem_map.mp hs
        exact spells_quote a)
  simp only [List.map_append, List.map_map, Function.comp_def] at hspell
  rw [runs, hspell, Option.bind_some]
  have hassignment : assignment (spelling command) = none := by
    apply assignment_eq_none
    rw [spelling]
    split
    · intro l hl heq
      obtain ⟨c, hc, rfl⟩ := List.mem_map.mp hl
      exact hcommand (plain_injective heq ▸ hc)
    · intro l hl heq
      obtain ⟨c, hc, rfl⟩ := List.mem_map.mp hl
      exact Bool.false_ne_true (congrArg Letter.quoted heq).symm
  have hword : isReserved (spelling command) = false := by
    rw [isReserved, text_spelling, Bool.and_eq_false_iff]
    exact .inr (by simpa using hreserved)
  have htail : invocation (List.map (fun a => spelling a) (command :: arguments)) =
      some ⟨[], command :: arguments⟩ := by
    rw [List.map_cons, invocation, hassignment]
    dsimp only
    rw [hword, if_neg Bool.false_ne_true]
    simp [Function.comp_def]
  have hall := invocation_bindings (bindings.map (fun b => (b.1, spelling b.2)))
    (by
      intro b hb
      obtain ⟨c, hc, rfl⟩ := List.mem_map.mp hb
      exact hnames c hc)
    (List.map (fun a => spelling a) (command :: arguments))
  rw [List.map_map, htail, Option.map_some] at hall
  simpa [Function.comp_def] using hall

end BorgManager.ShellWords
