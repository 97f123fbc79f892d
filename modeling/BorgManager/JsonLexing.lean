import BorgManager.JsonGrammar
import Mathlib.Data.List.TakeWhile

namespace BorgManager.JsonLexing

open JsonGrammar

/-- No numeral goes on into the text. -/
def Stops (r : List Char) : Prop := ∀ c ∈ r.head?, isNumeralChar c = false

theorem stops_cons {c : Char} {r : List Char} (h : isNumeralChar c = false) : Stops (c :: r) := by
  intro d hd
  cases hd
  exact h

theorem isNumeralChar_blank {c : Char} (h : isBlank c = true) : isNumeralChar c = false := by
  simp only [isBlank, Bool.or_eq_true, beq_iff_eq] at h
  rcases h with ((rfl | rfl) | rfl) | rfl <;> rfl

theorem stops_blanks {b r : List Char} (hb : ∀ c ∈ b, isBlank c = true) (hr : Stops r) : Stops (b ++ r) := by
  cases b with
  | nil => exact hr
  | cons c b => exact stops_cons (isNumeralChar_blank (hb c (List.mem_cons_self ..)))

/-- The blanks before an item may be followed by anything that begins with it. -/
theorem skip_move {t s rest : List Char} (h : skip t = s ++ rest) (hs : s ≠ []) :
    ∃ b, (∀ c ∈ b, isBlank c = true) ∧ t = b ++ (s ++ rest) ∧ ∀ r, skip (b ++ (s ++ r)) = s ++ r := by
  have hblank : ∀ c ∈ t.takeWhile isBlank, isBlank c = true := fun c hc => List.mem_takeWhile_imp hc
  refine ⟨t.takeWhile isBlank, hblank, ?_, fun r => ?_⟩
  · rw [← h]
    exact List.takeWhile_append_dropWhile.symm
  · obtain ⟨c, s', rfl⟩ := List.exists_cons_of_ne_nil hs
    have hc : isBlank c = false := by
      have hhead := List.head?_dropWhile_not isBlank t
      rw [← skip, h] at hhead
      exact hhead
    rw [skip, List.dropWhile_append_of_pos hblank, List.cons_append, List.dropWhile_cons_of_neg (by simp [hc])]

theorem skip_cons_move {t rest : List Char} {c : Char} (h : skip t = c :: rest) :
    ∃ b, (∀ c ∈ b, isBlank c = true) ∧ t = b ++ c :: rest ∧ ∀ r, skip (b ++ c :: r) = c :: r := by
  obtain ⟨b, hb, ht, hskip⟩ := @skip_move t [c] rest h (List.cons_ne_nil _ _)
  exact ⟨b, hb, ht, hskip⟩

theorem readString_move {mode : Mode} {t rest : List Char} {key : Key} (h : readString mode t = some (key, rest)) :
    ∃ s, t = s ++ rest ∧ ∀ r, readString mode (s ++ r) = some (key, r) := by
  induction t generalizing mode key with
  | nil => cases mode <;> cases h
  | cons c t ih =>
      cases mode with
      | plain =>
          rw [readString] at h
          split at h
          · next hc =>
              cases h
              exact ⟨[c], rfl, fun r => by rw [List.singleton_append, readString, if_pos hc]⟩
          next hquote =>
          split at h
          · next hback =>
              obtain ⟨s, hs, hmove⟩ := ih h
              refine ⟨c :: s, by rw [hs, List.cons_append], fun r => ?_⟩
              rw [List.cons_append, readString, if_neg hquote, if_pos hback, hmove]
          next hback =>
          split at h
          · cases h
          · next hcontrol =>
              obtain ⟨⟨k, r'⟩, hr, heq⟩ := Option.map_eq_some_iff.mp h
              cases heq
              obtain ⟨s, hs, hmove⟩ := ih hr
              refine ⟨c :: s, by rw [hs, List.cons_append], fun r => ?_⟩
              rw [List.cons_append, readString, if_neg hquote, if_neg hback, if_neg hcontrol, hmove, Option.map_some]
      | escaped =>
          rw [readString] at h
          split at h
          · next hu =>
              obtain ⟨s, hs, hmove⟩ := ih h
              refine ⟨c :: s, by rw [hs, List.cons_append], fun r => ?_⟩
              rw [List.cons_append, readString, if_pos hu, hmove]
          next hu =>
          split at h
          · next n hn =>
              obtain ⟨⟨k, r'⟩, hr, heq⟩ := Option.map_eq_some_iff.mp h
              cases heq
              obtain ⟨s, hs, hmove⟩ := ih hr
              refine ⟨c :: s, by rw [hs, List.cons_append], fun r => ?_⟩
              rw [List.cons_append, readString, if_neg hu, hn]
              dsimp only
              rw [hmove, Option.map_some]
          · cases h
      | hex missing value =>
          rw [readString] at h
          split at h
          · next d hd =>
              split at h
              · next hone =>
                  obtain ⟨⟨k, r'⟩, hr, heq⟩ := Option.map_eq_some_iff.mp h
                  cases heq
                  obtain ⟨s, hs, hmove⟩ := ih hr
                  refine ⟨c :: s, by rw [hs, List.cons_append], fun r => ?_⟩
                  rw [List.cons_append, readString, hd]
                  dsimp only
                  rw [if_pos hone, hmove, Option.map_some]
              · next hmore =>
                  obtain ⟨s, hs, hmove⟩ := ih h
                  refine ⟨c :: s, by rw [hs, List.cons_append], fun r => ?_⟩
                  rw [List.cons_append, readString, hd]
                  dsimp only
                  rw [if_neg hmore, hmove]
          · cases h

/-- A text of which the rest may be replaced, unless a numeral would go on into it. -/
def Closed : Item → Prop
  | .value (.obj _) | .value (.arr _) | .elements _ | .members _ => True
  | .value _ => False

theorem numeral_scalar {token : List Char} {v : Value} (h : numeral token = some v) : ¬ Closed (.value v) := by
  rw [numeral] at h
  generalize (if token.head? = some '-' then token.tail else token) = magnitude at h
  by_cases hzero : magnitude.takeWhile Char.isDigit = [] ∨
      ((magnitude.takeWhile Char.isDigit).head? = some '0' ∧ magnitude.takeWhile Char.isDigit ≠ ['0'])
  · rw [if_pos hzero] at h
    cases h
  rw [if_neg hzero] at h
  by_cases hwhole : magnitude.dropWhile Char.isDigit = []
  · rw [if_pos hwhole] at h
    cases h
    exact id
  rw [if_neg hwhole] at h
  obtain ⟨-, heq⟩ := Option.ite_none_right_eq_some.mp h
  cases heq
  exact id

theorem readScalar_move {text rest : List Char} {v : Value} (h : readScalar text = some (v, rest)) :
    ¬ Closed (.value v) ∧ ∃ s, s ≠ [] ∧ text = s ++ rest ∧ (∀ c ∈ s, c ≠ '"' ∧ c ≠ '\\' ∧ c ≠ '{' ∧ c ≠ '}') ∧
      ∀ r, Stops r → readScalar (s ++ r) = some (v, r) := by
  rw [readScalar] at h
  split at h
  · next result hnumeral =>
      cases h
      obtain ⟨v', hv, heq⟩ := Option.map_eq_some_iff.mp hnumeral
      cases heq
      have hchars : ∀ c ∈ text.takeWhile isNumeralChar, isNumeralChar c = true := fun c hc => List.mem_takeWhile_imp hc
      refine ⟨numeral_scalar hv, text.takeWhile isNumeralChar, ?_, List.takeWhile_append_dropWhile.symm, ?_, ?_⟩
      · intro hnil
        rw [hnil] at hv
        cases hv
      · intro c hc
        have hnumeralChar := hchars c hc
        refine ⟨?_, ?_, ?_, ?_⟩ <;> rintro rfl <;> cases hnumeralChar
      · intro r hr
        have htake : (text.takeWhile isNumeralChar ++ r).takeWhile isNumeralChar = text.takeWhile isNumeralChar := by
          rw [List.takeWhile_append_of_pos hchars]
          cases r with
          | nil => rw [List.takeWhile_nil, List.append_nil]
          | cons c r => rw [List.takeWhile_cons_of_neg (by rw [hr c rfl]; exact Bool.false_ne_true), List.append_nil]
        have hdrop : (text.takeWhile isNumeralChar ++ r).dropWhile isNumeralChar = r := by
          rw [List.dropWhile_append_of_pos hchars]
          cases r with
          | nil => rfl
          | cons c r => exact List.dropWhile_cons_of_neg (by rw [hr c rfl]; exact Bool.false_ne_true)
        rw [readScalar, readNumeral, htake, hdrop, hv]
        rfl
  · next hnone =>
      obtain ⟨word, hword, h⟩ := List.exists_of_findSome?_eq_some h
      obtain ⟨r, hr, heq⟩ := Option.map_eq_some_iff.mp h
      cases heq
      have htext : text = word.1 ++ rest := Numerals.isPrefixOf?_eq_some.mp hr
      simp only [literals, List.mem_cons, List.not_mem_nil, or_false] at hword
      rcases hword with rfl | rfl | rfl | rfl | rfl | rfl <;>
        exact ⟨id, _, List.cons_ne_nil _ _, htext, by simp, fun r _ => rfl⟩

/-- Of a closed item only its own text counts, and of the others what stops
their numeral. -/
theorem reads_move {text rest : List Char} {item : Item} (h : Reads text item rest) :
    ∃ t, t ≠ [] ∧ text = t ++ rest ∧ ∀ r, Closed item ∨ Stops r → Reads (t ++ r) item r := by
  induction h with
  | string h =>
      obtain ⟨s, rfl, hmove⟩ := readString_move h
      exact ⟨'"' :: s, List.cons_ne_nil _ _, rfl, fun r _ => .string (hmove r)⟩
  | scalar h =>
      obtain ⟨hopen, s, hs, rfl, -, hmove⟩ := readScalar_move h
      exact ⟨s, hs, rfl, fun r hr => .scalar (hmove r (hr.resolve_left hopen))⟩
  | emptyObject h =>
      obtain ⟨b, -, rfl, hmove⟩ := skip_cons_move h
      exact ⟨'{' :: (b ++ ['}']), List.cons_ne_nil _ _, by simp, fun r _ => by simpa using Reads.emptyObject (hmove r)⟩
  | @object t rest fields h ih =>
      obtain ⟨s, hs, heq, hmove⟩ := ih
      obtain ⟨b, -, ht, hskip⟩ := skip_move heq hs
      refine ⟨'{' :: (b ++ s), List.cons_ne_nil _ _, by rw [ht]; simp, fun r _ => ?_⟩
      have hobject := @Reads.object (b ++ (s ++ r)) r fields
      rw [hskip] at hobject
      simpa using hobject (hmove r (.inl trivial))
  | emptyArray h =>
      obtain ⟨b, -, rfl, hmove⟩ := skip_cons_move h
      exact ⟨'[' :: (b ++ [']']), List.cons_ne_nil _ _, by simp, fun r _ => by simpa using Reads.emptyArray (hmove r)⟩
  | @array t rest items h ih =>
      obtain ⟨s, hs, heq, hmove⟩ := ih
      obtain ⟨b, -, ht, hskip⟩ := skip_move heq hs
      refine ⟨'[' :: (b ++ s), List.cons_ne_nil _ _, by rw [ht]; simp, fun r _ => ?_⟩
      have harray := @Reads.array (b ++ (s ++ r)) r items
      rw [hskip] at harray
      simpa using harray (hmove r (.inl trivial))
  | lastElement h hend ih =>
      obtain ⟨s, hs, rfl, hmove⟩ := ih
      obtain ⟨b, hb, rfl, hskip⟩ := skip_cons_move hend
      refine ⟨s ++ (b ++ [']']), by simp, by simp, fun r _ => ?_⟩
      have hvalue := hmove (b ++ ']' :: r) (.inr (stops_blanks hb (stops_cons rfl)))
      simpa using Reads.lastElement hvalue (hskip r)
  | @nextElement text t t' rest v items h hcomma hrest ih ihrest =>
      obtain ⟨s, hs, rfl, hmove⟩ := ih
      obtain ⟨b, hb, rfl, hskip⟩ := skip_cons_move hcomma
      obtain ⟨s', hs', heq, hmove'⟩ := ihrest
      obtain ⟨b', -, rfl, hskip'⟩ := skip_move heq hs'
      refine ⟨s ++ (b ++ ',' :: (b' ++ s')), by simp, by simp, fun r _ => ?_⟩
      have hvalue := hmove (b ++ ',' :: (b' ++ (s' ++ r))) (.inr (stops_blanks hb (stops_cons rfl)))
      have hrest' := hmove' r (.inl trivial)
      rw [← hskip' r] at hrest'
      simpa using Reads.nextElement hvalue (hskip _) hrest'
  | @lastMember t t₁ t₂ t₃ rest key v hkey hcolon h hend ih =>
      obtain ⟨k, rfl, hstring⟩ := readString_move hkey
      obtain ⟨b, -, rfl, hskip⟩ := skip_cons_move hcolon
      obtain ⟨s, hs, heq, hmove⟩ := ih
      obtain ⟨b', -, rfl, hskip'⟩ := skip_move heq hs
      obtain ⟨b'', hb'', rfl, hskip''⟩ := skip_cons_move hend
      refine ⟨'"' :: (k ++ (b ++ ':' :: (b' ++ (s ++ (b'' ++ ['}']))))), List.cons_ne_nil _ _, by simp, fun r _ => ?_⟩
      have hvalue := hmove (b'' ++ '}' :: r) (.inr (stops_blanks hb'' (stops_cons rfl)))
      rw [← hskip' (b'' ++ '}' :: r)] at hvalue
      simpa using Reads.lastMember (hstring (b ++ ':' :: (b' ++ (s ++ (b'' ++ '}' :: r))))) (hskip _) hvalue (hskip'' r)
  | @nextMember t t₁ t₂ t₃ t₄ rest key v fields hkey hcolon h hcomma hrest ih ihrest =>
      obtain ⟨k, rfl, hstring⟩ := readString_move hkey
      obtain ⟨b, -, rfl, hskip⟩ := skip_cons_move hcolon
      obtain ⟨s, hs, heq, hmove⟩ := ih
      obtain ⟨b', -, rfl, hskip'⟩ := skip_move heq hs
      obtain ⟨b'', hb'', rfl, hskip''⟩ := skip_cons_move hcomma
      obtain ⟨s', hs', heq', hmove'⟩ := ihrest
      obtain ⟨b₃, -, rfl, hskip₃⟩ := skip_move heq' hs'
      refine ⟨'"' :: (k ++ (b ++ ':' :: (b' ++ (s ++ (b'' ++ ',' :: (b₃ ++ s')))))), List.cons_ne_nil _ _, by simp,
        fun r _ => ?_⟩
      have hvalue := hmove (b'' ++ ',' :: (b₃ ++ (s' ++ r))) (.inr (stops_blanks hb'' (stops_cons rfl)))
      rw [← hskip' (b'' ++ ',' :: (b₃ ++ (s' ++ r)))] at hvalue
      have hrest' := hmove' r (.inl trivial)
      rw [← hskip₃ r] at hrest'
      simpa using Reads.nextMember (hstring (b ++ ':' :: (b' ++ (s ++ (b'' ++ ',' :: (b₃ ++ (s' ++ r)))))))
        (hskip _) hvalue
        (hskip'' _) hrest'

/-- An object ends with its bracket. -/
theorem reads_closing {text rest : List Char} {item : Item} (h : Reads text item rest)
    (hitem : (∃ fields, item = .value (.obj fields)) ∨ ∃ fields, item = .members fields) : '}' :: rest <:+ text := by
  induction h with
  | string | emptyArray | array | lastElement | nextElement => rcases hitem with ⟨_, h⟩ | ⟨_, h⟩ <;> cases h
  | scalar h =>
      rcases hitem with ⟨fields, heq⟩ | ⟨fields, heq⟩
      · have hopen := (readScalar_move h).1
        rw [Item.value.inj heq] at hopen
        exact absurd trivial hopen
      · cases heq
  | emptyObject h => exact (h ▸ skip_suffix _).trans (List.suffix_cons ..)
  | object _ ih => exact ((ih (.inr ⟨_, rfl⟩)).trans (skip_suffix _)).trans (List.suffix_cons ..)
  | lastMember hkey hcolon h hend =>
      have hvalue := (hend ▸ skip_suffix _).trans (h.suffix.1.trans (skip_suffix _))
      exact ((hvalue.trans (skip_cons_suffix hcolon).1).trans (readString_suffix hkey).1).trans (List.suffix_cons ..)
  | nextMember hkey hcolon h hcomma _ _ ih =>
      have hmember := ((ih (.inr ⟨_, rfl⟩)).trans (skip_suffix _)).trans (skip_cons_suffix hcomma).1
      have hvalue := hmember.trans (h.suffix.1.trans (skip_suffix _))
      exact ((hvalue.trans (skip_cons_suffix hcolon).1).trans (readString_suffix hkey).1).trans (List.suffix_cons ..)

/-- Where a character stands: outside the strings of a document, in one of
them, or in one after a backslash. -/
inductive Phase
  | outside
  | inside
  | escaped
  deriving DecidableEq

def Phase.next : Phase → Char → Phase
  | .outside, c => if c = '"' then .inside else .outside
  | .inside, c => if c = '"' then .outside else if c = '\\' then .escaped else .inside
  | .escaped, _ => .inside

def after (phase : Phase) (text : List Char) : Phase := text.foldl Phase.next phase

/-- No word and no string follows at once. -/
def Follows (r : List Char) : Prop := ∀ c ∈ r.head?, c.isAlpha = false ∧ c ≠ '"'

/-- What the characters of a document have in common, by where they stand. -/
def Allowed (r : List Char) (c : Char) : Phase → Prop
  | .outside => c ≠ '\\'
  | .inside => c = '"' → Follows r
  | .escaped => c ≠ '{'

def Lexed : Phase → List Char → Prop
  | _, [] => True
  | phase, c :: r => Allowed r c phase ∧ Lexed (phase.next c) r

theorem Lexed.suffix {phase : Phase} {a b : List Char} (h : Lexed phase (a ++ b)) : Lexed (after phase a) b := by
  induction a generalizing phase with
  | nil => exact h
  | cons c a ih => exact ih h.2

theorem lexed_outside_append {s r : List Char} (hs : ∀ c ∈ s, c ≠ '"' ∧ c ≠ '\\') :
    Lexed .outside (s ++ r) ↔ Lexed .outside r := by
  induction s with
  | nil => rfl
  | cons c s ih =>
      obtain ⟨hquote, hback⟩ := hs c (List.mem_cons_self ..)
      rw [List.cons_append, Lexed, Phase.next, if_neg hquote, ih (fun d hd => hs d (List.mem_cons_of_mem _ hd))]
      exact and_iff_right hback

theorem lexed_inside_append {s r : List Char} (hs : ∀ c ∈ s, c ≠ '"' ∧ c ≠ '\\') :
    Lexed .inside (s ++ r) ↔ Lexed .inside r := by
  induction s with
  | nil => rfl
  | cons c s ih =>
      obtain ⟨hquote, hback⟩ := hs c (List.mem_cons_self ..)
      rw [List.cons_append, Lexed, Phase.next, if_neg hquote, if_neg hback,
        ih (fun d hd => hs d (List.mem_cons_of_mem _ hd))]
      exact and_iff_right (fun h => absurd h hquote)

theorem blank_plain {b : List Char} (hb : ∀ c ∈ b, isBlank c = true) : ∀ c ∈ b, c ≠ '"' ∧ c ≠ '\\' := by
  intro c hc
  have hblank := hb c hc
  constructor <;> rintro rfl <;> cases hblank

theorem skip_append (t : List Char) : ∃ b, (∀ c ∈ b, isBlank c = true) ∧ t = b ++ skip t :=
  ⟨t.takeWhile isBlank, fun _ hc => List.mem_takeWhile_imp hc, List.takeWhile_append_dropWhile.symm⟩

theorem lexed_outside_skip {t : List Char} : Lexed .outside (skip t) ↔ Lexed .outside t := by
  obtain ⟨b, hb, ht⟩ := skip_append t
  have happend := lexed_outside_append (r := skip t) (blank_plain hb)
  rwa [← ht, iff_comm] at happend

theorem lexed_inside_skip {t : List Char} : Lexed .inside (skip t) ↔ Lexed .inside t := by
  obtain ⟨b, hb, ht⟩ := skip_append t
  have happend := lexed_inside_append (r := skip t) (blank_plain hb)
  rwa [← ht, iff_comm] at happend

theorem follows_blanks {b r : List Char} {c : Char} (hb : ∀ d ∈ b, isBlank d = true)
    (hc : c.isAlpha = false ∧ c ≠ '"') : Follows (b ++ c :: r) := by
  intro d hd
  cases b with
  | nil =>
      cases hd
      exact hc
  | cons e b =>
      cases hd
      have hblank := hb d (List.mem_cons_self ..)
      simp only [isBlank, Bool.or_eq_true, beq_iff_eq] at hblank
      rcases hblank with ((rfl | rfl) | rfl) | rfl <;> decide

theorem follows_of_skip {t rest : List Char} {c : Char} (h : skip t = c :: rest) (hc : c.isAlpha = false ∧ c ≠ '"') :
    Follows t := by
  obtain ⟨b, hb, rfl, -⟩ := skip_cons_move h
  exact follows_blanks hb hc

theorem hexValue_plain {c : Char} {d : Nat} (h : hexValue c = some d) : c ≠ '"' ∧ c ≠ '\\' := by
  constructor <;> rintro rfl <;> cases h

/-- Where a reader of a string stands in the document. -/
def phaseOf : Mode → Phase
  | .escaped => .escaped
  | .plain | .hex _ _ => .inside

theorem lexed_readString {mode : Mode} {t rest : List Char} {key : Key} (h : readString mode t = some (key, rest))
    (hrest : Lexed .outside rest) (hfollows : Follows rest) : Lexed (phaseOf mode) t := by
  induction t generalizing mode key with
  | nil => cases mode <;> cases h
  | cons c t ih =>
      have hmap {m : Mode} {n : Nat} (h : (readString m t).map (fun r => (n :: r.1, r.2)) = some (key, rest)) :
          Lexed (phaseOf m) t := by
        obtain ⟨⟨k, r⟩, hr, heq⟩ := Option.map_eq_some_iff.mp h
        cases heq
        exact ih hr
      cases mode with
      | plain =>
          rw [readString] at h
          split at h
          · next hc =>
              cases h
              refine ⟨fun _ => hfollows, ?_⟩
              rw [hc]
              exact hrest
          next hquote =>
          refine ⟨fun hc => absurd hc hquote, ?_⟩
          split at h
          · next hback =>
              rw [hback]
              exact ih h
          next hback =>
          split at h
          · cases h
          · rw [phaseOf, Phase.next, if_neg hquote, if_neg hback]
            exact hmap h
      | escaped =>
          rw [readString] at h
          split at h
          · next hu =>
              rw [hu]
              exact ⟨show 'u' ≠ '{' by decide, ih h⟩
          split at h
          · next n hn =>
              refine ⟨?_, hmap h⟩
              rintro rfl
              cases hn
          · cases h
      | hex missing value =>
          rw [readString] at h
          split at h
          · next d hd =>
              obtain ⟨hquote, hback⟩ := hexValue_plain hd
              refine ⟨fun hc => absurd hc hquote, ?_⟩
              rw [phaseOf, Phase.next, if_neg hquote, if_neg hback]
              split at h
              · exact hmap h
              · exact ih h
          · cases h

/-- The characters of a document are where the grammar allows them. -/
theorem reads_lexed {text rest : List Char} {item : Item} (h : Reads text item rest) (hrest : Lexed .outside rest)
    (hfollows : Closed item ∨ Follows rest) : Lexed .outside text := by
  have hcons {c : Char} {t : List Char} (hc : c ≠ '"' ∧ c ≠ '\\') (ht : Lexed .outside t) : Lexed .outside (c :: t) :=
    (lexed_outside_append (s := [c]) (by simpa using hc)).mpr ht
  have hskip {c : Char} {t rest : List Char} (hc : c ≠ '"' ∧ c ≠ '\\') (h : skip t = c :: rest)
      (hrest : Lexed .outside rest) : Lexed .outside t := by
    rw [← lexed_outside_skip, h]
    exact hcons hc hrest
  have hstring {t rest : List Char} {key : Key} (h : readString .plain t = some (key, rest))
    (hrest : Lexed .outside rest)
      (hfollows : Follows rest) : Lexed .outside ('"' :: t) :=
    ⟨show '"' ≠ '\\' by decide, lexed_readString h hrest hfollows⟩
  induction h with
  | string h => exact hstring h hrest (hfollows.resolve_left id)
  | scalar h =>
      obtain ⟨-, s, -, rfl, hs, -⟩ := readScalar_move h
      exact (lexed_outside_append (fun c hc => ⟨(hs c hc).1, (hs c hc).2.1⟩)).mpr hrest
  | emptyObject h | emptyArray h => exact hcons (by decide) (hskip (by decide) h hrest)
  | object _ ih | array _ ih => exact hcons (by decide) (lexed_outside_skip.mp (ih hrest (.inl trivial)))
  | lastElement _ hend ih =>
      exact ih (hskip (by decide) hend hrest) (.inr (follows_of_skip hend (by decide)))
  | nextElement _ hcomma _ ih ihrest =>
      have hmore := lexed_outside_skip.mp (ihrest hrest (.inl trivial))
      exact ih (hskip (by decide) hcomma hmore) (.inr (follows_of_skip hcomma (by decide)))
  | lastMember hkey hcolon _ hend ih =>
      have hvalue := ih (hskip (by decide) hend hrest) (.inr (follows_of_skip hend (by decide)))
      have hcolons := hskip (by decide) hcolon (lexed_outside_skip.mp hvalue)
      exact hstring hkey hcolons (follows_of_skip hcolon (by decide))
  | nextMember hkey hcolon _ hcomma _ ih ihrest =>
      have hmore := lexed_outside_skip.mp (ihrest hrest (.inl trivial))
      have hvalue := ih (hskip (by decide) hcomma hmore) (.inr (follows_of_skip hcomma (by decide)))
      have hcolons := hskip (by decide) hcolon (lexed_outside_skip.mp hvalue)
      exact hstring hkey hcolons (follows_of_skip hcolon (by decide))

/-- A key that no word begins. -/
def Wordless (key : Key) : Prop := ∀ c : Char, key.head? = some c.toNat → c.isAlpha = false

theorem head?_joinSurrogates {c : Char} {key : Key} (h : key.head? = some c.toNat) :
    (joinSurrogates key).head? = some c.toNat := by
  cases key with
  | nil => cases h
  | cons n key =>
      rw [List.head?_cons, Option.some.injEq] at h
      subst h
      cases key with
      | nil => rfl
      | cons low key =>
          have hchar : isHigh c.toNat = false := by
            have hvalid : c.toNat < 0xD800 ∨ (0xDFFF < c.toNat ∧ c.toNat < 0x110000) := c.valid
            rw [isHigh, decide_eq_false_iff_not]
            omega
          rw [joinSurrogates, if_neg (by simp [hchar])]
          rfl

/-- A string that is opened by a closing quote. -/
theorem shifted_string {t rest : List Char} {key : Key} (h : readString .plain t = some (key, rest))
    (hlex : Lexed .outside t) : Lexed .inside rest ∧ ∀ c, t.head? = some c → c ≠ '"' → key.head? = some c.toNat := by
  induction t generalizing key with
  | nil => cases h
  | cons c t ih =>
      rw [readString] at h
      split at h
      · next hc =>
          cases h
          have hrest := hlex.2
          rw [hc] at hrest
          refine ⟨hrest, fun d hd hne => ?_⟩
          cases hd
          exact absurd hc hne
      next hquote =>
      split at h
      · next hback => exact absurd hback hlex.1
      split at h
      · cases h
      obtain ⟨⟨k, r⟩, hr, heq⟩ := Option.map_eq_some_iff.mp h
      cases heq
      have hnext := hlex.2
      rw [Phase.next, if_neg hquote] at hnext
      refine ⟨(ih hr hnext).1, fun d hd _ => ?_⟩
      cases hd
      rfl

/-- The fields that an item names at its top. -/
def fieldsOf : Item → List (Key × Value)
  | .value (.obj fields) | .members fields => fields
  | .value _ | .elements _ => []

/-- What is read from the middle of a string has no words for keys: its strings
are what stands between the strings of the document. -/
theorem reads_shifted {text rest : List Char} {item : Item} (h : Reads text item rest) (hlex : Lexed .inside text) :
    Lexed .inside rest ∧ ∀ f ∈ fieldsOf item, Wordless f.1 := by
  have htail {c : Char} {t : List Char} (hc : c ≠ '"' ∧ c ≠ '\\') (h : Lexed .inside (c :: t)) : Lexed .inside t :=
    (lexed_inside_append (s := [c]) (by simpa using hc)).mp h
  have hskip {c : Char} {t rest : List Char} (hc : c ≠ '"' ∧ c ≠ '\\') (h : skip t = c :: rest)
      (ht : Lexed .inside t) : Lexed .inside rest := by
    rw [← lexed_inside_skip, h] at ht
    exact htail hc ht
  have hstring {t rest : List Char} {key : Key} (h : readString .plain t = some (key, rest))
      (ht : Lexed .inside ('"' :: t)) : Lexed .inside rest ∧ Wordless (joinSurrogates key) := by
    have hopened := shifted_string h ht.2
    refine ⟨hopened.1, fun c hc => ?_⟩
    have hfollows : Follows t := ht.1 rfl
    cases t with
    | nil => cases h
    | cons d t =>
        have hd := hfollows d rfl
        have hhead := head?_joinSurrogates (hopened.2 d rfl hd.2)
        rw [hhead, Option.some.injEq] at hc
        rw [← Char.toNat_inj.mp hc]
        exact hd.1
  induction h with
  | string h => exact ⟨(hstring h hlex).1, by simp [fieldsOf]⟩
  | @scalar text rest v h =>
      obtain ⟨hopen, s, -, rfl, hs, -⟩ := readScalar_move h
      refine ⟨(lexed_inside_append (fun c hc => ⟨(hs c hc).1, (hs c hc).2.1⟩)).mp hlex, ?_⟩
      cases v with
      | obj fields => exact absurd trivial hopen
      | null | bool | int | float | str | arr => simp [fieldsOf]
  | emptyObject h | emptyArray h => exact ⟨hskip (by decide) h (htail (by decide) hlex), by simp [fieldsOf]⟩
  | object _ ih => exact ih (lexed_inside_skip.mpr (htail (by decide) hlex))
  | array _ ih =>
      have helements := ih (lexed_inside_skip.mpr (htail (by decide) hlex))
      exact ⟨helements.1, by simp [fieldsOf]⟩
  | lastElement _ hend ih => exact ⟨hskip (by decide) hend (ih hlex).1, by simp [fieldsOf]⟩
  | nextElement _ hcomma _ ih ihrest =>
      have hmore := hskip (by decide) hcomma (ih hlex).1
      exact ⟨(ihrest (lexed_inside_skip.mpr hmore)).1, by simp [fieldsOf]⟩
  | lastMember hkey hcolon _ hend ih =>
      obtain ⟨hcolons, hwordless⟩ := hstring hkey hlex
      have hvalue := ih (lexed_inside_skip.mpr (hskip (by decide) hcolon hcolons))
      refine ⟨hskip (by decide) hend hvalue.1, fun f hf => ?_⟩
      rw [List.mem_singleton.mp hf]
      exact hwordless
  | nextMember hkey hcolon _ hcomma _ ih ihrest =>
      obtain ⟨hcolons, hwordless⟩ := hstring hkey hlex
      have hvalue := ih (lexed_inside_skip.mpr (hskip (by decide) hcolon hcolons))
      have hmore := ihrest (lexed_inside_skip.mpr (hskip (by decide) hcomma hvalue.1))
      refine ⟨hmore.1, fun f hf => ?_⟩
      rcases List.mem_cons.mp hf with rfl | hf
      · exact hwordless
      · exact hmore.2 f hf

/-- An object is nowhere in a document but outside its strings, unless no word
is among its keys. -/
theorem object_outside {a x rest : List Char} {d : Value} {fields : List (Key × Value)}
    (hdocument : Reads (a ++ x) (.value d) []) (hobject : Reads x (.value (.obj fields)) rest)
    (hword : ∃ f ∈ fields, ¬ Wordless f.1) : after .outside a = .outside := by
  have hlex := (reads_lexed hdocument trivial (.inr (by rintro _ ⟨⟩))).suffix
  obtain ⟨f, hf, hword⟩ := hword
  cases hphase : after .outside a with
  | outside => rfl
  | inside =>
      rw [hphase] at hlex
      exact absurd ((reads_shifted hobject hlex).2 f hf) hword
  | escaped =>
      rw [hphase] at hlex
      cases hobject with
      | emptyObject | object => exact absurd rfl hlex.1
      | scalar h => exact absurd trivial (readScalar_move h).1

end BorgManager.JsonLexing
