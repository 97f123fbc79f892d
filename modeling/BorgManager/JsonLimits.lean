import BorgManager.JsonGrammar

namespace BorgManager.JsonLimits

open JsonGrammar

/-- How a decoder refuses a text: it is no document, or an integer in it is too
long or its nesting too deep for the interpreter. -/
inductive Refusal
  | malformed
  | limit
deriving DecidableEq

/-- `int` refuses longer texts. -/
def maxStrDigits : Nat := 4300

/-- A number goes on with a fraction or an exponent after its first digits. -/
def goesOn : List Char → Bool
  | [] => false
  | c :: text =>
      if c = '.' then (text.head?.map Char.isDigit).getD false
      else if c = 'e' ∨ c = 'E' then
        ((if text.head? = some '+' ∨ text.head? = some '-' then text.tail else text).head?.map Char.isDigit).getD false
      else false

/-- The text begins with an integer that `int` refuses. -/
def longInteger (text : List Char) : Bool :=
  let magnitude := if text.head? = some '-' then text.tail else text
  decide (maxStrDigits < (magnitude.takeWhile Char.isDigit).length) && magnitude.head? != some '0' &&
    !goesOn (magnitude.dropWhile Char.isDigit)

def scanScalar (text : List Char) : Except Refusal (Value × List Char) :=
  if longInteger text then .error .limit
  else
    match readScalar text with
    | some result => .ok result
    | none => .error .malformed

mutual

/-- `scan_once`, with a bound for the steps and the calls that the interpreter
still has room for: one for each array and object. -/
def scanOnce : Nat → Nat → List Char → Except Refusal (Value × List Char)
  | 0, _, _ => .error .malformed
  | _ + 1, _, [] => .error .malformed
  | n + 1, room, c :: t =>
      if c = '"' then
        match readString .plain t with
        | some (key, rest) => .ok (.str (joinSurrogates key), rest)
        | none => .error .malformed
      else if c = '{' then
        if room = 0 then .error .limit
        else if (skip t).head? = some '}' then .ok (.obj [], (skip t).tail)
        else (scanMembers n (room - 1) (skip t)).map (fun r => (.obj r.1, r.2))
      else if c = '[' then
        if room = 0 then .error .limit
        else if (skip t).head? = some ']' then .ok (.arr [], (skip t).tail)
        else (scanElements n (room - 1) (skip t)).map (fun r => (.arr r.1, r.2))
      else scanScalar (c :: t)

/-- The items of an array from the first one on. -/
def scanElements : Nat → Nat → List Char → Except Refusal (List Value × List Char)
  | 0, _, _ => .error .malformed
  | n + 1, room, text =>
      match scanOnce n room text with
      | .error e => .error e
      | .ok (v, t) =>
          if (skip t).head? = some ']' then .ok ([v], (skip t).tail)
          else if (skip t).head? = some ',' then
            (scanElements n room (skip (skip t).tail)).map (fun r => (v :: r.1, r.2))
          else .error .malformed

/-- The members of an object from the first one on. -/
def scanMembers : Nat → Nat → List Char → Except Refusal (List (Key × Value) × List Char)
  | 0, _, _ => .error .malformed
  | n + 1, room, text =>
      if text.head? = some '"' then
        match readString .plain text.tail with
        | none => .error .malformed
        | some (key, t) =>
            if (skip t).head? = some ':' then
              match scanOnce n room (skip (skip t).tail) with
              | .error e => .error e
              | .ok (v, t) =>
                  if (skip t).head? = some '}' then .ok ([(joinSurrogates key, v)], (skip t).tail)
                  else if (skip t).head? = some ',' then
                    (scanMembers n room (skip (skip t).tail)).map (fun r => ((joinSurrogates key, v) :: r.1, r.2))
                  else .error .malformed
            else .error .malformed
      else .error .malformed

end

/-- `JSONDecoder.raw_decode` at the start of a text. -/
def rawDecode (room : Nat) (text : List Char) : Except Refusal (Value × List Char) :=
  scanOnce (2 * text.length + 1) room text

/-- `json.loads` -/
def loads (room : Nat) (text : List Char) : Except Refusal Value :=
  match rawDecode room (skip text) with
  | .ok (v, rest) => if skip rest = [] then .ok v else .error .malformed
  | .error e => .error e

mutual

/-- A value whose integers are short enough, and that needs no more calls than
there is room for. -/
def fits : Nat → Value → Bool
  | _, .int n => decide ((Nat.toDigits 10 n.natAbs).length ≤ maxStrDigits)
  | room, .arr items => decide (0 < room) && itemsFit (room - 1) items
  | room, .obj fields => decide (0 < room) && fieldsFit (room - 1) fields
  | _, _ => true

def itemsFit : Nat → List Value → Bool
  | _, [] => true
  | room, v :: items => fits room v && itemsFit room items

def fieldsFit : Nat → List (Key × Value) → Bool
  | _, [] => true
  | room, (_, v) :: fields => fits room v && fieldsFit room fields

end

/-- What a scanner with limits answers where one without them answers `found`. -/
def Answers {α : Type} (fit : α → Bool) (found : Option (α × List Char))
    (answer : Except Refusal (α × List Char)) : Prop :=
  match found with
  | some (v, rest) => answer = if fit v then .ok (v, rest) else .error .limit
  | none => ∃ e, answer = .error e

section Scalars

theorem takeWhile_numeral {text : List Char} :
    (text.takeWhile isNumeralChar).takeWhile Char.isDigit = text.takeWhile Char.isDigit ∧
      text.dropWhile Char.isDigit =
        (text.takeWhile isNumeralChar).dropWhile Char.isDigit ++ text.dropWhile isNumeralChar := by
  induction text with
  | nil => exact ⟨rfl, rfl⟩
  | cons c text ih =>
      cases hdigit : c.isDigit with
      | true =>
          have hnumeral : isNumeralChar c = true := by simp [isNumeralChar, hdigit]
          simp [hnumeral, hdigit, ih.1, ih.2]
      | false =>
          cases hnumeral : isNumeralChar c with
          | true => simp [hnumeral, hdigit, List.takeWhile_append_dropWhile]
          | false => simp [hnumeral, hdigit]

/-- The sign of a number is a character of it. -/
theorem magnitude_numeral {text : List Char} (hne : text.takeWhile isNumeralChar ≠ []) :
    (text.takeWhile isNumeralChar).head? = text.head? ∧
      (if text.head? = some '-' then text.tail else text).takeWhile isNumeralChar =
        (if text.head? = some '-' then (text.takeWhile isNumeralChar).tail else text.takeWhile isNumeralChar) ∧
      (if text.head? = some '-' then text.tail else text).dropWhile isNumeralChar = text.dropWhile isNumeralChar := by
  cases text with
  | nil => exact absurd rfl hne
  | cons c text =>
      have hnumeral : isNumeralChar c = true := by
        by_contra hother
        exact hne (List.takeWhile_cons_of_neg hother)
      rw [List.takeWhile_cons_of_pos hnumeral, List.dropWhile_cons_of_pos hnumeral]
      split
      · exact ⟨rfl, rfl, rfl⟩
      · rw [List.takeWhile_cons_of_pos hnumeral, List.dropWhile_cons_of_pos hnumeral]
        exact ⟨rfl, rfl, rfl⟩

theorem goesOn_end {text : List Char} (h : ∀ c ∈ text.head?, isNumeralChar c = false) : goesOn text = false := by
  cases text with
  | nil => rfl
  | cons c text =>
      have hc := h c rfl
      simp only [isNumeralChar, Bool.or_eq_false_iff, beq_eq_false_iff_ne] at hc
      rw [goesOn, if_neg hc.1.1.2, if_neg (not_or.mpr ⟨hc.1.2, hc.2⟩)]

theorem head_digits {text more : List Char} (hne : text ≠ []) (h : text.all Char.isDigit = true) :
    ((text ++ more).head?.map Char.isDigit).getD false = true := by
  obtain ⟨c, text, rfl⟩ := List.exists_cons_of_ne_nil hne
  exact List.all_eq_true.mp h c (List.mem_cons_self ..)

theorem goesOn_exponent {text : List Char} (h : isExponent text = true) (more : List Char) :
    goesOn (text ++ more) = true := by
  cases text with
  | nil => cases h
  | cons c text =>
      rw [isExponent] at h
      simp only [Bool.and_eq_true, Bool.or_eq_true, beq_iff_eq, bne_iff_ne] at h
      obtain ⟨⟨hc, hne⟩, hdigits⟩ := h
      have hdot : c ≠ '.' := by rcases hc with rfl | rfl <;> decide
      rw [List.cons_append, goesOn, if_neg hdot, if_pos hc]
      cases text with
      | nil => exact absurd rfl hne
      | cons d text =>
          rw [List.head?_cons, List.tail_cons] at hne hdigits
          rw [List.cons_append, List.head?_cons, List.tail_cons]
          split at hne
          · next hsign =>
              rw [if_pos hsign] at hdigits
              rw [if_pos hsign]
              exact head_digits hne hdigits
          · next hsign =>
              rw [if_neg hsign] at hdigits
              rw [if_neg hsign]
              exact head_digits hne hdigits

theorem goesOn_fraction {text : List Char} (h : isFraction text = true) (more : List Char) :
    goesOn (text ++ more) = true := by
  cases text with
  | nil => cases h
  | cons c text =>
      rw [isFraction] at h
      split at h
      · next hc =>
          rw [Bool.and_eq_true, bne_iff_ne] at h
          rw [List.cons_append, goesOn, if_pos hc]
          cases text with
          | nil => exact absurd rfl h.1
          | cons d text =>
              by_contra hd
              exact h.1 (List.takeWhile_cons_of_neg hd)
      · exact goesOn_exponent h more

/-- The digits of an integer are those of its text. -/
theorem toDigits_whole {digits : List Char} (hall : ∀ c ∈ digits, c.isDigit = true)
    (hplain : ¬(digits = [] ∨ (digits.head? = some '0' ∧ digits ≠ ['0']))) :
    (Nat.toDigits 10 (Nat.ofDigitChars 10 digits 0)) = digits := by
  rw [not_or, not_and, not_not] at hplain
  by_cases hzero : digits.head? = some '0'
  · rw [hplain.2 hzero]
    rfl
  · obtain ⟨c, rest, rfl⟩ := List.exists_cons_of_ne_nil hplain.1
    refine (Numerals.toDigits_of_isNumeral ?_).2
    rw [Numerals.isNumeral, hall c (List.mem_cons_self ..), Bool.true_and, Bool.and_eq_true, bne_iff_ne,
      List.all_eq_true]
    exact ⟨fun h => hzero (congrArg some h), fun d hd => hall d (List.mem_cons_of_mem _ hd)⟩

theorem numeral_answers {text : List Char} {v : Value} (h : numeral (text.takeWhile isNumeralChar) = some v)
    (room : Nat) : longInteger text = !fits room v := by
  have hne : text.takeWhile isNumeralChar ≠ [] := by
    intro hnil
    rw [hnil] at h
    cases h
  obtain ⟨hhead, hmagnitude, hrest⟩ := magnitude_numeral hne
  have hend : ∀ c ∈ (text.dropWhile isNumeralChar).head?, isNumeralChar c = false := by
    intro c hc
    have hnot := List.head?_dropWhile_not isNumeralChar text
    rw [Option.mem_def.mp hc] at hnot
    exact hnot
  rw [numeral, hhead, ← hmagnitude] at h
  rw [← hrest] at hend
  rw [longInteger]
  generalize (if text.head? = some '-' then text.tail else text) = magnitude at h hend
  obtain ⟨htake, hdrop⟩ := @takeWhile_numeral magnitude
  rw [htake] at h
  split at h
  · cases h
  next hplain =>
  rw [hdrop]
  split at h
  · next hnil =>
      cases h
      rw [hnil, List.nil_append, goesOn_end hend]
      have hdigits := toDigits_whole (List.all_eq_true.mp List.all_takeWhile) hplain
      have hlength : fits room (.int (if text.head? = some '-' then -whole (magnitude.takeWhile Char.isDigit)
          else whole (magnitude.takeWhile Char.isDigit))) =
          decide ((magnitude.takeWhile Char.isDigit).length ≤ maxStrDigits) := by
        have habs : (if text.head? = some '-' then -whole (magnitude.takeWhile Char.isDigit)
            else whole (magnitude.takeWhile Char.isDigit)).natAbs =
              Nat.ofDigitChars 10 (magnitude.takeWhile Char.isDigit) 0 := by
          rw [whole]
          split <;> simp
        rw [fits, habs, hdigits]
      rw [hlength]
      by_cases hshort : (magnitude.takeWhile Char.isDigit).length ≤ maxStrDigits
      · simp [hshort, Nat.not_lt.mpr hshort]
      · have hzero : magnitude.head? ≠ some '0' := by
          intro hzero
          cases magnitude with
          | nil => cases hzero
          | cons c magnitude =>
              cases hzero
              rw [List.takeWhile_cons_of_pos (by decide), not_or, not_and, not_not] at hplain
              rw [List.takeWhile_cons_of_pos (by decide), hplain.2 rfl] at hshort
              exact hshort (by decide)
        simp [hshort, Nat.lt_of_not_le hshort, hzero]
  split at h
  · next hfraction =>
      cases h
      rw [goesOn_fraction hfraction, fits]
      · simp
      all_goals simp
  · cases h

theorem literal_answers {text rest : List Char} {v : Value} (h : readLiteral text = some (v, rest)) (room : Nat) :
    longInteger text = !fits room v := by
  obtain ⟨word, hword, hprefix⟩ := List.exists_of_findSome?_eq_some h
  obtain ⟨after, hafter, heq⟩ := Option.map_eq_some_iff.mp hprefix
  cases heq
  rw [Numerals.isPrefixOf?_eq_some.mp hafter]
  simp only [literals, List.mem_cons, List.not_mem_nil, or_false] at hword
  rcases hword with rfl | rfl | rfl | rfl | rfl | rfl <;> rfl

theorem scanScalar_answers (room : Nat) (text : List Char) :
    Answers (fits room) (readScalar text) (scanScalar text) := by
  have hfound {v : Value} {rest : List Char} (hread : readScalar text = some (v, rest))
    (hlong : longInteger text = !fits room v) :
      Answers (fits room) (readScalar text) (scanScalar text) := by
    rw [scanScalar, hlong, hread, Answers]
    cases fits room v <;> rfl
  cases hnumeral : readNumeral text with
  | some result =>
      obtain ⟨v, hv, heq⟩ := Option.map_eq_some_iff.mp hnumeral
      exact hfound (by rw [readScalar, hnumeral, ← heq]) (numeral_answers hv room)
  | none =>
      cases hliteral : readLiteral text with
      | some result => exact hfound (by rw [readScalar, hnumeral, hliteral]) (literal_answers hliteral room)
      | none =>
          have hnone : readScalar text = none := by rw [readScalar, hnumeral, hliteral]
          rw [hnone, Answers, scanScalar, hnone]
          split
          · exact ⟨_, rfl⟩
          · exact ⟨_, rfl⟩

end Scalars

section Scans

variable {α β : Type} {fit : α → Bool} {fit' : β → Bool} {found : Option (α × List Char)}
  {answer : Except Refusal (α × List Char)}

theorem answers_limit (h : ∀ v rest, found = some (v, rest) → fit v = false) : Answers fit found (.error .limit) := by
  cases found with
  | none => exact ⟨_, rfl⟩
  | some r => rw [Answers, h r.1 r.2 rfl, if_neg Bool.false_ne_true]

theorem Answers.map (h : Answers fit found answer) (f : α → β) (hfit : ∀ v, fit' (f v) = fit v) :
    Answers fit' (found.map (fun r => (f r.1, r.2))) (answer.map (fun r => (f r.1, r.2))) := by
  cases found with
  | none =>
      obtain ⟨e, he⟩ := h
      exact ⟨e, by rw [he]; rfl⟩
  | some r =>
      rw [Answers] at h
      rw [h, Option.map_some, Answers, hfit]
      cases fit r.1 <;> rfl

theorem fits_container {room : Nat} (hroom : room ≠ 0) (items : List Value) (fields : List (Key × Value)) :
    fits room (.arr items) = itemsFit (room - 1) items ∧ fits room (.obj fields) = fieldsFit (room - 1) fields := by
  rw [fits, fits, decide_eq_true (Nat.pos_of_ne_zero hroom), Bool.true_and, Bool.true_and]
  exact ⟨rfl, rfl⟩

theorem scanOnce_answers {n : Nat}
    (helements : ∀ room text, Answers (itemsFit room) (JsonGrammar.scanElements n text) (scanElements n room text))
    (hmembers : ∀ room text, Answers (fieldsFit room) (JsonGrammar.scanMembers n text) (scanMembers n room text))
    (room : Nat) (text : List Char) :
    Answers (fits room) (JsonGrammar.scanOnce (n + 1) text) (scanOnce (n + 1) room text) := by
  cases text with
  | nil => exact ⟨_, rfl⟩
  | cons c t =>
      rw [JsonGrammar.scanOnce, scanOnce]
      by_cases hquote : c = '"'
      · rw [if_pos hquote, if_pos hquote]
        cases readString .plain t with
        | none => exact ⟨_, rfl⟩
        | some r => rfl
      rw [if_neg hquote, if_neg hquote]
      by_cases hbrace : c = '{'
      · rw [if_pos hbrace, if_pos hbrace]
        by_cases hroom : room = 0
        · rw [if_pos hroom]
          apply answers_limit
          intro v rest hfound
          split at hfound
          · cases hfound
            rw [hroom]
            rfl
          · obtain ⟨r, -, heq⟩ := Option.map_eq_some_iff.mp hfound
            cases heq
            rw [hroom]
            rfl
        rw [if_neg hroom]
        by_cases hend : (skip t).head? = some '}'
        · rw [if_pos hend, if_pos hend, Answers, (fits_container hroom [] []).2, fieldsFit, if_pos rfl]
        · rw [if_neg hend, if_neg hend]
          exact (hmembers (room - 1) (skip t)).map Value.obj (fun fields => (fits_container hroom [] fields).2)
      rw [if_neg hbrace, if_neg hbrace]
      by_cases hbracket : c = '['
      · rw [if_pos hbracket, if_pos hbracket]
        by_cases hroom : room = 0
        · rw [if_pos hroom]
          apply answers_limit
          intro v rest hfound
          split at hfound
          · cases hfound
            rw [hroom]
            rfl
          · obtain ⟨r, -, heq⟩ := Option.map_eq_some_iff.mp hfound
            cases heq
            rw [hroom]
            rfl
        rw [if_neg hroom]
        by_cases hend : (skip t).head? = some ']'
        · rw [if_pos hend, if_pos hend, Answers, (fits_container hroom [] []).1, itemsFit, if_pos rfl]
        · rw [if_neg hend, if_neg hend]
          exact (helements (room - 1) (skip t)).map Value.arr (fun items => (fits_container hroom items []).1)
      rw [if_neg hbracket, if_neg hbracket]
      exact scanScalar_answers room (c :: t)

/-- What follows a first part that does not fit is not looked at. -/
theorem Answers.cases (h : Answers fit found answer) :
    (found = none ∧ ∃ e, answer = .error e) ∨
      ∃ v t, found = some (v, t) ∧
        (fit v = true ∧ answer = .ok (v, t) ∨ fit v = false ∧ answer = .error .limit) := by
  cases found with
  | none => exact .inl ⟨rfl, h⟩
  | some r =>
      rw [Answers] at h
      subst h
      refine .inr ⟨r.1, r.2, rfl, ?_⟩
      cases hfit : fit r.1 with
      | true => exact .inl ⟨rfl, rfl⟩
      | false => exact .inr ⟨rfl, rfl⟩

theorem scanElements_answers {n : Nat}
    (hvalue : ∀ room text, Answers (fits room) (JsonGrammar.scanOnce n text) (scanOnce n room text))
    (helements : ∀ room text, Answers (itemsFit room) (JsonGrammar.scanElements n text) (scanElements n room text))
    (room : Nat) (text : List Char) :
    Answers (itemsFit room) (JsonGrammar.scanElements (n + 1) text) (scanElements (n + 1) room text) := by
  rw [JsonGrammar.scanElements, scanElements]
  rcases (hvalue room text).cases with ⟨hfound, e, he⟩ | ⟨v, t, hfound, ⟨hv, hanswer⟩ | ⟨hv, hanswer⟩⟩
  · rw [hfound, he]
    exact ⟨_, rfl⟩
  · rw [hfound, hanswer]
    dsimp only
    by_cases hend : (skip t).head? = some ']'
    · rw [if_pos hend, if_pos hend, Answers, itemsFit, itemsFit, hv, Bool.true_and, if_pos rfl]
    rw [if_neg hend, if_neg hend]
    by_cases hcomma : (skip t).head? = some ','
    · rw [if_pos hcomma, if_pos hcomma]
      exact (helements room _).map (fun items => v :: items) (fun items => by rw [itemsFit, hv, Bool.true_and])
    · rw [if_neg hcomma, if_neg hcomma]
      exact ⟨_, rfl⟩
  · rw [hfound, hanswer]
    apply answers_limit
    intro items rest hitems
    dsimp only at hitems
    split at hitems
    · cases hitems
      rw [itemsFit, hv, Bool.false_and]
    split at hitems
    · obtain ⟨r, -, heq⟩ := Option.map_eq_some_iff.mp hitems
      cases heq
      rw [itemsFit, hv, Bool.false_and]
    · cases hitems

theorem scanMembers_answers {n : Nat}
    (hvalue : ∀ room text, Answers (fits room) (JsonGrammar.scanOnce n text) (scanOnce n room text))
    (hmembers : ∀ room text, Answers (fieldsFit room) (JsonGrammar.scanMembers n text) (scanMembers n room text))
    (room : Nat) (text : List Char) :
    Answers (fieldsFit room) (JsonGrammar.scanMembers (n + 1) text) (scanMembers (n + 1) room text) := by
  rw [JsonGrammar.scanMembers, scanMembers]
  by_cases hquote : text.head? = some '"'
  · rw [if_pos hquote, if_pos hquote]
    cases readString .plain text.tail with
    | none => exact ⟨_, rfl⟩
    | some r =>
        obtain ⟨key, t⟩ := r
        dsimp only
        by_cases hcolon : (skip t).head? = some ':'
        · rw [if_pos hcolon, if_pos hcolon]
          rcases (hvalue room (skip (skip t).tail)).cases with
            ⟨hfound, e, he⟩ | ⟨v, t, hfound, ⟨hv, hanswer⟩ | ⟨hv, hanswer⟩⟩
          · rw [hfound, he]
            exact ⟨_, rfl⟩
          · rw [hfound, hanswer]
            dsimp only
            by_cases hend : (skip t).head? = some '}'
            · rw [if_pos hend, if_pos hend, Answers, fieldsFit, fieldsFit, hv, Bool.true_and, if_pos rfl]
            rw [if_neg hend, if_neg hend]
            by_cases hcomma : (skip t).head? = some ','
            · rw [if_pos hcomma, if_pos hcomma]
              exact (hmembers room _).map (fun fields => (joinSurrogates key, v) :: fields)
                (fun fields => by rw [fieldsFit, hv, Bool.true_and])
            · rw [if_neg hcomma, if_neg hcomma]
              exact ⟨_, rfl⟩
          · rw [hfound, hanswer]
            apply answers_limit
            intro fields rest hfields
            dsimp only at hfields
            split at hfields
            · cases hfields
              rw [fieldsFit, hv, Bool.false_and]
            split at hfields
            · obtain ⟨r, -, heq⟩ := Option.map_eq_some_iff.mp hfields
              cases heq
              rw [fieldsFit, hv, Bool.false_and]
            · cases hfields
        · rw [if_neg hcolon, if_neg hcolon]
          exact ⟨_, rfl⟩
  · rw [if_neg hquote, if_neg hquote]
    exact ⟨_, rfl⟩

theorem scan_answers (n : Nat) :
    (∀ room text, Answers (fits room) (JsonGrammar.scanOnce n text) (scanOnce n room text)) ∧
      (∀ room text, Answers (itemsFit room) (JsonGrammar.scanElements n text) (scanElements n room text)) ∧
      (∀ room text, Answers (fieldsFit room) (JsonGrammar.scanMembers n text) (scanMembers n room text)) := by
  induction n with
  | zero => exact ⟨fun _ _ => ⟨_, rfl⟩, fun _ _ => ⟨_, rfl⟩, fun _ _ => ⟨_, rfl⟩⟩
  | succ n ih =>
      obtain ⟨hvalue, helements, hmembers⟩ := ih
      exact ⟨scanOnce_answers helements hmembers, scanElements_answers hvalue helements,
        scanMembers_answers hvalue hmembers⟩

end Scans

mutual

/-- More room is enough too. -/
theorem fits_mono {room room' : Nat} (hroom : room ≤ room') : ∀ v, fits room v = true → fits room' v = true
  | .int _, h => h
  | .null, _ | .bool _, _ | .float _, _ | .str _, _ => rfl
  | .arr items, h => by
      rw [fits, Bool.and_eq_true, decide_eq_true_iff] at h ⊢
      exact ⟨Nat.lt_of_lt_of_le h.1 hroom, itemsFit_mono (Nat.sub_le_sub_right hroom 1) items h.2⟩
  | .obj fields, h => by
      rw [fits, Bool.and_eq_true, decide_eq_true_iff] at h ⊢
      exact ⟨Nat.lt_of_lt_of_le h.1 hroom, fieldsFit_mono (Nat.sub_le_sub_right hroom 1) fields h.2⟩

theorem itemsFit_mono {room room' : Nat} (hroom : room ≤ room') :
    ∀ items, itemsFit room items = true → itemsFit room' items = true
  | [], _ => rfl
  | v :: items, h => by
      rw [itemsFit, Bool.and_eq_true] at h ⊢
      exact ⟨fits_mono hroom v h.1, itemsFit_mono hroom items h.2⟩

theorem fieldsFit_mono {room room' : Nat} (hroom : room ≤ room') :
    ∀ fields, fieldsFit room fields = true → fieldsFit room' fields = true
  | [], _ => rfl
  | (_, v) :: fields, h => by
      rw [fieldsFit, Bool.and_eq_true] at h ⊢
      exact ⟨fits_mono hroom v h.1, fieldsFit_mono hroom fields h.2⟩

end

section Decoder

variable {room : Nat} {text rest : List Char} {v : Value}

/-- Of a document the decoder gives the value, if it fits. -/
theorem rawDecode_of_reads (h : Reads text (.value v) rest) :
    rawDecode room text = if fits room v then .ok (v, rest) else .error .limit := by
  have hanswers := (scan_answers (2 * text.length + 1)).1 room text
  rw [show JsonGrammar.scanOnce (2 * text.length + 1) text = some (v, rest) from rawDecode_eq_some.mpr h] at hanswers
  exact hanswers

theorem rawDecode_eq_ok : rawDecode room text = .ok (v, rest) ↔ Reads text (.value v) rest ∧ fits room v = true := by
  constructor
  · intro h
    have hanswers := (scan_answers (2 * text.length + 1)).1 room text
    rw [← rawDecode, h] at hanswers
    cases hfound : JsonGrammar.scanOnce (2 * text.length + 1) text with
    | none =>
        rw [hfound] at hanswers
        obtain ⟨e, he⟩ := hanswers
        cases he
    | some r =>
        obtain ⟨found, after⟩ := r
        rw [hfound, Answers] at hanswers
        split at hanswers
        · next hfits =>
            cases hanswers
            exact ⟨rawDecode_eq_some.mp hfound, hfits⟩
        · cases hanswers
  · rintro ⟨hread, hfits⟩
    rw [rawDecode_of_reads hread, if_pos hfits]

theorem loads_eq_ok :
    loads room text = .ok v ↔ ∃ rest, Reads (skip text) (.value v) rest ∧ fits room v = true ∧ skip rest = [] := by
  rw [loads]
  constructor
  · intro h
    split at h
    · next v' rest hread =>
        split at h
        · next hblank =>
            cases h
            exact ⟨rest, (rawDecode_eq_ok.mp hread).1, (rawDecode_eq_ok.mp hread).2, hblank⟩
        · cases h
    · cases h
  · rintro ⟨rest, hread, hfits, hblank⟩
    rw [rawDecode_eq_ok.mpr ⟨hread, hfits⟩]
    exact if_pos hblank

end Decoder

end BorgManager.JsonLimits
