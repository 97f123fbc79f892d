import BorgManager.Numerals

namespace BorgManager.JsonGrammar

/-- The code points of a string. An escape may name half of a surrogate pair,
which is not a character. -/
abbrev Key : Type := List Nat

/-- What a document holds. A number with a fraction or an exponent is kept as
its numeral. -/
inductive Value
  | null
  | bool (b : Bool)
  | int (n : Int)
  | float (numeral : List Char)
  | str (s : Key)
  | arr (items : List Value)
  | obj (fields : List (Key × Value))

def isBlank (c : Char) : Bool := c == ' ' || c == '\t' || c == '\n' || c == '\r'

def skip (text : List Char) : List Char := text.dropWhile isBlank

def isNumeralChar (c : Char) : Bool := c.isDigit || c == '+' || c == '-' || c == '.' || c == 'e' || c == 'E'

/-- `e` or `E`, a sign and digits. -/
def isExponent : List Char → Bool
  | [] => false
  | c :: text =>
      let digits := if text.head? = some '+' ∨ text.head? = some '-' then text.tail else text
      (c == 'e' || c == 'E') && digits != [] && digits.all Char.isDigit

/-- A fraction, an exponent or both. -/
def isFraction : List Char → Bool
  | [] => false
  | c :: text =>
      if c = '.' then
        text.takeWhile Char.isDigit != [] &&
          (text.dropWhile Char.isDigit == [] || isExponent (text.dropWhile Char.isDigit))
      else isExponent (c :: text)

def whole (digits : List Char) : Int := (Nat.ofDigitChars 10 digits 0 : Nat)

def numeral (token : List Char) : Option Value :=
  let magnitude := if token.head? = some '-' then token.tail else token
  let digits := magnitude.takeWhile Char.isDigit
  let rest := magnitude.dropWhile Char.isDigit
  if digits = [] ∨ (digits.head? = some '0' ∧ digits ≠ ['0']) then none
  else if rest = [] then some (.int (if token.head? = some '-' then -whole digits else whole digits))
  else if isFraction rest then some (.float token)
  else none

/-- A number. Nothing that may follow a number in a document continues a
numeral, so the whole run of its characters has to be one. -/
def readNumeral (text : List Char) : Option (Value × List Char) :=
  (numeral (text.takeWhile isNumeralChar)).map (fun v => (v, text.dropWhile isNumeralChar))

def literals : List (List Char × Value) :=
  [(['n', 'u', 'l', 'l'], .null), (['t', 'r', 'u', 'e'], .bool true), (['f', 'a', 'l', 's', 'e'], .bool false),
    (['N', 'a', 'N'], .float ['N', 'a', 'N']),
    (['I', 'n', 'f', 'i', 'n', 'i', 't', 'y'], .float ['I', 'n', 'f', 'i', 'n', 'i', 't', 'y']),
    (['-', 'I', 'n', 'f', 'i', 'n', 'i', 't', 'y'], .float ['-', 'I', 'n', 'f', 'i', 'n', 'i', 't', 'y'])]

def readLiteral (text : List Char) : Option (Value × List Char) :=
  literals.findSome? (fun word => (word.1.isPrefixOf? text).map (fun rest => (word.2, rest)))

def readScalar (text : List Char) : Option (Value × List Char) :=
  match readNumeral text with
  | some result => some result
  | none => readLiteral text

def hexValue (c : Char) : Option Nat :=
  if c.isDigit then some (c.toNat - 48)
  else if 'a' ≤ c ∧ c ≤ 'f' then some (c.toNat - 87)
  else if 'A' ≤ c ∧ c ≤ 'F' then some (c.toNat - 55)
  else none

/-- The character that a backslash and one more character stand for. -/
def escape (c : Char) : Option Nat :=
  if c = '"' ∨ c = '\\' ∨ c = '/' then some c.toNat
  else if c = 'b' then some 8
  else if c = 'f' then some 12
  else if c = 'n' then some 10
  else if c = 'r' then some 13
  else if c = 't' then some 9
  else none

/-- Where a reader of a string is: between characters, after a backslash, or
in an escaped code unit. -/
inductive Mode
  | plain
  | escaped
  | hex (missing value : Nat)

/-- The rest of a string after its opening quote. -/
def readString : Mode → List Char → Option (Key × List Char)
  | _, [] => none
  | .plain, c :: rest =>
      if c = '"' then some ([], rest)
      else if c = '\\' then readString .escaped rest
      else if c.toNat < 32 then none
      else (readString .plain rest).map (fun r => (c.toNat :: r.1, r.2))
  | .escaped, c :: rest =>
      if c = 'u' then readString (.hex 4 0) rest
      else
        match escape c with
        | some n => (readString .plain rest).map (fun r => (n :: r.1, r.2))
        | none => none
  | .hex missing value, c :: rest =>
      match hexValue c with
      | some d =>
          if missing = 1 then (readString .plain rest).map (fun r => ((value * 16 + d) :: r.1, r.2))
          else readString (.hex (missing - 1) (value * 16 + d)) rest
      | none => none

def isHigh (n : Nat) : Bool := decide (0xD800 ≤ n ∧ n ≤ 0xDBFF)

def isLow (n : Nat) : Bool := decide (0xDC00 ≤ n ∧ n ≤ 0xDFFF)

/-- Two halves of a surrogate pair stand for one character. -/
def joinSurrogates : Key → Key
  | high :: low :: rest =>
      if isHigh high && isLow low then (0x10000 + (high - 0xD800) * 1024 + (low - 0xDC00)) :: joinSurrogates rest
      else high :: joinSurrogates (low :: rest)
  | short => short

mutual

/-- `scan_once`, with a bound on the depth of the calls. -/
def scanOnce : Nat → List Char → Option (Value × List Char)
  | 0, _ => none
  | _ + 1, [] => none
  | n + 1, c :: t =>
      if c = '"' then (readString .plain t).map (fun r => (.str (joinSurrogates r.1), r.2))
      else if c = '{' then
        if (skip t).head? = some '}' then some (.obj [], (skip t).tail)
        else (scanMembers n (skip t)).map (fun r => (.obj r.1, r.2))
      else if c = '[' then
        if (skip t).head? = some ']' then some (.arr [], (skip t).tail)
        else (scanElements n (skip t)).map (fun r => (.arr r.1, r.2))
      else readScalar (c :: t)

/-- The items of an array from the first one on. -/
def scanElements : Nat → List Char → Option (List Value × List Char)
  | 0, _ => none
  | n + 1, text =>
      match scanOnce n text with
      | none => none
      | some (v, t) =>
          if (skip t).head? = some ']' then some ([v], (skip t).tail)
          else if (skip t).head? = some ',' then
            (scanElements n (skip (skip t).tail)).map (fun r => (v :: r.1, r.2))
          else none

/-- The members of an object from the first one on. -/
def scanMembers : Nat → List Char → Option (List (Key × Value) × List Char)
  | 0, _ => none
  | n + 1, text =>
      if text.head? = some '"' then
        match readString .plain text.tail with
        | none => none
        | some (key, t) =>
            if (skip t).head? = some ':' then
              match scanOnce n (skip (skip t).tail) with
              | none => none
              | some (v, t) =>
                  if (skip t).head? = some '}' then some ([(joinSurrogates key, v)], (skip t).tail)
                  else if (skip t).head? = some ',' then
                    (scanMembers n (skip (skip t).tail)).map (fun r => ((joinSurrogates key, v) :: r.1, r.2))
                  else none
            else none
      else none

end

/-- `JSONDecoder.raw_decode` at the start of a text. -/
def rawDecode (text : List Char) : Option (Value × List Char) := scanOnce (2 * text.length + 1) text

/-- `json.loads`; nothing stands for a `JSONDecodeError`. -/
def loads (text : List Char) : Option Value :=
  match rawDecode (skip text) with
  | some (v, rest) => if skip rest = [] then some v else none
  | none => none

/-- What a text can begin with: a value, the items of an array from the first
one on, or the members of an object. -/
inductive Item
  | value (v : Value)
  | elements (items : List Value)
  | members (fields : List (Key × Value))

/-- The grammar of a document: a text begins with an item, and the rest follows
it. -/
inductive Reads : List Char → Item → List Char → Prop
  | string {t : List Char} {key : Key} {rest : List Char} (h : readString .plain t = some (key, rest)) :
      Reads ('"' :: t) (.value (.str (joinSurrogates key))) rest
  | scalar {text rest : List Char} {v : Value} (h : readScalar text = some (v, rest)) : Reads text (.value v) rest
  | emptyObject {t rest : List Char} (h : skip t = '}' :: rest) : Reads ('{' :: t) (.value (.obj [])) rest
  | object {t rest : List Char} {fields : List (Key × Value)} (h : Reads (skip t) (.members fields) rest) :
      Reads ('{' :: t) (.value (.obj fields)) rest
  | emptyArray {t rest : List Char} (h : skip t = ']' :: rest) : Reads ('[' :: t) (.value (.arr [])) rest
  | array {t rest : List Char} {items : List Value} (h : Reads (skip t) (.elements items) rest) :
      Reads ('[' :: t) (.value (.arr items)) rest
  | lastElement {text t rest : List Char} {v : Value} (h : Reads text (.value v) t) (hend : skip t = ']' :: rest) :
      Reads text (.elements [v]) rest
  | nextElement {text t t' rest : List Char} {v : Value} {items : List Value} (h : Reads text (.value v) t)
      (hcomma : skip t = ',' :: t') (hrest : Reads (skip t') (.elements items) rest) :
      Reads text (.elements (v :: items)) rest
  | lastMember {t t₁ t₂ t₃ rest : List Char} {key : Key} {v : Value} (hkey : readString .plain t = some (key, t₁))
      (hcolon : skip t₁ = ':' :: t₂) (h : Reads (skip t₂) (.value v) t₃) (hend : skip t₃ = '}' :: rest) :
      Reads ('"' :: t) (.members [(joinSurrogates key, v)]) rest
  | nextMember {t t₁ t₂ t₃ t₄ rest : List Char} {key : Key} {v : Value} {fields : List (Key × Value)}
      (hkey : readString .plain t = some (key, t₁)) (hcolon : skip t₁ = ':' :: t₂) (h : Reads (skip t₂) (.value v) t₃)
      (hcomma : skip t₃ = ',' :: t₄) (hrest : Reads (skip t₄) (.members fields) rest) :
      Reads ('"' :: t) (.members ((joinSurrogates key, v) :: fields)) rest

theorem skip_suffix (t : List Char) : skip t <:+ t := List.dropWhile_suffix _

theorem length_skip_le (t : List Char) : (skip t).length ≤ t.length := (skip_suffix t).length_le

theorem readString_suffix {mode : Mode} {t rest : List Char} {key : Key} (h : readString mode t = some (key, rest)) :
    rest <:+ t ∧ rest.length < t.length := by
  induction t generalizing mode key with
  | nil => cases mode <;> cases h
  | cons c t ih =>
      have hstep {m : Mode} {k : Key} (h : readString m t = some (k, rest)) :
          rest <:+ c :: t ∧ rest.length < (c :: t).length :=
        ⟨(ih h).1.trans (List.suffix_cons ..), Nat.lt_succ_of_lt (ih h).2⟩
      have hmap {m : Mode} {n : Nat} (h : (readString m t).map (fun r => (n :: r.1, r.2)) = some (key, rest)) :
          rest <:+ c :: t ∧ rest.length < (c :: t).length := by
        obtain ⟨⟨k, r⟩, hr, heq⟩ := Option.map_eq_some_iff.mp h
        cases heq
        exact hstep hr
      cases mode with
      | plain =>
          rw [readString] at h
          split at h
          · cases h
            exact ⟨List.suffix_cons .., Nat.lt_succ_self _⟩
          split at h
          · exact hstep h
          split at h
          · cases h
          · exact hmap h
      | escaped =>
          rw [readString] at h
          split at h
          · exact hstep h
          split at h
          · exact hmap h
          · cases h
      | hex missing value =>
          rw [readString] at h
          split at h
          · split at h
            · exact hmap h
            · exact hstep h
          · cases h

theorem readScalar_suffix {text rest : List Char} {v : Value} (h : readScalar text = some (v, rest)) :
    rest <:+ text ∧ rest.length < text.length := by
  rw [readScalar] at h
  split at h
  · next result hnumeral =>
      cases h
      obtain ⟨v', hv, heq⟩ := Option.map_eq_some_iff.mp hnumeral
      cases heq
      refine ⟨List.dropWhile_suffix _, ?_⟩
      have hne : text.takeWhile isNumeralChar ≠ [] := by
        intro hnil
        rw [hnil] at hv
        cases hv
      have hlength := congrArg List.length (List.takeWhile_append_dropWhile (p := isNumeralChar) (l := text))
      rw [List.length_append] at hlength
      have hpos := List.length_pos_of_ne_nil hne
      omega
  · obtain ⟨word, hword, h⟩ := List.exists_of_findSome?_eq_some h
    obtain ⟨r, hr, heq⟩ := Option.map_eq_some_iff.mp h
    cases heq
    have htext : text = word.1 ++ rest := Numerals.isPrefixOf?_eq_some.mp hr
    have hne : word.1 ≠ [] := by
      simp only [literals, List.mem_cons, List.not_mem_nil, or_false] at hword
      rcases hword with rfl | rfl | rfl | rfl | rfl | rfl <;> exact List.cons_ne_nil _ _
    rw [htext]
    refine ⟨List.suffix_append .., ?_⟩
    rw [List.length_append]
    have hpos := List.length_pos_of_ne_nil hne
    omega

theorem skip_cons_suffix {t rest : List Char} {c : Char} (h : skip t = c :: rest) :
    rest <:+ t ∧ rest.length < t.length := by
  have hsuffix : c :: rest <:+ t := h ▸ skip_suffix t
  exact ⟨(List.suffix_cons c rest).trans hsuffix, hsuffix.length_le⟩

theorem Reads.suffix {text rest : List Char} {item : Item} (h : Reads text item rest) :
    rest <:+ text ∧ rest.length < text.length := by
  have htrans {a b c : List Char} (h₁ : a <:+ b ∧ a.length < b.length) (h₂ : b <:+ c ∧ b.length ≤ c.length) :
      a <:+ c ∧ a.length < c.length := ⟨h₁.1.trans h₂.1, Nat.lt_of_lt_of_le h₁.2 h₂.2⟩
  have hcons (c : Char) (t : List Char) : t <:+ c :: t ∧ t.length ≤ (c :: t).length :=
    ⟨List.suffix_cons c t, Nat.le_succ _⟩
  have hskip (t : List Char) : skip t <:+ t ∧ (skip t).length ≤ t.length := ⟨skip_suffix t, length_skip_le t⟩
  have hle {a b : List Char} (h : a <:+ b ∧ a.length < b.length) : a <:+ b ∧ a.length ≤ b.length :=
    ⟨h.1, Nat.le_of_lt h.2⟩
  induction h with
  | string h => exact htrans (readString_suffix h) (hcons ..)
  | scalar h => exact readScalar_suffix h
  | emptyObject h | emptyArray h => exact htrans (skip_cons_suffix h) (hcons ..)
  | object _ ih | array _ ih => exact htrans (htrans ih (hskip _)) (hcons ..)
  | lastElement _ hend ih => exact htrans (skip_cons_suffix hend) (hle ih)
  | nextElement _ hcomma _ ih ihrest =>
      exact htrans (htrans (htrans ihrest (hskip _)) (hle (skip_cons_suffix hcomma))) (hle ih)
  | lastMember hkey hcolon _ hend ih =>
      have hvalue := htrans (htrans ih (hskip _)) (hle (skip_cons_suffix hcolon))
      exact htrans (htrans (htrans (skip_cons_suffix hend) (hle hvalue)) (hle (readString_suffix hkey))) (hcons ..)
  | nextMember hkey hcolon _ hcomma _ ih ihrest =>
      have hvalue := htrans (htrans ih (hskip _)) (hle (skip_cons_suffix hcolon))
      have hmember := htrans (htrans ihrest (hskip _)) (hle (skip_cons_suffix hcomma))
      exact htrans (htrans (htrans hmember (hle hvalue)) (hle (readString_suffix hkey))) (hcons ..)

/-- What the scanner answers about an item, with a bound on its depth. -/
def Scans (n : Nat) (text : List Char) (rest : List Char) : Item → Prop
  | .value v => scanOnce n text = some (v, rest)
  | .elements items => scanElements n text = some (items, rest)
  | .members fields => scanMembers n text = some (fields, rest)

/-- The depth that an item can take. -/
def depth (text : List Char) : Item → Nat
  | .value _ => 2 * text.length + 1
  | .elements _ | .members _ => 2 * text.length + 2

theorem readScalar_bracket (t : List Char) :
    readScalar ('"' :: t) = none ∧ readScalar ('{' :: t) = none ∧ readScalar ('[' :: t) = none ∧
      readScalar (']' :: t) = none ∧ readScalar ('}' :: t) = none := ⟨rfl, rfl, rfl, rfl, rfl⟩

/-- A value begins with a character of its own. -/
theorem Reads.head {text rest : List Char} {item : Item} (h : Reads text item rest) :
    text.head? ≠ some ']' ∧ text.head? ≠ some '}' := by
  induction h with
  | string | emptyObject | object | emptyArray | array | lastMember | nextMember => exact ⟨by simp, by simp⟩
  | @scalar text rest v h =>
      cases text with
      | nil => exact ⟨by simp, by simp⟩
      | cons c t =>
          constructor
          · intro hc
            rw [List.head?_cons, Option.some.injEq] at hc
            subst hc
            exact absurd ((readScalar_bracket t).2.2.2.1.symm.trans h) (Option.some_ne_none _).symm
          · intro hc
            rw [List.head?_cons, Option.some.injEq] at hc
            subst hc
            exact absurd ((readScalar_bracket t).2.2.2.2.symm.trans h) (Option.some_ne_none _).symm
  | lastElement _ _ ih | nextElement _ _ _ ih => exact ih

theorem head?_skip {t rest : List Char} {c : Char} (h : skip t = c :: rest) : (skip t).head? = some c := by
  rw [h, List.head?_cons]

theorem Reads.scans {text rest : List Char} {item : Item} (h : Reads text item rest) :
    ∀ n, depth text item ≤ n → Scans n text rest item := by
  induction h with
  | @string t key rest h =>
      rintro (_ | n) hn
      · simp [depth] at hn
      · rw [Scans, scanOnce, if_pos rfl, h, Option.map_some]
  | @scalar text rest v h =>
      rintro (_ | n) hn
      · simp [depth] at hn
      · cases text with
        | nil => cases h
        | cons c t =>
            obtain ⟨hquote, hbrace, hbracket, -, -⟩ := readScalar_bracket t
            rw [Scans, scanOnce, if_neg, if_neg, if_neg, h]
            · rintro rfl
              exact absurd (hbracket.symm.trans h) (Option.some_ne_none _).symm
            · rintro rfl
              exact absurd (hbrace.symm.trans h) (Option.some_ne_none _).symm
            · rintro rfl
              exact absurd (hquote.symm.trans h) (Option.some_ne_none _).symm
  | emptyObject h =>
      rintro (_ | n) hn
      · simp [depth] at hn
      · rw [Scans, scanOnce, if_neg (by decide), if_pos rfl, if_pos (head?_skip h), h, List.tail_cons]
  | @object t rest fields h ih =>
      rintro (_ | n) hn
      · simp [depth] at hn
      · have hmembers := ih n (by
          have hlength := length_skip_le t
          simp only [depth, List.length_cons] at hn ⊢
          omega)
        rw [Scans, scanOnce, if_neg (by decide), if_pos rfl, if_neg h.head.2,
          show scanMembers n (skip t) = _ from hmembers,
          Option.map_some]
  | emptyArray h =>
      rintro (_ | n) hn
      · simp [depth] at hn
      · rw [Scans, scanOnce, if_neg (by decide), if_neg (by decide), if_pos rfl, if_pos (head?_skip h), h,
          List.tail_cons]
  | @array t rest items h ih =>
      rintro (_ | n) hn
      · simp [depth] at hn
      · have helements := ih n (by
          have hlength := length_skip_le t
          simp only [depth, List.length_cons] at hn ⊢
          omega)
        rw [Scans, scanOnce, if_neg (by decide), if_neg (by decide), if_pos rfl, if_neg h.head.1,
          show scanElements n (skip t) = _ from helements, Option.map_some]
  | @lastElement text t rest v h hend ih =>
      rintro (_ | n) hn
      · simp [depth] at hn
      · have hvalue := ih n (by simp only [depth] at hn ⊢; omega)
        rw [Scans, scanElements, show scanOnce n text = _ from hvalue]
        dsimp only
        rw [if_pos (head?_skip hend), hend, List.tail_cons]
  | @nextElement text t t' rest v items h hcomma hrest ih ihrest =>
      rintro (_ | n) hn
      · simp [depth] at hn
      · have hvalue := ih n (by simp only [depth] at hn ⊢; omega)
        have helements := ihrest n (by
          have hlength := length_skip_le t'
          have hshort := (skip_cons_suffix hcomma).2
          have hread := h.suffix.2
          simp only [depth] at hn ⊢
          omega)
        rw [Scans, scanElements, show scanOnce n text = _ from hvalue]
        dsimp only
        rw [if_neg (by rw [head?_skip hcomma]; decide), if_pos (head?_skip hcomma), hcomma, List.tail_cons,
          show scanElements n (skip t') = _ from helements, Option.map_some]
  | @lastMember t t₁ t₂ t₃ rest key v hkey hcolon h hend ih =>
      rintro (_ | n) hn
      · simp [depth] at hn
      · have hvalue := ih n (by
          have hlength := length_skip_le t₂
          have hshort := (skip_cons_suffix hcolon).2
          have hread := (readString_suffix hkey).2
          simp only [depth, List.length_cons] at hn ⊢
          omega)
        rw [Scans, scanMembers, if_pos List.head?_cons, List.tail_cons, hkey]
        dsimp only
        rw [if_pos (head?_skip hcolon), hcolon, List.tail_cons, show scanOnce n (skip t₂) = _ from hvalue]
        dsimp only
        rw [if_pos (head?_skip hend), hend, List.tail_cons]
  | @nextMember t t₁ t₂ t₃ t₄ rest key v fields hkey hcolon h hcomma hrest ih ihrest =>
      rintro (_ | n) hn
      · simp [depth] at hn
      · have hlength := length_skip_le t₂
        have hshort := (skip_cons_suffix hcolon).2
        have hread := (readString_suffix hkey).2
        have hvalue := ih n (by
          simp only [depth, List.length_cons] at hn ⊢
          omega)
        have hmembers := ihrest n (by
          have hlength := length_skip_le t₄
          have hcut := (skip_cons_suffix hcomma).2
          have hvalue := h.suffix.2
          simp only [depth, List.length_cons] at hn ⊢
          omega)
        rw [Scans, scanMembers, if_pos List.head?_cons, List.tail_cons, hkey]
        dsimp only
        rw [if_pos (head?_skip hcolon), hcolon, List.tail_cons, show scanOnce n (skip t₂) = _ from hvalue]
        dsimp only
        rw [if_neg (by rw [head?_skip hcomma]; decide), if_pos (head?_skip hcomma), hcomma, List.tail_cons,
          show scanMembers n (skip t₄) = _ from hmembers, Option.map_some]

theorem skip_eq_cons {t : List Char} {c : Char} (h : (skip t).head? = some c) : skip t = c :: (skip t).tail := by
  cases ht : skip t with
  | nil => rw [ht] at h; cases h
  | cons d rest =>
      rw [ht] at h
      cases h
      rfl

theorem reads_of_scanOnce {n : Nat} {text rest : List Char} {v : Value}
    (hmembers : ∀ t rest fields, scanMembers n t = some (fields, rest) → Reads t (.members fields) rest)
    (helements : ∀ t rest items, scanElements n t = some (items, rest) → Reads t (.elements items) rest)
    (h : scanOnce (n + 1) text = some (v, rest)) : Reads text (.value v) rest := by
  cases text with
  | nil => cases h
  | cons c t =>
      rw [scanOnce] at h
      split at h
      · next hc =>
          subst hc
          obtain ⟨⟨key, r⟩, hkey, heq⟩ := Option.map_eq_some_iff.mp h
          cases heq
          exact .string hkey
      split at h
      · next hc =>
          subst hc
          split at h
          · next hend =>
              cases h
              exact .emptyObject (skip_eq_cons hend)
          · obtain ⟨⟨fields, r⟩, hfields, heq⟩ := Option.map_eq_some_iff.mp h
            cases heq
            exact .object (hmembers _ _ _ hfields)
      split at h
      · next hc =>
          subst hc
          split at h
          · next hend =>
              cases h
              exact .emptyArray (skip_eq_cons hend)
          · obtain ⟨⟨items, r⟩, hitems, heq⟩ := Option.map_eq_some_iff.mp h
            cases heq
            exact .array (helements _ _ _ hitems)
      · exact .scalar h

theorem reads_of_scan (n : Nat) :
    (∀ text rest v, scanOnce n text = some (v, rest) → Reads text (.value v) rest) ∧
      (∀ text rest items, scanElements n text = some (items, rest) → Reads text (.elements items) rest) ∧
      (∀ text rest fields, scanMembers n text = some (fields, rest) → Reads text (.members fields) rest) := by
  induction n with
  | zero => exact ⟨by rintro _ _ _ ⟨⟩, by rintro _ _ _ ⟨⟩, by rintro _ _ _ ⟨⟩⟩
  | succ n ih =>
      obtain ⟨hvalue, helements, hmembers⟩ := ih
      refine ⟨fun text rest v h => reads_of_scanOnce hmembers helements h, ?_, ?_⟩
      · intro text rest items h
        rw [scanElements] at h
        split at h
        · cases h
        next v t hv =>
        split at h
        · next hend =>
            cases h
            exact .lastElement (hvalue _ _ _ hv) (skip_eq_cons hend)
        split at h
        · next hcomma =>
            obtain ⟨⟨more, r⟩, hmore, heq⟩ := Option.map_eq_some_iff.mp h
            cases heq
            exact .nextElement (hvalue _ _ _ hv) (skip_eq_cons hcomma) (helements _ _ _ hmore)
        · cases h
      · intro text rest fields h
        rw [scanMembers] at h
        split at h
        · next hquote =>
            obtain ⟨t, rfl⟩ : ∃ t, text = '"' :: t := by
              cases text with
              | nil => cases hquote
              | cons c t =>
                  cases hquote
                  exact ⟨t, rfl⟩
            rw [List.tail_cons] at h
            split at h
            · cases h
            next key t₁ hkey =>
            split at h
            · next hcolon =>
                split at h
                · cases h
                next v t₃ hv =>
                split at h
                · next hend =>
                    cases h
                    exact .lastMember hkey (skip_eq_cons hcolon) (hvalue _ _ _ hv) (skip_eq_cons hend)
                split at h
                · next hcomma =>
                    obtain ⟨⟨more, r⟩, hmore, heq⟩ := Option.map_eq_some_iff.mp h
                    cases heq
                    exact .nextMember hkey (skip_eq_cons hcolon) (hvalue _ _ _ hv) (skip_eq_cons hcomma)
                      (hmembers _ _ _ hmore)
                · cases h
            · cases h
        · cases h

/-- The decoder reads what the grammar does. -/
theorem rawDecode_eq_some {text rest : List Char} {v : Value} :
    rawDecode text = some (v, rest) ↔ Reads text (.value v) rest :=
  ⟨(reads_of_scan _).1 text rest v, fun h => h.scans _ (Nat.le_refl _)⟩

theorem Reads.unique {text rest rest' : List Char} {v v' : Value} (h : Reads text (.value v) rest)
    (h' : Reads text (.value v') rest') : v = v' ∧ rest = rest' := by
  have heq := (rawDecode_eq_some.mpr h).symm.trans (rawDecode_eq_some.mpr h')
  rw [Option.some.injEq, Prod.mk.injEq] at heq
  exact heq

theorem loads_eq_some {text : List Char} {v : Value} :
    loads text = some v ↔ ∃ rest, Reads (skip text) (.value v) rest ∧ skip rest = [] := by
  rw [loads]
  constructor
  · intro h
    split at h
    · next v' rest hread =>
        split at h
        · next hblank =>
            cases h
            exact ⟨rest, rawDecode_eq_some.mp hread, hblank⟩
        · cases h
    · cases h
  · rintro ⟨rest, hread, hblank⟩
    rw [rawDecode_eq_some.mpr hread]
    exact if_pos hblank

end BorgManager.JsonGrammar
