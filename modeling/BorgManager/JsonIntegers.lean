import BorgManager.JsonLexing

namespace BorgManager.JsonIntegers

open JsonGrammar JsonLexing

/-- The text of an integer. -/
def intText : Int → List Char
  | .ofNat n => Nat.toDigits 10 n
  | .negSucc n => '-' :: Nat.toDigits 10 (n + 1)

/-- What follows the opening bracket of a list. -/
def items (ns : List Int) : List Char := [',', ' '].intercalate (ns.map intText) ++ [']']

/-- `json.dumps` of a list of integers. -/
def dumps (ns : List Int) : List Char := '[' :: items ns

theorem digits_toDigits (n : Nat) : ∀ c ∈ Nat.toDigits 10 n, c.isDigit = true := by
  intro c hc
  exact Nat.isDigit_of_mem_toDigits (by decide) (by decide) hc

theorem numeralChar_digit {c : Char} (h : c.isDigit = true) : isNumeralChar c = true := by
  simp [isNumeralChar, h]

theorem numeralChars_intText (n : Int) : ∀ c ∈ intText n, isNumeralChar c = true := by
  intro c hc
  cases n with
  | ofNat n => exact numeralChar_digit (digits_toDigits n c hc)
  | negSucc n =>
      rcases List.mem_cons.mp hc with rfl | hc
      · rfl
      · exact numeralChar_digit (digits_toDigits _ c hc)

/-- A number has no zero before its digits. -/
theorem plain_toDigits (n : Nat) :
    ¬ (Nat.toDigits 10 n = [] ∨ ((Nat.toDigits 10 n).head? = some '0' ∧ Nat.toDigits 10 n ≠ ['0'])) := by
  rintro (hnil | ⟨hhead, hne⟩)
  · exact Nat.toDigits_ne_nil hnil
  · rcases Nat.eq_zero_or_pos n with rfl | hpos
    · exact hne rfl
    · have hnumeral := Numerals.isNumeral_toDigits hpos
      cases hdigits : Nat.toDigits 10 n with
      | nil => exact Nat.toDigits_ne_nil hdigits
      | cons c cs =>
          rw [hdigits] at hhead hnumeral
          cases hhead
          exact absurd hnumeral (by simp [Numerals.isNumeral])

theorem numeral_of_digits {token : List Char} {n : Nat}
    (h : (if token.head? = some '-' then token.tail else token) = Nat.toDigits 10 n) :
    numeral token = some (.int (if token.head? = some '-' then -(n : Int) else n)) := by
  have htake : (Nat.toDigits 10 n).takeWhile Char.isDigit = Nat.toDigits 10 n :=
    List.takeWhile_eq_self_iff.mpr (digits_toDigits n)
  have hdrop : (Nat.toDigits 10 n).dropWhile Char.isDigit = [] := List.dropWhile_eq_nil_iff.mpr (digits_toDigits n)
  unfold numeral
  simp only [h, htake, hdrop, if_neg (plain_toDigits n), whole, Nat.ofDigitChars_ten_toDigits, if_true]

theorem numeral_intText (n : Int) : numeral (intText n) = some (.int n) := by
  cases n with
  | ofNat n =>
      have hsign : ¬ (Nat.toDigits 10 n).head? = some '-' := by
        intro hhead
        exact absurd (digits_toDigits n _ (List.mem_of_head? hhead)) (by decide)
      rw [intText, numeral_of_digits (if_neg hsign), if_neg hsign]
      rfl
  | negSucc n =>
      have hdigits := @numeral_of_digits ('-' :: Nat.toDigits 10 (n + 1)) (n + 1) (if_pos List.head?_cons)
      rw [if_pos List.head?_cons] at hdigits
      exact hdigits

theorem reads_intText (n : Int) {r : List Char} (hr : Stops r) : Reads (intText n ++ r) (.value (.int n)) r := by
  have htake : (intText n ++ r).takeWhile isNumeralChar = intText n := by
    rw [List.takeWhile_append_of_pos (numeralChars_intText n)]
    cases r with
    | nil => rw [List.takeWhile_nil, List.append_nil]
    | cons c r => rw [List.takeWhile_cons_of_neg (by rw [hr c rfl]; exact Bool.false_ne_true), List.append_nil]
  have hdrop : (intText n ++ r).dropWhile isNumeralChar = r := by
    rw [List.dropWhile_append_of_pos (numeralChars_intText n)]
    cases r with
    | nil => rfl
    | cons c r => exact List.dropWhile_cons_of_neg (by rw [hr c rfl]; exact Bool.false_ne_true)
  apply Reads.scalar
  rw [readScalar, readNumeral, htake, hdrop, numeral_intText]
  rfl

theorem skip_intText (n : Int) (r : List Char) : skip (intText n ++ r) = intText n ++ r := by
  cases htext : intText n with
  | nil =>
      have hnumeral := numeral_intText n
      rw [htext] at hnumeral
      cases hnumeral
  | cons c cs =>
      have hc := numeralChars_intText n c (htext ▸ List.mem_cons_self ..)
      have hblank : ¬ isBlank c = true := fun h => by rw [isNumeralChar_blank h] at hc; cases hc
      rw [skip, List.cons_append, List.dropWhile_cons_of_neg hblank]

theorem items_cons (n m : Int) (ns : List Int) : items (n :: m :: ns) = intText n ++ ',' :: ' ' :: items (m :: ns) := by
  simp [items, List.intercalate]

theorem skip_items (n : Int) (ns : List Int) : skip (items (n :: ns)) = items (n :: ns) := by
  cases ns with
  | nil =>
      have hitems : items [n] = intText n ++ [']'] := by simp [items, List.intercalate]
      rw [hitems, skip_intText]
  | cons m ns => rw [items_cons, skip_intText]

theorem reads_items (n : Int) (ns : List Int) : Reads (items (n :: ns)) (.elements ((n :: ns).map Value.int)) [] := by
  induction ns generalizing n with
  | nil =>
      have hvalue := reads_intText n (@stops_cons ']' [] rfl)
      simpa [items, List.intercalate] using Reads.lastElement hvalue rfl
  | cons m ns ih =>
      have hvalue := reads_intText n (@stops_cons ',' (' ' :: items (m :: ns)) rfl)
      have hblank : skip (' ' :: items (m :: ns)) = items (m :: ns) := skip_items m ns
      have hrest := ih m
      rw [← hblank] at hrest
      rw [items_cons]
      exact .nextElement hvalue rfl hrest

/-- The reader gets the integers back. -/
theorem loads_dumps (ns : List Int) : loads (dumps ns) = some (.arr (ns.map Value.int)) := by
  rw [loads_eq_some]
  refine ⟨[], ?_, rfl⟩
  cases ns with
  | nil => exact .emptyArray rfl
  | cons n ns =>
      have helements := reads_items n ns
      rw [← skip_items] at helements
      exact .array helements

end BorgManager.JsonIntegers
