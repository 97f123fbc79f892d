import Mathlib.Data.List.Basic
import Mathlib.Data.Nat.Basic

namespace BorgManager.Numerals

/-- A decimal numeral of a positive number without leading zeros. -/
def isNumeral : List Char → Bool
  | [] => false
  | c :: cs => (c.isDigit && c != '0') && cs.all Char.isDigit

/-- The number in a name that consists of a stem and a numeral. -/
def numbered (stem name : String) : Option Nat := do
  let digits ← stem.toList.isPrefixOf? name.toList
  if isNumeral digits then some (Nat.ofDigitChars 10 digits 0) else none

theorem isPrefixOf?_eq_some {stem cs rest : List Char} : stem.isPrefixOf? cs = some rest ↔ cs = stem ++ rest := by
  induction stem generalizing cs with
  | nil => simp [List.isPrefixOf?]
  | cons p ps ih =>
      cases cs with
      | nil => simp [List.isPrefixOf?]
      | cons c cs =>
          simp only [List.isPrefixOf?, List.cons_append, List.cons.injEq, beq_iff_eq, Option.ite_none_right_eq_some, ih]
          exact and_congr_left' eq_comm

theorem exists_digitChar {c : Char} (h : c.isDigit = true) : ∃ d, d < 10 ∧ c = d.digitChar := by
  have hrange : 48 ≤ c.toNat ∧ c.toNat ≤ 57 := Char.isDigit_iff_toNat.mp h
  have hd : c.toNat - 48 < 10 := by omega
  refine ⟨c.toNat - 48, hd, Char.toNat_inj.mp ?_⟩
  rw [Nat.toNat_digitChar_of_lt_ten hd]
  omega

theorem toDigits_ofDigitChars {cs : List Char} {value : Nat} (hvalue : 0 < value) (h : ∀ c ∈ cs, c.isDigit = true) :
    Nat.toDigits 10 (Nat.ofDigitChars 10 cs value) = Nat.toDigits 10 value ++ cs := by
  induction cs generalizing value with
  | nil => rw [Nat.ofDigitChars_nil, List.append_nil]
  | cons c cs ih =>
      obtain ⟨d, hd, heq⟩ := exists_digitChar (h c (List.mem_cons_self ..))
      have hstep : Nat.toDigits 10 (10 * value + d) = Nat.toDigits 10 value ++ [c] := by
        rw [← Nat.toDigits_append_toDigits (by decide) hvalue hd, Nat.toDigits_of_lt_base hd, heq]
      rw [heq, Nat.ofDigitChars_cons_digitChar_of_lt_ten hd,
        ih (by omega) (fun x hx => h x (List.mem_cons_of_mem _ hx)),
        hstep, ← heq, List.append_assoc, List.singleton_append]

theorem isNumeral_toDigits {n : Nat} (h : 0 < n) : isNumeral (Nat.toDigits 10 n) = true := by
  induction n using Nat.strongRecOn with
  | ind n ih =>
      by_cases hlt : n < 10
      · rw [Nat.toDigits_of_lt_base hlt]
        have hne : n.digitChar ≠ '0' := fun heq => Nat.ne_of_gt h (Nat.digitChar_eq_zero.mp heq)
        simp [isNumeral, hne, hlt]
      · rw [Nat.toDigits_of_base_le (by decide) (by omega)]
        have hhead := ih (n / 10) (by omega) (by omega)
        cases hdigits : Nat.toDigits 10 (n / 10) with
        | nil => exact absurd hdigits Nat.toDigits_ne_nil
        | cons c cs =>
            rw [hdigits] at hhead
            simp only [isNumeral, Bool.and_eq_true, List.all_eq_true, List.cons_append, List.mem_append,
              List.mem_singleton] at hhead ⊢
            refine ⟨hhead.1, fun x hx => hx.elim (hhead.2 x) ?_⟩
            rintro rfl
            simp [Nat.mod_lt]

theorem toDigits_of_isNumeral {cs : List Char} (h : isNumeral cs = true) :
    0 < Nat.ofDigitChars 10 cs 0 ∧ Nat.toDigits 10 (Nat.ofDigitChars 10 cs 0) = cs := by
  cases cs with
  | nil => cases h
  | cons c cs =>
      simp only [isNumeral, Bool.and_eq_true, bne_iff_ne, ne_eq, List.all_eq_true] at h
      obtain ⟨⟨hdigit, hne⟩, hall⟩ := h
      obtain ⟨d, hd, heq⟩ := exists_digitChar hdigit
      have hpos : 0 < d := by
        rcases Nat.eq_zero_or_pos d with hzero | hpos
        · exact absurd (heq.trans (by rw [hzero]; rfl)) hne
        · exact hpos
      have hdigits : Nat.toDigits 10 (Nat.ofDigitChars 10 (c :: cs) 0) = c :: cs := by
        rw [heq, Nat.ofDigitChars_cons_digitChar_of_lt_ten hd, Nat.mul_zero, Nat.zero_add,
          toDigits_ofDigitChars hpos hall,
          Nat.toDigits_of_lt_base hd, List.singleton_append]
      refine ⟨Nat.pos_of_ne_zero (fun hzero => hne ?_), hdigits⟩
      rw [hzero] at hdigits
      exact (List.cons.inj hdigits).1.symm

/-- A name is read as the number that its text shows. -/
theorem numbered_eq_some {stem name : String} {n : Nat} :
    numbered stem name = some n ↔ 0 < n ∧ name = stem ++ toString n := by
  have htext (digits : List Char) : name.toList = stem.toList ++ digits ↔ name = stem ++ String.ofList digits := by
    rw [← String.toList_inj, String.toList_append, String.toList_ofList]
  rw [numbered]
  constructor
  · intro h
    obtain ⟨digits, hdigits, h⟩ := Option.bind_eq_some_iff.mp h
    obtain ⟨hnumeral, h⟩ := Option.ite_none_right_eq_some.mp h
    obtain ⟨hpos, hback⟩ := toDigits_of_isNumeral hnumeral
    rw [Option.some.inj h] at hpos hback
    refine ⟨hpos, ?_⟩
    rw [(htext digits).mp (isPrefixOf?_eq_some.mp hdigits), Nat.toString_eq_ofList_toDigits, hback]
  · rintro ⟨hpos, hname⟩
    have hdigits := isPrefixOf?_eq_some.mpr ((htext (Nat.toDigits 10 n)).mpr hname)
    exact Option.bind_eq_some_iff.mpr ⟨_, hdigits,
      Option.ite_none_right_eq_some.mpr ⟨isNumeral_toDigits hpos, by rw [Nat.ofDigitChars_ten_toDigits]⟩⟩

theorem toString_inj {a b : Nat} (h : toString a = toString b) : a = b := by
  have hdigits := congrArg String.toList h
  rw [Nat.toString_eq_repr, Nat.toString_eq_repr, Nat.toList_repr, Nat.toList_repr] at hdigits
  have hvalues := congrArg (fun digits => Nat.ofDigitChars 10 digits 0) hdigits
  simpa only [Nat.ofDigitChars_ten_toDigits] using hvalues

theorem append_toString_inj {stem : String} {a b : Nat} (h : stem ++ toString a = stem ++ toString b) : a = b := by
  rw [← String.toList_inj, String.toList_append, String.toList_append] at h
  exact toString_inj (String.toList_inj.mp (List.append_cancel_left h))

theorem toString_digits (n : Nat) : ∀ c ∈ (toString n).toList, c.isDigit = true := by
  intro c hc
  rw [Nat.toString_eq_repr, Nat.toList_repr] at hc
  exact Nat.isDigit_of_mem_toDigits (by decide) (by decide) hc

end BorgManager.Numerals
