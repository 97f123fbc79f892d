import Mathlib.Data.List.Basic

namespace BorgManager.Utf8Decoding

/-- A character that the decoder has only read in part: its bits so far, the
number of bytes it still misses, and the range of the next one. -/
structure Unfinished where
  value : Nat
  missing : Nat
  low : Nat
  high : Nat
  lowest : 0x80 ≤ low
  highest : high ≤ 0xBF

def replacementCharacter : Char := Char.ofNat 0xFFFD

namespace Unfinished

def Continues (p : Unfinished) (b : UInt8) : Prop := p.low ≤ b.toNat ∧ b.toNat ≤ p.high

instance (p : Unfinished) (b : UInt8) : Decidable (p.Continues b) :=
  inferInstanceAs (Decidable (p.low ≤ b.toNat ∧ b.toNat ≤ p.high))

/-- Any continuation byte may come next. -/
def awaiting (value missing : Nat) : Unfinished := ⟨value, missing, 0x80, 0xBF, Nat.le_refl _, Nat.le_refl _⟩

def extend (p : Unfinished) (b : UInt8) : List Char × Option Unfinished :=
  if p.missing = 1 then ([Char.ofNat (p.value * 64 + (b.toNat - 0x80))], none)
  else ([], some (awaiting (p.value * 64 + (b.toNat - 0x80)) (p.missing - 1)))

end Unfinished

/-- The first byte of a character. The ranges of the second bytes exclude
overlong forms, surrogates and code points that are too large. -/
def lead (b : UInt8) : List Char × Option Unfinished :=
  if b.toNat < 0x80 then ([Char.ofNat b.toNat], none)
  else if b.toNat < 0xC2 then ([replacementCharacter], none)
  else if b.toNat < 0xE0 then ([], some (.awaiting (b.toNat - 0xC0) 1))
  else if b.toNat = 0xE0 then ([], some ⟨0, 2, 0xA0, 0xBF, by decide, by decide⟩)
  else if b.toNat = 0xED then ([], some ⟨0xD, 2, 0x80, 0x9F, by decide, by decide⟩)
  else if b.toNat < 0xF0 then ([], some (.awaiting (b.toNat - 0xE0) 2))
  else if b.toNat = 0xF0 then ([], some ⟨0, 3, 0x90, 0xBF, by decide, by decide⟩)
  else if b.toNat < 0xF4 then ([], some (.awaiting (b.toNat - 0xF0) 3))
  else if b.toNat = 0xF4 then ([], some ⟨4, 3, 0x80, 0x8F, by decide, by decide⟩)
  else ([replacementCharacter], none)

/-- One byte: the text it completes and the character that is then unfinished.
A byte that does not continue the unfinished character ends it with one
replacement character and starts afresh. -/
def step : Option Unfinished → UInt8 → List Char × Option Unfinished
  | none, b => lead b
  | some p, b => if p.Continues b then p.extend b else (replacementCharacter :: (lead b).1, (lead b).2)

/-- The end of the input. -/
def finish : Option Unfinished → List Char
  | none => []
  | some _ => [replacementCharacter]

def decodeFrom (p : Option Unfinished) : List UInt8 → List Char
  | [] => finish p
  | b :: bs => (step p b).1 ++ decodeFrom (step p b).2 bs

/-- `bytes.decode("utf-8", errors="replace")`. -/
def decode (bs : List UInt8) : List Char := decodeFrom none bs

def after (p : Option Unfinished) : List UInt8 → Option Unfinished
  | [] => p
  | b :: bs => after (step p b).2 bs

def emitted (p : Option Unfinished) : List UInt8 → List Char
  | [] => []
  | b :: bs => (step p b).1 ++ emitted (step p b).2 bs

/-- The cut between two pieces of text runs through a character. -/
def Cut (xs ys : List UInt8) : Prop := ∃ p ∈ after none xs, ∃ y ∈ ys.head?, p.Continues y

instance (xs ys : List UInt8) : Decidable (Cut xs ys) :=
  inferInstanceAs (Decidable (∃ p ∈ after none xs, ∃ y ∈ ys.head?, p.Continues y))

theorem decodeFrom_append (p : Option Unfinished) (xs ys : List UInt8) :
    decodeFrom p (xs ++ ys) = emitted p xs ++ decodeFrom (after p xs) ys := by
  induction xs generalizing p with
  | nil => rfl
  | cons b bs ih => simp only [List.cons_append, decodeFrom, emitted, after, ih, List.append_assoc]

theorem decodeFrom_eq (p : Option Unfinished) (xs : List UInt8) :
    decodeFrom p xs = emitted p xs ++ finish (after p xs) := by
  have h := decodeFrom_append p xs []
  rwa [List.append_nil] at h

theorem decodeFrom_of_not_continues {p : Option Unfinished} {ys : List UInt8}
    (h : ∀ q ∈ p, ∀ y ∈ ys.head?, ¬ q.Continues y) : decodeFrom p ys = finish p ++ decode ys := by
  cases p with
  | none => rfl
  | some q =>
      cases ys with
      | nil => rfl
      | cons y ys =>
          have hy := h q rfl y rfl
          simp only [decodeFrom, decode, step, if_neg hy, finish, List.cons_append, List.nil_append]

/-- A continuation byte on its own is not a character. -/
theorem lead_of_continues {p : Unfinished} {y : UInt8} (h : p.Continues y) :
    lead y = ([replacementCharacter], none) := by
  have hlow := Nat.le_trans p.lowest h.1
  have hhigh := Nat.le_trans h.2 p.highest
  rw [lead, if_neg (by omega), if_pos (by omega)]

theorem decode_of_continues {p : Unfinished} {y : UInt8} (h : p.Continues y) (ys : List UInt8) :
    decode (y :: ys) = replacementCharacter :: decode ys := by
  rw [decode, decodeFrom, step, lead_of_continues h]
  rfl

/-- An unfinished character adds at most one character to what follows it. -/
theorem length_decodeFrom_le (p : Unfinished) (ys : List UInt8) :
    (decodeFrom (some p) ys).length ≤ 1 + (decode ys).length := by
  induction ys generalizing p with
  | nil => exact Nat.le_refl _
  | cons y ys ih =>
      by_cases hy : p.Continues y
      · rw [decode_of_continues hy, decodeFrom, step, if_pos hy, Unfinished.extend]
        split
        · simp only [List.length_append, List.length_cons, List.length_nil, decode]
          omega
        · have hrest := ih (.awaiting (p.value * 64 + (y.toNat - 0x80)) (p.missing - 1))
          simp only [List.length_append, List.length_cons, List.length_nil]
          omega
      · have hstop : ∀ q ∈ some p, ∀ z ∈ (y :: ys).head?, ¬ q.Continues z := by
          intro q hq z hz
          cases hq
          cases hz
          exact hy
        have hlength : (decodeFrom (some p) (y :: ys)).length = 1 + (decode (y :: ys)).length := by
          rw [decodeFrom_of_not_continues hstop, List.length_append, finish, List.length_singleton]
        exact Nat.le_of_eq hlength

theorem length_decodeFrom_lt {p : Unfinished} {y : UInt8} (hy : p.Continues y) (ys : List UInt8) :
    (decodeFrom (some p) (y :: ys)).length < 1 + (decode (y :: ys)).length := by
  rw [decode_of_continues hy, decodeFrom, step, if_pos hy, Unfinished.extend]
  split
  · simp only [List.length_append, List.length_cons, List.length_nil, decode]
    omega
  · have hrest := length_decodeFrom_le (.awaiting (p.value * 64 + (y.toNat - 0x80)) (p.missing - 1)) ys
    simp only [List.length_append, List.length_cons, List.length_nil]
    omega

/-- Two pieces may be decoded one by one exactly where the cut between them
is not inside a character. -/
theorem decode_append_iff (xs ys : List UInt8) : decode (xs ++ ys) = decode xs ++ decode ys ↔ ¬ Cut xs ys := by
  have happend : decode (xs ++ ys) = emitted none xs ++ decodeFrom (after none xs) ys := decodeFrom_append none xs ys
  have hfirst : decode xs = emitted none xs ++ finish (after none xs) := decodeFrom_eq none xs
  rw [happend, hfirst, List.append_assoc, List.append_cancel_left_eq]
  constructor
  · rintro heq ⟨p, hp, y, hy, hcontinues⟩
    obtain ⟨ys, rfl⟩ : ∃ rest, ys = y :: rest := by
      cases ys with
      | nil => nomatch hy
      | cons z rest => cases hy; exact ⟨rest, rfl⟩
    rw [Option.mem_def.mp hp] at heq
    have hlen := congrArg List.length heq
    have hlt := length_decodeFrom_lt hcontinues ys
    rw [List.length_append, finish, List.length_singleton] at hlen
    omega
  · intro hcut
    apply decodeFrom_of_not_continues
    intro q hq y hy hcontinues
    exact hcut ⟨q, hq, y, hy, hcontinues⟩

theorem decodeFrom_last {p : Unfinished} {b : UInt8} (hb : p.Continues b) (hlast : p.missing = 1) (bs : List UInt8) :
    decodeFrom (some p) (b :: bs) = Char.ofNat (p.value * 64 + (b.toNat - 0x80)) :: decode bs := by
  rw [decodeFrom, step, if_pos hb, Unfinished.extend, if_pos hlast]
  rfl

theorem decodeFrom_more {p : Unfinished} {b : UInt8} (hb : p.Continues b) (hmore : p.missing ≠ 1) (bs : List UInt8) :
    decodeFrom (some p) (b :: bs) =
      decodeFrom (some (.awaiting (p.value * 64 + (b.toNat - 0x80)) (p.missing - 1))) bs := by
  rw [decodeFrom, step, if_pos hb, Unfinished.extend, if_neg hmore]
  rfl

theorem decode_lead {b : UInt8} {p : Unfinished} (hb : lead b = ([], some p)) (bs : List UInt8) :
    decode (b :: bs) = decodeFrom (some p) bs := by
  rw [decode, decodeFrom, step, hb]
  rfl

theorem toNat_ofNat {n : Nat} (h : n < 256) : (UInt8.ofNat n).toNat = n :=
  Nat.mod_eq_of_lt h

theorem decode_one {n : Nat} (hn : n < 0x80) (bs : List UInt8) :
    decode (UInt8.ofNat n :: bs) = Char.ofNat n :: decode bs := by
  have hb := toNat_ofNat (show n < 256 by omega)
  rw [decode, decodeFrom, step, lead, hb, if_pos hn]
  rfl

theorem decode_replicate_append {b : Nat} (hb : b < 0x80) (n : Nat) (bs : List UInt8) :
    decode (List.replicate n (UInt8.ofNat b) ++ bs) = List.replicate n (Char.ofNat b) ++ decode bs := by
  induction n with
  | zero => rfl
  | succ n ih => rw [List.replicate_succ, List.replicate_succ, List.cons_append, decode_one hb, ih, List.cons_append]

theorem decode_replicate {b : Nat} (hb : b < 0x80) (n : Nat) :
    decode (List.replicate n (UInt8.ofNat b)) = List.replicate n (Char.ofNat b) := by
  have happend := decode_replicate_append hb n []
  rw [List.append_nil] at happend
  exact happend.trans (List.append_nil _)

theorem length_step_le (p : Option Unfinished) (b : UInt8) :
    (step p b).1.length + (finish (step p b).2).length ≤ 1 + (finish p).length := by
  have hlead : (lead b).1.length + (finish (lead b).2).length ≤ 1 := by
    rw [lead]
    repeat' split
    all_goals exact Nat.le_refl _
  cases p with
  | none => exact hlead
  | some p =>
      rw [step]
      split
      · rw [Unfinished.extend]
        split <;> simp [finish]
      · simp only [List.length_cons, finish] at hlead ⊢
        rw [List.length_nil]
        omega

/-- Every character comes from at least one byte. -/
theorem length_decode_le (bs : List UInt8) : (decode bs).length ≤ bs.length := by
  have hfrom (p : Option Unfinished) : (decodeFrom p bs).length ≤ bs.length + (finish p).length := by
    induction bs generalizing p with
    | nil => simp [decodeFrom]
    | cons b bs ih =>
        have hstep := length_step_le p b
        have hrest := ih (step p b).2
        rw [decodeFrom, List.length_append, List.length_cons]
        omega
  exact hfrom none

theorem awaiting_continues {m : Nat} (hm : m < 64) (value missing : Nat) :
    (Unfinished.awaiting value missing).Continues (UInt8.ofNat (m + 0x80)) := by
  rw [Unfinished.Continues, toNat_ofNat (by omega)]
  exact ⟨Nat.le_add_left _ _, Nat.le_of_lt_succ (Nat.add_lt_add_right hm 0x80)⟩

theorem decodeFrom_awaiting_one {m : Nat} (hm : m < 64) (value : Nat) (bs : List UInt8) :
    decodeFrom (some (.awaiting value 1)) (UInt8.ofNat (m + 0x80) :: bs) =
      Char.ofNat (value * 64 + m) :: decode bs := by
  rw [decodeFrom_last (awaiting_continues hm value 1) rfl, toNat_ofNat (by omega), Nat.add_sub_cancel]
  rfl

theorem decodeFrom_awaiting_two {m k : Nat} (hm : m < 64) (hk : k < 64) (value : Nat) (bs : List UInt8) :
    decodeFrom (some (.awaiting value 2)) (UInt8.ofNat (m + 0x80) :: UInt8.ofNat (k + 0x80) :: bs) =
      Char.ofNat ((value * 64 + m) * 64 + k) :: decode bs := by
  rw [decodeFrom_more (awaiting_continues hm value 2) (by simp [Unfinished.awaiting]), toNat_ofNat (by omega),
    Nat.add_sub_cancel]
  exact decodeFrom_awaiting_one hk (value * 64 + m) bs

theorem decode_two {n m : Nat} (hn : 0xC2 ≤ n ∧ n < 0xE0) (hm : m < 64) (bs : List UInt8) :
    decode (UInt8.ofNat n :: UInt8.ofNat (m + 0x80) :: bs) = Char.ofNat ((n - 0xC0) * 64 + m) :: decode bs := by
  have hlead : lead (UInt8.ofNat n) = ([], some (.awaiting (n - 0xC0) 1)) := by
    rw [lead, toNat_ofNat (by omega), if_neg (by omega), if_neg (by omega), if_pos hn.2]
  rw [decode_lead hlead]
  exact decodeFrom_awaiting_one hm (n - 0xC0) bs

theorem decode_three {n m k : Nat} {p : Unfinished} (hlead : lead (UInt8.ofNat n) = ([], some p))
    (hmissing : p.missing = 2) (hm : p.low ≤ m + 0x80 ∧ m + 0x80 ≤ p.high) (hk : k < 64) (bs : List UInt8) :
    decode (UInt8.ofNat n :: UInt8.ofNat (m + 0x80) :: UInt8.ofNat (k + 0x80) :: bs) =
      Char.ofNat ((p.value * 64 + m) * 64 + k) :: decode bs := by
  have hbyte : (UInt8.ofNat (m + 0x80)).toNat = m + 0x80 :=
    toNat_ofNat (Nat.lt_of_le_of_lt (Nat.le_trans hm.2 p.highest) (by decide))
  have hcontinues : p.Continues (UInt8.ofNat (m + 0x80)) := by
    rw [Unfinished.Continues, hbyte]
    exact hm
  rw [decode_lead hlead, decodeFrom_more hcontinues (by omega), hbyte, Nat.add_sub_cancel, hmissing]
  exact decodeFrom_awaiting_one hk (p.value * 64 + m) bs

theorem decode_four {n m k j : Nat} {p : Unfinished} (hlead : lead (UInt8.ofNat n) = ([], some p))
    (hmissing : p.missing = 3) (hm : p.low ≤ m + 0x80 ∧ m + 0x80 ≤ p.high) (hk : k < 64) (hj : j < 64)
    (bs : List UInt8) :
    decode (UInt8.ofNat n :: UInt8.ofNat (m + 0x80) :: UInt8.ofNat (k + 0x80) :: UInt8.ofNat (j + 0x80) :: bs) =
      Char.ofNat (((p.value * 64 + m) * 64 + k) * 64 + j) :: decode bs := by
  have hbyte : (UInt8.ofNat (m + 0x80)).toNat = m + 0x80 :=
    toNat_ofNat (Nat.lt_of_le_of_lt (Nat.le_trans hm.2 p.highest) (by decide))
  have hcontinues : p.Continues (UInt8.ofNat (m + 0x80)) := by
    rw [Unfinished.Continues, hbyte]
    exact hm
  rw [decode_lead hlead, decodeFrom_more hcontinues (by omega), hbyte, Nat.add_sub_cancel, hmissing]
  exact decodeFrom_awaiting_two hk hj (p.value * 64 + m) bs

theorem lead_three {n : Nat} (hn : 0xE0 ≤ n ∧ n < 0xF0) :
    ∃ p, lead (UInt8.ofNat n) = ([], some p) ∧ p.value = n - 0xE0 ∧ p.missing = 2 ∧
      (n = 0xE0 ∨ p.low = 0x80) ∧ p.low ≤ 0xA0 ∧ (n = 0xED ∨ p.high = 0xBF) ∧ 0x9F ≤ p.high := by
  rw [lead, toNat_ofNat (by omega), if_neg (by omega), if_neg (by omega), if_neg (by omega)]
  by_cases hfirst : n = 0xE0
  · rw [if_pos hfirst]
    exact ⟨_, rfl, by simp [hfirst], rfl, .inl hfirst, by decide, .inr rfl, by decide⟩
  · rw [if_neg hfirst]
    by_cases hsurrogate : n = 0xED
    · rw [if_pos hsurrogate]
      exact ⟨_, rfl, by simp [hsurrogate], rfl, .inr rfl, by decide, .inl hsurrogate, by decide⟩
    · rw [if_neg hsurrogate, if_pos hn.2]
      exact ⟨_, rfl, rfl, rfl, .inr rfl, Nat.le_of_ble_eq_true rfl, .inr rfl, Nat.le_of_ble_eq_true rfl⟩

theorem lead_four {n : Nat} (hn : 0xF0 ≤ n ∧ n ≤ 0xF4) :
    ∃ p, lead (UInt8.ofNat n) = ([], some p) ∧ p.value = n - 0xF0 ∧ p.missing = 3 ∧
      (n = 0xF0 ∨ p.low = 0x80) ∧ p.low ≤ 0x90 ∧ (n = 0xF4 ∨ p.high = 0xBF) ∧ 0x8F ≤ p.high := by
  rw [lead, toNat_ofNat (by omega), if_neg (by omega), if_neg (by omega), if_neg (by omega), if_neg (by omega),
    if_neg (by omega), if_neg (by omega)]
  by_cases hfirst : n = 0xF0
  · rw [if_pos hfirst]
    exact ⟨_, rfl, by simp [hfirst], rfl, .inl hfirst, by decide, .inr rfl, by decide⟩
  · rw [if_neg hfirst]
    by_cases hlast : n = 0xF4
    · rw [if_neg (by omega), if_pos hlast]
      exact ⟨_, rfl, by simp [hlast], rfl, .inr rfl, by decide, .inl hlast, by decide⟩
    · rw [if_pos (by omega)]
      exact ⟨_, rfl, rfl, rfl, .inr rfl, Nat.le_of_ble_eq_true rfl, .inr rfl, Nat.le_of_ble_eq_true rfl⟩

theorem decode_utf8EncodeChar_append (c : Char) (bs : List UInt8) :
    decode (String.utf8EncodeChar c ++ bs) = c :: decode bs := by
  have hvalid : c.toNat < 0xD800 ∨ 0xDFFF < c.toNat ∧ c.toNat < 0x110000 := c.valid
  have hself : Char.ofNat c.toNat = c := Char.ofNat_toNat c
  have hcode : c.val.toNat = c.toNat := rfl
  rw [String.utf8EncodeChar, hcode]
  generalize hn : c.toNat = n at hvalid hself
  split
  · rw [List.singleton_append, decode_one (by omega), hself]
  split
  · rw [List.cons_append, List.singleton_append, decode_two (by omega) (by omega)]
    rw [show (n / 64 % 32 + 0xC0 - 0xC0) * 64 + n % 64 = n by omega, hself]
  split
  · obtain ⟨p, hlead, hvalue, hmissing, hlow, hlow', hhigh, hhigh'⟩ :=
      lead_three (n := n / 4096 % 16 + 0xE0) (by omega)
    rw [List.cons_append, List.cons_append, List.singleton_append, decode_three hlead hmissing (by omega) (by omega)]
    rw [show (p.value * 64 + n / 64 % 64) * 64 + n % 64 = n by omega, hself]
  · obtain ⟨p, hlead, hvalue, hmissing, hlow, hlow', hhigh, hhigh'⟩ :=
      lead_four (n := n / 262144 % 8 + 0xF0) (by omega)
    rw [List.cons_append, List.cons_append, List.cons_append, List.singleton_append,
      decode_four hlead hmissing (by omega) (by omega) (by omega)]
    rw [show ((p.value * 64 + n / 4096 % 64) * 64 + n / 64 % 64) * 64 + n % 64 = n by omega, hself]

/-- Decoding undoes encoding. -/
theorem decode_encode (cs : List Char) : decode (cs.flatMap String.utf8EncodeChar) = cs := by
  induction cs with
  | nil => rfl
  | cons c cs ih => rw [List.flatMap_cons, decode_utf8EncodeChar_append, ih]

end BorgManager.Utf8Decoding
