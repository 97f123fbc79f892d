import Mathlib.Data.List.Basic
import Mathlib.Algebra.Order.Ring.Nat
import Mathlib.Tactic.Tauto

namespace BorgManager.CivilTime

section Calendar

def isLeap (year : Nat) : Bool := year % 4 == 0 && (year % 100 != 0 || year % 400 == 0)

def daysInMonth (year month : Nat) : Nat :=
  if month = 2 then (if isLeap year then 29 else 28)
  else if month = 4 ∨ month = 6 ∨ month = 9 ∨ month = 11 then 30
  else 31

/-- The days of a year before a month. -/
def daysBeforeMonth (year : Nat) : Nat → Nat
  | 0 => 0
  | 1 => 0
  | month + 2 => daysBeforeMonth year (month + 1) + daysInMonth year (month + 1)

def daysBeforeYear (year : Nat) : Nat := (year - 1) * 365 + (year - 1) / 4 - (year - 1) / 100 + (year - 1) / 400

/-- A day of the proleptic Gregorian calendar, as `datetime.date` has them. -/
@[ext] structure Date where
  year : Nat
  month : Nat
  day : Nat
  year_range : 1 ≤ year ∧ year ≤ 9999
  month_range : 1 ≤ month ∧ month ≤ 12
  day_range : 1 ≤ day ∧ day ≤ daysInMonth year month

def Date.ordinal (d : Date) : Nat := daysBeforeYear d.year + daysBeforeMonth d.year d.month + d.day

def Date.Before (a b : Date) : Prop :=
  a.year < b.year ∨ a.year = b.year ∧ (a.month < b.month ∨ a.month = b.month ∧ a.day < b.day)

theorem daysBeforeMonth_succ (year : Nat) {month : Nat} (h : 1 ≤ month) :
    daysBeforeMonth year (month + 1) = daysBeforeMonth year month + daysInMonth year month := by
  obtain ⟨k, rfl⟩ := Nat.exists_eq_add_of_le' h
  rfl

theorem daysBeforeMonth_mono (year : Nat) {m n : Nat} (hm : 1 ≤ m) (h : m ≤ n) :
    daysBeforeMonth year m ≤ daysBeforeMonth year n := by
  induction n, h using Nat.le_induction with
  | base => exact Nat.le_refl _
  | succ n hn ih =>
      rw [daysBeforeMonth_succ year (Nat.le_trans hm hn)]
      exact Nat.le_trans ih (Nat.le_add_right _ _)

theorem daysBeforeMonth_year (year : Nat) : daysBeforeMonth year 13 = if isLeap year then 366 else 365 := by
  simp only [daysBeforeMonth, daysInMonth]
  cases isLeap year <;> rfl

theorem isLeap_iff {year : Nat} : isLeap year = true ↔ 4 ∣ year ∧ (¬ 100 ∣ year ∨ 400 ∣ year) := by
  simp [isLeap, Nat.dvd_iff_mod_eq_zero]

theorem daysBeforeYear_succ {year : Nat} (h : 1 ≤ year) :
    daysBeforeYear (year + 1) = daysBeforeYear year + daysBeforeMonth year 13 := by
  obtain ⟨k, rfl⟩ := Nat.exists_eq_add_of_le' h
  have hcentury : (k + 1) / 100 ≤ (k + 1) / 4 := Nat.div_le_div_left (by decide) (by decide)
  have hcentury' : k / 100 ≤ k / 4 := Nat.div_le_div_left (by decide) (by decide)
  have h100 : 100 ∣ k + 1 → 4 ∣ k + 1 := Nat.dvd_trans (by decide)
  have h400 : 400 ∣ k + 1 → 100 ∣ k + 1 := Nat.dvd_trans (by decide)
  have hfour := @Nat.succ_div k 4
  have hhundred := @Nat.succ_div k 100
  have hfourHundred := @Nat.succ_div k 400
  rw [daysBeforeMonth_year, daysBeforeYear, daysBeforeYear, Nat.add_sub_cancel, Nat.add_sub_cancel]
  generalize (k + 1) / 4 = q4 at *
  generalize (k + 1) / 100 = q100 at *
  generalize (k + 1) / 400 = q400 at *
  by_cases hd4 : 4 ∣ k + 1
  · by_cases hd100 : 100 ∣ k + 1
    · by_cases hd400 : 400 ∣ k + 1
      · rw [if_pos (isLeap_iff.mpr ⟨hd4, Or.inr hd400⟩)]
        rw [if_pos hd4] at hfour
        rw [if_pos hd100] at hhundred
        rw [if_pos hd400] at hfourHundred
        omega
      · rw [if_neg (fun hleap => (isLeap_iff.mp hleap).2.elim (fun hnot => hnot hd100) hd400)]
        rw [if_pos hd4] at hfour
        rw [if_pos hd100] at hhundred
        rw [if_neg hd400] at hfourHundred
        omega
    · rw [if_pos (isLeap_iff.mpr ⟨hd4, Or.inl hd100⟩)]
      rw [if_pos hd4] at hfour
      rw [if_neg hd100] at hhundred
      rw [if_neg (fun hd400 => hd100 (h400 hd400))] at hfourHundred
      omega
  · rw [if_neg (fun hleap => hd4 (isLeap_iff.mp hleap).1)]
    rw [if_neg hd4] at hfour
    rw [if_neg (fun hd100 => hd4 (h100 hd100))] at hhundred
    rw [if_neg (fun hd400 => hd4 (h100 (h400 hd400)))] at hfourHundred
    omega

theorem daysBeforeYear_mono {m n : Nat} (hm : 1 ≤ m) (h : m ≤ n) : daysBeforeYear m ≤ daysBeforeYear n := by
  induction n, h using Nat.le_induction with
  | base => exact Nat.le_refl _
  | succ n hn ih =>
      rw [daysBeforeYear_succ (Nat.le_trans hm hn)]
      exact Nat.le_trans ih (Nat.le_add_right _ _)

/-- A day is within its month. -/
theorem Date.day_le (d : Date) : daysBeforeMonth d.year d.month + d.day ≤ daysBeforeMonth d.year (d.month + 1) := by
  rw [daysBeforeMonth_succ d.year d.month_range.1]
  exact Nat.add_le_add_left d.day_range.2 _

theorem Date.ordinal_lt {a b : Date} (h : a.Before b) : a.ordinal < b.ordinal := by
  have hday := b.day_range.1
  have hmonth := a.day_le
  rw [Date.ordinal, Date.ordinal]
  rcases h with hyear | ⟨hyear, hmonths | ⟨hmonths, hdays⟩⟩
  · have hwithin : daysBeforeMonth a.year (a.month + 1) ≤ daysBeforeMonth a.year 13 :=
      daysBeforeMonth_mono a.year (Nat.succ_le_succ (Nat.zero_le _)) (Nat.succ_le_succ a.month_range.2)
    have hyears : daysBeforeYear (a.year + 1) ≤ daysBeforeYear b.year :=
      daysBeforeYear_mono (Nat.succ_le_succ (Nat.zero_le _)) hyear
    rw [daysBeforeYear_succ a.year_range.1] at hyears
    omega
  · have hwithin : daysBeforeMonth a.year (a.month + 1) ≤ daysBeforeMonth a.year b.month :=
      daysBeforeMonth_mono a.year (Nat.succ_le_succ (Nat.zero_le _)) hmonths
    rw [hyear] at hmonth hwithin ⊢
    omega
  · rw [hyear, hmonths]
    omega

theorem Date.before_cases (a b : Date) : a.Before b ∨ a = b ∨ b.Before a := by
  rw [Date.ext_iff, Date.Before, Date.Before]
  omega

/-- The day before, if the calendar has it. -/
def Date.yesterday (d : Date) : Option Date :=
  if hday : 2 ≤ d.day then
    some ⟨d.year, d.month, d.day - 1, d.year_range, d.month_range, by have := d.day_range; omega⟩
  else if hmonth : 2 ≤ d.month then
    some ⟨d.year, d.month - 1, daysInMonth d.year (d.month - 1), d.year_range, by have := d.month_range; omega,
      by unfold daysInMonth; split <;> split <;> simp, Nat.le_refl _⟩
  else if hyear : 2 ≤ d.year then
    some ⟨d.year - 1, 12, 31, by have := d.year_range; omega, by decide, by decide, Nat.le_refl _⟩
  else none

theorem Date.ordinal_yesterday {d e : Date} (h : d.yesterday = some e) : e.ordinal + 1 = d.ordinal := by
  have hd := d.day_range.1
  have hm := d.month_range.1
  unfold Date.yesterday at h
  split at h
  · obtain rfl := Option.some.inj h
    rw [Date.ordinal, Date.ordinal]
    dsimp only
    omega
  · split at h
    · next hmonth =>
        obtain rfl := Option.some.inj h
        have hsucc := @daysBeforeMonth_succ d.year (d.month - 1) (Nat.le_sub_one_of_lt hmonth)
        rw [Nat.sub_add_cancel hm] at hsucc
        rw [Date.ordinal, Date.ordinal]
        dsimp only
        omega
    · split at h
      · next hyear =>
          obtain rfl := Option.some.inj h
          have hfirst : d.month = 1 := by omega
          have hsucc := @daysBeforeYear_succ (d.year - 1) (Nat.le_sub_one_of_lt hyear)
          have hdecember : daysBeforeMonth (d.year - 1) 13 = daysBeforeMonth (d.year - 1) 12 + 31 := rfl
          rw [Nat.sub_add_cancel d.year_range.1] at hsucc
          rw [Date.ordinal, Date.ordinal, hfirst, show daysBeforeMonth d.year 1 = 0 from rfl]
          dsimp only
          omega
      · cases h

def Date.minusDays : Nat → Date → Option Date
  | 0, d => some d
  | n + 1, d => d.yesterday.bind (Date.minusDays n)

theorem Date.ordinal_minusDays {n : Nat} {d e : Date} (h : d.minusDays n = some e) : e.ordinal + n = d.ordinal := by
  induction n generalizing d with
  | zero => rw [Option.some.inj h, Nat.add_zero]
  | succ n ih =>
      obtain ⟨next, hnext, he⟩ := Option.bind_eq_some_iff.mp h
      rw [← Date.ordinal_yesterday hnext, ← ih he, Nat.add_assoc]

end Calendar

section Clock

@[ext] structure Time where
  hour : Nat
  minute : Nat
  second : Nat
  microsecond : Nat
  hour_lt : hour < 24
  minute_lt : minute < 60
  second_lt : second < 60
  microsecond_lt : microsecond < 1000000

def Time.microseconds (t : Time) : Nat := ((t.hour * 60 + t.minute) * 60 + t.second) * 1000000 + t.microsecond

def dayLength : Nat := 86400000000

theorem Time.microseconds_lt (t : Time) : t.microseconds < dayLength := by
  have hhour := t.hour_lt
  have hminute := t.minute_lt
  have hsecond := t.second_lt
  have hmicrosecond := t.microsecond_lt
  rw [Time.microseconds, dayLength]
  omega

/-- A `datetime` in UTC. -/
@[ext] structure DateTime where
  date : Date
  time : Time

/-- The instant, in microseconds. -/
def DateTime.instant (dt : DateTime) : Nat := dt.date.ordinal * dayLength + dt.time.microseconds

def DateTime.minusDays (n : Nat) (dt : DateTime) : Option DateTime :=
  (dt.date.minusDays n).map (fun date => ⟨date, dt.time⟩)

theorem DateTime.instant_minusDays {n : Nat} {dt cutoff : DateTime} (h : dt.minusDays n = some cutoff) :
    cutoff.instant + n * dayLength = dt.instant := by
  obtain ⟨date, hdate, rfl⟩ := Option.map_eq_some_iff.mp h
  rw [DateTime.instant, DateTime.instant, ← Date.ordinal_minusDays hdate, Nat.add_mul, Nat.add_right_comm]

/-- Instants are ordered by day, and within a day by time. -/
theorem DateTime.instant_lt_iff {a b : DateTime} :
    a.instant < b.instant ↔ a.date.Before b.date ∨ a.date = b.date ∧ a.time.microseconds < b.time.microseconds := by
  have ha := a.time.microseconds_lt
  have hb := b.time.microseconds_lt
  rw [DateTime.instant, DateTime.instant]
  rcases a.date.before_cases b.date with hbefore | hsame | hafter
  · have hle := Nat.mul_le_mul_right dayLength (Date.ordinal_lt hbefore)
    rw [Nat.succ_mul] at hle
    exact iff_of_true (by omega) (Or.inl hbefore)
  · have hirrefl : ¬ b.date.Before b.date := fun h => Nat.lt_irrefl _ (Date.ordinal_lt h)
    rw [hsame]
    simp [hirrefl]
  · have hle := Nat.mul_le_mul_right dayLength (Date.ordinal_lt hafter)
    rw [Nat.succ_mul] at hle
    refine iff_of_false (by omega) ?_
    rintro (hbefore | ⟨hsame, -⟩)
    · exact Nat.lt_asymm (Date.ordinal_lt hafter) (Date.ordinal_lt hbefore)
    · exact Nat.lt_irrefl _ (hsame ▸ Date.ordinal_lt hafter)

end Clock

section Texts

def digit (n : Nat) : Char := Char.ofNat (48 + n)

/-- The decimal digits of a number, with zeros before them up to a width. -/
def padded : Nat → Nat → List Char
  | 0, _ => []
  | width + 1, n => digit (n / 10 ^ width) :: padded width (n % 10 ^ width)

theorem digit_lt_iff {m n : Nat} (hm : m < 10) (hn : n < 10) : digit m < digit n ↔ m < n := by
  have hall : ∀ m < 10, ∀ n < 10, (digit m < digit n ↔ m < n) := by decide
  exact hall m hm n hn

theorem digit_inj {m n : Nat} (hm : m < 10) (hn : n < 10) : digit m = digit n ↔ m = n := by
  have hall : ∀ m < 10, ∀ n < 10, (digit m = digit n ↔ m = n) := by decide
  exact hall m hm n hn

/-- Numbers are ordered by their first digit, and then by the rest. -/
theorem lt_by_digits {p m n : Nat} (hp : 0 < p) {later : Prop} :
    m / p < n / p ∨ m / p = n / p ∧ (m % p < n % p ∨ m % p = n % p ∧ later) ↔ m < n ∨ m = n ∧ later := by
  have hm := Nat.div_add_mod m p
  have hn := Nat.div_add_mod n p
  have hmrest := Nat.mod_lt m hp
  have hnrest := Nat.mod_lt n hp
  rcases Nat.lt_trichotomy (m / p) (n / p) with hlt | heq | hgt
  · have hle := Nat.mul_le_mul_left p hlt
    rw [Nat.succ_eq_add_one, Nat.mul_add_one] at hle
    exact iff_of_true (Or.inl hlt) (Or.inl (by omega))
  · rw [heq] at hm ⊢
    have hsame : m % p = n % p ↔ m = n := by omega
    have hless : m % p < n % p ↔ m < n := by omega
    rw [hsame, hless]
    simp
  · have hle := Nat.mul_le_mul_left p hgt
    rw [Nat.succ_eq_add_one, Nat.mul_add_one] at hle
    refine iff_of_false ?_ ?_
    · rintro (hlt | ⟨heq, -⟩) <;> omega
    · rintro (hlt | ⟨heq, -⟩) <;> omega

/-- Numbers of one width are ordered as their texts are. -/
theorem padded_lt {width m n : Nat} (hm : m < 10 ^ width) (hn : n < 10 ^ width) (u v : List Char) :
    padded width m ++ u < padded width n ++ v ↔ m < n ∨ m = n ∧ u < v := by
  induction width generalizing m n with
  | zero =>
      rw [Nat.pow_zero, Nat.lt_one_iff] at hm hn
      simp [padded, hm, hn]
  | succ width ih =>
      have hpos : 0 < 10 ^ width := Nat.pow_pos (by decide)
      have hquotient {k : Nat} (hk : k < 10 ^ (width + 1)) : k / 10 ^ width < 10 := by
        rw [Nat.div_lt_iff_lt_mul hpos, Nat.mul_comm]
        exact hk
      rw [padded, padded, List.cons_append, List.cons_append, List.cons_lt_cons_iff,
        digit_lt_iff (hquotient hm) (hquotient hn),
        digit_inj (hquotient hm) (hquotient hn), ih (Nat.mod_lt _ hpos) (Nat.mod_lt _ hpos)]
      exact lt_by_digits hpos

def Date.text (d : Date) : List Char := padded 4 d.year ++ '-' :: (padded 2 d.month ++ '-' :: padded 2 d.day)

def Time.clock (t : Time) : List Char := padded 2 t.hour ++ ':' :: (padded 2 t.minute ++ ':' :: padded 2 t.second)

/-- `datetime.isoformat` in UTC: the fraction is left out when it is zero. -/
def DateTime.isoformat (dt : DateTime) : String :=
  String.ofList (dt.date.text ++ 'T' ::
    (dt.time.clock ++ (if dt.time.microsecond = 0 then [] else '.' :: padded 6 dt.time.microsecond) ++
    "+00:00".toList))

/-- The text that the SQLite `DATETIME` of SQLAlchemy stores. -/
def DateTime.stored (dt : DateTime) : String :=
  String.ofList (dt.date.text ++ ' ' :: (dt.time.clock ++ '.' :: padded 6 dt.time.microsecond))

/-- The binary collation of SQLite: the order of the code points. -/
def textLess (a b : String) : Bool := decide (a.toList < b.toList)

theorem Date.text_lt (a b : Date) (u v : List Char) :
    a.text ++ u < b.text ++ v ↔ a.Before b ∨ a = b ∧ u < v := by
  have hday (d : Date) : d.day < 10 ^ 2 := by
    have hmonth : daysInMonth d.year d.month ≤ 31 := by unfold daysInMonth; split <;> split <;> simp
    have := d.day_range
    omega
  have hmonth (d : Date) : d.month < 10 ^ 2 := by
    have := d.month_range
    omega
  have hyear (d : Date) : d.year < 10 ^ 4 := by
    have := d.year_range
    omega
  rw [Date.text, Date.text, List.append_assoc, List.append_assoc, padded_lt (hyear a) (hyear b),
    List.cons_append, List.cons_append,
    List.cons_lt_cons_iff, List.append_assoc, List.append_assoc, padded_lt (hmonth a) (hmonth b),
      List.cons_append, List.cons_append,
    List.cons_lt_cons_iff, padded_lt (hday a) (hday b), Date.ext_iff, Date.Before]
  have hdash : ¬ '-' < '-' := by decide
  simp only [hdash, false_or, true_and]
  tauto

/-- A stored text is below a cut-off in ISO format as soon as its day is not after it. -/
theorem textLess_stored_isoformat {created cutoff : DateTime} :
    textLess created.stored cutoff.isoformat = true ↔ created.date.Before cutoff.date ∨ created.date = cutoff.date := by
  rw [textLess, DateTime.stored, DateTime.isoformat, String.toList_ofList, String.toList_ofList,
    decide_eq_true_iff, Date.text_lt,
    List.cons_lt_cons_iff]
  have hspace : ' ' < 'T' := by decide
  simp [hspace]

end Texts

end BorgManager.CivilTime
