import Mathlib.Algebra.Order.Ring.Int
import Mathlib.Data.List.Basic

namespace BorgManager.FixedWindows

/-- The limits of one counter: how many attempts a window admits, how long a
window is, and how long a counter that exceeds its limit stays blocked. -/
structure Policy where
  window : Int
  block : Int
  limit : Nat
  window_pos : 0 < window
  block_pos : 0 < block
  limit_pos : 0 < limit

structure Counter where
  started : Int
  attempts : Nat
  blockedUntil : Option Int
  updated : Int

inductive Verdict
  | refused (endsAt : Int)
  | exceeded (next : Counter)
  | counted (next : Counter)

/-- The block that is in force. -/
def activeBlock (now : Int) (row : Option Counter) : Option Int :=
  (row.bind Counter.blockedUntil).filter (fun endsAt => decide (now < endsAt))

/-- The start of the window that an attempt falls into and the attempts that it
finds counted there. -/
def opened (p : Policy) (now : Int) : Option Counter → Int × Nat
  | none => (now, 0)
  | some c => if p.window ≤ now - c.started then (now, 0) else (c.started, c.attempts)

def judge (p : Policy) (now : Int) (row : Option Counter) : Verdict :=
  match activeBlock now row with
  | some endsAt => .refused endsAt
  | none =>
      if p.limit ≤ (opened p now row).2 then
        .exceeded ⟨(opened p now row).1, (opened p now row).2, some (now + p.block), now⟩
      else .counted ⟨(opened p now row).1, (opened p now row).2 + 1, none, now⟩

/-- The row that an attempt leaves. -/
def Verdict.row (old : Option Counter) : Verdict → Option Counter
  | .refused _ => old
  | .exceeded next => some next
  | .counted next => some next

/-- A counter whose window and block are both over. -/
def Stale (p : Policy) (now : Int) (c : Counter) : Prop :=
  c.started + p.window ≤ now ∧ ∀ endsAt ∈ c.blockedUntil, endsAt ≤ now

variable {p : Policy} {now instant clock : Int} {c : Counter} {row : Option Counter}

theorem Stale.later (h : Stale p now c) (hle : now ≤ instant) : Stale p instant c :=
  ⟨h.1.trans hle, fun endsAt hends => (h.2 endsAt hends).trans hle⟩

theorem activeBlock_eq_some {endsAt : Int} :
    activeBlock now row = some endsAt ↔ ∃ c, row = some c ∧ c.blockedUntil = some endsAt ∧ now < endsAt := by
  rw [activeBlock, Option.filter_eq_some_iff, Option.bind_eq_some_iff, decide_eq_true_iff]
  constructor
  · rintro ⟨⟨c, hrow, hblock⟩, hlt⟩
    exact ⟨c, hrow, hblock, hlt⟩
  · rintro ⟨c, hrow, hblock, hlt⟩
    exact ⟨⟨c, hrow, hblock⟩, hlt⟩

/-- An attempt treats a stale counter as a missing one. -/
theorem judge_stale (h : Stale p now c) : judge p now (some c) = judge p now none := by
  have hblock : activeBlock now (some c) = none := by
    rw [Option.eq_none_iff_forall_ne_some]
    intro endsAt hactive
    obtain ⟨d, hd, hends, hlt⟩ := activeBlock_eq_some.mp hactive
    cases hd
    exact absurd hlt (Int.not_lt.mpr (h.2 endsAt hends))
  have hopened : opened p now (some c) = opened p now none := by
    rw [opened, opened, if_pos]
    have hwindow := h.1
    omega
  rw [judge, judge, hblock, hopened]
  rfl

/-- An attempt that finds its window full and no block in force. -/
def Exceeds (p : Policy) (now : Int) (row : Option Counter) : Prop :=
  activeBlock now row = none ∧ p.limit ≤ (opened p now row).2

theorem judge_of_exceeds (h : Exceeds p now row) :
    judge p now row = .exceeded ⟨(opened p now row).1, (opened p now row).2, some (now + p.block), now⟩ := by
  rw [judge, h.1]
  exact if_pos h.2

theorem judge_of_block {endsAt : Int} (hblock : c.blockedUntil = some endsAt) (hlt : now < endsAt) :
    judge p now (some c) = .refused endsAt := by
  rw [judge, activeBlock_eq_some.mpr ⟨c, rfl, hblock, hlt⟩]

/-- Two rows that no attempt can tell apart from now on: the same, or a stale
counter where the other one has nothing. -/
def Faded (p : Policy) (now : Int) (row ideal : Option Counter) : Prop :=
  row = ideal ∨ (row = none ∧ ∀ c ∈ ideal, Stale p now c)

theorem Faded.later {ideal : Option Counter} (h : Faded p now row ideal) (hle : now ≤ instant) :
    Faded p instant row ideal := by
  apply h.imp_right
  rintro ⟨hrow, hstale⟩
  exact ⟨hrow, fun c hc => (hstale c hc).later hle⟩

theorem Faded.judge_eq {ideal : Option Counter} (h : Faded p now row ideal) : judge p now row = judge p now ideal := by
  rcases h with rfl | ⟨rfl, hstale⟩
  · rfl
  · cases ideal with
    | none => rfl
    | some c => exact (judge_stale (hstale c rfl)).symm

/-- A missing or stale counter is not refused. -/
theorem Faded.row_eq {ideal : Option Counter} (h : Faded p now row ideal) :
    Faded p now ((judge p now row).row row) ((judge p now ideal).row ideal) := by
  rw [h.judge_eq]
  rcases hverdict : judge p now ideal with endsAt | next | next
  · exact h
  · exact .inl rfl
  · exact .inl rfl

theorem Faded.evict {ideal : Option Counter} (h : Faded p now row ideal) (hle : now ≤ instant)
    (hstale : ∀ c ∈ row, Stale p instant c) : Faded p instant none ideal := by
  right
  refine ⟨rfl, fun c hc => ?_⟩
  rcases h with rfl | ⟨-, hideal⟩
  · exact hstale c hc
  · exact (hideal c hc).later hle

/-- What every stored counter satisfies at the time `clock`. -/
structure Sound (p : Policy) (clock : Int) (c : Counter) : Prop where
  started : c.started ≤ c.updated
  updated : c.updated ≤ clock
  block : ∀ endsAt ∈ c.blockedUntil, endsAt = c.updated + p.block
  attempts : c.attempts ≤ p.limit

theorem Sound.later (h : Sound p clock c) (hle : clock ≤ instant) : Sound p instant c :=
  ⟨h.started, h.updated.trans hle, h.block, h.attempts⟩

/-- A counter that has not been written for longer than a window and longer
than a block is stale. -/
theorem Sound.stale (h : Sound p clock c) (hold : c.updated < now - max p.window p.block) : Stale p now c := by
  have hstarted := h.started
  refine ⟨by omega, fun endsAt hends => ?_⟩
  have hblock := h.block endsAt hends
  omega

theorem opened_le (hsound : ∀ c ∈ row, Sound p clock c) (hclock : clock ≤ now) : (opened p now row).1 ≤ now := by
  cases row with
  | none => exact le_rfl
  | some c =>
      have hc := hsound c rfl
      have hstarted := hc.started
      have hupdated := hc.updated
      rw [opened]
      split
      · exact le_rfl
      · dsimp only
        omega

theorem opened_attempts_le (hsound : ∀ c ∈ row, Sound p clock c) : (opened p now row).2 ≤ p.limit := by
  cases row with
  | none => exact Nat.zero_le _
  | some c =>
      rw [opened]
      split
      · exact Nat.zero_le _
      · exact (hsound c rfl).attempts

theorem sound_judge (hsound : ∀ c ∈ row, Sound p clock c) (hclock : clock ≤ now) :
    ∀ c ∈ (judge p now row).row row, Sound p now c := by
  have hopened := opened_le hsound hclock
  rw [judge]
  split
  · intro c hc
    exact (hsound c hc).later hclock
  · split
    · intro c hc
      cases hc
      refine ⟨hopened, le_rfl, ?_, opened_attempts_le hsound⟩
      intro endsAt hends
      exact (Option.some.inj hends).symm
    · next hlimit =>
        intro c hc
        cases hc
        refine ⟨hopened, le_rfl, fun endsAt hends => (nomatch hends), ?_⟩
        exact Nat.lt_of_not_le hlimit

/-- An attempt that a counter has admitted, and the window it was counted in. -/
structure Grant where
  time : Int
  start : Int
  deriving DecidableEq

/-- The grants so far agree with the row: each lies in its window, different
windows do not overlap, and the row knows of all grants of its window. -/
structure Ledger (p : Policy) (clock : Int) (row : Option Counter) (grants : List Grant) : Prop where
  sound : ∀ c ∈ row, Sound p clock c
  within : ∀ g ∈ grants, g.start ≤ g.time ∧ g.time < g.start + p.window ∧ g.time ≤ clock
  disjoint : ∀ g ∈ grants, ∀ h ∈ grants, g.start < h.start → g.start + p.window ≤ h.start
  bounded : ∀ start, grants.countP (fun g => g.start == start) ≤ p.limit
  current : ∀ c ∈ row, grants.countP (fun g => g.start == c.started) ≤ c.attempts ∧
    ∀ g ∈ grants, g.start = c.started ∨ g.start + p.window ≤ c.started
  closed : row = none → ∀ g ∈ grants, g.start + p.window ≤ clock

theorem Ledger.empty (hsound : ∀ c ∈ row, Sound p clock c) : Ledger p clock row [] where
  sound := hsound
  within _ hg := absurd hg List.not_mem_nil
  disjoint _ hg := absurd hg List.not_mem_nil
  bounded _ := Nat.zero_le _
  current _ _ := ⟨Nat.zero_le _, fun _ hg => absurd hg List.not_mem_nil⟩
  closed _ _ hg := absurd hg List.not_mem_nil

variable {grants : List Grant}

theorem Ledger.later (h : Ledger p clock row grants) (hle : clock ≤ instant) : Ledger p instant row grants where
  sound c hc := (h.sound c hc).later hle
  within g hg := ⟨(h.within g hg).1, (h.within g hg).2.1, (h.within g hg).2.2.trans hle⟩
  disjoint := h.disjoint
  bounded := h.bounded
  current := h.current
  closed hrow g hg := (h.closed hrow g hg).trans hle

/-- Stale rows can be removed. -/
theorem Ledger.evict (h : Ledger p clock row grants) (hstale : ∀ c ∈ row, Stale p clock c) :
    Ledger p clock none grants where
  sound _ hc := (nomatch hc)
  within := h.within
  disjoint := h.disjoint
  bounded := h.bounded
  current _ hc := (nomatch hc)
  closed _ g hg := by
    cases row with
    | none => exact h.closed rfl g hg
    | some c =>
        have hover := (hstale c rfl).1
        rcases (h.current c rfl).2 g hg with heq | hbefore
        · omega
        · have hstarted := p.window_pos
          omega

/-- The grants of the window that an attempt opens, and those before it. -/
theorem Ledger.opened (h : Ledger p clock row grants) (hclock : clock ≤ now) :
    grants.countP (fun g => g.start == (opened p now row).1) ≤ (opened p now row).2 ∧
      ∀ g ∈ grants, g.start = (opened p now row).1 ∨ g.start + p.window ≤ (opened p now row).1 := by
  have hpos := p.window_pos
  have hfresh (hbefore : ∀ g ∈ grants, g.start + p.window ≤ now) :
      grants.countP (fun g => g.start == now) ≤ 0 ∧ ∀ g ∈ grants, g.start = now ∨ g.start + p.window ≤ now := by
    refine ⟨Nat.le_of_eq (List.countP_eq_zero.mpr fun g hg => ?_), fun g hg => .inr (hbefore g hg)⟩
    have hle := hbefore g hg
    rw [beq_iff_eq]
    omega
  cases row with
  | none => exact hfresh fun g hg => (h.closed rfl g hg).trans hclock
  | some c =>
      rw [FixedWindows.opened]
      split
      · next hexpired =>
          apply hfresh
          intro g hg
          rcases (h.current c rfl).2 g hg with heq | hbefore <;> omega
      · exact h.current c rfl

theorem Ledger.exceeded (h : Ledger p clock row grants) (hclock : clock ≤ now) {next : Counter}
    (hjudge : judge p now row = .exceeded next) : Ledger p now (some next) grants := by
  have hsound := sound_judge h.sound hclock
  obtain ⟨hcount, hstarts⟩ := h.opened hclock
  rw [hjudge] at hsound
  rw [judge] at hjudge
  split at hjudge
  · nomatch hjudge
  · split at hjudge
    · cases hjudge
      exact ⟨hsound, (h.later hclock).within, h.disjoint, h.bounded, fun c hc => by cases hc; exact ⟨hcount, hstarts⟩,
        fun hnone => (nomatch hnone)⟩
    · nomatch hjudge

/-- A counted attempt is within the limit of its window, whether it is then
granted or refused elsewhere. -/
theorem Ledger.counted (h : Ledger p clock row grants) (hclock : clock ≤ now) {next : Counter}
    (hjudge : judge p now row = .counted next) :
    Ledger p now (some next) grants ∧ Ledger p now (some next) (grants ++ [⟨now, next.started⟩]) := by
  have hsound := sound_judge h.sound hclock
  have hopened := opened_le h.sound hclock
  have hpos := p.window_pos
  obtain ⟨hcount, hstarts⟩ := h.opened hclock
  rw [hjudge] at hsound
  have hinside : now < (FixedWindows.opened p now row).1 + p.window := by
    cases row with
    | none =>
        rw [FixedWindows.opened]
        dsimp only
        omega
    | some c =>
        rw [FixedWindows.opened]
        split
        · dsimp only
          omega
        · dsimp only
          omega
  rw [judge] at hjudge
  split at hjudge
  · nomatch hjudge
  split at hjudge
  · nomatch hjudge
  next hlimit =>
  cases hjudge
  have hroom : grants.countP (fun g => g.start == (FixedWindows.opened p now row).1) + 1 ≤ p.limit := by omega
  refine ⟨⟨hsound, (h.later hclock).within, h.disjoint, h.bounded, ?_, fun hnone => (nomatch hnone)⟩, ?_⟩
  · intro c hc
    cases hc
    exact ⟨hcount.trans (Nat.le_succ _), hstarts⟩
  · refine ⟨hsound, ?_, ?_, ?_, ?_, fun hnone => (nomatch hnone)⟩
    · intro g hg
      rcases List.mem_append.mp hg with hg | hg
      · exact (h.later hclock).within g hg
      · rw [List.mem_singleton.mp hg]
        exact ⟨hopened, hinside, le_rfl⟩
    · intro g hg g' hg' hlt
      rcases List.mem_append.mp hg with hg | hg <;> rcases List.mem_append.mp hg' with hg' | hg'
      · exact h.disjoint g hg g' hg' hlt
      · rw [List.mem_singleton.mp hg'] at hlt ⊢
        rcases hstarts g hg with heq | hbefore
        · exact absurd heq (ne_of_lt hlt)
        · exact hbefore
      · rw [List.mem_singleton.mp hg] at hlt ⊢
        dsimp only at hlt
        rcases hstarts g' hg' with heq | hbefore <;> omega
      · rw [List.mem_singleton.mp hg, List.mem_singleton.mp hg'] at hlt
        exact absurd hlt (lt_irrefl _)
    · intro start
      rw [List.countP_append, List.countP_singleton]
      have hold := h.bounded start
      by_cases heq : (FixedWindows.opened p now row).1 = start
      · rw [← heq]
        simp only [beq_self_eq_true, if_true]
        exact hroom
      · simp only [beq_eq_false_iff_ne.mpr heq, Bool.false_eq_true, if_false]
        exact hold
    · intro c hc
      cases hc
      rw [List.countP_append, List.countP_singleton]
      simp only [beq_self_eq_true, if_true]
      refine ⟨Nat.add_le_add_right hcount 1, ?_⟩
      intro g hg
      rcases List.mem_append.mp hg with hg | hg
      · exact hstarts g hg
      · exact .inl (by rw [List.mem_singleton.mp hg])

theorem Ledger.refused (h : Ledger p clock row grants) (hclock : clock ≤ now) (v : Verdict)
    (hjudge : judge p now row = v) :
    Ledger p now (v.row row) grants := by
  cases v with
  | refused => exact h.later hclock
  | exceeded => exact h.exceeded hclock hjudge
  | counted => exact (h.counted hclock hjudge).1

theorem countP_or_le {α : Type} (q r : α → Bool) (xs : List α) :
    xs.countP (fun x => q x || r x) ≤ xs.countP q + xs.countP r := by
  induction xs with
  | nil => exact Nat.zero_le _
  | cons x xs ih =>
      rw [List.countP_cons, List.countP_cons, List.countP_cons]
      cases q x <;> cases r x <;>
        simp only [Bool.or_true, Bool.or_false, Bool.false_eq_true, if_true, if_false] <;> omega

/-- An interval shorter than a window touches at most two of them. -/
theorem Ledger.interval (h : Ledger p clock row grants) {first last : Int} (hshort : last - first < p.window) :
    grants.countP (fun g => decide (first ≤ g.time ∧ g.time ≤ last)) ≤ 2 * p.limit := by
  have htwo (g g' g'' : Grant) (hg : g ∈ grants) (hg' : g' ∈ grants) (hg'' : g'' ∈ grants)
      (hin : first ≤ g.time ∧ g.time ≤ last) (hin' : first ≤ g'.time ∧ g'.time ≤ last)
      (hin'' : first ≤ g''.time ∧ g''.time ≤ last) (hne : g.start ≠ g'.start) :
      g''.start = g.start ∨ g''.start = g'.start := by
    have hw := h.within g hg
    have hw' := h.within g' hg'
    have hw'' := h.within g'' hg''
    have hd := h.disjoint g hg g' hg'
    have hd' := h.disjoint g' hg' g hg
    have hg1 := h.disjoint g hg g'' hg''
    have hg2 := h.disjoint g'' hg'' g hg
    have hg3 := h.disjoint g' hg' g'' hg''
    have hg4 := h.disjoint g'' hg'' g' hg'
    omega
  obtain ⟨a, b, hab⟩ : ∃ a b, ∀ g ∈ grants, first ≤ g.time ∧ g.time ≤ last → g.start = a ∨ g.start = b := by
    by_cases hany : ∃ g ∈ grants, ∃ g' ∈ grants, (first ≤ g.time ∧ g.time ≤ last) ∧
        (first ≤ g'.time ∧ g'.time ≤ last) ∧ g.start ≠ g'.start
    · obtain ⟨g, hg, g', hg', hin, hin', hne⟩ := hany
      exact ⟨g.start, g'.start, fun g'' hg'' hin'' => htwo g g' g'' hg hg' hg'' hin hin' hin'' hne⟩
    · by_cases hone : ∃ g ∈ grants, first ≤ g.time ∧ g.time ≤ last
      · obtain ⟨g, hg, hin⟩ := hone
        refine ⟨g.start, g.start, fun g' hg' hin' => .inl ?_⟩
        by_contra hne
        exact hany ⟨g', hg', g, hg, hin', hin, hne⟩
      · exact ⟨0, 0, fun g hg hin => absurd ⟨g, hg, hin⟩ hone⟩
  calc grants.countP (fun g => decide (first ≤ g.time ∧ g.time ≤ last))
      ≤ grants.countP (fun g => g.start == a || g.start == b) := by
        apply List.countP_mono_left
        intro g hg hin
        rw [Bool.or_eq_true, beq_iff_eq, beq_iff_eq]
        exact hab g hg (of_decide_eq_true hin)
    _ ≤ grants.countP (fun g => g.start == a) + grants.countP (fun g => g.start == b) := countP_or_le _ _ grants
    _ ≤ 2 * p.limit := by
        have ha := h.bounded a
        have hb := h.bounded b
        omega

end BorgManager.FixedWindows
