import BorgManager.RestoreProgress

namespace BorgManager.RestoreChunks

open ByteLines BytePatterns RestoreProgress
open NetworkStream (floatLimit)
open RemoteOutput (Runtime LoadError)

variable {τ φ : Type} [LinearOrder φ] {rt : Runtime} {ar : Arithmetic τ φ} {times : Nat → τ}

section Runs

/-- The loop of `feed` without the newest snapshot. -/
def run (rt : Runtime) (ar : Arithmetic τ φ) (times : Nat → τ) (s : State τ φ) (rs : List (List UInt8)) :
    Option (List UInt8 × State τ φ) := (consumeAll rt ar times s rs).map (fun fed => (fed.1, fed.2.1))

theorem run_nil (s : State τ φ) : run rt ar times s [] = some ([], s) := rfl

theorem run_cons {s next : State τ φ} {record output : List UInt8} {rest : List (List UInt8)} :
    run rt ar times s (record :: rest) = some (output, next) ↔
      ∃ out middle newest more, consumeRecord rt ar times s record = some (out, middle, newest) ∧
        run rt ar times middle rest = some (more, next) ∧ output = out ++ more := by
  rw [run, consumeAll]
  cases hrecord : consumeRecord rt ar times s record with
  | none => simp
  | some fed =>
      obtain ⟨out, middle, newest⟩ := fed
      dsimp only
      rw [Option.map_map]
      constructor
      · intro h
        obtain ⟨more, hmore, heq⟩ := Option.map_eq_some_iff.mp h
        cases heq
        exact ⟨out, middle, newest, more.1, rfl, by rw [run, hmore, Option.map_some], rfl⟩
      · rintro ⟨_, _, _, more, heq, hmore, rfl⟩
        cases heq
        obtain ⟨fed, hfed, heq⟩ := Option.map_eq_some_iff.mp hmore
        cases heq
        rw [hfed]
        rfl

theorem run_append {s next : State τ φ} {output : List UInt8} {a b : List (List UInt8)} :
    run rt ar times s (a ++ b) = some (output, next) ↔
      ∃ out middle more, run rt ar times s a = some (out, middle) ∧
      run rt ar times middle b = some (more, next) ∧ output = out ++ more := by
  induction a generalizing s output with
  | nil =>
      rw [List.nil_append, run_nil]
      constructor
      · exact fun h => ⟨[], s, output, rfl, h, rfl⟩
      · rintro ⟨_, _, more, h, hmore, rfl⟩
        cases h
        exact hmore
  | cons record a ih =>
      rw [List.cons_append, run_cons]
      constructor
      · rintro ⟨out, middle, newest, more, hrecord, hmore, rfl⟩
        obtain ⟨out', middle', more', ha, hb, rfl⟩ := ih.mp hmore
        exact ⟨out ++ out', middle', more', run_cons.mpr ⟨out, middle, newest, out', hrecord, ha, rfl⟩, hb,
          (List.append_assoc ..).symm⟩
      · rintro ⟨_, middle', more', hfirst, hb, rfl⟩
        obtain ⟨out, middle, newest, out', hrecord, ha, rfl⟩ := run_cons.mp hfirst
        exact ⟨out, middle, newest, out' ++ more', hrecord, ih.mpr ⟨out', middle', more', ha, hb, rfl⟩,
          List.append_assoc ..⟩

theorem run_append_eq (s : State τ φ) (a b : List (List UInt8)) : run rt ar times s (a ++ b) =
    (run rt ar times s a).bind (fun fed => (run rt ar times fed.2 b).map (fun more => (fed.1 ++ more.1, more.2))) := by
  apply Option.ext
  rintro ⟨output, next⟩
  rw [run_append]
  simp only [Option.bind_eq_some_iff, Option.map_eq_some_iff, Prod.exists, Prod.mk.injEq]
  constructor
  · rintro ⟨out, middle, more, ha, hb, rfl⟩
    exact ⟨out, middle, ha, more, next, hb, rfl, rfl⟩
  · rintro ⟨out, middle, ha, more, _, hb, rfl, rfl⟩
    exact ⟨out, middle, more, ha, hb, rfl⟩

theorem records_append {a : List UInt8} (ha : Whole lineFeed a) (b : List UInt8) :
    records (a ++ b) = records a ++ records b := by
  rw [records, lines_append ha, List.map_append, ← records, ← records]

/-- Whole lines that follow what is held back. -/
structure Pending (text : List UInt8) : Prop where
  whole : Whole lineFeed text
  short : ∀ line ∈ lines lineFeed text, line.length ≤ maxCarry + 1

theorem Pending.rest {a b : List UInt8} (h : Pending (a ++ b)) (ha : Whole lineFeed a) : Pending b where
  whole := by
    intro x hx
    apply h.whole
    rw [List.getLast?_append, hx]
    rfl
  short := fun line hline => h.short line (by rw [lines_append ha]; exact List.mem_append_right _ hline)

/-- A line that is open is no longer than what is held back. -/
theorem Pending.length_open {a b : List UInt8} (h : Pending (a ++ b)) (ha : Open lineFeed a) : a.length ≤ maxCarry := by
  by_cases hne : a ++ b = []
  · rw [(List.append_eq_nil_iff.mp hne).1]
    exact Nat.zero_le _
  · obtain ⟨body, x, rest, htext, hbody, hx⟩ := first_line h.whole hne
    have hline : body ++ [x] ∈ lines lineFeed (a ++ b) := by
      have hwhole : Whole lineFeed (body ++ [x]) := by simp [Whole, hx]
      rw [htext, List.append_cons, lines_append hwhole, lines_line hbody hx]
      exact List.mem_append_left _ (List.mem_singleton_self _)
    have hlength := h.short _ hline
    rw [List.length_append, List.length_singleton] at hlength
    have hle : a.length ≤ body.length := by
      by_contra hlt
      have hmem : x ∈ a := by
        rw [List.append_cons] at htext
        have hprefix : body ++ [x] <+: a := by
          apply List.prefix_of_prefix_length_le ⟨rest, htext.symm⟩ (List.prefix_append a b)
          rw [List.length_append, List.length_singleton]
          omega
        exact hprefix.subset (List.mem_append_right _ (List.mem_singleton_self _))
      rw [ha x hmem] at hx
      cases hx
    omega

/-- Wherever a stream is cut, its records are consumed one after the other. -/
theorem feedAll_eq {carry : List UInt8} {chunks : List (List UInt8)} (hopen : Open lineFeed carry)
    (hpending : Pending (carry ++ chunks.flatten)) (s : State τ φ) :
    (RestoreProgress.Filter.mk carry s).feedAll rt ar times chunks =
      (run rt ar times s (records (carry ++ chunks.flatten))).map (fun fed => (fed.1, ⟨[], fed.2⟩)) := by
  induction chunks generalizing carry s with
  | nil =>
      rw [List.flatten_nil, List.append_nil] at hpending ⊢
      rw [hopen.eq_nil_of_whole hpending.whole]
      rfl
  | cons chunk chunks ih =>
      rw [RestoreProgress.Filter.feedAll, RestoreProgress.Filter.feed]
      by_cases hnil : chunk = []
      · rw [if_pos hnil]
        rw [hnil, List.flatten_cons, List.nil_append] at hpending ⊢
        dsimp only
        rw [ih hopen hpending]
        cases run rt ar times s (records (carry ++ chunks.flatten)) with
        | none => rfl
        | some fed => rfl
      · rw [if_neg hnil]
        dsimp only
        rw [List.flatten_cons, ← List.append_assoc] at hpending ⊢
        have hcut := complete_append_trailing (p := lineFeed) (carry ++ chunk)
        have htext : carry ++ chunk ++ chunks.flatten =
            complete lineFeed (carry ++ chunk) ++ (trailing lineFeed (carry ++ chunk) ++ chunks.flatten) := by
          rw [← List.append_assoc, hcut]
        rw [htext] at hpending ⊢
        have hrest := hpending.rest (whole_complete _)
        have hlength := hrest.length_open (open_trailing _)
        have hcarry := Nat.not_lt_of_le hlength
        simp only [if_neg hcarry]
        rw [records_append (whole_complete _), run_append_eq]
        conv_rhs => rw [run]
        cases consumeAll rt ar times s (records (complete lineFeed (carry ++ chunk))) with
        | none => rfl
        | some fed =>
            simp only [Option.map_some, Option.bind_some]
            rw [ih (open_trailing _) hrest, Option.map_map, Option.map_map]
            rfl

theorem filtered_eq {chunks : List (List UInt8)} (h : Pending chunks.flatten) :
    filtered rt ar times chunks = (run rt ar times (initial ar) (records chunks.flatten)).map
      (fun fed => (fed.1, ⟨[], fed.2⟩)) := by
  rw [filtered, feedAll_eq open_nil (by rwa [List.nil_append]), List.nil_append]
  cases run rt ar times (initial ar) (records chunks.flatten) with
  | none => rfl
  | some fed =>
      rw [Option.map_some]
      dsimp only
      rw [RestoreProgress.Filter.finalize, if_pos rfl, Option.map_some, List.append_nil]

end Runs

section Cores

/-- What does not come from the clock: the phase, the bytes, the files, the path
and the percentage of the last snapshot, and the counters. -/
structure Core (φ : Type) where
  phase : Phase
  processedBytes : Nat
  totalBytes : Nat
  processedFiles : Nat
  totalFiles : Nat
  path : String
  percent : Option φ
  counters : Counters

def core (s : State τ φ) : Core φ :=
  ⟨s.latest.phase, s.latest.processedBytes, s.latest.totalBytes, s.latest.processedFiles, s.latest.totalFiles,
    s.latest.path,
    s.latest.percent, s.counters⟩

variable {s t s' t' : State τ φ} {times' : Nat → τ}

/-- What a snapshot makes of the rest of the state. -/
def reported (ar : Arithmetic τ φ) (k : Core φ) (c : Counters) (r : Report) : Option (Core φ) :=
  let current := r.processedBytes.getD k.processedBytes
  let total := if r.totalBytes.getD k.totalBytes = 0 then c.baselineTotalBytes else r.totalBytes.getD k.totalBytes
  let complete := r.finished && total != 0
  (percentOf ar current total).map (fun percent =>
    ⟨r.phase, if complete then total else current, total, c.processedFiles, c.totalFiles, r.path.getD k.path,
      if complete then some ar.hundred else percent, c⟩)

theorem core_snapshot {c : Counters} {r : Report} (h : snapshot ar times s c r = some s') :
    reported ar (core s) c r = some (core s') := by
  obtain ⟨rate, -, h⟩ := Option.bind_eq_some_iff.mp h
  obtain ⟨eta, -, h⟩ := Option.bind_eq_some_iff.mp h
  obtain ⟨percent, hpercent, h⟩ := Option.bind_eq_some_iff.mp h
  cases h
  exact Option.map_eq_some_iff.mpr ⟨percent, hpercent, rfl⟩

/-- A record has one effect, whatever the clock shows. -/
theorem core_consumeRecord {record out out' : List UInt8} {latest latest' : Option (Progress φ)}
    (hcore : core s = core t) (hs : consumeRecord rt ar times s record = some (out, s', latest))
    (ht : consumeRecord rt ar times' t record = some (out', t', latest')) : out = out' ∧ core s' = core t' := by
  have hcounters : s.counters = t.counters := congrArg Core.counters hcore
  rw [consumeRecord] at hs ht
  rw [← hcounters] at ht
  cases heffect : effect rt s.counters record with
  | none =>
      rw [heffect] at hs
      cases hs
  | some e =>
      rw [heffect] at hs ht
      dsimp only at hs ht
      cases hreport : e.report with
      | none =>
          rw [hreport] at hs ht
          cases hs
          cases ht
          refine ⟨rfl, ?_⟩
          rw [core, core, Core.mk.injEq] at hcore
          rw [core, core, Core.mk.injEq]
          obtain ⟨h₁, h₂, h₃, h₄, h₅, h₆, h₇, -⟩ := hcore
          exact ⟨h₁, h₂, h₃, h₄, h₅, h₆, h₇, rfl⟩
      | some r =>
          rw [hreport] at hs ht
          obtain ⟨next, hnext, heq⟩ := Option.map_eq_some_iff.mp hs
          obtain ⟨next', hnext', heq'⟩ := Option.map_eq_some_iff.mp ht
          cases heq
          cases heq'
          have hsame := core_snapshot hnext
          rw [hcore, core_snapshot hnext'] at hsame
          exact ⟨rfl, (Option.some.inj hsame).symm⟩

theorem core_run {rs : List (List UInt8)} {out out' : List UInt8} (hcore : core s = core t)
    (hs : run rt ar times s rs = some (out, s')) (ht : run rt ar times' t rs = some (out', t')) :
    out = out' ∧ core s' = core t' := by
  induction rs generalizing s t out out' with
  | nil =>
      cases hs
      cases ht
      exact ⟨rfl, hcore⟩
  | cons record rs ih =>
      obtain ⟨first, middle, newest, more, hrecord, hmore, rfl⟩ := run_cons.mp hs
      obtain ⟨first', middle', newest', more', hrecord', hmore', rfl⟩ := run_cons.mp ht
      obtain ⟨rfl, hmiddle⟩ := core_consumeRecord hcore hrecord hrecord'
      obtain ⟨rfl, hlast⟩ := ih hmiddle hmore hmore'
      exact ⟨rfl, hlast⟩

end Cores

section Percent

/-- A percentage is one. -/
def InRange (ar : Arithmetic τ φ) (s : State τ φ) : Prop := ∀ p ∈ s.latest.percent, ar.zero ≤ p ∧ p ≤ ar.hundred

variable {s s' : State τ φ}

theorem inRange_snapshot {c : Counters} {r : Report} (h : snapshot ar times s c r = some s') : InRange ar s' := by
  obtain ⟨rate, -, h⟩ := Option.bind_eq_some_iff.mp h
  obtain ⟨eta, -, h⟩ := Option.bind_eq_some_iff.mp h
  obtain ⟨percent, hpercent, h⟩ := Option.bind_eq_some_iff.mp h
  cases h
  have hrange : ∀ p ∈ percent, ar.zero ≤ p ∧ p ≤ ar.hundred := by
    intro p hp
    rw [percentOf] at hpercent
    split at hpercent
    · cases hpercent
      cases hp
    · split at hpercent
      · cases hpercent
      · cases hpercent
        cases hp
        exact ⟨le_min ar.zero_le_hundred (le_max_left _ _), min_le_left _ _⟩
  intro p hp
  dsimp only at hp
  split at hp
  · cases hp
    exact ⟨ar.zero_le_hundred, le_refl _⟩
  · exact hrange p hp

theorem inRange_consumeRecord {record out : List UInt8} {latest : Option (Progress φ)} (hs : InRange ar s)
    (h : consumeRecord rt ar times s record = some (out, s', latest)) : InRange ar s' := by
  rw [consumeRecord] at h
  split at h
  · cases h
  · split at h
    · cases h
      exact hs
    · obtain ⟨next, hnext, heq⟩ := Option.map_eq_some_iff.mp h
      cases heq
      exact inRange_snapshot hnext

theorem inRange_run {rs : List (List UInt8)} {out : List UInt8} (hs : InRange ar s)
    (h : run rt ar times s rs = some (out, s')) :
    InRange ar s' := by
  induction rs generalizing s out with
  | nil =>
      cases h
      exact hs
  | cons record rs ih =>
      obtain ⟨first, middle, newest, more, hrecord, hmore, -⟩ := run_cons.mp h
      exact ih (inRange_consumeRecord hs hrecord) hmore

theorem inRange_feed {f g : RestoreProgress.Filter τ φ} {data out : List UInt8} {latest : Option (Progress φ)}
    (hf : InRange ar f.state) (h : f.feed rt ar times data = some (out, g, latest)) : InRange ar g.state := by
  rw [RestoreProgress.Filter.feed] at h
  split at h
  · cases h
    exact hf
  · obtain ⟨fed, hfed, heq⟩ := Option.map_eq_some_iff.mp h
    have hrun := inRange_run hf (Option.map_eq_some_iff.mpr ⟨fed, hfed, rfl⟩)
    split at heq
    · cases heq
      exact hrun
    · cases heq
      exact hrun

/-- However a stream is cut and wherever it ends, a percentage is between 0 and 100. -/
theorem inRange_feedAll {f g : RestoreProgress.Filter τ φ} {chunks : List (List UInt8)} {out : List UInt8}
    (hf : InRange ar f.state) (h : f.feedAll rt ar times chunks = some (out, g)) : InRange ar g.state := by
  induction chunks generalizing f out with
  | nil =>
      cases h
      exact hf
  | cons chunk chunks ih =>
      rw [RestoreProgress.Filter.feedAll] at h
      split at h
      · cases h
      · next hfed =>
          obtain ⟨more, hmore, heq⟩ := Option.map_eq_some_iff.mp h
          cases heq
          exact ih (inRange_feed hf hfed) hmore

theorem inRange_initial : InRange ar (initial ar) := by rintro p ⟨⟩

end Percent

section Ranges

variable {s s' : State τ φ}

/-- No division of a snapshot leaves the range of the floats. -/
def Ranged (ar : Arithmetic τ φ) (s : State τ φ) (c : Counters) (r : Report) (now : τ) : Prop :=
  (r.total s.latest c ≠ 0 → r.current s.latest < floatLimit * r.total s.latest c) ∧
    ∀ begun ∈ r.startedAt s.startedAt now, 0 < r.current s.latest → ar.ready begun now = true →
      r.current s.latest < floatLimit ∧
        (ar.zero < ar.rate (r.current s.latest) begun now → r.total s.latest c ≠ 0 →
          r.total s.latest c - r.current s.latest < floatLimit ∧
            (ar.seconds (r.total s.latest c - r.current s.latest)
              (ar.rate (r.current s.latest) begun now)).isSome = true)

theorem percentOf_isSome {current total : Nat} :
    (percentOf ar current total).isSome = true ↔ (total ≠ 0 → current < floatLimit * total) := by
  rw [percentOf]
  split
  · next hzero => simp [hzero]
  · next hzero =>
      split
      · next hlarge => simp [hzero, hlarge]
      · next hsmall => simpa [hzero] using hsmall

theorem etaOf_isSome {rate : φ} {current total : Nat} : (etaOf ar rate current total).isSome = true ↔
    (ar.zero < rate → total ≠ 0 → total - current < floatLimit ∧
      (ar.seconds (total - current) rate).isSome = true) := by
  rw [etaOf]
  split
  · next h =>
      split
      · next hlarge => simp [h.1, h.2, Nat.not_lt_of_le hlarge]
      · next hsmall => simp [h.1, h.2, Nat.lt_of_not_le hsmall]
  · next h => simpa using fun hrate htotal => absurd ⟨hrate, htotal⟩ h

/-- The rate and the time that is left are computed if the numbers allow it. -/
theorem timed_isSome {started : Option τ} {now : τ} {current total : Nat} :
    ((rateOf ar started now current).bind (fun rate => etaOf ar rate current total)).isSome = true ↔
      ∀ begun ∈ started, 0 < current → ar.ready begun now = true → current < floatLimit ∧
        (ar.zero < ar.rate current begun now → total ≠ 0 → total - current < floatLimit ∧
          (ar.seconds (total - current) (ar.rate current begun now)).isSome = true) := by
  have hstill : ((some ar.zero).bind (fun rate => etaOf ar rate current total)).isSome = true := by
    rw [Option.bind_some, etaOf_isSome]
    exact fun h => absurd h (lt_irrefl _)
  cases started with
  | none => exact iff_of_true hstill (by rintro begun ⟨⟩)
  | some begun =>
      rw [rateOf]
      split
      · next h =>
          split
          · next hlarge =>
              refine iff_of_false Bool.false_ne_true (fun hall => ?_)
              exact absurd (hall begun rfl h.1 h.2).1 (Nat.not_lt_of_le hlarge)
          · next hsmall =>
              rw [Option.bind_some, etaOf_isSome]
              constructor
              · rintro heta _ ⟨⟩ - -
                exact ⟨Nat.lt_of_not_le hsmall, heta⟩
              · exact fun hall => (hall begun rfl h.1 h.2).2
      · next h =>
          refine iff_of_true hstill ?_
          rintro _ ⟨⟩ hcurrent hready
          exact absurd ⟨hcurrent, hready⟩ h

theorem snapshot_isSome {c : Counters} {r : Report} :
    (snapshot ar times s c r).isSome = true ↔ Ranged ar s c r (times s.seen) := by
  have hpercent := @percentOf_isSome _ _ _ ar (r.current s.latest) (r.total s.latest c)
  rw [Ranged, ← hpercent, ← timed_isSome]
  rw [snapshot]
  generalize r.current s.latest = current, r.total s.latest c = total, r.startedAt s.startedAt (times s.seen) = started
  change ((rateOf ar started _ current).bind (fun rate => (etaOf ar rate current total).bind (fun eta =>
    (percentOf ar current total).bind (fun percent => some _)))).isSome = true ↔ _
  cases percentOf ar current total with
  | none => cases rateOf ar started (times s.seen) current <;> simp
  | some percent =>
      cases rateOf ar started (times s.seen) current with
      | none => simp
      | some rate =>
          rw [Option.bind_some, Option.bind_some]
          cases etaOf ar rate current total <;> simp

end Ranges

section Steps

variable {s : State τ φ}

/-- Each record of a run is read without an error, and the numbers of its
snapshot are in range. -/
def Steady (rt : Runtime) (ar : Arithmetic τ φ) (times : Nat → τ) : State τ φ → List (List UInt8) → Prop
  | _, [] => True
  | s, record :: rest =>
      (∃ e, effect rt s.counters record = some e ∧ ∀ r ∈ e.report, Ranged ar s e.counters r (times s.seen)) ∧
        ∀ out next newest, consumeRecord rt ar times s record = some (out, next, newest) → Steady rt ar times next rest

theorem consumeRecord_isSome {record : List UInt8} : (consumeRecord rt ar times s record).isSome = true ↔
    ∃ e, effect rt s.counters record = some e ∧ ∀ r ∈ e.report, Ranged ar s e.counters r (times s.seen) := by
  rw [consumeRecord]
  cases effect rt s.counters record with
  | none => simp
  | some e =>
      dsimp only
      cases hreport : e.report with
      | none => simp [hreport]
      | some r =>
          rw [Option.isSome_map, snapshot_isSome]
          simp [hreport]

/-- A run is completed exactly if it is steady. -/
theorem run_isSome {rs : List (List UInt8)} : (run rt ar times s rs).isSome = true ↔ Steady rt ar times s rs := by
  induction rs generalizing s with
  | nil => exact iff_of_true rfl trivial
  | cons record rs ih =>
      rw [Steady, ← consumeRecord_isSome]
      constructor
      · intro h
        obtain ⟨⟨output, next⟩, hrun⟩ := Option.isSome_iff_exists.mp h
        obtain ⟨out, middle, newest, more, hrecord, hmore, -⟩ := run_cons.mp hrun
        refine ⟨by rw [hrecord]; rfl, ?_⟩
        intro out' next' newest' hrecord'
        cases hrecord.symm.trans hrecord'
        exact ih.mp (by rw [hmore]; rfl)
      · rintro ⟨hrecord, hrest⟩
        obtain ⟨⟨out, middle, newest⟩, hrecord⟩ := Option.isSome_iff_exists.mp hrecord
        obtain ⟨⟨more, next⟩, hmore⟩ := Option.isSome_iff_exists.mp (ih.mpr (hrest out middle newest hrecord))
        exact Option.isSome_iff_exists.mpr ⟨_, run_cons.mpr ⟨out, middle, newest, more, hrecord, hmore, rfl⟩⟩

end Steps

section PlainLines

/-- A record that is not one of the manager, and no JSON. -/
structure Plain (rt : Runtime) (record : List UInt8) : Prop where
  noControl : controlPrefix.isPrefixOf record = false
  noJson : load rt (strip record) = .error .decode

def blankByte (b : UInt8) : Bool := isBlank (Char.ofNat b.toNat)

theorem strip_spec (record : List UInt8) : ∃ before after, record = before ++ (strip record ++ after) ∧
    (∀ b ∈ before, blankByte b = true) ∧ ∀ b ∈ after, blankByte b = true := by
  refine ⟨record.takeWhile blankByte, (record.dropWhile blankByte).rtakeWhile blankByte, ?_,
    fun b hb => List.mem_takeWhile_imp hb, fun b hb => List.mem_rtakeWhile_imp hb⟩
  have hright := List.rdropWhile_append_rtakeWhile (p := blankByte) (l := record.dropWhile blankByte)
  have hleft := List.takeWhile_append_dropWhile (p := blankByte) (l := record)
  rw [show strip record = (record.dropWhile blankByte).rdropWhile blankByte from rfl, hright, hleft]

/-- What is stripped of a line with a brace at each end is missing in the log. -/
theorem strip_eq_of_prefix {record more : List UInt8} (hopen : Open lineFeed record)
    (hbraced : braced (strip record) = true) (h : record ++ [10] <+: strip record ++ 10 :: more) :
    strip record = record := by
  obtain ⟨before, after, hrecord, hbefore, hafter⟩ := strip_spec record
  generalize strip record = inner at *
  rw [braced, Bool.and_eq_true, beq_iff_eq, beq_iff_eq] at hbraced
  cases inner with
  | nil => cases hbraced.1
  | cons b inner =>
      cases hbraced.1
      have hnone : before = [] := by
        cases before with
        | nil => rfl
        | cons c before =>
            rw [hrecord] at h
            change c :: (before ++ (123 :: inner ++ after) ++ [10]) <+: 123 :: (inner ++ 10 :: more) at h
            have hblank := hbefore c (List.mem_cons_self ..)
            rw [(List.cons_prefix_cons.mp h).1] at hblank
            exact absurd hblank (by decide)
      subst hnone
      rw [List.nil_append] at hrecord
      cases after with
      | nil => rw [hrecord, List.append_nil]
      | cons c after =>
          rw [hrecord, List.append_assoc, List.prefix_append_right_inj, List.cons_append, List.cons_prefix_cons] at h
          have hfeed := hopen c (by rw [hrecord]; simp)
          rw [h.1] at hfeed
          cases hfeed

variable {s next : State τ φ} {record out : List UInt8} {newest : Option (Progress φ)}

/-- A line that is not JSON is kept, but for the blanks around one with a brace at each end. -/
theorem plain_output (hplain : Plain rt record) (h : consumeRecord rt ar times s record = some (out, next, newest)) :
    out = kept (if braced (strip record) then strip record else record) := by
  have heffect : effect rt s.counters record =
      some ⟨kept (if braced (strip record) then strip record else record), s.counters, none⟩ := by
    rw [effect, if_neg (by rw [hplain.noControl]; exact Bool.false_ne_true)]
    split
    · rw [jsonRecord, hplain.noJson]
    · rfl
  rw [consumeRecord, heffect] at h
  cases h
  rfl

end PlainLines

section Streams

/-- A stream of whole lines, of which the records are no longer than what the
filter holds back. -/
structure RecordStream where
  bytes : List UInt8
  pending : Pending bytes

/-- A body with the line feed that ends it. -/
def IsLine (line : List UInt8) : Prop := ∃ body, line = body ++ [10] ∧ Open lineFeed body

theorem open_recordOf {line : List UInt8} (h : IsLine line) : Open lineFeed (recordOf line) := by
  obtain ⟨body, rfl, hopen⟩ := h
  intro b hb
  rw [recordOf, List.dropLast_concat] at hb
  exact hopen b ((List.rdropWhile_prefix _ _).subset hb)

theorem IsLine.whole {line : List UInt8} (h : IsLine line) : Whole lineFeed line := by
  obtain ⟨body, rfl, -⟩ := h
  simp [Whole, lineFeed]

theorem records_line {line : List UInt8} (h : IsLine line) : records line = [recordOf line] := by
  obtain ⟨body, rfl, hopen⟩ := h
  rw [records, lines_line hopen rfl, List.map_singleton]

/-- A record stands somewhere in its stream. -/
theorem cut_of_record {text record : List UInt8} (h : Whole lineFeed text) (hrecord : record ∈ records text) :
    ∃ before line after, text = before ++ (line ++ after) ∧ Whole lineFeed before ∧ IsLine line ∧
    record = recordOf line := by
  obtain ⟨line, hline, rfl⟩ := List.mem_map.mp hrecord
  obtain ⟨first, last, hlines⟩ := List.append_of_mem hline
  refine ⟨first.flatten, line, last.flatten, ?_, ?_, ?_, rfl⟩
  · rw [← flatten_lines (p := lineFeed) text, hlines, List.flatten_append, List.flatten_cons]
  · apply whole_flatten
    intro other hother
    obtain ⟨body, x, rfl, -, hx⟩ := line_of_whole h (hlines ▸ List.mem_append_left _ hother)
    simp [Whole, hx]
  · obtain ⟨body, x, rfl, hopen, hx⟩ := line_of_whole h hline
    exact ⟨body, by rw [eq_of_beq hx], hopen⟩

theorem Pending.start {a b : List UInt8} (h : Pending (a ++ b)) (ha : Whole lineFeed a) : Pending a where
  whole := ha
  short := fun line hline => h.short line (by rw [lines_append ha]; exact List.mem_append_left _ hline)

/-- The stream has one output and one final state but for the clock, wherever it
is cut; a percentage is always one; and the line of each record that is neither of
the manager nor JSON is in the output, behind what the lines before it give. -/
structure Independent (rt : Runtime) (ar : Arithmetic τ φ) (stream : RecordStream) (output : List UInt8)
  (k : Core φ) : Prop where
  same : ∀ times chunks, chunks.flatten = stream.bytes → ∃ f, filtered rt ar times chunks = some (output, f) ∧
    core f.state = k
  percent : ∀ times chunks, chunks.flatten <+: stream.bytes → ∀ out f,
    (RestoreProgress.Filter.mk [] (initial ar)).feedAll rt ar times chunks = some (out, f) → InRange ar f.state
  lines : ∀ before line after, stream.bytes = before ++ (line ++ after) → Whole lineFeed before → IsLine line →
    Plain rt (recordOf line) →
    ∃ out, (∀ times chunks, chunks.flatten = before → ∃ f, filtered rt ar times chunks = some (out, f)) ∧
      out ++ kept (recordOf line) <+: output

/-- No record is read with an error, the numbers of each snapshot are in range,
and no malformed JSON object has blanks around it. -/
structure Harmless (rt : Runtime) (ar : Arithmetic τ φ) (stream : RecordStream) : Prop where
  steady : ∀ times, Steady rt ar times (initial ar) (records stream.bytes)
  unstripped : ∀ record ∈ records stream.bytes, Plain rt record → braced (strip record) = true → strip record = record

variable {stream : RecordStream}

theorem filtered_start {before after : List UInt8} (hbytes : stream.bytes = before ++ after)
    (hbefore : Whole lineFeed before) {chunks : List (List UInt8)} (hchunks : chunks.flatten = before) :
    filtered rt ar times chunks = (run rt ar times (initial ar) (records before)).map
      (fun fed => (fed.1, ⟨[], fed.2⟩)) := by
  have hpending := stream.pending
  rw [hbytes] at hpending
  rw [filtered_eq (hchunks ▸ hpending.start hbefore), hchunks]

theorem filtered_stream {chunks : List (List UInt8)} (hchunks : chunks.flatten = stream.bytes) :
    filtered rt ar times chunks = (run rt ar times (initial ar) (records stream.bytes)).map
      (fun fed => (fed.1, ⟨[], fed.2⟩)) :=
  filtered_start (List.append_nil _).symm stream.pending.whole hchunks

variable [Inhabited τ]

theorem Harmless.independent (h : Harmless rt ar stream) : ∃ output k, Independent rt ar stream output k := by
  obtain ⟨⟨output, last⟩, hrun⟩ := Option.isSome_iff_exists.mp (run_isSome.mpr (h.steady (fun _ => default)))
  refine ⟨output, core last, ⟨?_, ?_, ?_⟩⟩
  · intro times chunks hchunks
    obtain ⟨⟨output', last'⟩, hrun'⟩ := Option.isSome_iff_exists.mp (run_isSome.mpr (h.steady times))
    obtain ⟨rfl, hcore⟩ := core_run rfl hrun hrun'
    rw [filtered_stream hchunks, hrun']
    exact ⟨_, rfl, hcore.symm⟩
  · intro times chunks _ out f hfed
    exact inRange_feedAll inRange_initial hfed
  · intro before line after hbytes hbefore hline hplain
    have hrecords : records stream.bytes = records before ++ (recordOf line :: records after) := by
      rw [hbytes, records_append hbefore, records_append hline.whole, records_line hline, List.singleton_append]
    rw [hrecords] at hrun
    obtain ⟨out, middle, more, hfirst, hmore, rfl⟩ := run_append.mp hrun
    refine ⟨out, ?_, ?_⟩
    · intro times chunks hchunks
      obtain ⟨⟨output', last'⟩, hrun'⟩ := Option.isSome_iff_exists.mp (run_isSome.mpr (h.steady times))
      rw [hrecords] at hrun'
      obtain ⟨out', middle', more', hfirst', -, -⟩ := run_append.mp hrun'
      obtain ⟨rfl, -⟩ := core_run rfl hfirst hfirst'
      rw [filtered_start hbytes hbefore hchunks, hfirst']
      exact ⟨_, rfl⟩
    · obtain ⟨own, next, newest, rest, hrecord, -, rfl⟩ := run_cons.mp hmore
      have hown := plain_output hplain hrecord
      have hsame : (if braced (strip (recordOf line)) = true then strip (recordOf line) else recordOf line) =
          recordOf line := by
        split
        · next hbraced => exact h.unstripped _ (by rw [hrecords]; simp) hplain hbraced
        · rfl
      rw [hsame] at hown
      rw [hown, List.prefix_append_right_inj]
      exact List.prefix_append _ _

theorem Independent.harmless {output : List UInt8} {k : Core φ} (h : Independent rt ar stream output k) :
    Harmless rt ar stream := by
  have hruns (times : Nat → τ) : ∃ last, run rt ar times (initial ar) (records stream.bytes) = some (output, last) := by
    have hwhole : [stream.bytes].flatten = stream.bytes := by simp
    obtain ⟨f, hf, -⟩ := h.same times [stream.bytes] hwhole
    rw [filtered_stream hwhole] at hf
    obtain ⟨⟨output', last⟩, hrun, heq⟩ := Option.map_eq_some_iff.mp hf
    cases heq
    exact ⟨last, hrun⟩
  constructor
  · intro times
    obtain ⟨last, hrun⟩ := hruns times
    exact run_isSome.mp (by rw [hrun]; rfl)
  · intro record hmem hplain hbraced
    obtain ⟨before, line, after, hbytes, hbefore, hline, rfl⟩ := cut_of_record stream.pending.whole hmem
    obtain ⟨out, hout, hprefix⟩ := h.lines before line after hbytes hbefore hline hplain
    obtain ⟨last, hrun⟩ := hruns (fun _ => default)
    rw [hbytes, records_append hbefore, records_append hline.whole, records_line hline, List.singleton_append] at hrun
    obtain ⟨out', middle, more, hfirst, hmore, rfl⟩ := run_append.mp hrun
    obtain ⟨f, hf⟩ := hout (fun _ => default) [before] (by simp)
    rw [filtered_start hbytes hbefore (by simp), hfirst] at hf
    cases hf
    obtain ⟨own, next, newest, rest, hrecord, -, rfl⟩ := run_cons.mp hmore
    rw [plain_output hplain hrecord, if_pos hbraced, List.prefix_append_right_inj, kept, kept,
      List.append_assoc] at hprefix
    exact strip_eq_of_prefix (open_recordOf hline) hbraced hprefix

/-- A stream on which a run stops is not one of those. -/
theorem not_independent (h : (run rt ar times (initial ar) (records stream.bytes)).isSome = false) :
    ¬ ∃ output k, Independent rt ar stream output k := by
  rintro ⟨output, k, hindependent⟩
  have hsteady := run_isSome.mpr (hindependent.harmless.steady times)
  rw [h] at hsteady
  cases hsteady

/-- The filter does what it is meant to do on the harmless streams, and on no others. -/
theorem restore_progress_iff (rt : Runtime) (ar : Arithmetic τ φ) (stream : RecordStream) :
    (∃ output k, Independent rt ar stream output k) ↔ Harmless rt ar stream := by
  constructor
  · rintro ⟨output, k, h⟩
    exact h.harmless
  · exact Harmless.independent

end Streams

section Example

def wholeNumbers : Arithmetic Nat Nat := {
  zero := 0
  hundred := 100
  zero_le_hundred := by decide
  ready := fun a b => decide (a < b)
  rate := fun n a b => n / (b - a)
  seconds := fun n r => some (n / r)
  percentage := fun m n => m * 100 / n }

/-- A progress record with a number of 401 digits. -/
def hugeRecord : List Char :=
  "\x7b\"type\":\"progress_percent\",\"msgid\":\"extract\",\"current\":1".toList ++
    (List.replicate 400 '0' ++ ",\"total\":1\x7d".toList)

def plainStr : RemoteOutput.Json → String
  | .str s => s
  | _ => ""

def plainRuntime : Runtime := {
  decimal := asciiDecimal
  sameLetter := fun c d => c.toLower == d.toLower
  casefold := String.toLower
  lower := String.toLower
  jsonLoads := fun _ => .error .decode
  str := plainStr
  roundProduct := fun text n => text.toNat?.map (fun k => ((k * n : Nat) : Int))
  encodable := fun _ => true }

/-- The reader has the huge record before it. -/
def hugeRuntime : Runtime := {
  plainRuntime with
  jsonLoads := fun _ =>
    .ok (.dict [("type", .str "progress_percent"), ("msgid", .str "extract"),
      ("current", .int (Nat.pow 10 400 : Nat)), ("total", .int 1)]) }

theorem pending_line {body : List UInt8} (hopen : Open lineFeed body) (hshort : body.length ≤ maxCarry) :
    Pending (body ++ [10]) where
  whole := by simp [Whole, lineFeed]
  short := by
    intro line hline
    rw [lines_line hopen rfl, List.mem_singleton] at hline
    rw [hline, List.length_append, List.length_singleton]
    omega

theorem open_of_all {body : List UInt8} (h : body.all (fun b => !lineFeed b) = true) : Open lineFeed body :=
  fun b hb => Bool.not_eq_true' _ ▸ List.all_eq_true.mp h b hb

def indented : List UInt8 := bytesOf "  \x7bx\x7d".toList

def indentedStream : RecordStream :=
  ⟨indented ++ [10], pending_line (open_of_all (by decide +kernel)) (by decide +kernel)⟩

def hugeStream : RecordStream :=
  ⟨bytesOf hugeRecord ++ [10], pending_line (open_of_all (by decide +kernel)) (by decide +kernel)⟩

/-- A malformed line loses its blanks, and a number that is no float stops the filter. -/
theorem progress_hindered :
    (¬ ∃ output k, Independent plainRuntime wholeNumbers indentedStream output k) ∧
      ¬ ∃ output k, Independent hugeRuntime wholeNumbers hugeStream output k := by
  constructor
  · rintro ⟨output, k, h⟩
    have htext : decodeStrict (strip indented) = some "\x7bx\x7d" := by decide
    have hload : load plainRuntime (strip indented) = .error .decode := by
      rw [load, htext]
      rfl
    have hplain : Plain plainRuntime indented := ⟨by decide, hload⟩
    have hsame := h.harmless.unstripped indented (by decide) hplain (by decide)
    exact absurd hsame (by decide)
  · have hstop : (run hugeRuntime wholeNumbers (fun _ => 0) (initial wholeNumbers)
        (records hugeStream.bytes)).isSome = false := by
      decide +kernel
    exact not_independent hstop

end Example

end BorgManager.RestoreChunks
