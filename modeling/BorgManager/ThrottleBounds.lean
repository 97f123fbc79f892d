import BorgManager.LoginThrottle

namespace BorgManager.ThrottleBounds

open FixedWindows Histories LoginThrottle

variable {settings : Settings} {rt : Runtime} {key : String} {t t' : Throttle}

/-- The time of an admitted attempt and the window in which the counter of the
key counts it. -/
def granted (settings : Settings) (rt : Runtime) (key : String) (t : Throttle) : Call → Option Grant
  | .consume a =>
      if key ∈ attemptKeys rt a ∧ (decision settings rt t.rows a).1 = true then
        ((countAttempt settings rt t.rows a).1 key).map (fun c => ⟨a.now, c.started⟩)
      else none
  | .reset _ _ => none

def grants (settings : Settings) (rt : Runtime) (key : String) : Throttle → List Call → List Grant :=
  observed (next settings rt) (granted settings rt key)

def Resets (rt : Runtime) (key : String) (call : Call) : Prop :=
  ∃ username remoteAddress, call = .reset username remoteAddress ∧
    key = pairKey rt (sourceAddress rt remoteAddress) (normalizedUser rt username)

/-- At most `limit` grants of one window and twice as many in an interval that
is shorter than a window. -/
structure WithinLimit (settings : Settings) (limit : Nat) (grants : List Grant) : Prop where
  window : ∀ start, grants.countP (fun g => g.start == start) ≤ limit
  interval : ∀ first last, last - first < seconds settings.windowSeconds →
    grants.countP (fun g => decide (first ≤ g.time ∧ g.time ≤ last)) ≤ 2 * limit

theorem withinLimit_of_ledger {clock : Int} {row : Option Counter} {gs : List Grant}
    (h : Ledger (policyOf settings key) clock row gs) : WithinLimit settings (policyOf settings key).limit gs where
  window := h.bounded
  interval first last hshort := by
    apply h.interval
    rw [(policyOf_times settings key).1]
    exact hshort

/-- An admitted attempt is counted by both of its counters. -/
theorem counted_of_decision {rows : Buckets} {a : Attempt} (h : (decision settings rt rows a).1 = true)
    (hkey : key ∈ attemptKeys rt a) : ∃ next, judge (policyOf settings key) a.now (rows key) = .counted next := by
  have hzero : max (verdictDelay settings a.now (ipVerdict settings rt rows a))
      (verdictDelay settings a.now (pairVerdict settings rt rows a)) = 0 := by
    rw [decision, countAttempt_eq] at h
    exact beq_iff_eq.mp h
  have hcounted (v : Verdict) (hle : verdictDelay settings a.now v ≤ 0) : ∃ next, v = .counted next := by
    by_contra hnot
    have hpos : 0 < verdictDelay settings a.now v := verdictDelay_pos fun next heq => hnot ⟨next, heq⟩
    exact absurd hle (Int.not_le.mpr hpos)
  rcases List.mem_cons.mp hkey with rfl | hkey
  · obtain ⟨next, hnext⟩ := hcounted _ (hzero ▸ le_max_left _ _)
    rw [attemptIpKey, policyOf_ip]
    exact ⟨next, hnext⟩
  · rw [List.mem_singleton.mp hkey]
    obtain ⟨next, hnext⟩ := hcounted _ (hzero ▸ le_max_right _ _)
    rw [attemptPairKey, policyOf_pair]
    exact ⟨next, hnext⟩

theorem ledger_count {a : Attempt} {gs : List Grant} (h : Ledger (policyOf settings key) t.clock (t.rows key) gs)
    (hearly : t.clock ≤ a.now) :
    Ledger (policyOf settings key) a.now ((countAttempt settings rt t.rows a).1 key)
      (gs ++ (granted settings rt key t (.consume a)).toList) := by
  by_cases hkey : key ∈ attemptKeys rt a
  · by_cases hallowed : (decision settings rt t.rows a).1 = true
    · obtain ⟨next, hnext⟩ := counted_of_decision hallowed hkey
      have hrow : (countAttempt settings rt t.rows a).1 key = some next := by
        rw [countAttempt_row, if_pos hkey, hnext]
        rfl
      rw [granted, if_pos ⟨hkey, hallowed⟩, hrow]
      exact (h.counted hearly hnext).2
    · rw [granted, if_neg (fun hboth => hallowed hboth.2), countAttempt_row, if_pos hkey, Option.toList_none,
        List.append_nil]
      exact h.refused hearly _ rfl
  · rw [granted, if_neg (fun hboth => hkey hboth.1), countAttempt_row, if_neg hkey, Option.toList_none, List.append_nil]
    exact h.later hearly

theorem ledger_step {call : Call} {gs : List Grant} (h : Ledger (policyOf settings key) t.clock (t.rows key) gs)
    (hnext : next settings rt t call = some t') (hreset : ¬ Resets rt key call) :
    Ledger (policyOf settings key) t'.clock (t'.rows key) (gs ++ (granted settings rt key t call).toList) := by
  rcases row_of_next hnext key with
    ⟨hearly, hlate, hclock, hrow⟩ | ⟨hearly, hlate, hclock, hold, hrow⟩ | ⟨-, hown, -⟩ | ⟨hclock, -, hrow⟩
  · rw [hrow, hclock]
    exact (ledger_count h hearly).later hlate
  · have hcount := @ledger_count settings rt key t _ gs h hearly
    rw [hrow, hclock]
    apply (hcount.later hlate).evict
    intro c hc
    exact (hcount.sound c hc).stale (hold c hc)
  · exact absurd ⟨_, _, rfl, hown⟩ hreset
  · rw [hrow, hclock, granted, Option.toList_none, List.append_nil]
    exact h

theorem ledger_run {calls : List Call} {gs : List Grant} (h : Ledger (policyOf settings key) t.clock (t.rows key) gs)
    (hrun : exec (next settings rt) t calls = some t') (hreset : ∀ call ∈ calls, ¬ Resets rt key call) :
    Ledger (policyOf settings key) t'.clock (t'.rows key) (gs ++ grants settings rt key t calls) := by
  induction calls generalizing t gs with
  | nil =>
      cases hrun
      rw [grants, observed, List.append_nil]
      exact h
  | cons call calls ih =>
      obtain ⟨u, hu, htail⟩ := Option.bind_eq_some_iff.mp hrun
      obtain ⟨hfirst, hrest⟩ := List.forall_mem_cons.mp hreset
      rw [grants, observed, hu, Option.elim_some, ← List.append_assoc]
      exact ih (ledger_step h hu hfirst) htail hrest

theorem soundRows_run {calls : List Call} (h : SoundRows settings t)
    (hrun : exec (next settings rt) t calls = some t') :
    SoundRows settings t' := by
  apply (history_of_exec hrun).invariant (SoundRows settings) h
  intro u call v hu hstep
  exact hu.next hstep

/-- The block of a key is in force until it is over. -/
def BlockKept (key : String) (endsAt : Int) (t : Throttle) : Prop :=
  endsAt ≤ t.clock ∨ ∃ c, t.rows key = some c ∧ c.blockedUntil = some endsAt

/-- A block in force survives an attempt and its cleanup. -/
theorem BlockKept.count {endsAt : Int} {a : Attempt} (h : BlockKept key endsAt t) (hearly : t.clock ≤ a.now) :
    endsAt ≤ a.now ∨ ∃ c, (countAttempt settings rt t.rows a).1 key = some c ∧ c.blockedUntil = some endsAt := by
  rcases h with hover | ⟨c, hrow, hblock⟩
  · exact .inl (hover.trans hearly)
  · by_cases hlt : a.now < endsAt
    · refine .inr ⟨c, ?_, hblock⟩
      rw [countAttempt_row]
      split
      · rw [hrow, judge_of_block hblock hlt]
        rfl
      · exact hrow
    · exact .inl (Int.not_lt.mp hlt)

theorem BlockKept.step {endsAt : Int} {call : Call} (h : BlockKept key endsAt t) (hsound : SoundRows settings t)
    (hnext : next settings rt t call = some t') (hreset : ¬ Resets rt key call) : BlockKept key endsAt t' := by
  rcases row_of_next hnext key with
    ⟨hearly, hlate, hclock, hrow⟩ | ⟨hearly, hlate, hclock, hold, hrow⟩ | ⟨-, hown, -⟩ | ⟨hclock, -, hrow⟩
  · rw [BlockKept, hrow, hclock]
    exact (h.count hearly).imp_left fun hover => hover.trans hlate
  · rcases h.count hearly with hover | ⟨c, hc, hblock⟩
    · exact .inl (hclock ▸ hover.trans hlate)
    · left
      rw [hclock]
      exact ((sound_countAttempt hsound hearly key c hc).stale (hold c hc)).2 endsAt hblock
  · exact absurd ⟨_, _, rfl, hown⟩ hreset
  · rw [BlockKept, hrow, hclock]
    exact h

theorem BlockKept.run {endsAt : Int} {calls : List Call} (h : BlockKept key endsAt t) (hsound : SoundRows settings t)
    (hrun : exec (next settings rt) t calls = some t') (hreset : ∀ call ∈ calls, ¬ Resets rt key call) :
    BlockKept key endsAt t' := by
  have hboth := (history_of_exec hrun).invariant_of_mem
    (fun u => SoundRows settings u ∧ BlockKept key endsAt u) ⟨hsound, h⟩
  refine (hboth ?_).2
  intro u call v hcall hu hstep
  exact ⟨hu.1.next hstep, hu.2.step hu.1 hstep (hreset call hcall)⟩

theorem denied_of_delay {rows : Buckets} {a : Attempt} (hkey : key ∈ attemptKeys rt a)
    (hnot : ∀ next, judge (policyOf settings key) a.now (rows key) ≠ .counted next) :
    (decision settings rt rows a).1 = false := by
  rw [← Bool.not_eq_true]
  intro hallowed
  obtain ⟨next, hnext⟩ := counted_of_decision hallowed hkey
  exact hnot next hnext

theorem exceeding_denied {rows : Buckets} {a : Attempt} (hkey : key ∈ attemptKeys rt a)
    (hexceeds : Exceeds (policyOf settings key) a.now (rows key)) : (decision settings rt rows a).1 = false := by
  apply denied_of_delay hkey
  intro next hnext
  rw [judge_of_exceeds hexceeds] at hnext
  nomatch hnext

theorem blocked_denied {endsAt : Int} {a : Attempt} (h : BlockKept key endsAt t) (hkey : key ∈ attemptKeys rt a)
    (hearly : t.clock ≤ a.now) (hlt : a.now < endsAt) : (decision settings rt t.rows a).1 = false := by
  rcases h with hover | ⟨c, hrow, hblock⟩
  · exact absurd (hover.trans hearly) (Int.not_le.mpr hlt)
  · apply denied_of_delay hkey
    intro next hnext
    rw [hrow, judge_of_block hblock hlt] at hnext
    nomatch hnext

/-- An attempt that exceeds the limit of a key blocks the key. -/
theorem blockKept_of_exceeds {a : Attempt} (hsound : SoundRows settings t) (hkey : key ∈ attemptKeys rt a)
    (hexceeds : Exceeds (policyOf settings key) a.now (t.rows key))
    (hnext : next settings rt t (.consume a) = some t') :
    BlockKept key (a.now + seconds settings.blockSeconds) t' := by
  have hrow : (countAttempt settings rt t.rows a).1 key = some ⟨(opened (policyOf settings key) a.now (t.rows key)).1,
      (opened (policyOf settings key) a.now (t.rows key)).2, some (a.now + seconds settings.blockSeconds), a.now⟩ := by
    rw [countAttempt_row, if_pos hkey, judge_of_exceeds hexceeds, (policyOf_times settings key).2]
    rfl
  rcases row_of_next hnext key with ⟨-, -, -, hkept⟩ | ⟨hearly, -, hclock, hold, -⟩
  · exact .inr ⟨_, hkept.trans hrow, rfl⟩
  · left
    have hstale := (sound_countAttempt hsound hearly key _ hrow).stale (hold _ hrow)
    rw [hclock]
    exact hstale.2 _ rfl

theorem not_resets_ip (address : String) (call : Call) : ¬ Resets rt (ipKey address) call := by
  rintro ⟨username, remoteAddress, -, heq⟩
  exact ipKey_ne_pairKey _ _ _ heq

/-- A cleanup keeps each row whose block is in force. -/
theorem cleanup_keeps_block {rows : Buckets} {now endsAt : Int} {c : Counter}
    (hsound : ∀ d ∈ rows key, Sound (policyOf settings key) now d) (hrow : rows key = some c)
    (hblock : c.blockedUntil = some endsAt) (hlt : now < endsAt) :
    cleanupLoginRateLimits settings now rows key = some c := by
  rcases cleanup_row now rows key with hkept | ⟨-, hold⟩
  · rw [hkept, hrow]
  · have hstale := (hsound c hrow).stale ((hold c hrow).trans_le (cutoff_le key now))
    exact absurd hlt (Int.not_lt.mpr (hstale.2 endsAt hblock))

/-- The bounds of login throttling in every history from an empty table: for
addresses over the whole history, for pairs between two resets, the refusals
while a block lasts, and the rows that every cleanup keeps. -/
theorem throttle_bounds {clock : Int} {calls : List Call} (h : exec (next settings rt) (.empty clock) calls = some t) :
    (∀ address, WithinLimit settings settings.maxPerIp (grants settings rt (ipKey address) (.empty clock) calls)) ∧
    (∀ address user before between after u, calls = before ++ between ++ after →
      (∀ call ∈ between, ¬ Resets rt (pairKey rt address user) call) →
        exec (next settings rt) (.empty clock) before = some u →
          WithinLimit settings settings.maxPerIpUser (grants settings rt (pairKey rt address user) u between)) ∧
    (∀ before a between b after u v key, calls = before ++ .consume a :: between ++ .consume b :: after →
      exec (next settings rt) (.empty clock) before = some u →
        exec (next settings rt) (.empty clock) (before ++ .consume a :: between) = some v →
          key ∈ attemptKeys rt a → Exceeds (policyOf settings key) a.now (u.rows key) →
            (decision settings rt u.rows a).1 = false ∧
              (key ∈ attemptKeys rt b → (∀ call ∈ between, ¬ Resets rt key call) →
                b.now < a.now + seconds settings.blockSeconds → (decision settings rt v.rows b).1 = false)) ∧
    (∀ before a after u key c endsAt, calls = before ++ .consume a :: after →
      exec (next settings rt) (.empty clock) before = some u → (countAttempt settings rt u.rows a).1 key = some c →
        c.blockedUntil = some endsAt → a.later < endsAt →
          cleanupLoginRateLimits settings a.later (countAttempt settings rt u.rows a).1 key = some c) := by
  have hempty : SoundRows settings (.empty clock) := soundRows_empty clock
  refine ⟨?_, ?_, ?_, ?_⟩
  · intro address
    have hledger := ledger_run (.empty (hempty (ipKey address))) h (fun call _ => not_resets_ip address call)
    have hwithin := withinLimit_of_ledger hledger
    rw [policyOf_ip] at hwithin
    exact hwithin
  · intro address user before between after u hcalls hresets hbefore
    have hsplit := h
    rw [hcalls, List.append_assoc, exec_append, hbefore, Option.bind_some, exec_append] at hsplit
    obtain ⟨v, hv, -⟩ := Option.bind_eq_some_iff.mp hsplit
    have hledger := ledger_run (.empty (soundRows_run hempty hbefore _)) hv hresets
    have hwithin := withinLimit_of_ledger hledger
    rw [policyOf_pair] at hwithin
    exact hwithin
  · intro before a between b after u v key hcalls hbefore hbetween hkey hexceeds
    refine ⟨exceeding_denied hkey hexceeds, fun hkey' hresets hlt => ?_⟩
    have hlast := h
    rw [hcalls, exec_append, hbetween, Option.bind_some] at hlast
    obtain ⟨w, hw, -⟩ := Option.bind_eq_some_iff.mp hlast
    rw [exec_append, hbefore, Option.bind_some] at hbetween
    obtain ⟨x, hx, hrun⟩ := Option.bind_eq_some_iff.mp hbetween
    have hsound := soundRows_run hempty hbefore
    have hblock := (blockKept_of_exceeds hsound hkey hexceeds hx).run (hsound.next hx) hrun hresets
    exact blocked_denied hblock hkey' (Option.ite_none_right_eq_some.mp hw).1.1 hlt
  · intro before a after u key c endsAt hcalls hbefore hrow hblock hlt
    have hlast := h
    rw [hcalls, exec_append, hbefore, Option.bind_some] at hlast
    obtain ⟨w, hw, -⟩ := Option.bind_eq_some_iff.mp hlast
    obtain ⟨hearly, hlate⟩ := (Option.ite_none_right_eq_some.mp hw).1
    apply cleanup_keeps_block _ hrow hblock hlt
    intro d hd
    exact (sound_countAttempt (soundRows_run hempty hbefore) hearly key d hd).later hlate

def tightSettings : Settings :=
  { defaultSettings with maxPerIp := 3, maxPerIpUser := 2, ip_pos := by decide, user_pos := by decide }

def attemptAt (username remoteAddress : String) (now : Int) : Call :=
  .consume ⟨username, some remoteAddress, now, now + 1⟩

/-- The third attempt for a user is one too many, and the fourth comes within
the block. A third of an hour later the cleanup finds old rows. -/
def blockedCalls : List Call :=
  [attemptAt "admin" "10.0.0.1" 5, attemptAt "admin" "10.0.0.1" 7, attemptAt "admin" "10.0.0.1" 9,
    attemptAt "guest" "10.0.0.2" 11,
    attemptAt "admin" "10.0.0.1" 13, attemptAt "guest" "10.0.0.2" 1900000000]

theorem exec_blockedCalls :
    ∃ t, exec (next tightSettings plainRuntime) (.empty 0) blockedCalls = some t ∧
    ∃ u v, exec (next tightSettings plainRuntime) (.empty 0) (blockedCalls.take 2) = some u ∧
      exec (next tightSettings plainRuntime) (.empty 0) (blockedCalls.take 4) = some v ∧
      Exceeds (policyOf tightSettings (attemptPairKey plainRuntime ⟨"admin", some "10.0.0.1", 9, 10⟩)) 9
        (u.rows (attemptPairKey plainRuntime ⟨"admin", some "10.0.0.1", 9, 10⟩)) :=
  ⟨_, rfl, _, _, rfl, rfl, by decide, by decide⟩

theorem throttle_bounds_blocked :
    WithinLimit tightSettings 3 (grants tightSettings plainRuntime (ipKey "10.0.0.1") (.empty 0) blockedCalls) ∧
    ∃ u v, exec (next tightSettings plainRuntime) (.empty 0) (blockedCalls.take 2) = some u ∧
      exec (next tightSettings plainRuntime) (.empty 0) (blockedCalls.take 4) = some v ∧
      (decision tightSettings plainRuntime u.rows ⟨"admin", some "10.0.0.1", 9, 10⟩).1 = false ∧
      (decision tightSettings plainRuntime v.rows ⟨"admin", some "10.0.0.1", 13, 14⟩).1 = false := by
  obtain ⟨t, ht, u, v, hu, hv, hexceeds⟩ := exec_blockedCalls
  obtain ⟨hip, -, hblock, -⟩ := throttle_bounds ht
  obtain ⟨hfirst, hsecond⟩ := hblock (blockedCalls.take 2) ⟨"admin", some "10.0.0.1", 9, 10⟩
    [attemptAt "guest" "10.0.0.2" 11]
    ⟨"admin", some "10.0.0.1", 13, 14⟩ [attemptAt "guest" "10.0.0.2" 1900000000] u v _ rfl hu hv
      (pairKey_mem _) hexceeds
  refine ⟨hip "10.0.0.1", u, v, hu, hv, hfirst, hsecond (pairKey_mem _) ?_ (by decide)⟩
  rintro call hcall ⟨username, remoteAddress, rfl, -⟩
  cases List.mem_singleton.mp hcall

end BorgManager.ThrottleBounds
