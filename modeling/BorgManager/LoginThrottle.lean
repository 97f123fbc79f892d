import Mathlib.Logic.Function.Basic
import BorgManager.FixedWindows
import BorgManager.Histories
import BorgManager.PythonText

namespace BorgManager.LoginThrottle

open FixedWindows Histories PythonText

/-- The validated settings of the login limits. -/
structure Settings where
  windowSeconds : Int
  blockSeconds : Int
  maxPerIp : Nat
  maxPerIpUser : Nat
  window_pos : 0 < windowSeconds
  block_pos : 0 < blockSeconds
  ip_pos : 0 < maxPerIp
  user_pos : 0 < maxPerIpUser

structure Runtime where
  lower : String → String
  casefold : String → String
  sha256 : String → String

/-- Instants count microseconds; the texts that the table stores are ordered as
the instants are. -/
def seconds (n : Int) : Int := n * 1000000

theorem seconds_pos {n : Int} (h : 0 < n) : 0 < seconds n := Int.mul_pos h (by decide)

def Settings.ipPolicy (settings : Settings) : Policy where
  window := seconds settings.windowSeconds
  block := seconds settings.blockSeconds
  limit := settings.maxPerIp
  window_pos := seconds_pos settings.window_pos
  block_pos := seconds_pos settings.block_pos
  limit_pos := settings.ip_pos

def Settings.pairPolicy (settings : Settings) : Policy where
  window := seconds settings.windowSeconds
  block := seconds settings.blockSeconds
  limit := settings.maxPerIpUser
  window_pos := seconds_pos settings.window_pos
  block_pos := seconds_pos settings.block_pos
  limit_pos := settings.user_pos

/-- The rows of `login_rate_limits` by their key. -/
abbrev Buckets := String → Option Counter

variable (settings : Settings) (rt : Runtime)

def first128 (s : String) : String := String.ofList (s.toList.take 128)

def sourceAddress (remoteAddress : Option String) : String :=
  first128 (rt.lower (strip ((truthy remoteAddress).getD "unknown")))

def normalizedUser (username : String) : String := first128 (rt.casefold (strip username))

def ipKey (address : String) : String := "ip:" ++ address

def pairKey (address user : String) : String := "pair:" ++ rt.sha256 (address ++ "\x00" ++ user)

def rateBucketKeys (username : String) (remoteAddress : Option String) : List (String × Policy) :=
  [(ipKey (sourceAddress rt remoteAddress), settings.ipPolicy),
    (pairKey rt (sourceAddress rt remoteAddress) (normalizedUser rt username), settings.pairPolicy)]

/-- The clock is read once at the start of the call and once more by its
cleanup. -/
structure Attempt where
  username : String
  remoteAddress : Option String
  now : Int
  later : Int

def retryDelay (now endsAt : Int) : Int := max 1 ((endsAt - now) / 1000000)

def consumeBucket (now : Int) (found : Buckets × Int) (bucket : String × Policy) : Buckets × Int :=
  match judge bucket.2 now (found.1 bucket.1) with
  | .refused endsAt => (found.1, max found.2 (retryDelay now endsAt))
  | .exceeded row => (Function.update found.1 bucket.1 (some row), max found.2 settings.blockSeconds)
  | .counted row => (Function.update found.1 bucket.1 (some row), found.2)

def countAttempt (rows : Buckets) (a : Attempt) : Buckets × Int :=
  (rateBucketKeys settings rt a.username a.remoteAddress).foldl (consumeBucket settings a.now) (rows, 0)

def cleanupLoginRateLimits (now : Int) (rows : Buckets) : Buckets := fun key =>
  (rows key).filter (fun row =>
    !decide (row.updated < now - seconds (max settings.windowSeconds settings.blockSeconds * 2)))

/-- Whether the login may verify its password, and the seconds it is told to
wait. -/
def decision (rows : Buckets) (a : Attempt) : Bool × Int :=
  ((countAttempt settings rt rows a).2 == 0, (countAttempt settings rt rows a).2)

inductive Call
  | consume (a : Attempt)
  | reset (username : String) (remoteAddress : Option String)

structure Throttle where
  clock : Int
  rows : Buckets

def Throttle.empty (clock : Int) : Throttle := ⟨clock, fun _ => none⟩

/-- The calls are transactions one after the other, on a clock that does not go
back. -/
def next (t : Throttle) : Call → Option Throttle
  | .consume a =>
      if t.clock ≤ a.now ∧ a.now ≤ a.later then
        some ⟨a.later, cleanupLoginRateLimits settings a.later (countAttempt settings rt t.rows a).1⟩
      else none
  | .reset username remoteAddress =>
      some ⟨t.clock, Function.update t.rows
        (pairKey rt (sourceAddress rt remoteAddress) (normalizedUser rt username)) none⟩

variable {settings rt} {t t' : Throttle} {a : Attempt} {rows : Buckets}

/-- The seconds that a verdict makes a login wait. -/
def verdictDelay (settings : Settings) (now : Int) : Verdict → Int
  | .refused endsAt => retryDelay now endsAt
  | .exceeded _ => settings.blockSeconds
  | .counted _ => 0

theorem verdictDelay_pos {now : Int} {v : Verdict} (h : ∀ row, v ≠ .counted row) : 0 < verdictDelay settings now v := by
  cases v with
  | refused endsAt =>
      rw [verdictDelay, retryDelay]
      omega
  | exceeded => exact settings.block_pos
  | counted row => exact absurd rfl (h row)

theorem verdictDelay_nonneg (now : Int) (v : Verdict) : 0 ≤ verdictDelay settings now v := by
  cases v with
  | counted => exact le_rfl
  | refused endsAt =>
      apply le_of_lt
      apply verdictDelay_pos
      intro row hrow
      nomatch hrow
  | exceeded =>
      apply le_of_lt
      apply verdictDelay_pos
      intro row hrow
      nomatch hrow

theorem consumeBucket_eq (now : Int) (retry : Int) (hretry : 0 ≤ retry) (bucket : String × Policy) :
    consumeBucket settings now (rows, retry) bucket =
      (Function.update rows bucket.1 ((judge bucket.2 now (rows bucket.1)).row (rows bucket.1)),
        max retry (verdictDelay settings now (judge bucket.2 now (rows bucket.1)))) := by
  rw [consumeBucket]
  dsimp only
  split
  · next endsAt hverdict => rw [hverdict, Verdict.row, Function.update_eq_self, verdictDelay]
  · next row hverdict => rw [hverdict, Verdict.row, verdictDelay]
  · next row hverdict => rw [hverdict, Verdict.row, verdictDelay, max_eq_left hretry]

theorem ipKey_ne_pairKey (address other user : String) : ipKey address ≠ pairKey rt other user := by
  intro heq
  have hlists := congrArg String.toList heq
  have hip : "ip:".toList = ['i', 'p', ':'] := by decide
  have hpair : "pair:".toList = ['p', 'a', 'i', 'r', ':'] := by decide
  rw [ipKey, pairKey, String.toList_append, String.toList_append, hip, hpair] at hlists
  exact absurd (List.cons.inj hlists).1 (by decide)

theorem ipKey_inj {address other : String} (h : ipKey address = ipKey other) : address = other :=
  String.append_right_inj _ |>.mp h

def attemptIpKey (rt : Runtime) (a : Attempt) : String := ipKey (sourceAddress rt a.remoteAddress)

def attemptPairKey (rt : Runtime) (a : Attempt) : String :=
  pairKey rt (sourceAddress rt a.remoteAddress) (normalizedUser rt a.username)

/-- The verdicts on the two counters of an attempt. -/
def ipVerdict (settings : Settings) (rt : Runtime) (rows : Buckets) (a : Attempt) : Verdict :=
  judge settings.ipPolicy a.now (rows (attemptIpKey rt a))

def pairVerdict (settings : Settings) (rt : Runtime) (rows : Buckets) (a : Attempt) : Verdict :=
  judge settings.pairPolicy a.now (rows (attemptPairKey rt a))

theorem countAttempt_eq (rows : Buckets) (a : Attempt) :
    countAttempt settings rt rows a =
      (Function.update
        (Function.update rows (attemptIpKey rt a) ((ipVerdict settings rt rows a).row (rows (attemptIpKey rt a))))
        (attemptPairKey rt a) ((pairVerdict settings rt rows a).row (rows (attemptPairKey rt a))),
      max (verdictDelay settings a.now (ipVerdict settings rt rows a))
        (verdictDelay settings a.now (pairVerdict settings rt rows a))) := by
  have hne : attemptPairKey rt a ≠ attemptIpKey rt a := Ne.symm (ipKey_ne_pairKey _ _ _)
  rw [attemptPairKey, attemptIpKey] at hne
  rw [countAttempt, rateBucketKeys, List.foldl_cons, List.foldl_cons, List.foldl_nil, consumeBucket_eq _ _ le_rfl,
    max_eq_right (verdictDelay_nonneg ..), consumeBucket_eq _ _ (verdictDelay_nonneg ..)]
  dsimp only
  rw [Function.update_of_ne hne]
  rfl

/-- The limits that a key is counted against. -/
def policyOf (settings : Settings) (key : String) : Policy :=
  if key.toList.head? = some 'i' then settings.ipPolicy else settings.pairPolicy

theorem policyOf_ip (address : String) : policyOf settings (ipKey address) = settings.ipPolicy := by
  have hip : "ip:".toList = ['i', 'p', ':'] := by decide
  rw [policyOf, ipKey, String.toList_append, hip]
  exact if_pos rfl

theorem policyOf_pair (address user : String) : policyOf settings (pairKey rt address user) = settings.pairPolicy := by
  have hpair : "pair:".toList = ['p', 'a', 'i', 'r', ':'] := by decide
  rw [policyOf, pairKey, String.toList_append, hpair, List.cons_append, List.head?_cons]
  exact if_neg (by decide)

theorem policyOf_times (settings : Settings) (key : String) :
    (policyOf settings key).window = seconds settings.windowSeconds ∧
    (policyOf settings key).block = seconds settings.blockSeconds := by
  rw [policyOf]
  split <;> exact ⟨rfl, rfl⟩

def attemptKeys (rt : Runtime) (a : Attempt) : List String := [attemptIpKey rt a, attemptPairKey rt a]

theorem ipKey_mem (a : Attempt) : attemptIpKey rt a ∈ attemptKeys rt a := List.mem_cons_self ..

theorem pairKey_mem (a : Attempt) : attemptPairKey rt a ∈ attemptKeys rt a :=
  List.mem_cons_of_mem _ (List.mem_singleton_self _)

/-- An attempt judges the counters of its own two keys and no other. -/
theorem countAttempt_row (key : String) : (countAttempt settings rt rows a).1 key =
    if key ∈ attemptKeys rt a then (judge (policyOf settings key) a.now (rows key)).row (rows key) else rows key := by
  rw [countAttempt_eq]
  dsimp only
  by_cases hpair : key = attemptPairKey rt a
  · subst hpair
    rw [Function.update_self, if_pos (pairKey_mem a), attemptPairKey, policyOf_pair]
    rfl
  · rw [Function.update_of_ne hpair]
    by_cases hip : key = attemptIpKey rt a
    · subst hip
      rw [Function.update_self, if_pos (ipKey_mem a), attemptIpKey, policyOf_ip]
      rfl
    · rw [Function.update_of_ne hip, if_neg]
      intro hmem
      rcases List.mem_cons.mp hmem with heq | hmem
      · exact hip heq
      · exact hpair (List.mem_singleton.mp hmem)

/-- A row is either kept by a cleanup or has not been written for twice the
window and twice the block. -/
theorem cleanup_row (now : Int) (rows : Buckets) (key : String) :
    cleanupLoginRateLimits settings now rows key = rows key ∨
      (cleanupLoginRateLimits settings now rows key = none ∧
        ∀ c ∈ rows key, c.updated < now - seconds (max settings.windowSeconds settings.blockSeconds * 2)) := by
  rw [cleanupLoginRateLimits]
  cases hrow : rows key with
  | none => exact .inl rfl
  | some c =>
      by_cases hold : c.updated < now - seconds (max settings.windowSeconds settings.blockSeconds * 2)
      · right
        refine ⟨?_, fun d hd => ?_⟩
        · rw [Option.filter_some, if_neg]
          rw [decide_eq_true hold]
          exact Bool.false_ne_true
        · cases hd
          exact hold
      · left
        rw [Option.filter_some, if_pos]
        rw [decide_eq_false hold]
        rfl

theorem cutoff_le (key : String) (now : Int) :
    now - seconds (max settings.windowSeconds settings.blockSeconds * 2) ≤
      now - max (policyOf settings key).window (policyOf settings key).block := by
  obtain ⟨hwindow, hblock⟩ := policyOf_times settings key
  have hw := settings.window_pos
  have hb := settings.block_pos
  rw [hwindow, hblock, seconds, seconds, seconds]
  omega

/-- What the stored rows satisfy between the calls. -/
def SoundRows (settings : Settings) (t : Throttle) : Prop :=
  ∀ key, ∀ c ∈ t.rows key, Sound (policyOf settings key) t.clock c

theorem soundRows_empty (clock : Int) : SoundRows settings (.empty clock) := by
  intro key c hc
  nomatch hc

/-- What one call does to the clock and to the row of one key. -/
inductive Row (settings : Settings) (rt : Runtime) (key : String) (t t' : Throttle) : Call → Prop
  | kept {a : Attempt} (early : t.clock ≤ a.now) (late : a.now ≤ a.later) (clock : t'.clock = a.later)
      (row : t'.rows key = (countAttempt settings rt t.rows a).1 key) : Row settings rt key t t' (.consume a)
  | removed {a : Attempt} (early : t.clock ≤ a.now) (late : a.now ≤ a.later) (clock : t'.clock = a.later)
      (old : ∀ c ∈ (countAttempt settings rt t.rows a).1 key, c.updated < a.later -
        max (policyOf settings key).window (policyOf settings key).block)
      (row : t'.rows key = none) : Row settings rt key t t' (.consume a)
  | reset {username : String} {remoteAddress : Option String} (clock : t'.clock = t.clock)
      (own : key = pairKey rt (sourceAddress rt remoteAddress) (normalizedUser rt username))
        (row : t'.rows key = none) :
      Row settings rt key t t' (.reset username remoteAddress)
  | untouched {username : String} {remoteAddress : Option String} (clock : t'.clock = t.clock)
      (other : key ≠ pairKey rt (sourceAddress rt remoteAddress) (normalizedUser rt username))
      (row : t'.rows key = t.rows key) : Row settings rt key t t' (.reset username remoteAddress)

theorem row_of_next {call : Call} (h : next settings rt t call = some t') (key : String) :
    Row settings rt key t t' call := by
  cases call with
  | consume a =>
      obtain ⟨⟨hearly, hlate⟩, heq⟩ := Option.ite_none_right_eq_some.mp h
      cases heq
      rcases cleanup_row a.later (countAttempt settings rt t.rows a).1 key with hkept | ⟨hnone, hold⟩
      · exact .kept hearly hlate rfl hkept
      · exact .removed hearly hlate rfl (fun c hc => (hold c hc).trans_le (cutoff_le key a.later)) hnone
  | reset username remoteAddress =>
      cases h
      by_cases hown : key = pairKey rt (sourceAddress rt remoteAddress) (normalizedUser rt username)
      · exact .reset rfl hown (by rw [hown]; exact Function.update_self ..)
      · exact .untouched rfl hown (Function.update_of_ne hown ..)

theorem sound_countAttempt (hsound : SoundRows settings t) (hearly : t.clock ≤ a.now) (key : String) :
    ∀ c ∈ (countAttempt settings rt t.rows a).1 key, Sound (policyOf settings key) a.now c := by
  rw [countAttempt_row]
  split
  · exact sound_judge (hsound key) hearly
  · exact fun c hc => (hsound key c hc).later hearly

theorem SoundRows.next {call : Call} (hsound : SoundRows settings t) (h : next settings rt t call = some t') :
    SoundRows settings t' := by
  intro key c hc
  rcases row_of_next h key with ⟨hearly, hlate, hclock, hrow⟩ | ⟨-, -, -, -, hrow⟩ | ⟨-, -, hrow⟩ | ⟨hclock, -, hrow⟩
  · rw [hrow] at hc
    rw [hclock]
    exact (sound_countAttempt hsound hearly key c hc).later hlate
  · rw [hrow] at hc
    nomatch hc
  · rw [hrow] at hc
    nomatch hc
  · rw [hrow] at hc
    rw [hclock]
    exact hsound key c hc

/-- The limits of an installation that sets none. -/
def defaultSettings : Settings where
  windowSeconds := 300
  blockSeconds := 900
  maxPerIp := 20
  maxPerIpUser := 5
  window_pos := by decide
  block_pos := by decide
  ip_pos := by decide
  user_pos := by decide

/-- Lower case text and a digest without collisions. -/
def plainRuntime : Runtime := ⟨id, id, id⟩

end BorgManager.LoginThrottle
