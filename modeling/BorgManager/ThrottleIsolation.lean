import BorgManager.LoginThrottle

namespace BorgManager.ThrottleIsolation

open FixedWindows Histories LoginThrottle

variable {settings : Settings} {rt : Runtime} {address : String} {t t' : Throttle}

def callAddress (rt : Runtime) : Call → String
  | .consume a => sourceAddress rt a.remoteAddress
  | .reset _ remoteAddress => sourceAddress rt remoteAddress

/-- What a source sees of a call of its own. -/
inductive OwnCall
  | consume (user : String) (now : Int)
  | reset (user : String)

def ownCall (rt : Runtime) (address : String) : Call → Option OwnCall
  | .consume a =>
      if sourceAddress rt a.remoteAddress = address then some (.consume (normalizedUser rt a.username) a.now) else none
  | .reset username remoteAddress =>
      if sourceAddress rt remoteAddress = address then some (.reset (normalizedUser rt username)) else none

def answer (settings : Settings) (rt : Runtime) (address : String) (t : Throttle) : Call → Option (Bool × Int)
  | .consume a => if sourceAddress rt a.remoteAddress = address then some (decision settings rt t.rows a) else none
  | .reset _ _ => none

/-- The decisions on the attempts of one source in a history of all sources. -/
def answersTo (settings : Settings) (rt : Runtime) (address : String) : Throttle → List Call → List (Bool × Int) :=
  observed (next settings rt) (answer settings rt address)

/-- The counters of one source when there is no other one and no row is ever
removed: what throttling is meant to be for that source. -/
structure Source where
  ip : Option Counter
  users : String → Option Counter

def Source.empty : Source := ⟨none, fun _ => none⟩

def Source.next (settings : Settings) (src : Source) : OwnCall → Source
  | .consume user now =>
      ⟨(judge settings.ipPolicy now src.ip).row src.ip,
        Function.update src.users user ((judge settings.pairPolicy now (src.users user)).row (src.users user))⟩
  | .reset user => ⟨src.ip, Function.update src.users user none⟩

def Source.delay (settings : Settings) (src : Source) (user : String) (now : Int) : Int :=
  max (verdictDelay settings now (judge settings.ipPolicy now src.ip))
    (verdictDelay settings now (judge settings.pairPolicy now (src.users user)))

def Source.answer (settings : Settings) (src : Source) : OwnCall → Option (Bool × Int)
  | .consume user now => some (src.delay settings user now == 0, src.delay settings user now)
  | .reset _ => none

def Source.answers (settings : Settings) : Source → List OwnCall → List (Bool × Int)
  | _, [] => []
  | src, call :: calls => (src.answer settings call).toList ++ Source.answers settings (src.next settings call) calls

/-- No attempt from the address can tell the table from the source's own
counters. -/
structure Matches (settings : Settings) (rt : Runtime) (address : String) (t : Throttle) (src : Source) : Prop where
  sound : SoundRows settings t
  ip : Faded settings.ipPolicy t.clock (t.rows (ipKey address)) src.ip
  users : ∀ user, Faded settings.pairPolicy t.clock (t.rows (pairKey rt address user)) (src.users user)

theorem matches_empty (clock : Int) : Matches settings rt address (.empty clock) .empty where
  sound := soundRows_empty clock
  ip := .inl rfl
  users _ := .inl rfl

/-- An address without NUL ends at the first NUL of the hashed text. -/
theorem pairKey_inj (hsha : Function.Injective rt.sha256) {other user user' : String} (hnul : '\x00' ∉ address.toList)
    (hnul' : '\x00' ∉ other.toList) (h : pairKey rt address user = pairKey rt other user') :
    address = other ∧ user = user' := by
  have htext := congrArg String.toList (hsha (String.append_right_inj _ |>.mp h))
  have hsep : "\x00".toList = ['\x00'] := by decide
  simp only [String.toList_append, hsep, List.append_assoc, List.singleton_append] at htext
  have htake (s : String) (rest : List Char) (hs : '\x00' ∉ s.toList) :
      (s.toList ++ '\x00' :: rest).takeWhile (fun c => c != '\x00') = s.toList := by
    rw [List.takeWhile_append_of_pos, List.takeWhile_cons_of_neg, List.append_nil]
    · simp
    · intro c hc
      rw [bne_iff_ne]
      rintro rfl
      exact hs hc
  have haddress : address.toList = other.toList := by
    rw [← htake address user.toList hnul, htext, htake other user'.toList hnul']
  rw [haddress] at htext
  have huser := List.append_cancel_left htext
  exact ⟨String.toList_inj.mp haddress, String.toList_inj.mp (List.cons.inj huser).2⟩

/-- A call from another source cannot reach the row of a key it does not use,
except by removing it when it is stale. -/
theorem faded_step {call : Call} {key : String} {p : Policy} {ideal : Option Counter} (hp : policyOf settings key = p)
    (hsound : SoundRows settings t) (h : next settings rt t call = some t')
    (hfaded : Faded p t.clock (t.rows key) ideal) (hother : ∀ a, call = .consume a → key ∉ attemptKeys rt a)
    (hreset : ∀ username remoteAddress, call = .reset username remoteAddress →
      key ≠ pairKey rt (sourceAddress rt remoteAddress) (normalizedUser rt username)) :
    Faded p t'.clock (t'.rows key) ideal := by
  subst hp
  rcases row_of_next h key with
    ⟨hearly, hlate, hclock, hrow⟩ | ⟨hearly, hlate, hclock, hold, hrow⟩ | ⟨-, hown, -⟩ | ⟨hclock, -, hrow⟩
  · rw [hrow, hclock, countAttempt_row, if_neg (hother _ rfl)]
    exact hfaded.later (hearly.trans hlate)
  · rw [countAttempt_row, if_neg (hother _ rfl)] at hold
    rw [hrow, hclock]
    apply hfaded.evict (hearly.trans hlate)
    intro c hc
    exact (hsound key c hc).stale (hold c hc)
  · exact absurd hown (hreset _ _ rfl)
  · rw [hrow, hclock]
    exact hfaded

/-- An attempt on the key's own counter. -/
theorem faded_attempt {a : Attempt} {key : String} {p : Policy} {ideal : Option Counter}
    (hp : policyOf settings key = p) (hsound : SoundRows settings t) (h : next settings rt t (.consume a) = some t')
    (hfaded : Faded p t.clock (t.rows key) ideal) (hown : key ∈ attemptKeys rt a) :
    Faded p t'.clock (t'.rows key) ((judge p a.now ideal).row ideal) := by
  subst hp
  rcases row_of_next h key with ⟨hearly, hlate, hclock, hrow⟩ | ⟨hearly, hlate, hclock, hold, hrow⟩
  · rw [hrow, hclock, countAttempt_row, if_pos hown]
    exact (hfaded.later hearly).row_eq.later hlate
  · have hmid : ∀ c ∈ (countAttempt settings rt t.rows a).1 key, Sound (policyOf settings key) a.now c :=
      sound_countAttempt hsound hearly key
    have hjudged := (hfaded.later hearly).row_eq
    rw [countAttempt_row, if_pos hown] at hold hmid
    rw [hrow, hclock]
    apply hjudged.evict hlate
    intro c hc
    exact (hmid c hc).stale (hold c hc)

/-- Calls from another source leave the view of this one alone. -/
theorem Matches.other {call : Call} {src : Source} (hm : Matches settings rt address t src)
    (hsha : Function.Injective rt.sha256) (hnul : '\x00' ∉ address.toList)
    (hnul' : '\x00' ∉ (callAddress rt call).toList) (hne : callAddress rt call ≠ address)
    (h : next settings rt t call = some t') : Matches settings rt address t' src where
  sound := hm.sound.next h
  ip := by
    apply faded_step (policyOf_ip address) hm.sound h hm.ip
    · rintro a rfl hmem
      rcases List.mem_cons.mp hmem with heq | hmem
      · exact hne (ipKey_inj heq).symm
      · exact ipKey_ne_pairKey _ _ _ (List.mem_singleton.mp hmem)
    · intro username remoteAddress _
      exact ipKey_ne_pairKey _ _ _
  users user := by
    apply faded_step (policyOf_pair address user) hm.sound h (hm.users user)
    · rintro a rfl hmem
      rcases List.mem_cons.mp hmem with heq | hmem
      · exact ipKey_ne_pairKey _ _ _ heq.symm
      · exact hne (pairKey_inj hsha hnul hnul' (List.mem_singleton.mp hmem)).1.symm
    · rintro username remoteAddress rfl heq
      exact hne (pairKey_inj hsha hnul hnul' heq).1.symm

theorem Matches.attempt {a : Attempt} {src : Source} (hm : Matches settings rt address t src)
    (hsha : Function.Injective rt.sha256) (hnul : '\x00' ∉ address.toList)
    (hown : sourceAddress rt a.remoteAddress = address) (h : next settings rt t (.consume a) = some t') :
    Matches settings rt address t' (src.next settings (.consume (normalizedUser rt a.username) a.now)) where
  sound := hm.sound.next h
  ip := by
    apply faded_attempt (policyOf_ip address) hm.sound h hm.ip
    rw [← hown]
    exact ipKey_mem a
  users user := by
    rw [Source.next]
    dsimp only
    by_cases huser : user = normalizedUser rt a.username
    · subst huser
      rw [Function.update_self]
      apply faded_attempt (policyOf_pair ..) hm.sound h (hm.users _)
      rw [← hown]
      exact pairKey_mem a
    · rw [Function.update_of_ne huser]
      apply faded_step (policyOf_pair address user) hm.sound h (hm.users user)
      · intro b hb hmem
        cases hb
        rcases List.mem_cons.mp hmem with heq | hmem
        · exact ipKey_ne_pairKey _ _ _ heq.symm
        · have heq := List.mem_singleton.mp hmem
          rw [attemptPairKey, hown] at heq
          exact huser (pairKey_inj hsha hnul hnul heq).2
      · intro username remoteAddress hcall
        cases hcall

theorem Matches.reset {username : String} {remoteAddress : Option String} {src : Source}
    (hm : Matches settings rt address t src) (hsha : Function.Injective rt.sha256) (hnul : '\x00' ∉ address.toList)
    (hown : sourceAddress rt remoteAddress = address)
    (h : next settings rt t (.reset username remoteAddress) = some t') :
    Matches settings rt address t' (src.next settings (.reset (normalizedUser rt username))) where
  sound := hm.sound.next h
  ip := by
    apply faded_step (policyOf_ip address) hm.sound h hm.ip
    · intro a hcall
      nomatch hcall
    · intro _ _ _
      exact ipKey_ne_pairKey _ _ _
  users user := by
    rw [Source.next]
    dsimp only
    by_cases huser : user = normalizedUser rt username
    · subst huser
      rcases row_of_next h (pairKey rt address (normalizedUser rt username)) with _ | _ | ⟨-, -, hrow⟩ | ⟨-, hother, -⟩
      · rw [Function.update_self, hrow]
        exact .inl rfl
      · rw [hown] at hother
        exact absurd rfl hother
    · rw [Function.update_of_ne huser]
      apply faded_step (policyOf_pair address user) hm.sound h (hm.users user)
      · intro a hcall
        nomatch hcall
      · intro username' remoteAddress' hcall heq
        cases hcall
        rw [hown] at heq
        exact huser (pairKey_inj hsha hnul hnul heq).2

theorem Matches.answer_eq {a : Attempt} {src : Source} (hm : Matches settings rt address t src)
    (hown : sourceAddress rt a.remoteAddress = address) (hearly : t.clock ≤ a.now) :
    decision settings rt t.rows a =
      (src.delay settings (normalizedUser rt a.username) a.now == 0,
        src.delay settings (normalizedUser rt a.username) a.now) := by
  have hip : ipVerdict settings rt t.rows a = judge settings.ipPolicy a.now src.ip := by
    rw [ipVerdict, attemptIpKey, hown]
    exact (hm.ip.later hearly).judge_eq
  have hpair : pairVerdict settings rt t.rows a =
      judge settings.pairPolicy a.now (src.users (normalizedUser rt a.username)) := by
    rw [pairVerdict, attemptPairKey, hown]
    exact ((hm.users _).later hearly).judge_eq
  rw [decision, countAttempt_eq, hip, hpair]
  rfl

/-- What a source sees of any history of all sources is what its own counters
say about its own calls. -/
theorem answersTo_eq {calls : List Call} {src : Source} (hsha : Function.Injective rt.sha256)
    (hnul : '\x00' ∉ address.toList) (hnuls : ∀ call ∈ calls, '\x00' ∉ (callAddress rt call).toList)
    (hm : Matches settings rt address t src) (h : exec (next settings rt) t calls = some t') :
    answersTo settings rt address t calls = src.answers settings (calls.filterMap (ownCall rt address)) := by
  induction calls generalizing t src with
  | nil => rfl
  | cons call calls ih =>
      obtain ⟨u, hu, htail⟩ := Option.bind_eq_some_iff.mp h
      obtain ⟨hnul', hnuls'⟩ := List.forall_mem_cons.mp hnuls
      rw [answersTo, observed, hu, Option.elim_some, ← answersTo]
      by_cases hown : callAddress rt call = address
      · cases call with
        | consume a =>
            have hearly : t.clock ≤ a.now := (Option.ite_none_right_eq_some.mp hu).1.1
            rw [callAddress] at hown
            rw [answer, if_pos hown, ih hnuls' (hm.attempt hsha hnul hown hu) htail, List.filterMap_cons, ownCall,
              if_pos hown, hm.answer_eq hown hearly]
            rfl
        | reset username remoteAddress =>
            rw [callAddress] at hown
            rw [answer, ih hnuls' (hm.reset hsha hnul hown hu) htail, List.filterMap_cons, ownCall, if_pos hown]
            rfl
      · have hnone : answer settings rt address t call = none ∧ ownCall rt address call = none := by
          cases call with
          | consume a => exact ⟨if_neg hown, if_neg hown⟩
          | reset => exact ⟨rfl, if_neg hown⟩
        rw [hnone.1, List.filterMap_cons_none hnone.2, ih hnuls' (hm.other hsha hnul hnul' hown hu) htail]
        rfl

/-- Two histories with the same calls of one source, at the same times, decide
alike on all attempts of that source. -/
theorem throttle_isolated {clock clock' : Int} {calls calls' : List Call} (hsha : Function.Injective rt.sha256)
    (hnul : '\x00' ∉ address.toList) (hnuls : ∀ call ∈ calls ++ calls', '\x00' ∉ (callAddress rt call).toList)
    (h : exec (next settings rt) (.empty clock) calls = some t)
    (h' : exec (next settings rt) (.empty clock') calls' = some t')
    (hsame : calls.filterMap (ownCall rt address) = calls'.filterMap (ownCall rt address)) :
    answersTo settings rt address (.empty clock) calls = answersTo settings rt address (.empty clock') calls' := by
  obtain ⟨hleft, hright⟩ := List.forall_mem_append.mp hnuls
  rw [answersTo_eq hsha hnul hleft (matches_empty clock) h,
    answersTo_eq hsha hnul hright (matches_empty clock') h', hsame]

theorem throttle_isolated_of_stranger :
    answersTo defaultSettings plainRuntime "10.0.0.1" (.empty 0)
        [.consume ⟨"admin", some "10.0.0.1", 5, 6⟩, .consume ⟨"admin", some "10.0.0.2", 7, 8000000000⟩,
          .reset "admin" (some "10.0.0.2"), .consume ⟨"admin", some "10.0.0.1", 9000000000, 9000000001⟩] =
      answersTo defaultSettings plainRuntime "10.0.0.1" (.empty 3)
        [.consume ⟨"admin", some "10.0.0.1", 5, 5⟩, .consume ⟨"admin", some "10.0.0.1", 9000000000, 9000000000⟩] :=
  throttle_isolated (fun _ _ heq => heq) (by decide) (by decide) rfl rfl rfl

end BorgManager.ThrottleIsolation
