import BorgManager.Meters
import BorgManager.NetworkStream

namespace BorgManager.NetworkTotals

open NetworkStream Meters

variable {τ φ : Type} (clock : Clock τ φ) (times : Nat → τ)

/-- The monitor after some frames; nothing stands for an `OverflowError`. -/
def monitorAfter (records : List Record) : Option (Monitor τ φ) := records.foldlM (Monitor.advance clock times) initial

/-- The readings of one counter on the route. -/
def readings (counter : Record → Nat) (records : List Record) : List (List Char × Nat) :=
  records.filterMap (fun r => if r.routeSelected then some (r.interface, counter r) else none)

/-- From one frame to the next the reported totals never get smaller. -/
def NeverShrinks (records : List Record) : Prop :=
  ∀ done b rest s next, records = done ++ b :: rest → monitorAfter clock times done = some s →
    monitorAfter clock times (done ++ [b]) = some next →
    s.snapshot.downloadBytes ≤ next.snapshot.downloadBytes ∧ s.snapshot.uploadBytes ≤ next.snapshot.uploadBytes

/-- While the frames of the route are of one interface with counters that do not
get smaller, the totals are the last counters less the first. -/
def SinceFirst (records : List Record) : Prop :=
  ∀ done rest s first last, records = done ++ rest → monitorAfter clock times done = some s →
    (done.filter (·.routeSelected)).head? = some first → (done.filter (·.routeSelected)).getLast? = some last →
    (∀ r ∈ done, r.routeSelected = true → r.interface = first.interface) →
    (done.filter (·.routeSelected)).Pairwise (fun a b => a.rx ≤ b.rx ∧ a.tx ≤ b.tx) →
    s.snapshot.downloadBytes = last.rx - first.rx ∧ s.snapshot.uploadBytes = last.tx - first.tx

/-- The two totals of a monitor as meters. -/
structure Metering (records : List Record) (s : Monitor τ φ) : Prop where
  download : (⟨s.baselineRoute.map (fun b => (b.1, b.2.1)), s.downloadBytes⟩ : Meter (List Char)) =
    after (readings (·.rx) records)
  upload : (⟨s.baselineRoute.map (fun b => (b.1, b.2.2)), s.uploadBytes⟩ : Meter (List Char)) =
    after (readings (·.tx) records)

variable {clock times}

theorem readings_concat (counter : Record → Nat) (records : List Record) (r : Record) :
    readings counter (records ++ [r]) =
      readings counter records ++ if r.routeSelected then [(r.interface, counter r)] else [] := by
  rw [readings, List.filterMap_append]
  cases h : r.routeSelected <;> simp [readings, h]

theorem route_meters (s : Monitor τ φ) (r : Record) :
    (⟨(s.route r).baselineRoute.map (fun b => (b.1, b.2.1)), (s.route r).downloadBytes⟩ : Meter (List Char)) =
        Meter.read ⟨s.baselineRoute.map (fun b => (b.1, b.2.1)), s.downloadBytes⟩ (r.interface, r.rx) ∧
      (⟨(s.route r).baselineRoute.map (fun b => (b.1, b.2.2)), (s.route r).uploadBytes⟩ : Meter (List Char)) =
        Meter.read ⟨s.baselineRoute.map (fun b => (b.1, b.2.2)), s.uploadBytes⟩ (r.interface, r.tx) := by
  rw [Monitor.route, Meter.read, Meter.read]
  cases hbase : s.baselineRoute with
  | none => exact ⟨rfl, rfl⟩
  | some base =>
      dsimp only [Option.map_some]
      by_cases hname : base.1 = r.interface
      · simp only [if_pos hname, Option.map_some, and_self]
      · simp only [if_neg hname, Option.map_some, and_self]

/-- What a frame does to the totals. -/
theorem advance_route {s next : Monitor τ φ} {r : Record} (h : s.advance clock times r = some next) :
    ∃ sampled : Monitor τ φ, sampled.baselineRoute = s.baselineRoute ∧ sampled.downloadBytes = s.downloadBytes ∧
      sampled.uploadBytes = s.uploadBytes ∧
      next.baselineRoute = (if r.routeSelected then sampled.route r else sampled).baselineRoute ∧
      next.downloadBytes = (if r.routeSelected then sampled.route r else sampled).downloadBytes ∧
      next.uploadBytes = (if r.routeSelected then sampled.route r else sampled).uploadBytes := by
  rw [Monitor.advance] at h
  dsimp only at h
  split at h
  · cases h
  · rw [← Option.some.inj h]
    exact ⟨{ s with
      seen := s.seen + 1
      previous := Function.update s.previous r.interface (some ⟨r.ipAddress, r.rx, r.tx, times s.seen⟩) },
      rfl, rfl, rfl, rfl, rfl, rfl⟩

theorem Metering.advance {records : List Record} {s next : Monitor τ φ} {r : Record} (h : Metering records s)
    (hnext : s.advance clock times r = some next) : Metering (records ++ [r]) next := by
  obtain ⟨sampled, hbase, hdown, hup, hbase', hdown', hup'⟩ := advance_route hnext
  have hroute := route_meters sampled r
  rw [hbase, hdown, hup, h.download, h.upload] at hroute
  constructor
  · rw [readings_concat, hbase', hdown']
    cases hselected : r.routeSelected with
    | false => simpa [hbase, hdown] using h.download
    | true => simpa [after_concat] using hroute.1
  · rw [readings_concat, hbase', hup']
    cases hselected : r.routeSelected with
    | false => simpa [hbase, hup] using h.upload
    | true => simpa [after_concat] using hroute.2

theorem metering {records : List Record} {s : Monitor τ φ} (h : monitorAfter clock times records = some s) :
    Metering records s := by
  induction records using List.reverseRecOn generalizing s with
  | nil =>
      cases h
      exact ⟨rfl, rfl⟩
  | append_singleton records r ih =>
      rw [monitorAfter, List.foldlM_append] at h
      obtain ⟨previous, hprevious, hnext⟩ := Option.bind_eq_some_iff.mp h
      rw [List.foldlM_cons] at hnext
      obtain ⟨next, hnext, heq⟩ := Option.bind_eq_some_iff.mp hnext
      cases heq
      exact (ih hprevious).advance hnext

theorem totals {records : List Record} {s : Monitor τ φ} (h : monitorAfter clock times records = some s) :
    s.snapshot.downloadBytes = (after (readings (·.rx) records)).total ∧
      s.snapshot.uploadBytes = (after (readings (·.tx) records)).total := by
  have hmetering := metering h
  rw [← hmetering.download, ← hmetering.upload]
  exact ⟨rfl, rfl⟩

theorem readings_prefix {counter : Record → Nat} {records : List Record} {xs rest : List (List Char × Nat)}
    {x : List Char × Nat} (h : readings counter records = xs ++ x :: rest) :
    ∃ done b more, records = done ++ b :: more ∧ b.routeSelected = true ∧ readings counter done = xs ∧
      (b.interface, counter b) = x := by
  obtain ⟨before, following, rfl, hxs, hfollowing⟩ := List.filterMap_eq_append_iff.mp h
  obtain ⟨skipped, b, more, rfl, hskipped, hb, -⟩ := List.filterMap_eq_cons_iff.mp hfollowing
  have hselected : b.routeSelected = true := by
    by_contra hnot
    rw [if_neg hnot] at hb
    cases hb
  rw [if_pos hselected] at hb
  refine ⟨before ++ skipped, b, more, by rw [List.append_assoc], hselected, ?_, Option.some.inj hb⟩
  rw [readings, List.filterMap_append, hxs, List.filterMap_eq_nil_iff.mpr hskipped, List.append_nil]

theorem readable_iff {records : List Record} :
    (∀ before c between, records = before ++ c :: between → ¬ TooLarge clock times before c) ↔
      ∃ s : Monitor τ φ, monitorAfter clock times records = some s := by
  rcases @foldlM_advance _ φ clock times records with ⟨⟨s, hs, -⟩, hsmall⟩ | ⟨hnone, done, b, rest, hrecords, hlarge⟩
  · exact iff_of_true hsmall ⟨s, hs⟩
  · refine iff_of_false (fun hsmall => hsmall done b rest hrecords hlarge) ?_
    rintro ⟨s, hs⟩
    rw [monitorAfter, hnone] at hs
    cases hs

theorem monitorAfter_prefix {done rest : List Record} {s : Monitor τ φ}
    (h : monitorAfter clock times (done ++ rest) = some s) :
    ∃ before : Monitor τ φ, monitorAfter clock times done = some before := by
  rw [monitorAfter, List.foldlM_append] at h
  obtain ⟨before, hbefore, -⟩ := Option.bind_eq_some_iff.mp h
  exact ⟨before, hbefore⟩

theorem readings_routed (counter : Record → Nat) (records : List Record) :
    readings counter records = (records.filter (·.routeSelected)).map (fun r => (r.interface, counter r)) := by
  rw [readings, ← List.filterMap_eq_filter, List.map_filterMap]
  congr 1
  funext r
  cases hselected : r.routeSelected <;> simp [Option.guard, hselected]

/-- Frames of one interface: each counter is what it is above its first value. -/
theorem total_since_first {counter : Record → Nat} {records : List Record} {first last : Record}
    (hfirst : (records.filter (·.routeSelected)).head? = some first)
    (hlast : (records.filter (·.routeSelected)).getLast? = some last)
    (hsource : ∀ r ∈ records, r.routeSelected = true → r.interface = first.interface)
    (hle : counter first ≤ counter last) :
    (after (readings counter records)).total = counter last - counter first := by
  obtain ⟨others, hothers⟩ := List.head?_eq_some_iff.mp hfirst
  rw [readings_routed, hothers, List.map_cons]
  refine @total_last _ _ (first.interface, counter first) _ ?_ (last.interface, counter last) ?_ hle
  · intro x hx
    obtain ⟨r, hr, rfl⟩ := List.mem_map.mp hx
    have hmem : r ∈ records.filter (·.routeSelected) := hothers ▸ List.mem_cons_of_mem _ hr
    exact hsource r (List.mem_of_mem_filter hmem) (List.mem_filter.mp hmem).2
  · rw [hothers] at hlast
    have hmapped := congrArg (Option.map (fun r => (r.interface, counter r))) hlast
    rwa [← List.getLast?_map] at hmapped

theorem since_first (records : List Record) : SinceFirst clock times records := by
  intro done rest s first last hdone hs hfirst hlast hsource hmonotone
  obtain ⟨hdown, hup⟩ := totals hs
  have hle : first.rx ≤ last.rx ∧ first.tx ≤ last.tx := by
    obtain ⟨others, hothers⟩ := List.head?_eq_some_iff.mp hfirst
    have hmem := List.mem_of_getLast? hlast
    rw [hothers] at hmonotone hmem
    rcases List.mem_cons.mp hmem with rfl | hmem
    · exact ⟨Nat.le_refl _, Nat.le_refl _⟩
    · exact (List.pairwise_cons.mp hmonotone).1 last hmem
  exact ⟨by
    rw [hdown, total_since_first hfirst hlast hsource hle.1], by rw [hup, total_since_first hfirst hlast hsource hle.2]⟩

/-- In every run the totals never get smaller, and are the traffic since the
first frame while that is defined, exactly if no frame of the route falls back:
none that is read is of another interface than the frames before it while these
had risen, and none is below an earlier one of its interface, though not below
the first. -/
theorem totals_grow_iff (clock : Clock τ φ) (times : Nat → τ) (records : List Record) :
    (NeverShrinks clock times records ∧ SinceFirst clock times records) ↔
      ∀ done b rest, records = done ++ b :: rest → b.routeSelected = true →
        (∀ before c between, done ++ [b] = before ++ c :: between → ¬ TooLarge clock times before c) →
        ¬ Falls (readings (·.rx) done) (b.interface, b.rx) ∧ ¬ Falls (readings (·.tx) done) (b.interface, b.tx) := by
  constructor
  · rintro ⟨hgrows, -⟩ done b rest rfl hselected hreadable
    obtain ⟨last, hlast⟩ := readable_iff.mp hreadable
    -- The readings of these frames are the first ones of the run, in which no total gets smaller.
    have hstep {counter : Record → Nat} {done' : List Record} {c : Record} {more : List Record}
        (hsplit : done ++ [b] = done' ++ c :: more) (hc : c.routeSelected = true) :
        ∃ s next : Monitor τ φ, monitorAfter clock times done' = some s ∧
          monitorAfter clock times (done' ++ [c]) = some next ∧
          readings counter (done' ++ [c]) = readings counter done' ++ [(c.interface, counter c)] ∧
          s.snapshot.downloadBytes ≤ next.snapshot.downloadBytes ∧
            s.snapshot.uploadBytes ≤ next.snapshot.uploadBytes := by
      rw [hsplit] at hlast
      obtain ⟨s, hs⟩ := monitorAfter_prefix hlast
      rw [List.append_cons] at hlast
      obtain ⟨next, hnext⟩ := monitorAfter_prefix hlast
      refine ⟨s, next, hs, hnext, by rw [readings_concat, if_pos hc], hgrows done' c (more ++ rest) s next ?_ hs hnext⟩
      rw [List.append_cons done b rest, hsplit, List.append_assoc, List.cons_append]
    have hfalls {counter : Record → Nat}
        (hle : ∀ (d : List Record) (c : Record) (more : List Record) (s next : Monitor τ φ),
          done ++ [b] = d ++ c :: more → c.routeSelected = true →
          monitorAfter clock times d = some s → monitorAfter clock times (d ++ [c]) = some next →
          (after (readings counter d)).total ≤ (after (readings counter (d ++ [c]))).total) :
        ¬ Falls (readings counter done) (b.interface, counter b) := by
      have hall := (grows_iff (readings counter (done ++ [b]))).mp (by
        intro xs x more hxs
        obtain ⟨d, c, others, hd, hc, rfl, rfl⟩ := readings_prefix hxs
        obtain ⟨s, next, hs, hnext, hreadings, -⟩ := @hstep counter _ _ _ hd hc
        rw [← hreadings]
        exact hle d c others s next hd hc hs hnext)
      exact hall _ _ [] (by rw [readings_concat, if_pos hselected])
    constructor
    · refine hfalls (fun d c more s next hd hc hs hnext => ?_)
      obtain ⟨s', next', hs', hnext', -, hle, -⟩ := @hstep (·.rx) _ _ _ hd hc
      rwa [(totals hs').1, (totals hnext').1] at hle
    · refine hfalls (fun d c more s next hd hc hs hnext => ?_)
      obtain ⟨s', next', hs', hnext', -, -, hle⟩ := @hstep (·.tx) _ _ _ hd hc
      rwa [(totals hs').2, (totals hnext').2] at hle
  · intro h
    refine ⟨fun done b rest s next hrecords hs hnext => ?_, since_first records⟩
    rw [(totals hs).1, (totals hs).2, (totals hnext).1, (totals hnext).2, readings_concat, readings_concat]
    cases hselected : b.routeSelected with
    | false => simp
    | true =>
        obtain ⟨hrx, htx⟩ := h done b rest hrecords hselected (readable_iff.mpr ⟨next, hnext⟩)
        exact ⟨Nat.le_of_not_lt (fun hlt => hrx (falls_of_lt hlt)), Nat.le_of_not_lt (fun hlt => htx (falls_of_lt hlt))⟩

/-- Counters that fit in a float are read. -/
theorem readable_small {records : List Record} (h : ∀ r ∈ records, r.rx < floatLimit ∧ r.tx < floatLimit) :
    ∃ s : Monitor τ φ, monitorAfter clock times records = some s := by
  rw [← readable_iff]
  rintro before c between rfl ⟨-, a, -, -, -, -, -, -, -, -, hlarge⟩
  have hc := h c (by simp)
  rcases hlarge with hlarge | hlarge
  · exact absurd (Nat.lt_of_le_of_lt (Nat.le_trans hlarge (Nat.sub_le _ _)) hc.1) (Nat.lt_irrefl _)
  · exact absurd (Nat.lt_of_le_of_lt (Nat.le_trans hlarge (Nat.sub_le _ _)) hc.2) (Nat.lt_irrefl _)

def frame (rx : Nat) : Record := ⟨['e', 't', 'h', '0'], ['1', '0', '.', '0', '.', '0', '.', '2'], rx, 0, true⟩

/-- The kernel starts a counter again, and it soon passes its first value. -/
theorem counter_restarts :
    ¬ NeverShrinks (⟨fun a b => decide (a < b), fun n a b => (n, b - a)⟩ : Clock Nat (Nat × Nat)) id
      [frame 100, frame 1000, frame 150] := by
  intro h
  have hsmall {rx : Nat} (hrx : rx ≤ 1000) : (frame rx).rx < floatLimit ∧ (frame rx).tx < floatLimit :=
    ⟨Nat.lt_of_le_of_lt hrx (by decide +kernel), show 0 < floatLimit by decide +kernel⟩
  obtain ⟨s, hs⟩ : ∃ s, monitorAfter _ id [frame 100, frame 1000] = some s := readable_small (by simp [hsmall])
  obtain ⟨next, hnext⟩ : ∃ s, monitorAfter _ id [frame 100, frame 1000, frame 150] = some s :=
    readable_small (by simp [hsmall])
  have hle := (h [frame 100, frame 1000] (frame 150) [] s next rfl hs hnext).1
  rw [(totals hs).1, (totals hnext).1] at hle
  exact absurd hle (by decide)

end BorgManager.NetworkTotals
