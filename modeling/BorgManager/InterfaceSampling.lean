import BorgManager.SecretStore
import BorgManager.SingleFlight
import Mathlib.Order.Basic

namespace BorgManager.InterfaceSampling

open Dictionaries Histories SingleFlight
open SecretStore (Text)

structure InterfaceCounter where
  interface : Text
  ipAddress : Text
  rxBytes : Int
  txBytes : Int

structure Row (ρ : Type) where
  interface : Text
  ipAddress : Text
  downloadBitsPerSecond : Option ρ
  uploadBitsPerSecond : Option ρ
  scope : Text

/-- The computations with instants of the monotonic clock: a rate from a number
of bytes and two instants, which fails with the `OverflowError` of a number that
has no float, and whether a sample of an instant is recent enough for a call
with a minimum interval. -/
structure Arithmetic (τ ρ μ ε : Type) where
  rate : Int → τ → τ → Except ε ρ
  fresh : τ → τ → μ → Bool

/-- What a probe brings back. -/
structure Probe (τ : Type) where
  counters : List InterfaceCounter
  scope : Text
  sampledAt : τ

/-- What is made of a probe: a sample with its rows, or an exception at a
counter, with the number of counters before it. The samples of a key are
recorded for the statements. -/
inductive Sample (τ ρ : Type)
  | complete (probe : Probe τ) (rows : List (Row ρ))
  | cutOff (probe : Probe τ) (read : Nat)

structure Old (τ : Type) where
  rx : Int
  tx : Int
  sampledAt : τ

/-- The tables `_previous` and `_last_sample`. -/
structure Shared (κ τ ρ : Type) where
  previous : Dict κ (Dict Text (Old τ))
  lastSample : Dict κ (τ × List (Row ρ))
  log : κ → List (Sample τ ρ)

variable {κ τ ρ μ ε : Type} [DecidableEq κ] [LinearOrder τ] (ar : Arithmetic τ ρ μ ε)

/-- The two rates of an interface against what was remembered of it. -/
def rates (item : InterfaceCounter) (old : Option (Old τ)) (sampledAt : τ) : Except ε (Option (ρ × ρ)) :=
  match old with
  | none => .ok none
  | some old =>
      if old.sampledAt < sampledAt ∧ old.rx ≤ item.rxBytes ∧ old.tx ≤ item.txBytes then do
        let download ← ar.rate (item.rxBytes - old.rx) old.sampledAt sampledAt
        let upload ← ar.rate (item.txBytes - old.tx) old.sampledAt sampledAt
        pure (some (download, upload))
      else .ok none

def rowOf (probe : Probe τ) (item : InterfaceCounter) (measured : Option (ρ × ρ)) : Row ρ :=
  ⟨item.interface, item.ipAddress, measured.map Prod.fst, measured.map Prod.snd, probe.scope⟩

/-- The loop over the counters: the table of the key and the rows behind it,
or, at the counter that raises, what there is of them and the exception. -/
def sampleAll (probe : Probe τ) (table : Dict Text (Old τ)) (rows : List (Row ρ)) :
    List InterfaceCounter → Dict Text (Old τ) × List (Row ρ) × Option ε
  | [] => (table, rows, none)
  | item :: rest =>
      match rates ar item (table.get? item.interface) probe.sampledAt with
      | .error e => (table, rows, some e)
      | .ok measured =>
          sampleAll probe (table.set item.interface ⟨item.rxBytes, item.txBytes, probe.sampledAt⟩)
            (rows ++ [rowOf probe item measured]) rest

/-- The locked parts of `sample_interfaces`. A table that a raise leaves behind
has the readings of the counters before it. -/
def sampling : Service (Shared κ τ ρ) κ (τ × μ) (Probe τ) ε (List (Row ρ)) where
  lookup s key asked :=
    match s.lastSample.get? key with
    | some (sampledAt, rows) => if ar.fresh asked.1 sampledAt asked.2 then some rows else none
    | none => none
  complete s key probe :=
    match sampleAll ar probe ((s.previous.get? key).getD .empty) [] probe.counters with
    | (table, rows, none) =>
        (⟨s.previous.set key
            (table.filter (fun name => (probe.counters.map InterfaceCounter.interface).contains name)),
          s.lastSample.set key (probe.sampledAt, rows),
          Function.update s.log key (.complete probe rows :: s.log key)⟩, .ok rows)
    | (table, rows, some e) =>
        (⟨s.previous.set key table, s.lastSample,
          Function.update s.log key (.cutOff probe rows.length :: s.log key)⟩, .error e)

def unsampled : Shared κ τ ρ := ⟨.empty, .empty, fun _ => []⟩

/-- The last of these readings of an interface. -/
def reading (sampledAt : τ) (counters : List InterfaceCounter) (name : Text) : Option (Old τ) :=
  (counters.reverse.find? (fun item => item.interface = name)).map (fun item => ⟨item.rxBytes, item.txBytes, sampledAt⟩)

/-- The reading of an interface that the probes so far leave: that of the last
one, or, where it was cut off before the interface, that of those before it. -/
def lastReading : List (Sample τ ρ) → Text → Option (Old τ)
  | [], _ => none
  | .complete probe _ :: _, name => reading probe.sampledAt probe.counters name
  | .cutOff probe read :: rest, name =>
      (reading probe.sampledAt (probe.counters.take read) name).or (lastReading rest name)

/-- A row is about a counter: its rates, where it has any, are those between
the counter and what was remembered of the interface. -/
def MeasuredRow (prior : Text → Option (Old τ)) (sampledAt : τ) (row : Row ρ) (item : InterfaceCounter) : Prop :=
  row.interface = item.interface ∧
    (row.downloadBitsPerSecond = none ∧ row.uploadBitsPerSecond = none ∨
      ∃ old download upload, prior item.interface = some old ∧
        old.sampledAt < sampledAt ∧ old.rx ≤ item.rxBytes ∧ old.tx ≤ item.txBytes ∧
        ar.rate (item.rxBytes - old.rx) old.sampledAt sampledAt = .ok download ∧
        ar.rate (item.txBytes - old.tx) old.sampledAt sampledAt = .ok upload ∧
        row.downloadBitsPerSecond = some download ∧ row.uploadBitsPerSecond = some upload)

/-- The rows are those of the counters of a probe, measured against what the
probes before it have left. -/
def Measured (earlier : List (Sample τ ρ)) (probe : Probe τ) (rows : List (Row ρ)) : Prop :=
  List.Forall₂ (MeasuredRow ar (lastReading earlier) probe.sampledAt) rows probe.counters

def Chained : List (Sample τ ρ) → Prop
  | [] => True
  | .complete probe rows :: rest => Measured ar rest probe rows ∧ Chained rest
  | .cutOff _ _ :: rest => Chained rest

/-- The tables hold the last reading of each interface and the last sample of
each key. -/
structure Recorded (s : Shared κ τ ρ) : Prop where
  chained : ∀ key, Chained ar (s.log key)
  previous : ∀ key name, ((s.previous.get? key).getD .empty).get? name = lastReading (s.log key) name
  lastSample : ∀ key sampledAt rows, s.lastSample.get? key = some (sampledAt, rows) →
    ∃ probe, .complete probe rows ∈ s.log key

variable {ar}

omit [LinearOrder τ] in
theorem reading_append (sampledAt : τ) (seen : List InterfaceCounter) (item : InterfaceCounter) (name : Text) :
    reading sampledAt (seen ++ [item]) name =
      if name = item.interface then some ⟨item.rxBytes, item.txBytes, sampledAt⟩ else reading sampledAt seen name := by
  rw [reading, reading, List.reverse_append, List.reverse_singleton, List.singleton_append, List.find?_cons]
  by_cases hname : name = item.interface
  · rw [if_pos hname, hname]
    simp
  · rw [if_neg hname]
    simp [Ne.symm hname]

omit [LinearOrder τ] in
theorem sampledAt_reading {sampledAt : τ} {counters : List InterfaceCounter} {name : Text} {old : Old τ}
    (h : reading sampledAt counters name = some old) : old.sampledAt = sampledAt := by
  obtain ⟨item, -, rfl⟩ := Option.map_eq_some_iff.mp h
  rfl

omit [LinearOrder τ] in
theorem reading_isSome (sampledAt : τ) (counters : List InterfaceCounter) (name : Text) :
    (reading sampledAt counters name).isSome = (counters.map InterfaceCounter.interface).contains name := by
  rw [Bool.eq_iff_iff, reading, Option.isSome_map, List.find?_isSome, List.contains_iff_mem, List.mem_map]
  simp

/-- What the loop keeps: the table has the readings of the counters so far
over those before, and the rows are measured against those before. -/
structure Looped (ar : Arithmetic τ ρ μ ε) (prior : Text → Option (Old τ)) (sampledAt : τ)
  (seen : List InterfaceCounter)
    (table : Dict Text (Old τ)) (rows : List (Row ρ)) : Prop where
  readings : ∀ name, table.get? name = (reading sampledAt seen name).or (prior name)
  rows : List.Forall₂ (MeasuredRow ar prior sampledAt) rows seen

theorem measured_rates {prior : Text → Option (Old τ)} {probe : Probe τ} {item : InterfaceCounter}
    {old : Option (Old τ)} {measured : Option (ρ × ρ)} (h : rates ar item old probe.sampledAt = .ok measured)
    (hold : ∀ o, old = some o → o.sampledAt < probe.sampledAt → prior item.interface = some o) :
    MeasuredRow ar prior probe.sampledAt (rowOf probe item measured) item := by
  refine ⟨rfl, ?_⟩
  cases old with
  | none =>
      cases h
      exact .inl ⟨rfl, rfl⟩
  | some o =>
      rw [rates] at h
      by_cases hcond : o.sampledAt < probe.sampledAt ∧ o.rx ≤ item.rxBytes ∧ o.tx ≤ item.txBytes
      · rw [if_pos hcond] at h
        cases hdownload : ar.rate (item.rxBytes - o.rx) o.sampledAt probe.sampledAt with
        | error e =>
            rw [hdownload] at h
            cases h
        | ok download =>
            cases hupload : ar.rate (item.txBytes - o.tx) o.sampledAt probe.sampledAt with
            | error e =>
                rw [hdownload, hupload] at h
                cases h
            | ok upload =>
                rw [hdownload, hupload] at h
                cases h
                exact .inr ⟨o, download, upload, hold o rfl hcond.1, hcond.1, hcond.2.1, hcond.2.2, hdownload,
                  hupload, rfl, rfl⟩
      · rw [if_neg hcond] at h
        cases h
        exact .inl ⟨rfl, rfl⟩

theorem looped_item {prior : Text → Option (Old τ)} {probe : Probe τ} {seen : List InterfaceCounter}
    {table : Dict Text (Old τ)} {rows : List (Row ρ)} {item : InterfaceCounter} {measured : Option (ρ × ρ)}
    (h : Looped ar prior probe.sampledAt seen table rows)
    (hrates : rates ar item (table.get? item.interface) probe.sampledAt = .ok measured) :
    Looped ar prior probe.sampledAt (seen ++ [item])
      (table.set item.interface ⟨item.rxBytes, item.txBytes, probe.sampledAt⟩)
      (rows ++ [rowOf probe item measured]) where
  readings := by
    intro name
    rw [Dict.get?_set, reading_append]
    split
    · rfl
    · exact h.readings name
  rows := by
    refine List.rel_append h.rows (.cons (measured_rates hrates ?_) .nil)
    intro old hold hbefore
    rw [h.readings] at hold
    cases hread : reading probe.sampledAt seen item.interface with
    | none =>
        rw [hread, Option.none_or] at hold
        exact hold
    | some again =>
        -- an interface that the probe lists twice has been read at this very instant
        rw [hread, Option.some_or] at hold
        cases hold
        rw [sampledAt_reading hread] at hbefore
        exact absurd hbefore (lt_irrefl _)

/-- The loop ends behind its last counter or is cut off at one. -/
theorem looped_all {prior : Text → Option (Old τ)} {probe : Probe τ} {rest seen : List InterfaceCounter}
    {table table' : Dict Text (Old τ)} {rows rows' : List (Row ρ)} {raised : Option ε}
    (h : Looped ar prior probe.sampledAt seen table rows)
    (hall : sampleAll ar probe table rows rest = (table', rows', raised)) :
    ∃ read, Looped ar prior probe.sampledAt (seen ++ rest.take read) table' rows' ∧
      (raised = none → rest.take read = rest) := by
  induction rest generalizing seen table rows with
  | nil =>
      cases hall
      exact ⟨0, by simpa using h, fun _ => rfl⟩
  | cons item rest ih =>
      rw [sampleAll] at hall
      cases hrates : rates ar item (table.get? item.interface) probe.sampledAt with
      | error e =>
          rw [hrates] at hall
          cases hall
          exact ⟨0, by simpa using h, by rintro ⟨⟩⟩
      | ok measured =>
          rw [hrates] at hall
          obtain ⟨read, hlooped, hend⟩ := ih (looped_item h hrates) hall
          refine ⟨read + 1, ?_, ?_⟩
          · rw [List.take_succ_cons, List.append_cons]
            exact hlooped
          · intro hnone
            rw [List.take_succ_cons, hend hnone]

/-- The loop over the counters of a probe: it reads as many of them as there
are rows, and all of them unless it raises. -/
theorem looped_probe {prior : Text → Option (Old τ)} {probe : Probe τ} {table table' : Dict Text (Old τ)}
    {rows : List (Row ρ)} {raised : Option ε} (h : ∀ name, table.get? name = prior name)
    (hall : sampleAll ar probe table [] probe.counters = (table', rows, raised)) :
    Looped ar prior probe.sampledAt (probe.counters.take rows.length) table' rows ∧
      (raised = none → probe.counters.take rows.length = probe.counters) := by
  have hstart : Looped ar prior probe.sampledAt [] table ([] : List (Row ρ)) := ⟨h, .nil⟩
  obtain ⟨read, hlooped, hend⟩ := looped_all hstart hall
  rw [List.nil_append] at hlooped
  have hlength : probe.counters.take rows.length = probe.counters.take read := by
    rw [List.take_eq_take_iff, hlooped.rows.length_eq, List.length_take]
    omega
  rw [hlength]
  exact ⟨hlooped, hend⟩

/-- What a completed probe does to the tables: it adds a sample that was
measured against those before, or one that was cut off. -/
inductive Completed (ar : Arithmetic τ ρ μ ε) (s : Shared κ τ ρ) (key : κ) (probe : Probe τ) :
    Shared κ τ ρ × Except ε (List (Row ρ)) → Prop
  | complete (table : Dict Text (Old τ)) (rows : List (Row ρ)) (hrows : Measured ar (s.log key) probe rows)
      (htable : ∀ name, table.get? name = lastReading (.complete probe rows :: s.log key) name) :
      Completed ar s key probe
        (⟨s.previous.set key table, s.lastSample.set key (probe.sampledAt, rows),
          Function.update s.log key (.complete probe rows :: s.log key)⟩, .ok rows)
  | cutOff (table : Dict Text (Old τ)) (read : Nat) (e : ε)
      (htable : ∀ name, table.get? name = lastReading (.cutOff probe read :: s.log key) name) :
      Completed ar s key probe
        (⟨s.previous.set key table, s.lastSample, Function.update s.log key (.cutOff probe read :: s.log key)⟩,
          .error e)

theorem completed_sampling {s : Shared κ τ ρ} (h : Recorded ar s) (key : κ) (probe : Probe τ) :
    Completed ar s key probe ((sampling ar).complete s key probe) := by
  dsimp only [sampling]
  generalize hall : sampleAll ar probe ((s.previous.get? key).getD .empty) [] probe.counters = result
  obtain ⟨table, rows, raised⟩ := result
  obtain ⟨hlooped, hend⟩ := looped_probe (h.previous key) hall
  cases raised with
  | none =>
      rw [hend rfl] at hlooped
      refine .complete _ rows hlooped.rows ?_
      intro name
      rw [Dict.get?_filter, lastReading, ← reading_isSome probe.sampledAt, hlooped.readings]
      cases reading probe.sampledAt probe.counters name with
      | none => rfl
      | some old => rfl
  | some e => exact .cutOff table rows.length e hlooped.readings

theorem measured_of_chained {later rest : List (Sample τ ρ)} {probe : Probe τ} {rows : List (Row ρ)}
    (h : Chained ar (later ++ .complete probe rows :: rest)) : Measured ar rest probe rows := by
  induction later with
  | nil => exact h.1
  | cons sample later ih =>
      cases sample with
      | complete probe rows => exact ih h.2
      | cutOff probe read => exact ih h

/-- The rows are those of a sample of the key that was measured against what
the probes of the key before it have left. -/
def Sampled (ar : Arithmetic τ ρ μ ε) (s : Shared κ τ ρ) (key : κ) (rows : List (Row ρ)) : Prop :=
  ∃ later probe rest, s.log key = later ++ .complete probe rows :: rest ∧ Measured ar rest probe rows

theorem sampled_of_mem {s : Shared κ τ ρ} (h : Recorded ar s) {key : κ} {probe : Probe τ} {rows : List (Row ρ)}
    (hmem : .complete probe rows ∈ s.log key) : Sampled ar s key rows := by
  obtain ⟨later, rest, hlog⟩ := List.append_of_mem hmem
  have hchained := h.chained key
  rw [hlog] at hchained
  exact ⟨later, probe, rest, hlog, measured_of_chained hchained⟩

theorem recorded_unsampled : Recorded ar (unsampled : Shared κ τ ρ) :=
  ⟨fun _ => trivial, fun _ _ => rfl, by rintro key sampledAt rows ⟨⟩⟩

section Completed

variable {s : Shared κ τ ρ} {key : κ} {probe : Probe τ} {done : Shared κ τ ρ × Except ε (List (Row ρ))}

theorem Completed.mem (h : Completed ar s key probe done) {k : κ} {sample : Sample τ ρ} (hmem : sample ∈ s.log k) :
    sample ∈ done.1.log k := by
  cases h with
  | complete table rows hrows htable =>
      dsimp only
      rw [Function.update_apply]
      split
      · next hk => exact List.mem_cons_of_mem _ (hk ▸ hmem)
      · exact hmem
  | cutOff table read e htable =>
      dsimp only
      rw [Function.update_apply]
      split
      · next hk => exact List.mem_cons_of_mem _ (hk ▸ hmem)
      · exact hmem

theorem Completed.recorded (h : Recorded ar s) (hdone : Completed ar s key probe done) : Recorded ar done.1 where
  chained := by
    intro k
    cases hdone with
    | complete table rows hrows htable =>
        dsimp only
        rw [Function.update_apply]
        split
        · exact ⟨hrows, h.chained key⟩
        · exact h.chained k
    | cutOff table read e htable =>
        dsimp only
        rw [Function.update_apply]
        split
        · exact h.chained key
        · exact h.chained k
  previous := by
    intro k name
    cases hdone with
    | complete table rows hrows htable =>
        dsimp only
        rw [Function.update_apply, Dict.get?_set]
        split
        · exact htable name
        · exact h.previous k name
    | cutOff table read e htable =>
        dsimp only
        rw [Function.update_apply, Dict.get?_set]
        split
        · exact htable name
        · exact h.previous k name
  lastSample := by
    intro k sampledAt stored hlast
    have hkept : ∀ sample ∈ s.log k, sample ∈ done.1.log k := fun _ hmem => hdone.mem hmem
    cases hdone with
    | complete table rows hrows htable =>
        dsimp only at hlast
        rw [Dict.get?_set] at hlast
        split at hlast
        · next hk =>
            cases hlast
            refine ⟨probe, ?_⟩
            dsimp only
            rw [hk, Function.update_self]
            exact List.mem_cons_self ..
        · obtain ⟨other, hother⟩ := h.lastSample k sampledAt stored hlast
          exact ⟨other, hkept _ hother⟩
    | cutOff table read e htable =>
        obtain ⟨other, hother⟩ := h.lastSample k sampledAt stored hlast
        exact ⟨other, hkept _ hother⟩

theorem Completed.sampled (h : Recorded ar s) (hdone : Completed ar s key probe done) {rows : List (Row ρ)}
    (hrows : done.2 = .ok rows) : Sampled ar done.1 key rows := by
  have hmem : .complete probe rows ∈ done.1.log key := by
    cases hdone with
    | complete table found hfound htable =>
        cases hrows
        simp
    | cutOff table read e htable => cases hrows
  exact sampled_of_mem (hdone.recorded h) hmem

end Completed

theorem sampled_guaranteed :
    Guaranteed (sampling ar : Service (Shared κ τ ρ) κ _ _ ε _) (Recorded ar) (Sampled ar) where
  complete := fun _ key probe h => (completed_sampling h key probe).recorded h
  result := fun _ key probe _ h hrows => (completed_sampling h key probe).sampled h hrows
  kept := by
    rintro s key k rows probe h ⟨later, other, rest, hlog, -⟩
    have hdone := completed_sampling h key probe
    have hmem : .complete other rows ∈ s.log k := by simp [hlog]
    exact sampled_of_mem (hdone.recorded h) (hdone.mem hmem)
  lookup := by
    intro s key asked rows h hlookup
    dsimp only [sampling] at hlookup
    split at hlookup
    · next sampledAt stored hlast =>
        split at hlookup
        · cases hlookup
          obtain ⟨probe, hmem⟩ := h.lastSample key sampledAt _ hlast
          exact sampled_of_mem h hmem
        · cases hlookup
    · cases hlookup

/-- Whatever a call returns, from the cache, of its own probe or of the one it
waited for: its rates are between a sample of its key and what the probes of
the key before it have left. -/
theorem rates_between_samples {events : List (Event κ (τ × μ) (Probe τ) ε)}
    {w : World (Shared κ τ ρ) κ ε (List (Row ρ))} (h : History (steps (sampling ar)) (start unsampled) events w)
    {n : Nat} {key : κ} {source : Source} {rows : List (Row ρ)}
    (hcall : w.calls n = some ⟨key, .returned source (.ok rows)⟩) : Sampled ar w.shared key rows :=
  (guaranteed_of_history sampled_guaranteed recorded_unsampled h).2 n key _ rows hcall rfl

/-- One call for a key probes at a time, the calls that wait for it return
what it has found or its error, and none of them waits in vain. -/
theorem probed_once {events : List (Event κ (τ × μ) (Probe τ) ε)} {w : World (Shared κ τ ρ) κ ε (List (Row ρ))}
    (h : History (steps (sampling ar)) (start unsampled) events w) :
    (∀ n m key p q, w.calls n = some ⟨key, p⟩ → p.leading = true → w.calls m = some ⟨key, q⟩ →
      q.leading = true → n = m) ∧
      (∀ n key leader outcome, w.calls n = some ⟨key, .returned (.joined leader) outcome⟩ →
        ∃ phase, w.calls leader = some ⟨key, phase⟩ ∧ phase.future = some outcome) ∧
      ∀ n key leader, w.calls n = some ⟨key, .waiting leader⟩ →
        (∃ v, next (sampling ar) w (.resume n : Event κ (τ × μ) (Probe τ) ε) = some v) ∨
          (∀ observation : Except ε (Probe τ), ∃ v, next (sampling ar) w (.observe leader observation) = some v) ∨
          ∃ v, next (sampling ar) w (.settle leader : Event κ (τ × μ) (Probe τ) ε) = some v := by
  have hconsistent := consistent_of_history h
  refine ⟨?_, hconsistent.joined, ?_⟩
  · intro n m key p q hn hp hm hq
    exact leader_unique hconsistent hn hp hm hq
  · intro n key leader hwait
    exact waiting_progress (sampling ar) hconsistent hwait

section Runs

/-- Rates as bytes with a number of ticks; from a thousand bytes on there is
none. -/
def ticks : Arithmetic Nat (Int × Nat) Nat String where
  rate bytes at₀ at₁ := if bytes < 1000 then .ok (bytes, at₁ - at₀) else .error "int too large to convert to float"
  fresh now at₀ least := now - at₀ < least

def probeOf (eth wlan : Int) (sampledAt : Nat) : Probe Nat :=
  ⟨[⟨"eth0".toList, [], eth, 20⟩, ⟨"wlan0".toList, [], wlan, 20⟩], "host".toList, sampledAt⟩

/-- Three probes of one key. The second one is cut off between its counters; of
the two calls at the end the first one leads and the other joins it. -/
def threeProbes : List (Event Nat (Nat × Nat) (Probe Nat) String) :=
  [.ask 0 7 (100, 1), .observe 0 (.ok (probeOf 10 10 101)), .settle 0, .release 0,
    .ask 1 7 (110, 1), .observe 1 (.ok (probeOf 50 5000 111)), .settle 1, .release 1,
    .ask 2 7 (120, 1), .ask 3 7 (120, 1), .observe 2 (.ok (probeOf 90 70 121)), .settle 2, .resume 3, .release 2]

/-- One row is against the probe that was cut off, the other against the first. -/
def joinedRows : List (Row (Int × Nat)) :=
  [⟨"eth0".toList, [], some (40, 10), some (0, 10), "host".toList⟩,
    ⟨"wlan0".toList, [], some (60, 20), some (0, 20), "host".toList⟩]

theorem exec_threeProbes :
    ∃ w, exec (next (sampling ticks)) (start unsampled) threeProbes = some w ∧
      w.calls 3 = some ⟨7, .returned (.joined 2) (.ok joinedRows)⟩ :=
  ⟨_, rfl, rfl⟩

theorem rates_between_samples_two :
    ∃ w, exec (next (sampling ticks)) (start unsampled) threeProbes = some w ∧ Sampled ticks w.shared 7 joinedRows := by
  obtain ⟨w, hw, hcall⟩ := exec_threeProbes
  exact ⟨w, hw, rates_between_samples (history_of_exec hw) hcall⟩

theorem probed_once_two :
    ∃ w, exec (next (sampling ticks)) (start unsampled) threeProbes = some w ∧
      ∃ phase, w.calls 2 = some ⟨7, phase⟩ ∧ phase.future = some (.ok joinedRows) := by
  obtain ⟨w, hw, hcall⟩ := exec_threeProbes
  exact ⟨w, hw, (probed_once (history_of_exec hw)).2.1 3 7 2 _ hcall⟩

end Runs

end BorgManager.InterfaceSampling
