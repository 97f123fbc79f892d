import BorgManager.ItemActivity
import BorgManager.MarkedFrames

namespace BorgManager.NetworkStream

open Patterns ByteLines BytePatterns MarkedFrames

/-- `_NETWORK_PREFIX` begins with a record separator. -/
def separator : UInt8 := 0x1e

def label : List UInt8 := bytesOf "BBMNET\t".toList

def networkPrefix : List UInt8 := separator :: label

/-- `[^\t\r\n]` -/
def inField : Pattern := .char (fun c => c != '\t' && c != '\r' && c != '\n')

/-- `_NETWORK_RECORD_RE` between `^` and `$`. The groups are `interface`, `ip`,
`rx`, `tx` and `route`. -/
def recordPattern : Pattern :=
  sequence [exactly (String.ofList (latin networkPrefix)), .group 1 (plus true inField), exactly "\t",
    .group 2 (plus true inField), exactly "\t", .group 3 (plus true digit), exactly "\t", .group 4 (plus true digit),
    optional (.seq (exactly "\t") (.group 5 (among "01")))]

structure Record where
  interface : List Char
  ipAddress : List Char
  rx : Nat
  tx : Nat
  routeSelected : Bool
  deriving DecidableEq

/-- A group as text, decoded and without blanks around it. -/
def text (m : Cursor) (index : Nat) : List Char :=
  PythonText.stripWhile PythonText.isSpace (Utf8Decoding.decode (bytesOf (field m index)))

/-- What `_parse` reads of a record. -/
def readRecord (record : List UInt8) : Option Record := do
  let m ← matchWhole recordPattern (latin record)
  let rx ← wholeNumber (field m 3)
  let tx ← wholeNumber (field m 4)
  return ⟨text m 1, text m 2, rx, tx, field m 5 == [] || field m 5 == ['1']⟩

/-- The integers from this one on are too large for a float. -/
def floatLimit : Nat := Nat.pow 2 1024 - Nat.pow 2 970

/-- The clock of the host: `later a b` is `b - a > 0`, and `rate n a b` is
`(n * 8.0) / (b - a)`. -/
structure Clock (τ φ : Type) where
  later : τ → τ → Bool
  rate : Nat → τ → τ → φ

/-- `NetworkInterfaceActivity` -/
structure InterfaceActivity (φ : Type) where
  interface : List Char
  ipAddress : List Char
  download : Option φ
  upload : Option φ
  routeSelected : Bool
  deriving DecidableEq

/-- `NetworkActivity` -/
structure NetworkActivity (φ : Type) where
  interfaces : List (InterfaceActivity φ)
  downloadBytes : Nat
  uploadBytes : Nat
  routeInterface : List Char
  routeIpAddress : List Char
  deriving DecidableEq

/-- What is known of the last record of an interface. -/
structure Sample (τ : Type) where
  ipAddress : List Char
  rx : Nat
  tx : Nat
  time : τ

/-- The fields of `BorgNetworkStreamFilter` but its carry, and the number of
records read, which the clock is asked for. -/
structure Monitor (τ φ : Type) where
  seen : Nat
  previous : List Char → Option (Sample τ)
  baselineRoute : Option (List Char × Nat × Nat)
  latestInterfaces : List (InterfaceActivity φ)
  routeInterface : List Char
  routeIpAddress : List Char
  downloadBytes : Nat
  uploadBytes : Nat

section Monitor

variable {τ φ : Type}

/-- The order of `(not item.route_selected, item.interface)`. -/
def notAfter (a b : InterfaceActivity φ) : Bool :=
  if a.routeSelected = b.routeSelected then !decide (b.interface < a.interface) else a.routeSelected

def shown (items : List (InterfaceActivity φ)) : List (InterfaceActivity φ) := (items.mergeSort notAfter).take 3

/-- `_snapshot` -/
def Monitor.snapshot (s : Monitor τ φ) : NetworkActivity φ :=
  ⟨shown s.latestInterfaces, s.downloadBytes, s.uploadBytes, s.routeInterface, s.routeIpAddress⟩

/-- Storing into a dictionary keeps the place of a name that is in it. -/
def store (items : List (InterfaceActivity φ)) (item : InterfaceActivity φ) : List (InterfaceActivity φ) :=
  if items.any (fun other => other.interface == item.interface) then
    items.map (fun other => if other.interface = item.interface then item else other)
  else items ++ [item]

/-- The cumulative traffic of the route to the repository. -/
def Monitor.route (s : Monitor τ φ) (r : Record) : Monitor τ φ :=
  let counted :=
    match s.baselineRoute with
    | some (name, rx, tx) =>
        if name = r.interface then
          { s with
            downloadBytes := if rx ≤ r.rx then r.rx - rx else s.downloadBytes
            uploadBytes := if tx ≤ r.tx then r.tx - tx else s.uploadBytes }
        else { s with baselineRoute := some (r.interface, r.rx, r.tx), downloadBytes := 0, uploadBytes := 0 }
    | none => { s with baselineRoute := some (r.interface, r.rx, r.tx), downloadBytes := 0, uploadBytes := 0 }
  { counted with routeInterface := r.interface, routeIpAddress := r.ipAddress }

/-- A rate is computed from two records of one interface and one address. -/
def comparable (clock : Clock τ φ) (a : Sample τ) (r : Record) (now : τ) : Bool :=
  r.ipAddress == a.ipAddress && clock.later a.time now && decide (a.rx ≤ r.rx) && decide (a.tx ≤ r.tx)

/-- The rates of a record; nothing stands for an `OverflowError`. -/
def rates (clock : Clock τ φ) (previous : Option (Sample τ)) (r : Record) (now : τ) : Option (Option φ × Option φ) :=
  match previous with
  | none => some (none, none)
  | some a =>
      if comparable clock a r now then
        if floatLimit ≤ r.rx - a.rx ∨ floatLimit ≤ r.tx - a.tx then none
        else some (some (clock.rate (r.rx - a.rx) a.time now), some (clock.rate (r.tx - a.tx) a.time now))
      else some (none, none)

/-- `_parse` from the clock on; nothing stands for an `OverflowError`. -/
def Monitor.advance (clock : Clock τ φ) (times : Nat → τ) (s : Monitor τ φ) (r : Record) : Option (Monitor τ φ) :=
  let now := times s.seen
  match rates clock (s.previous r.interface) r now with
  | none => none
  | some (download, upload) =>
      let sampled :=
        { s with
          seen := s.seen + 1
          previous := Function.update s.previous r.interface (some ⟨r.ipAddress, r.rx, r.tx, now⟩) }
      let routed := if r.routeSelected then sampled.route r else sampled
      some { routed with
        latestInterfaces :=
          shown (store routed.latestInterfaces ⟨r.interface, r.ipAddress, download, upload, r.routeSelected⟩) }

end Monitor

/-- `BorgNetworkStreamFilter` -/
structure Filter (τ φ : Type) where
  carry : List UInt8
  monitor : Monitor τ φ

structure Fed (τ φ : Type) where
  output : List UInt8
  latest : Option (NetworkActivity φ)
  carry : List UInt8
  monitor : Monitor τ φ

section Filter

variable {τ φ : Type} (clock : Clock τ φ) (times : Nat → τ)

/-- The loop of `feed`. -/
def feedFrom : Nat → Monitor τ φ → List UInt8 → Option (Fed τ φ)
  | 0, s, payload => some ⟨[], none, payload, s⟩
  | n + 1, s, payload =>
      match find networkPrefix payload with
      | none => some ⟨(hold separator label payload).1, none, (hold separator label payload).2, s⟩
      | some (before, found) =>
          match cut lineFeed found with
          | none => some ⟨before, none, found, s⟩
          | some (record, newline, rest) =>
              match readRecord record with
              | none =>
                  (feedFrom n s rest).map
                    (fun more => { more with output := before ++ (record ++ newline :: more.output) })
              | some r =>
                  match s.advance clock times r with
                  | none => none
                  | some next =>
                      (feedFrom n next rest).map (fun more =>
                        { more with output := before ++ more.output, latest := more.latest.or (some next.snapshot) })

/-- `feed`; nothing stands for an `OverflowError`. -/
def Filter.feed (f : Filter τ φ) (data : List UInt8) : Option (List UInt8 × Option (NetworkActivity φ) × Filter τ φ) :=
  if data = [] ∨ (f.carry = [] ∧ ¬ data.any (· == separator)) then some (data, none, f)
  else
    (feedFrom clock times ((f.carry ++ data).length + 1) f.monitor (f.carry ++ data)).map (fun fed =>
      (fed.output, fed.latest, ⟨fed.carry, fed.monitor⟩))

def Monitor.known (s : Monitor τ φ) : Option (NetworkActivity φ) :=
  if s.latestInterfaces = [] then none else some s.snapshot

/-- `record.rstrip(b"\r\n")` -/
def stripEnds (record : List UInt8) : List UInt8 := record.rdropWhile (fun b => b == 10 || b == 13)

/-- `finalize` -/
def Filter.finalize (f : Filter τ φ) : Option (List UInt8 × Option (NetworkActivity φ) × Filter τ φ) :=
  if f.carry = [] then some ([], f.monitor.known, f)
  else
    match readRecord (stripEnds f.carry) with
    | none => some (f.carry, f.monitor.known, ⟨[], f.monitor⟩)
    | some r => (f.monitor.advance clock times r).map (fun next => ([], some next.snapshot, ⟨[], next⟩))

def Filter.feedAll (f : Filter τ φ) : List (List UInt8) → Option (List UInt8 × Filter τ φ)
  | [] => some ([], f)
  | chunk :: chunks =>
      match f.feed clock times chunk with
      | none => none
      | some (output, _, next) => (next.feedAll chunks).map (fun more => (output ++ more.1, more.2))

def initial : Monitor τ φ := ⟨0, fun _ => none, none, [], [], [], 0, 0⟩

/-- The output for a whole stream, and the activity at its end. -/
def filtered (chunks : List (List UInt8)) : Option (List UInt8 × Option (NetworkActivity φ)) :=
  match (Filter.mk [] initial).feedAll clock times chunks with
  | none => none
  | some (output, f) => (f.finalize clock times).map (fun last => (output ++ last.1, last.2.1))

end Filter

/-- The meaning of a stream as a whole, from left to right: each frame from a
marker to its newline is left out if it is a record, and so is a last one
without a newline. -/
def scan : Nat → List UInt8 → List UInt8 × List Record
  | 0, stream => (stream, [])
  | n + 1, stream =>
      match find networkPrefix stream with
      | none => (stream, [])
      | some (before, found) =>
          match cut lineFeed found with
          | none =>
              match readRecord (stripEnds found) with
              | none => (stream, [])
              | some r => (before, [r])
          | some (record, newline, rest) =>
              match readRecord record with
              | none => (before ++ (record ++ newline :: (scan n rest).1), (scan n rest).2)
              | some r => (before ++ (scan n rest).1, r :: (scan n rest).2)

def ordinaryOutput (stream : List UInt8) : List UInt8 := (scan (stream.length + 1) stream).1

def recordsOf (stream : List UInt8) : List Record := (scan (stream.length + 1) stream).2

section Proofs

theorem separator_notMem : separator ∉ label := by decide

theorem prefix_ne : networkPrefix ≠ [] := List.cons_ne_nil _ _

/-- The start of a marker is not a record. -/
theorem readRecord_start {part : List UInt8} (h : part <+: networkPrefix) : readRecord (stripEnds part) = none := by
  have hall : ∀ part ∈ networkPrefix.inits, readRecord (stripEnds part) = none := by decide
  exact hall part ((List.mem_inits _ _).mpr h)

/-- A stream after its last chunk. -/
def closed (d : Drained UInt8 Record) : List UInt8 × List Record :=
  match readRecord (stripEnds d.rest) with
  | none => (d.output ++ d.rest, d.records)
  | some r => (d.output, d.records ++ [r])

theorem scan_eq {n : Nat} {stream : List UInt8} (hn : stream.length < n) :
    scan n stream = closed (drain separator label lineFeed readRecord n stream) := by
  induction n generalizing stream with
  | zero => exact absurd hn (Nat.not_lt_zero _)
  | succ n ih =>
      rw [scan, drain]
      cases hfind : find networkPrefix stream with
      | none =>
          obtain ⟨htext, hleads, -⟩ := hold_spec separator_notMem stream
          have hnone := readRecord_start hleads
          rw [networkPrefix] at hfind
          simp only [hfind, closed, hnone, htext]
      | some place =>
          obtain ⟨before, found⟩ := place
          have hlength := find_length prefix_ne hfind
          obtain ⟨hstream, -⟩ := find_eq_some prefix_ne hfind
          rw [networkPrefix] at hfind
          simp only [hfind]
          cases hcut : cut lineFeed found with
          | none =>
              simp only [closed]
              cases readRecord (stripEnds found) <;> simp [hstream]
          | some frame =>
              obtain ⟨record, newline, rest⟩ := frame
              have hrest := cut_length hcut
              have hmore := ih (show rest.length < n by omega)
              simp only [hmore]
              cases readRecord record with
              | none => simp only [closed]; split <;> simp
              | some r => simp only [closed]; split <;> simp

variable {τ φ : Type} {clock : Clock τ φ} {times : Nat → τ}

/-- The loop takes the records out and hands each of them to the monitor. -/
theorem feedFrom_eq (n : Nat) (s : Monitor τ φ) (payload : List UInt8) :
    (feedFrom clock times n s payload).map (fun fed => (fed.output, fed.carry, fed.monitor)) =
      ((drain separator label lineFeed readRecord n payload).records.foldlM (Monitor.advance clock times) s).map
      (fun next =>
        ((drain separator label lineFeed readRecord n payload).output,
          (drain separator label lineFeed readRecord n payload).rest, next)) := by
  induction n generalizing s payload with
  | zero => rfl
  | succ n ih =>
      rw [feedFrom, drain, networkPrefix]
      cases hfind : find (separator :: label) payload with
      | none => rfl
      | some place =>
          obtain ⟨before, found⟩ := place
          simp only
          cases hcut : cut lineFeed found with
          | none => rfl
          | some frame =>
              obtain ⟨record, newline, rest⟩ := frame
              simp only
              cases readRecord record with
              | none =>
                  have hrest := congrArg
                    (Option.map (fun fed => (before ++ (record ++ newline :: fed.1), fed.2))) (ih s rest)
                  rw [Option.map_map, Option.map_map] at hrest
                  simp only [Option.map_map]
                  exact hrest
              | some r =>
                  simp only [List.foldlM_cons]
                  cases s.advance clock times r with
                  | none => rfl
                  | some next =>
                      have hrest := congrArg (Option.map (fun fed => (before ++ fed.1, fed.2))) (ih next rest)
                      rw [Option.map_map, Option.map_map] at hrest
                      simp only [Option.map_map]
                      exact hrest

/-- What a filter may hold back: nothing comes out of it yet. -/
def Waiting (carry : List UInt8) : Prop := drained separator label lineFeed readRecord carry = ⟨[], [], carry⟩

theorem waiting_nil : Waiting [] := by
  have hfind : find (separator :: label) [] = none := rfl
  rw [Waiting, drained_plain hfind]
  rfl

theorem waiting_rest (stream : List UInt8) : Waiting (drained separator label lineFeed readRecord stream).rest := by
  have happend := @drained_append _ _ _ _ _ lineFeed readRecord separator_notMem stream []
  rw [List.append_nil, List.append_nil, Drained.after] at happend
  have houtput := congrArg Drained.output happend
  have hrecords := congrArg Drained.records happend
  have hrest := congrArg Drained.rest happend
  dsimp only at houtput hrecords hrest
  rw [Waiting]
  generalize drained separator label lineFeed readRecord stream = d at houtput hrecords hrest ⊢
  generalize drained separator label lineFeed readRecord d.rest = e at houtput hrecords hrest ⊢
  have ho := List.self_eq_append_right.mp houtput
  have hr := List.self_eq_append_right.mp hrecords
  cases e
  dsimp only at ho hr hrest
  rw [ho, hr, hrest]

theorem drained_ordinary {data : List UInt8} (h : ¬ data.any (· == separator) = true) :
    drained separator label lineFeed readRecord data = ⟨data, [], []⟩ := by
  have hfind : find (separator :: label) data = none := by
    rw [find_eq_none (List.cons_ne_nil _ _)]
    intro hinfix
    exact h (List.any_eq_true.mpr ⟨separator, hinfix.subset (List.mem_cons_self ..), beq_self_eq_true _⟩)
  have hhold : hold separator label data = (data, []) := by
    rw [hold]
    simp only [Bool.not_eq_true] at h
    simp [h]
  rw [drained_plain hfind, hhold]

/-- What a filter does with a chunk. -/
theorem feed_eq {f : Filter τ φ} (hcarry : Waiting f.carry) (data : List UInt8) :
    (f.feed clock times data).map (fun fed => (fed.1, fed.2.2)) =
      ((drained separator label lineFeed readRecord (f.carry ++ data)).records.foldlM (Monitor.advance clock times)
        f.monitor).map (fun next =>
          ((drained separator label lineFeed readRecord (f.carry ++ data)).output,
            ⟨(drained separator label lineFeed readRecord (f.carry ++ data)).rest, next⟩)) := by
  rw [Filter.feed]
  split
  · next h =>
      rcases h with hdata | ⟨hnil, hany⟩
      · rw [hdata, List.append_nil, hcarry]
        rfl
      · rw [hnil, List.nil_append, drained_ordinary hany]
        obtain ⟨carry, monitor⟩ := f
        dsimp only at hnil
        rw [hnil]
        rfl
  · have h := congrArg (Option.map (fun fed => (fed.1, (⟨fed.2.1, fed.2.2⟩ : Filter τ φ))))
      (@feedFrom_eq _ _ clock times ((f.carry ++ data).length + 1) f.monitor (f.carry ++ data))
    rw [Option.map_map, Option.map_map] at h
    rw [Option.map_map]
    exact h

/-- However a stream is cut, its frames are read in their order. -/
theorem feedAll_eq {f : Filter τ φ} (hcarry : Waiting f.carry) (chunks : List (List UInt8)) :
    f.feedAll clock times chunks =
      ((drained separator label lineFeed readRecord (f.carry ++ chunks.flatten)).records.foldlM
        (Monitor.advance clock times)
        f.monitor).map (fun next =>
          ((drained separator label lineFeed readRecord (f.carry ++ chunks.flatten)).output,
            ⟨(drained separator label lineFeed readRecord (f.carry ++ chunks.flatten)).rest, next⟩)) := by
  induction chunks generalizing f with
  | nil =>
      rw [Filter.feedAll, List.flatten_nil, List.append_nil, hcarry]
      rfl
  | cons chunk chunks ih =>
      have hfeed := @feed_eq _ _ clock times f hcarry chunk
      rw [List.flatten_cons, ← List.append_assoc, drained_append separator_notMem]
      generalize hd : drained separator label lineFeed readRecord (f.carry ++ chunk) = d at hfeed ⊢
      have hwaiting : Waiting d.rest := hd ▸ waiting_rest (f.carry ++ chunk)
      simp only [Drained.after, List.foldlM_append]
      rw [Filter.feedAll]
      cases hnext : d.records.foldlM (Monitor.advance clock times) f.monitor with
      | none =>
          rw [hnext, Option.map_none, Option.map_eq_none_iff] at hfeed
          rw [hfeed]
          rfl
      | some next =>
          rw [hnext, Option.map_some] at hfeed
          obtain ⟨⟨output, latest, g⟩, hfed, heq⟩ := Option.map_eq_some_iff.mp hfeed
          rw [hfed]
          cases heq
          have hmore := ih (f := ⟨d.rest, next⟩) hwaiting
          dsimp only at hmore ⊢
          rw [hmore, Option.map_map]
          rfl

theorem shown_store_ne (items : List (InterfaceActivity φ)) (item : InterfaceActivity φ) :
    shown (store items item) ≠ [] := by
  have hpos : 0 < (store items item).length := by
    rw [store]
    split
    · next hany =>
        obtain ⟨other, hother, -⟩ := List.any_eq_true.mp hany
        rw [List.length_map]
        exact List.length_pos_of_mem hother
    · rw [List.length_append]
      exact Nat.succ_pos _
  intro hnil
  have hlength := congrArg List.length hnil
  rw [shown, List.length_take, List.length_mergeSort, List.length_nil] at hlength
  omega

theorem known_advance {s next : Monitor τ φ} {r : Record} (h : s.advance clock times r = some next) :
    next.known = some next.snapshot := by
  have hne : next.latestInterfaces ≠ [] := by
    rw [Monitor.advance] at h
    dsimp only at h
    split at h
    · cases h
    · rw [← Option.some.inj h]
      exact shown_store_ne _ _
  rw [Monitor.known, if_neg hne]

/-- The activity that a sequence of records leads to; nothing stands for an
`OverflowError`. -/
def activityOf (clock : Clock τ φ) (times : Nat → τ) (records : List Record) : Option (Option (NetworkActivity φ)) :=
  (records.foldlM (Monitor.advance clock times) initial).map Monitor.known

/-- The output and the activity are those of the stream as a whole. -/
theorem filtered_eq (chunks : List (List UInt8)) :
    filtered clock times chunks =
      (activityOf clock times (recordsOf chunks.flatten)).map
      (fun activity => (ordinaryOutput chunks.flatten, activity)) := by
  rw [filtered, feedAll_eq waiting_nil, List.nil_append, activityOf, recordsOf, ordinaryOutput,
    scan_eq (Nat.lt_succ_self _)]
  have hrest := waiting_rest chunks.flatten
  rw [drained] at hrest ⊢
  generalize drain separator label lineFeed readRecord (chunks.flatten.length + 1) chunks.flatten = d at hrest ⊢
  rw [closed]
  cases hnext : d.records.foldlM (Monitor.advance clock times) initial with
  | none =>
      cases readRecord (stripEnds d.rest) with
      | none => simp [hnext]
      | some r => simp [hnext, List.foldlM_append]
  | some next =>
      simp only [Option.map_some, Filter.finalize]
      cases hread : readRecord (stripEnds d.rest) with
      | none =>
          by_cases hnil : d.rest = [] <;> simp [hnil, hnext]
      | some r =>
          have hnil : d.rest ≠ [] := by
            intro hnil
            rw [hnil, readRecord_start List.nil_prefix] at hread
            cases hread
          simp only [if_neg hnil, List.foldlM_append, hnext, List.foldlM_cons, List.foldlM_nil]
          cases hlast : next.advance clock times r with
          | none => simp [hlast]
          | some last => simp [hlast, known_advance hlast]

/-- A record whose difference to the last one of its interface is too large. -/
def TooLarge (clock : Clock τ φ) (times : Nat → τ) (done : List Record) (b : Record) : Prop :=
  ∃ before a between, done = before ++ a :: between ∧ a.interface = b.interface ∧
    (∀ r ∈ between, r.interface ≠ b.interface) ∧
    b.ipAddress = a.ipAddress ∧ clock.later (times before.length) (times done.length) = true ∧ a.rx ≤ b.rx ∧
      a.tx ≤ b.tx ∧
    (floatLimit ≤ b.rx - a.rx ∨ floatLimit ≤ b.tx - a.tx)

/-- What a monitor knows after some records. -/
structure Knows (times : Nat → τ) (done : List Record) (s : Monitor τ φ) : Prop where
  seen : s.seen = done.length
  previous : ∀ name sample, s.previous name = some sample ↔
    ∃ before a between, done = before ++ a :: between ∧ a.interface = name ∧ (∀ r ∈ between, r.interface ≠ name) ∧
      sample = ⟨a.ipAddress, a.rx, a.tx, times before.length⟩

theorem knows_initial : Knows times [] (initial : Monitor τ φ) := by
  refine ⟨rfl, fun name sample => ⟨by rintro ⟨⟩, ?_⟩⟩
  rintro ⟨before, a, between, hnil, -⟩
  exact absurd hnil.symm (by simp)

theorem rates_eq_none {done : List Record} {s : Monitor τ φ} (h : Knows times done s) (r : Record) :
    rates clock (s.previous r.interface) r (times s.seen) = none ↔ TooLarge clock times done r := by
  rw [TooLarge, h.seen]
  constructor
  · intro hnone
    cases hprevious : s.previous r.interface with
    | none => rw [hprevious] at hnone; cases hnone
    | some sample =>
        obtain ⟨before, a, between, hdone, hname, hbetween, rfl⟩ := (h.previous _ _).mp hprevious
        rw [hprevious, rates] at hnone
        split at hnone
        · next hcomparable =>
            split at hnone
            · next hlarge =>
                simp only [comparable, Bool.and_eq_true, beq_iff_eq, decide_eq_true_eq] at hcomparable
                exact ⟨before, a, between, hdone, hname, hbetween, hcomparable.1.1.1, hcomparable.1.1.2,
                  hcomparable.1.2,
                  hcomparable.2, hlarge⟩
            · cases hnone
        · cases hnone
  · rintro ⟨before, a, between, hdone, hname, hbetween, hip, hlater, hrx, htx, hlarge⟩
    rw [(h.previous r.interface _).mpr ⟨before, a, between, hdone, hname, hbetween, rfl⟩, rates,
      if_pos (by simp [comparable, hip, hlater, hrx, htx]), if_pos hlarge]

theorem route_seen (s : Monitor τ φ) (r : Record) : (s.route r).seen = s.seen ∧ (s.route r).previous = s.previous := by
  rw [Monitor.route]
  dsimp only
  split
  · split <;> exact ⟨rfl, rfl⟩
  · exact ⟨rfl, rfl⟩

theorem Knows.advance {done : List Record} {s next : Monitor τ φ} {r : Record} (h : Knows times done s)
    (hnext : s.advance clock times r = some next) : Knows times (done ++ [r]) next := by
  have hfields : next.seen = s.seen + 1 ∧
      next.previous = Function.update s.previous r.interface (some ⟨r.ipAddress, r.rx, r.tx, times s.seen⟩) := by
    rw [Monitor.advance] at hnext
    dsimp only at hnext
    split at hnext
    · cases hnext
    · rw [← Option.some.inj hnext]
      dsimp only
      split
      · exact route_seen _ r
      · exact ⟨rfl, rfl⟩
  refine ⟨by rw [hfields.1, h.seen, List.length_append]; rfl, fun name sample => ?_⟩
  rw [hfields.2, Function.update_apply]
  split
  · next hname =>
      constructor
      · intro heq
        exact ⟨done, r, [], rfl, hname.symm, by rintro b ⟨⟩, by rw [← Option.some.inj heq, h.seen]⟩
      · rintro ⟨before, a, between, hdone, ha, hbetween, rfl⟩
        cases between using List.reverseRecOn with
        | nil =>
            obtain ⟨rfl, heq⟩ := List.append_inj' hdone rfl
            cases heq
            rw [h.seen]
        | append_singleton between b =>
            rw [← List.cons_append, ← List.append_assoc] at hdone
            obtain ⟨-, heq⟩ := List.append_inj' hdone rfl
            cases heq
            exact absurd hname.symm (hbetween r (by simp))
  · next hname =>
      rw [h.previous]
      constructor
      · rintro ⟨before, a, between, rfl, ha, hbetween, rfl⟩
        refine ⟨before, a, between ++ [r], by simp, ha, ?_, rfl⟩
        intro b hb
        rcases List.mem_append.mp hb with hb | hb
        · exact hbetween b hb
        · rw [List.mem_singleton.mp hb]
          exact Ne.symm hname
      · rintro ⟨before, a, between, hdone, ha, hbetween, rfl⟩
        cases between using List.reverseRecOn with
        | nil =>
            obtain ⟨rfl, heq⟩ := List.append_inj' hdone rfl
            cases heq
            exact absurd ha.symm hname
        | append_singleton between b =>
            rw [← List.cons_append, ← List.append_assoc] at hdone
            obtain ⟨rfl, -⟩ := List.append_inj' hdone rfl
            exact ⟨before, a, between, rfl, ha, fun r hr => hbetween r (List.mem_append_left _ hr), rfl⟩

theorem advance_eq_none {done : List Record} {s : Monitor τ φ} (h : Knows times done s) (r : Record) :
    s.advance clock times r = none ↔ TooLarge clock times done r := by
  rw [← rates_eq_none h, Monitor.advance]
  dsimp only
  split
  · next hrates => exact ⟨fun _ => hrates, fun _ => rfl⟩
  · next hrates => rw [hrates]; exact ⟨by rintro ⟨⟩, by rintro ⟨⟩⟩

/-- A sequence of records is read to its end exactly if none of them is too far
from the one before it. -/
theorem foldlM_advance (records : List Record) :
    (∃ s, records.foldlM (Monitor.advance clock times) (initial : Monitor τ φ) = some s ∧ Knows times records s) ∧
        (∀ done b rest, records = done ++ b :: rest → ¬ TooLarge clock times done b) ∨
      records.foldlM (Monitor.advance clock times) (initial : Monitor τ φ) = none ∧
        ∃ done b rest, records = done ++ b :: rest ∧ TooLarge clock times done b := by
  induction records using List.reverseRecOn with
  | nil => exact Or.inl ⟨⟨initial, rfl, knows_initial⟩, fun done b rest hnil => absurd hnil.symm (by simp)⟩
  | append_singleton records r ih =>
      rw [List.foldlM_append]
      rcases ih with ⟨⟨s, hs, hknows⟩, hsmall⟩ | ⟨hnone, done, b, rest, rfl, hlarge⟩
      · rw [hs]
        cases hnext : s.advance clock times r with
        | none => exact Or.inr ⟨by simp [hnext], records, r, [], rfl, (advance_eq_none hknows r).mp hnext⟩
        | some next =>
            refine Or.inl ⟨⟨next, by simp [hnext], hknows.advance hnext⟩, ?_⟩
            intro done b rest heq
            cases rest using List.reverseRecOn with
            | nil =>
                obtain ⟨rfl, hlast⟩ := List.append_inj' heq rfl
                cases hlast
                rw [← advance_eq_none hknows, hnext]
                exact Option.some_ne_none _
            | append_singleton rest e =>
                rw [← List.cons_append, ← List.append_assoc] at heq
                obtain ⟨rfl, -⟩ := List.append_inj' heq rfl
                exact hsmall done b rest rfl
      · exact Or.inr ⟨by rw [hnone]; rfl, done, b, rest ++ [r], by simp, hlarge⟩

theorem activityOf_eq_some (records : List Record) :
    (∃ activity, activityOf clock times records = some activity) ↔
      ∀ done b rest, records = done ++ b :: rest → ¬ TooLarge clock times done b := by
  rw [activityOf]
  rcases @foldlM_advance _ _ clock times records with ⟨⟨s, hs, -⟩, hsmall⟩ | ⟨hnone, done, b, rest, hrecords, hlarge⟩
  · rw [hs]
    exact ⟨fun _ => hsmall, fun _ => ⟨s.known, rfl⟩⟩
  · rw [hnone]
    constructor
    · rintro ⟨activity, ⟨⟩⟩
    · exact fun hsmall => absurd hlarge (hsmall done b rest hrecords)

end Proofs

/-- What the network filter does with a stream: the records are left out, and
the activity is that of the records. -/
def NetworkMeaning {τ φ : Type} (clock : Clock τ φ) (times : Nat → τ) (chunks : List (List UInt8)) : Prop :=
  ∃ activity, filtered clock times chunks = some (ordinaryOutput chunks.flatten, activity) ∧
    activityOf clock times (recordsOf chunks.flatten) = some activity

/-- What the item filter does with a stream: nothing is left out or the lines of
added and modified items are, and each letter counts its lines. -/
def ItemMeaning (strip : Bool) (chunks : List (List UInt8)) : Prop :=
  (ItemActivity.filtered strip chunks).1 = (if strip then
      ((lines lineFeed chunks.flatten).filter (fun line => !ItemActivity.isAddedOrModified line)).flatten
      else chunks.flatten) ∧
    ∀ letter ∈ ['A', 'M', 'C', 'E'], (ItemActivity.filtered strip chunks).2.counter letter =
      (lines lineFeed chunks.flatten).countP (fun line => ItemActivity.statusOf line = some [letter])

/-- Both filters do what they mean for every way to cut a stream, exactly if no
two records of an interface are so far apart that a float cannot hold the
difference. -/
theorem filters_meaning_iff {τ φ : Type} (clock : Clock τ φ) (times : Nat → τ) (stream : List UInt8) :
    (∀ chunks : List (List UInt8), chunks.flatten = stream →
        NetworkMeaning clock times chunks ∧ ∀ strip, ItemMeaning strip chunks) ↔
      ∀ done b rest, recordsOf stream = done ++ b :: rest → ¬ TooLarge clock times done b := by
  rw [← activityOf_eq_some]
  constructor
  · intro h
    obtain ⟨⟨activity, -, hactivity⟩, -⟩ := h [stream] (List.flatten_singleton)
    rw [List.flatten_singleton] at hactivity
    exact ⟨activity, hactivity⟩
  · rintro ⟨activity, hactivity⟩ chunks rfl
    exact ⟨⟨activity, by rw [filtered_eq, hactivity]; rfl, hactivity⟩, fun strip =>
      ItemActivity.filtered_eq strip chunks⟩

/-- Two records of one interface, the second of which has received more bytes
than the largest float. -/
theorem counter_beyond_float :
    let clock : Clock Nat (Nat × Nat) := ⟨fun a b => decide (a < b), fun n a b => (n, b - a)⟩
    let stream := networkPrefix ++ bytesOf "eth0\t10.0.0.2\t0\t0\n".toList ++
      (networkPrefix ++ bytesOf "eth0\t10.0.0.2\t1".toList ++ List.replicate 309 48 ++ bytesOf "\t0\n".toList)
    filtered clock id [stream] = none ∧ ¬ NetworkMeaning clock id [stream] := by
  intro clock stream
  have hraised : (filtered clock id [stream]).isNone = true := by decide +kernel
  rw [Option.isNone_iff_eq_none] at hraised
  refine ⟨hraised, ?_⟩
  rintro ⟨activity, houtput, -⟩
  rw [hraised] at houtput
  cases houtput

end BorgManager.NetworkStream
