import BorgManager.ByteLines
import BorgManager.BytePatterns
import BorgManager.PythonText
import BorgManager.Utf8Decoding

namespace BorgManager.CreateProgress

open Patterns BytePatterns ByteLines

def decimalUnits : List (List Char × Nat) :=
  [("B".toList, 1), ("KB".toList, 1000), ("MB".toList, Nat.pow 1000 2), ("GB".toList, Nat.pow 1000 3),
    ("TB".toList, Nat.pow 1000 4),
    ("PB".toList, Nat.pow 1000 5), ("EB".toList, Nat.pow 1000 6)]

def binaryUnits : List (List Char × Nat) :=
  [("KIB".toList, 1024), ("MIB".toList, Nat.pow 1024 2), ("GIB".toList, Nat.pow 1024 3), ("TIB".toList, Nat.pow 1024 4),
    ("PIB".toList, Nat.pow 1024 5), ("EIB".toList, Nat.pow 1024 6)]

def number : Pattern := .seq (plus true digit) (optional (.seq (among ".,") (plus true digit)))

def unit : Pattern := sequence [optional (among "kKMGTPE"), optional (exactly "i"), exactly "B"]

/-- A size, its unit and the letter that says which size it is. -/
def sizeField (index : Nat) (letter : String) : Pattern :=
  sequence [.group index number, plus true blank, .group (index + 1) unit, plus true blank, exactly letter,
    plus true blank]

/-- `_PROGRESS_RE` between `^` and `$`. The groups are `original`, `compressed`
and `deduplicated` with their units, `files` and `path`. -/
def progressPattern : Pattern :=
  sequence [.many true blank, sizeField 1 "O", sizeField 3 "C", sizeField 5 "D", .group 7 (plus true digit),
    plus true blank,
    exactly "N", optional (.seq (plus true blank) (.group 8 (.many false (.char (· != '\n'))))), .many true blank]

/-- `_PREFIX_RE` between `^` and `$`. -/
def prefixPattern : Pattern :=
  sequence [.many true blank, number, plus true blank, unit,
    optional (sequence [plus true blank, exactly "O",
      optional (.seq (plus true blank) (.many true (.char (· != '\n'))))])]

structure Progress where
  originalBytes : Nat
  compressedBytes : Nat
  deduplicatedBytes : Nat
  files : Nat
  path : List Char
  deriving DecidableEq

section Parser

-- `scaled` is `max(0, int(float(text) * multiplier))`; nothing stands for an error
variable (scaled : List Char → Nat → Option Nat)

def sizeBytes (value unit : List Char) : Option Nat :=
  let normalized := unit.map Char.toUpper
  ((binaryUnits.lookup normalized).or (decimalUnits.lookup normalized)).bind
    (scaled (value.map (fun c => if c = ',' then '.' else c)))

/-- `parse_borg_create_progress` -/
def parseBorgCreateProgress (payload : List UInt8) : Option Progress := do
  let m ← matchWhole progressPattern (latin payload)
  let original ← sizeBytes scaled (field m 1) (field m 2)
  let compressed ← sizeBytes scaled (field m 3) (field m 4)
  let deduplicated ← sizeBytes scaled (field m 5) (field m 6)
  let files ← wholeNumber (field m 7)
  return ⟨original, compressed, deduplicated, files,
    PythonText.stripWhile PythonText.isSpace (Utf8Decoding.decode (bytesOf (field m 8)))⟩

end Parser

/-- `BorgProgressStreamFilter` -/
structure Filter where
  latest : Option Progress
  carry : List UInt8
  deriving DecidableEq

def maxCarry : Nat := 16 * 1024

/-- The bytes that end a record. -/
def isEnd (b : UInt8) : Bool := carriageReturn b || lineFeed b

def originalMarker : List UInt8 := " O ".toList.map (fun c => UInt8.ofNat c.toNat)

def progressMarkers : List (List UInt8) := [" O ", " C ", " D ", " N"].map (fun s => bytesOf s.toList)

/-- `_candidate` -/
def candidate (record : List UInt8) : Bool := progressMarkers.all (fun marker => contains marker record)

/-- `_could_be_progress_prefix` -/
def couldBeProgressPrefix (record : List UInt8) : Bool :=
  if record = [] ∨ maxCarry < record.length then false
  else if contains originalMarker record then true
  else (matchWhole prefixPattern (latin record)).isSome

/-- What one call gives back, and what it keeps for the next one. -/
structure Fed where
  output : List UInt8
  newest : Option Progress
  carry : List UInt8
  deriving DecidableEq

section Filter

variable (scaled : List Char → Nat → Option Nat)

/-- The progress of a record that is removed from the log. -/
def accepted (record : List UInt8) : Option Progress :=
  if candidate record then parseBorgCreateProgress scaled record else none

/-- The loop over the records of a payload. -/
def feedRecords : List (List UInt8) → Fed
  | [] => ⟨[], none, []⟩
  | framed :: rest =>
      let more := feedRecords rest
      if framed.getLast?.any isEnd then
        match accepted scaled (framed.rdropWhile isEnd) with
        | some progress => { more with newest := more.newest.or (some progress) }
        | none => { more with output := framed ++ more.output }
      else if rest = [] ∧ couldBeProgressPrefix framed then { more with carry := framed }
      else { more with output := framed ++ more.output }

/-- `feed` -/
def Filter.feed (f : Filter) (data : List UInt8) : Fed × Filter :=
  if data = [] then (⟨[], none, f.carry⟩, f)
  else if f.carry = [] ∧ ¬ data.any carriageReturn ∧ ¬ contains originalMarker data then
    let tail := trailing lineFeed data
    if tail ≠ [] ∧ couldBeProgressPrefix tail then
      (⟨complete lineFeed data, none, tail⟩, { f with carry := tail })
    else (⟨data, none, []⟩, f)
  else
    let fed := feedRecords scaled (pieces carriageReturn lineFeed (f.carry ++ data))
    (fed, ⟨fed.newest.or f.latest, fed.carry⟩)

/-- `finalize` -/
def Filter.finalize (f : Filter) : Fed × Filter :=
  if f.carry = [] then (⟨[], none, []⟩, f)
  else
    match accepted scaled f.carry with
    | some progress => (⟨[], some progress, []⟩, ⟨some progress, []⟩)
    | none => (⟨f.carry, none, []⟩, { f with carry := [] })

def initial : Filter := ⟨none, []⟩

/-- The output of a call for each chunk, and the filter after the last one. -/
def Filter.feedAll (f : Filter) : List (List UInt8) → List UInt8 × Filter
  | [] => ([], f)
  | chunk :: chunks =>
      let fed := f.feed scaled chunk
      let more := fed.2.feedAll chunks
      (fed.1.output ++ more.1, more.2)

/-- The log output of a whole stream and the progress at its end. -/
def filtered (chunks : List (List UInt8)) : List UInt8 × Option Progress :=
  let fed := initial.feedAll scaled chunks
  let last := fed.2.finalize scaled
  (fed.1 ++ last.1.output, last.2.latest)

end Filter

section Meaning

variable (scaled : List Char → Nat → Option Nat)

/-- A record between two ends of lines whose progress the parser reads. -/
structure Frame (record : List UInt8) (progress : Progress) : Prop where
  isOpen : Open isEnd record
  isCandidate : candidate record = true
  reads : parseBorgCreateProgress scaled record = some progress

/-- A log is its input without some frames and their ends, and the progress is
that of the last frame left out. -/
inductive Sieved : List UInt8 → List UInt8 → Option Progress → Prop
  | nil : Sieved [] [] none
  | keep {input output : List UInt8} {latest : Option Progress} (h : Sieved input output latest) (kept : List UInt8) :
      Sieved (input ++ kept) (output ++ kept) latest
  | drop {input output record ends : List UInt8} {latest : Option Progress} {progress : Progress}
      (h : Sieved input output latest) (hframe : Frame scaled record progress) (hne : ends ≠ [])
        (hends : ∀ b ∈ ends, isEnd b) :
      Sieved (input ++ (record ++ ends)) output (some progress)

/-- At the end of a stream a frame may be left out that has no end. -/
def Settled (stream output : List UInt8) (latest : Option Progress) : Prop :=
  Sieved scaled stream output latest ∨
    ∃ passed record progress before, stream = passed ++ record ∧ Sieved scaled passed output before ∧
      Frame scaled record progress ∧ latest = some progress

/-- What a filter has read is what it has passed on, and a short rest that it
holds back. -/
structure Held (f : Filter) (consumed output : List UInt8) : Prop where
  passed : ∃ passed, consumed = passed ++ f.carry ∧ Sieved scaled passed output f.latest
  short : f.carry.length ≤ maxCarry
  isOpen : Open isEnd f.carry

end Meaning

section Proofs

variable {scaled : List Char → Nat → Option Nat}

theorem accepted_eq_some {record : List UInt8} {progress : Progress} :
    accepted scaled record = some progress ↔
      candidate record = true ∧ parseBorgCreateProgress scaled record = some progress := by
  rw [accepted]
  split <;> simp_all

theorem length_of_couldBe {record : List UInt8} (h : couldBeProgressPrefix record = true) :
    record.length ≤ maxCarry := by
  by_contra hlong
  rw [couldBeProgressPrefix, if_pos (Or.inr (Nat.lt_of_not_le hlong))] at h
  cases h

theorem getLast_ends {body ends : List UInt8} (hne : ends ≠ []) (hends : ∀ b ∈ ends, isEnd b) :
    (body ++ ends).getLast?.any isEnd = true := by
  rw [List.getLast?_append_of_ne_nil _ hne, List.getLast?_eq_some_getLast hne]
  exact hends _ (List.getLast_mem hne)

theorem getLast_open {body : List UInt8} (h : Open isEnd body) : body.getLast?.any isEnd = false := by
  cases hlast : body.getLast? with
  | none => rfl
  | some b => exact h b (List.mem_of_getLast? hlast)

/-- One payload: its records are passed on or left out one after the other, and
only the last one may be held back. -/
theorem feedRecords_sieved {records : List (List UInt8)} (hrecords : Pieced carriageReturn lineFeed records)
    {input output : List UInt8} {latest : Option Progress} (h : Sieved scaled input output latest) :
    ∃ passed, records.flatten = passed ++ (feedRecords scaled records).carry ∧
      Sieved scaled (input ++ passed) (output ++ (feedRecords scaled records).output)
        ((feedRecords scaled records).newest.or latest) ∧
      (feedRecords scaled records).carry.length ≤ maxCarry ∧ Open isEnd (feedRecords scaled records).carry := by
  induction hrecords generalizing input output latest with
  | nil =>
      refine ⟨[], rfl, ?_, Nat.zero_le _, open_nil⟩
      simpa [feedRecords] using h
  | @rest body hopen hne =>
      rw [feedRecords, if_neg (by rw [getLast_open hopen]; exact Bool.false_ne_true)]
      split
      · next hcould =>
          refine ⟨[], ?_, ?_, length_of_couldBe hcould.2, hopen⟩
          · simp
          · simpa [feedRecords] using h
      · refine ⟨body, ?_, ?_, Nat.zero_le _, open_nil⟩
        · simp [feedRecords]
        · simpa [feedRecords] using h.keep body
  | @piece body ends more hopen hne hends hmore ih =>
      rw [feedRecords, if_pos (getLast_ends hne hends), rdropWhile_ends (p := isEnd) hopen hends]
      cases haccepted : accepted scaled body with
      | none =>
          obtain ⟨passed, hflatten, hsieved, hshort, hrest⟩ := ih (h.keep (body ++ ends))
          refine ⟨body ++ ends ++ passed, ?_, ?_, hshort, hrest⟩
          · rw [List.flatten_cons, hflatten, List.append_assoc (body ++ ends)]
          · simpa only [List.append_assoc] using hsieved
      | some progress =>
          obtain ⟨hcandidate, hreads⟩ := accepted_eq_some.mp haccepted
          obtain ⟨passed, hflatten, hsieved, hshort, hrest⟩ := ih (h.drop ⟨hopen, hcandidate, hreads⟩ hne hends)
          refine ⟨body ++ ends ++ passed, ?_, ?_, hshort, hrest⟩
          · rw [List.flatten_cons, hflatten, List.append_assoc (body ++ ends)]
          · rw [List.append_assoc] at hsieved
            rw [Option.or_assoc]
            exact hsieved

theorem not_any_carriageReturn {data : List UInt8} (h : ¬ data.any carriageReturn = true) {part : List UInt8}
    (hpart : ∀ b ∈ part, b ∈ data) (hopen : Open lineFeed part) : Open isEnd part := by
  intro b hb
  have hcr : carriageReturn b = false := by
    rw [List.any_eq_true] at h
    exact Bool.eq_false_iff.mpr (fun hcr => h ⟨b, hpart b hb, hcr⟩)
  rw [isEnd, hcr, hopen b hb]
  rfl

theorem held_initial : Held scaled initial [] [] := ⟨⟨[], rfl, .nil⟩, Nat.zero_le _, open_nil⟩

theorem Held.feed {f : Filter} {consumed output : List UInt8} (h : Held scaled f consumed output) (data : List UInt8) :
    Held scaled (f.feed scaled data).2 (consumed ++ data) (output ++ (f.feed scaled data).1.output) := by
  obtain ⟨passed, hconsumed, hsieved⟩ := h.passed
  rw [Filter.feed]
  split
  · next hdata =>
      subst hdata
      rw [List.append_nil, List.append_nil]
      exact h
  · split
    · next hfast =>
        obtain ⟨hcarry, hcr, -⟩ := hfast
        rw [hcarry, List.append_nil] at hconsumed
        subst hconsumed
        dsimp only
        split
        · next htail =>
            refine ⟨⟨consumed ++ complete lineFeed data, ?_, hsieved.keep _⟩, length_of_couldBe htail.2, ?_⟩
            · rw [List.append_assoc, complete_append_trailing]
            · apply not_any_carriageReturn hcr
              · intro b hb
                rw [← complete_append_trailing (p := lineFeed) data]
                exact List.mem_append_right _ hb
              · exact open_trailing data
        · refine ⟨⟨consumed ++ data, ?_, hsieved.keep data⟩, ?_, ?_⟩
          · rw [hcarry, List.append_nil]
          · rw [hcarry]; exact Nat.zero_le _
          · rw [hcarry]; exact open_nil
    · obtain ⟨more, hflatten, hmore, hshort, hopen⟩ := feedRecords_sieved (pieced_pieces (f.carry ++ data)) hsieved
      rw [flatten_pieces] at hflatten
      refine ⟨⟨passed ++ more, ?_, hmore⟩, hshort, hopen⟩
      rw [hconsumed, List.append_assoc, List.append_assoc]
      exact congrArg (passed ++ ·) hflatten

theorem Held.feedAll {f : Filter} {consumed output : List UInt8} (h : Held scaled f consumed output)
    (chunks : List (List UInt8)) :
    Held scaled (f.feedAll scaled chunks).2 (consumed ++ chunks.flatten) (output ++ (f.feedAll scaled chunks).1) := by
  induction chunks generalizing f consumed output with
  | nil =>
      rw [Filter.feedAll, List.flatten_nil, List.append_nil, List.append_nil]
      exact h
  | cons chunk chunks ih =>
      have hrest := ih (h.feed chunk)
      rw [List.append_assoc, List.append_assoc] at hrest
      exact hrest

theorem Held.finalize {f : Filter} {consumed output : List UInt8} (h : Held scaled f consumed output) :
    Settled scaled consumed (output ++ (f.finalize scaled).1.output) (f.finalize scaled).2.latest := by
  obtain ⟨passed, hconsumed, hsieved⟩ := h.passed
  rw [Filter.finalize]
  split
  · next hcarry =>
      rw [hcarry, List.append_nil] at hconsumed
      subst hconsumed
      rw [List.append_nil]
      exact Or.inl hsieved
  · split
    · next progress haccepted =>
        obtain ⟨hcandidate, hreads⟩ := accepted_eq_some.mp haccepted
        rw [List.append_nil]
        exact Or.inr ⟨passed, f.carry, progress, f.latest, hconsumed, hsieved, ⟨h.isOpen, hcandidate, hreads⟩, rfl⟩
    · rw [hconsumed]
      exact Or.inl (hsieved.keep f.carry)

/-- However a stream is cut, and after any of its chunks, the log is what was
read without frames and without the short rest held back; at the end it is the
stream without frames. -/
theorem filtered_conserves (scaled : List Char → Nat → Option Nat) (chunks : List (List UInt8)) :
    (∃ passed, chunks.flatten = passed ++ (initial.feedAll scaled chunks).2.carry ∧
        Sieved scaled passed (initial.feedAll scaled chunks).1 (initial.feedAll scaled chunks).2.latest ∧
        (initial.feedAll scaled chunks).2.carry.length ≤ 16 * 1024) ∧
      Settled scaled chunks.flatten (filtered scaled chunks).1 (filtered scaled chunks).2 := by
  have hheld := (held_initial : Held scaled initial [] []).feedAll chunks
  constructor
  · obtain ⟨passed, hflatten, hsieved⟩ := hheld.passed
    exact ⟨passed, hflatten, hsieved, hheld.short⟩
  · exact hheld.finalize

/-- A segment of a stream that an end of a line or the end of the stream
follows. -/
def EndsLine (stream segment : List UInt8) : Prop :=
  ∃ before after, stream = before ++ (segment ++ after) ∧ Open isEnd segment ∧ ∀ b ∈ after.head?, isEnd b

/-- A line of a stream, without its end. -/
def IsLine (stream line : List UInt8) : Prop :=
  ∃ before after, stream = before ++ (line ++ after) ∧ Open isEnd line ∧ Whole isEnd before ∧ ∀ b ∈ after.head?, isEnd b

/-- A segment that ends a line is a part of the line. -/
theorem EndsLine.within {stream segment : List UInt8} (h : EndsLine stream segment) :
    ∃ line, IsLine stream line ∧ segment.length ≤ line.length := by
  obtain ⟨before, after, rfl, hopen, hafter⟩ := h
  refine ⟨trailing isEnd before ++ segment, ⟨complete isEnd before, after, ?_, ?_, whole_complete _, hafter⟩, ?_⟩
  · rw [List.append_assoc, ← List.append_assoc (complete isEnd before), complete_append_trailing]
  · intro b hb
    rcases List.mem_append.mp hb with hb | hb
    · exact open_trailing before b hb
    · exact hopen b hb
  · rw [List.length_append]
    exact Nat.le_add_left _ _

/-- Without frames at the ends of lines everything is passed on. -/
theorem Sieved.eq_of_no_frame {input output : List UInt8} {latest : Option Progress}
    (h : Sieved scaled input output latest) (rest : List UInt8)
    (hnone : ∀ record progress, EndsLine (input ++ rest) record → ¬ Frame scaled record progress) :
    output = input ∧ latest = none := by
  induction h generalizing rest with
  | nil => exact ⟨rfl, rfl⟩
  | keep h kept ih =>
      rw [List.append_assoc] at hnone
      obtain ⟨rfl, rfl⟩ := ih _ hnone
      exact ⟨rfl, rfl⟩
  | @drop input output record ends latest progress h hframe hne hends ih =>
      refine absurd hframe (hnone record progress ⟨input, ends ++ rest, by simp, hframe.isOpen, ?_⟩)
      obtain ⟨b, ends, rfl⟩ := List.exists_cons_of_ne_nil hne
      rintro _ ⟨⟩
      exact hends b (List.mem_cons_self ..)

theorem Settled.eq_of_no_frame {stream output : List UInt8} {latest : Option Progress}
    (h : Settled scaled stream output latest) (hnone : ∀ record progress, EndsLine stream record →
      ¬ Frame scaled record progress) : output = stream ∧ latest = none := by
  rcases h with hsieved | ⟨passed, record, progress, before, rfl, hsieved, hframe, rfl⟩
  · exact hsieved.eq_of_no_frame [] (by rw [List.append_nil]; exact hnone)
  · refine absurd hframe (hnone record progress ⟨passed, [], by simp, hframe.isOpen, ?_⟩)
    rintro b ⟨⟩

theorem couldBe_byte (b : UInt8) : couldBeProgressPrefix [b] = false := by
  have hall : ∀ n < 256, couldBeProgressPrefix [UInt8.ofNat n] = false := by decide +kernel
  have hb := hall b.toNat b.toNat_lt
  rwa [UInt8.ofNat_toNat] at hb

/-- A byte on its own is passed on at once. -/
theorem feed_byte (b : UInt8) : initial.feed scaled [b] = (⟨[b], none, []⟩, initial) := by
  rw [Filter.feed, if_neg (List.cons_ne_nil _ _)]
  by_cases hcr : carriageReturn b = true
  · rw [if_neg (by simp [hcr])]
    have hpieces : pieces carriageReturn lineFeed [b] = [[b]] := rfl
    have hend : isEnd b = true := by rw [isEnd, hcr]; rfl
    simp [initial, hpieces, feedRecords, hend, List.rdropWhile, accepted, candidate, progressMarkers, bytesOf, contains]
  · have hmarker : contains originalMarker [b] = false := by
      rw [Bool.eq_false_iff, ne_eq, contains_iff]
      intro hinfix
      have hlength := hinfix.length_le
      rw [List.length_singleton] at hlength
      exact absurd hlength (by decide)
    rw [if_pos ⟨rfl, by simpa using hcr, by rw [hmarker]; exact Bool.false_ne_true⟩]
    have htail : ¬ (trailing lineFeed [b] ≠ [] ∧ couldBeProgressPrefix (trailing lineFeed [b]) = true) := by
      rintro ⟨hne, hcould⟩
      have hbyte : trailing lineFeed [b] = [b] := by
        cases hlf : lineFeed b <;> simp_all [trailing, List.rtakeWhile]
      rw [hbyte, couldBe_byte] at hcould
      cases hcould
    simp only [if_neg htail]

theorem feedAll_append {f : Filter} (a b : List (List UInt8)) :
    f.feedAll scaled (a ++ b) =
      ((f.feedAll scaled a).1 ++ ((f.feedAll scaled a).2.feedAll scaled b).1,
        ((f.feedAll scaled a).2.feedAll scaled b).2) := by
  induction a generalizing f with
  | nil => rfl
  | cons chunk a ih => rw [List.cons_append, Filter.feedAll, ih, Filter.feedAll, List.append_assoc]

/-- A stream that comes byte by byte is passed on as it is. -/
theorem feedAll_bytes (stream : List UInt8) :
    initial.feedAll scaled (stream.map (fun b => [b])) = (stream, initial) := by
  induction stream with
  | nil => rfl
  | cons b stream ih => rw [List.map_cons, Filter.feedAll, feed_byte, ih, List.singleton_append]

theorem filtered_bytes (stream : List UInt8) : filtered scaled (stream.map (fun b => [b])) = (stream, none) := by
  rw [filtered, feedAll_bytes]
  simp [initial, Filter.finalize]

theorem Frame.marked {record : List UInt8} {progress : Progress} (h : Frame scaled record progress) :
    contains originalMarker record = true :=
  List.all_eq_true.mp h.isCandidate originalMarker (List.mem_cons_self ..)

theorem latest_finalize {f : Filter} (h : f.latest.isSome) : (f.finalize scaled).2.latest.isSome := by
  rw [Filter.finalize]
  split
  · exact h
  · split
    · rfl
    · exact h

/-- A frame that comes in one chunk with what follows it is recognised. -/
theorem filtered_frame (before : List UInt8) {record after : List UInt8} {progress : Progress}
    (hframe : Frame scaled record progress) (hshort : record.length ≤ maxCarry) (hafter : ∀ b ∈ after.head?, isEnd b) :
    (filtered scaled (before.map (fun b => [b]) ++ [record ++ after])).2.isSome := by
  have hne : record ≠ [] := by
    rintro rfl
    have hinfix := contains_iff.mp hframe.marked
    exact absurd hinfix.length_le (by decide)
  have hmarked : contains originalMarker (record ++ after) = true :=
    contains_iff.mpr ((contains_iff.mp hframe.marked).trans (List.prefix_append _ _).isInfix)
  have hslow : initial.feed scaled (record ++ after) =
      (feedRecords scaled (pieces carriageReturn lineFeed (record ++ after)),
        ⟨(feedRecords scaled (pieces carriageReturn lineFeed (record ++ after))).newest.or none,
          (feedRecords scaled (pieces carriageReturn lineFeed (record ++ after))).carry⟩) := by
    rw [Filter.feed, if_neg (by simp [hne]), if_neg (by simp [hmarked])]
    rfl
  have haccepted := accepted_eq_some.mpr ⟨hframe.isCandidate, hframe.reads⟩
  rw [filtered, feedAll_append, feedAll_bytes]
  simp only [Filter.feedAll, hslow]
  cases after with
  | nil =>
      rw [List.append_nil, pieces_open hframe.isOpen hne]
      have hcould : couldBeProgressPrefix record = true := by
        rw [couldBeProgressPrefix, if_neg (by simp [hne, hshort]), if_pos hframe.marked]
      have hfed : feedRecords scaled [record] = ⟨[], none, record⟩ := by
        rw [feedRecords, if_neg (by rw [getLast_open hframe.isOpen]; exact Bool.false_ne_true), if_pos ⟨rfl, hcould⟩]
        rfl
      rw [hfed, Filter.finalize, if_neg hne, haccepted]
      rfl
  | cons x rest =>
      obtain ⟨ends, more, hpieces, hends, hall⟩ := pieces_body rest hframe.isOpen (hafter x rfl)
      apply latest_finalize
      rw [hpieces, feedRecords, if_pos (getLast_ends hends hall),
        rdropWhile_ends (p := isEnd) hframe.isOpen hall, haccepted]
      cases (feedRecords scaled more).newest <;> rfl

/-- Streams without long lines: the log and the progress do not depend on the
chunks exactly if no line ends in a frame. A frame whose number, unit or blank
is cut off goes into the log. -/
theorem chunks_irrelevant_iff (scaled : List Char → Nat → Option Nat) (stream : List UInt8)
    (hlines : ∀ line, IsLine stream line → line.length ≤ 16 * 1024) :
    (∀ a b : List (List UInt8), a.flatten = stream → b.flatten = stream → filtered scaled a = filtered scaled b) ↔
      ∀ record progress, EndsLine stream record → ¬ Frame scaled record progress := by
  constructor
  · intro h record progress hends hframe
    obtain ⟨line, hline, hlength⟩ := hends.within
    obtain ⟨before, after, rfl, -, hafter⟩ := hends
    have hsame := h ((before ++ (record ++ after)).map (fun b => [b])) (before.map (fun b => [b]) ++ [record ++ after])
      (by rw [← List.flatMap_def, List.flatMap_singleton']) (by rw [List.flatten_append, ← List.flatMap_def,
        List.flatMap_singleton', List.flatten_singleton])
    have hsome := filtered_frame before hframe (Nat.le_trans hlength (hlines line hline)) hafter
    rw [← hsame, filtered_bytes] at hsome
    cases hsome
  · intro hnone a b ha hb
    have hsettled {chunks : List (List UInt8)} (hchunks : chunks.flatten = stream) : filtered scaled chunks =
        (stream, none) := by
      have h := (filtered_conserves scaled chunks).2
      rw [hchunks] at h
      obtain ⟨houtput, hlatest⟩ := h.eq_of_no_frame hnone
      exact Prod.ext houtput hlatest
    rw [hsettled ha, hsettled hb]

theorem IsLine.length_le {stream line : List UInt8} (h : IsLine stream line) : line.length ≤ stream.length := by
  obtain ⟨before, after, rfl, -⟩ := h
  rw [List.length_append, List.length_append]
  omega

/-- A frame that is cut after the blank behind its first unit. -/
theorem frame_cut_after_blank :
    let scaled := fun (value : List Char) (multiplier : Nat) => (wholeNumber value).map (· * multiplier)
    let bytes := fun (text : String) => bytesOf text.toList
    (∀ line, IsLine (bytes "1 B O 1 B C 1 B D 1 N\n") line → line.length ≤ 16 * 1024) ∧
      filtered scaled [bytes "1 B O 1 B C 1 B D 1 N\n"] = ([], some ⟨1, 1, 1, 1, []⟩) ∧
      filtered scaled [bytes "1 B ", bytes "O 1 B C 1 B D 1 N\n"] = (bytes "1 B O 1 B C 1 B D 1 N\n", none) := by
  refine ⟨fun line hline => Nat.le_trans hline.length_le ?_, ?_⟩
  · decide
  · decide

/-- A stream of one message, however it is cut. -/
theorem chunks_irrelevant_message :
    let scaled := fun (value : List Char) (multiplier : Nat) => (wholeNumber value).map (· * multiplier)
    let stream := bytesOf "Creating archive\n".toList
    ∀ a b : List (List UInt8), a.flatten = stream → b.flatten = stream → filtered scaled a = filtered scaled b := by
  intro scaled stream
  refine (chunks_irrelevant_iff scaled stream (fun line hline => Nat.le_trans hline.length_le ?_)).mpr ?_
  · decide
  · rintro record progress ⟨before, after, hstream, -⟩ hframe
    have hinfix : originalMarker <:+: stream :=
      (contains_iff.mp hframe.marked).trans ⟨before, after, by rw [hstream, List.append_assoc]⟩
    have hnot : contains originalMarker stream = false := by decide
    rw [contains_iff.mpr hinfix] at hnot
    cases hnot

end Proofs

end BorgManager.CreateProgress
