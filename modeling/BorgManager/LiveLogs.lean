import BorgManager.RunLogs
import BorgManager.Utf8Decoding

namespace BorgManager.LiveLogs

open Histories ElidedLogs RunLogs Utf8Decoding

structure LogDelta where
  text : List Char
  offset : Nat
  reset : Bool
  truncated : Bool

/-- Where `read_run_log_delta` starts to read, given the size of the file. -/
structure DeltaStart where
  start : Nat
  reset : Bool
  truncated : Bool

def deltaStart (size requested limit : Nat) : DeltaStart :=
  let reset := decide (size < requested)
  let start := if reset then 0 else requested
  if limit < size - start then ⟨size - limit, true, true⟩ else ⟨start, reset, false⟩

def readLimit (maxBytes : Nat) : Nat := max 4096 maxBytes

/-- `read_run_log_delta`. The size of the file and its content are read at two
moments, `none` stands for a file that is missing then. -/
def readRunLogDelta (size : Option Nat) (file : Option Bytes) (offset maxBytes : Nat) : LogDelta :=
  match size, file with
  | none, _ => ⟨[], 0, offset != 0, false⟩
  | some _, none => ⟨[], offset, false, false⟩
  | some size, some file =>
      let d := deltaStart size offset (readLimit maxBytes)
      let payload := (file.drop d.start).take (readLimit maxBytes)
      ⟨decode payload, d.start + payload.length, d.reset, d.truncated⟩

/-- A log file, its writer and one client that polls it. A poll in flight has
its bound and the size that it was told. `shownFrom` and `compacted` only record
the past: where the client's view begins in the file, and whether the file was
rewritten since the client read it. -/
structure LiveLog where
  maxBytes : Nat
  file : Option Bytes
  offset : Nat
  view : List Char
  polling : Option (Nat × Option Nat)
  shownFrom : Nat
  compacted : Bool

inductive LogEvent
  | create
  | write (data : Bytes)
  | compact
  | stat (maxBytes : Nat)
  | read
  deriving DecidableEq

def initial (maxBytes : Nat) (file : Option Bytes) : LiveLog :=
  { maxBytes := maxBytes, file := file, offset := 0, view := [], polling := none, shownFrom := 0, compacted := false }

def startOf (s : LiveLog) (maxBytes : Nat) : Option Nat → Nat
  | none => 0
  | some size => (deltaStart size s.offset (readLimit maxBytes)).start

/-- The answer reaches the client. -/
def receive (s : LiveLog) (maxBytes : Nat) (size : Option Nat) : LiveLog :=
  let d := readRunLogDelta size s.file s.offset maxBytes
  { s with
    offset := d.offset
    view := if d.reset then d.text else s.view ++ d.text
    polling := none
    shownFrom := if d.reset then startOf s maxBytes size else s.shownFrom
    compacted := false }

def logNext (s : LiveLog) : LogEvent → Option LiveLog
  | .create => some { s with file := some (s.file.getD []) }
  | .write data => s.file.map fun file => { s with file := some (file ++ data) }
  | .compact => s.file.map fun file =>
      { s with
        file := some (compactRunLog file s.maxBytes)
        compacted := s.compacted || decide (0 < s.maxBytes ∧ s.maxBytes + compactMargin < file.length) }
  | .stat maxBytes =>
      if s.polling.isNone then some { s with polling := some (maxBytes, s.file.map List.length) } else none
  | .read => s.polling.map fun p => receive s p.1 p.2

def content (s : LiveLog) : Bytes := s.file.getD []

/-- The steps of a writer on its file. -/
def OnFile (e : LogEvent) : Prop := (∃ data, e = .write data) ∨ e = .compact

/-- Every call of a writer is a sequence of writes and compactions of its file. -/
theorem call_onFile {s : LiveLog} {w : RunLogWriter} (hfile : s.file = some w.file) (hmax : s.maxBytes = w.maxBytes)
    (hsized : w.writtenSize = w.file.length) (c : WriterCall) :
    ∃ es, (∀ e ∈ es, OnFile e) ∧ ∃ compacted,
      exec logNext s es = some { s with file := some (call w c).file, compacted := compacted } := by
  rcases file_call hsized c with hsame | ⟨data, hcompact⟩
  · refine ⟨[], nofun, s.compacted, ?_⟩
    rw [hsame, ← hfile]
    rfl
  · refine ⟨[.write data, .compact], ?_,
      s.compacted || decide (0 < s.maxBytes ∧ s.maxBytes + compactMargin < (w.file ++ data).length), ?_⟩
    · intro e he
      rcases List.mem_pair.mp he with rfl | rfl
      · exact .inl ⟨data, rfl⟩
      · exact .inr rfl
    · rw [hcompact, ← hmax]
      simp only [exec, logNext, hfile, Option.map_some, Option.bind_some]

/-- The client sees the end of the file up to its offset. -/
def Current (s : LiveLog) : Prop :=
  s.offset ≤ (content s).length ∧ ∃ first, s.view = decode (((content s).take s.offset).drop first)

/-- The offset of a poll cannot be used: it lies behind the end of the file or
too far before it. -/
def OutOfReach (size offset maxBytes : Nat) : Prop := size < offset ∨ readLimit maxBytes < size - offset

instance (size offset maxBytes : Nat) : Decidable (OutOfReach size offset maxBytes) :=
  inferInstanceAs (Decidable (_ ∨ _))

/-- The file still has the bytes that the client has read, and the client's
offset does not cut a character. -/
def Continuable (s : LiveLog) : Prop :=
  (s.compacted = true → s.offset ≤ headSize s.maxBytes) ∧
    ¬ Cut (((content s).take s.offset).drop s.shownFrom) ((content s).drop s.offset)

instance (s : LiveLog) : Decidable (Continuable s) := inferInstanceAs (Decidable (_ ∧ _))

/-- A poll that can use its offset continues what the client has read, a poll
that cannot finds the tail that the size of the file has promised. -/
def Undisturbed (s : LiveLog) : LogEvent → Prop
  | .read => ∀ p ∈ s.polling, ∀ size ∈ p.2,
      (OutOfReach size s.offset p.1 → size - readLimit p.1 ≤ (content s).length) ∧
        (¬ OutOfReach size s.offset p.1 → Continuable s)
  | _ => True

instance : (s : LiveLog) → (e : LogEvent) → Decidable (Undisturbed s e)
  | s, .read => inferInstanceAs (Decidable (∀ p ∈ s.polling, ∀ size ∈ p.2,
      (OutOfReach size s.offset p.1 → size - readLimit p.1 ≤ (content s).length) ∧
        (¬ OutOfReach size s.offset p.1 → Continuable s)))
  | _, .create => .isTrue trivial
  | _, .write _ => .isTrue trivial
  | _, .compact => .isTrue trivial
  | _, .stat _ => .isTrue trivial

/-- What the answer to a poll gives the client: all bytes of the file from the
offset on, or those of the tail from its start on, as many as the poll asks
for. What the client had shown before stays unless it is replaced. -/
structure Delivers (s t : LiveLog) : Prop where
  file : t.file = s.file
  shown : t.offset ≤ (content t).length ∧ t.view = decode (((content t).take t.offset).drop t.shownFrom)
  continued : ∀ maxBytes size, s.polling = some (maxBytes, some size) → ¬ OutOfReach size s.offset maxBytes →
    t.shownFrom = s.shownFrom ∧ t.offset = min (content s).length (s.offset + readLimit maxBytes)
  replaced : ∀ maxBytes size, s.polling = some (maxBytes, some size) → OutOfReach size s.offset maxBytes →
    t.shownFrom = size - readLimit maxBytes ∧
      t.offset = min (content s).length (size - readLimit maxBytes + readLimit maxBytes)
  missing : ∀ maxBytes, s.polling = some (maxBytes, none) → t.offset = 0 ∧ t.view = []

/-- What holds between the polls. The client's bytes may only be gone from the
file if it was rewritten behind their end. -/
structure Follows (s : LiveLog) : Prop where
  begins : s.shownFrom ≤ s.offset
  shown : (s.compacted = true → s.offset ≤ headSize s.maxBytes) →
    s.offset ≤ (content s).length ∧ s.view = decode (((content s).take s.offset).drop s.shownFrom)
  absent : s.file = none → s.offset = 0 ∧ s.view = []
  missing : ∀ maxBytes, s.polling = some (maxBytes, none) → s.offset = 0 ∧ s.view = []
  present : ∀ maxBytes size, s.polling = some (maxBytes, some size) → s.file ≠ none

theorem deltaStart_outOfReach {size offset maxBytes : Nat} (h : OutOfReach size offset maxBytes) :
    (deltaStart size offset (readLimit maxBytes)).start = size - readLimit maxBytes ∧
      (deltaStart size offset (readLimit maxBytes)).reset = true := by
  rw [deltaStart]
  rcases h with hbehind | hfar
  · simp only [hbehind, decide_true, if_true, Nat.sub_zero]
    split
    · exact ⟨rfl, rfl⟩
    · exact ⟨by dsimp only; omega, rfl⟩
  · have hfront : ¬ size < offset := by omega
    simp only [hfront, decide_false, Bool.false_eq_true, if_false, if_pos hfar, and_self]

theorem deltaStart_inReach {size offset maxBytes : Nat} (h : ¬ OutOfReach size offset maxBytes) :
    deltaStart size offset (readLimit maxBytes) = ⟨offset, false, false⟩ := by
  obtain ⟨hfront, hnear⟩ := not_or.mp h
  simp only [deltaStart, hfront, decide_false, Bool.false_eq_true, if_false, if_neg hnear]

theorem receive_of_inReach {s : LiveLog} {file : Bytes} {maxBytes size : Nat} (hfile : s.file = some file)
    (hreach : ¬ OutOfReach size s.offset maxBytes) :
    receive s maxBytes (some size) =
      { s with
        offset := s.offset + ((file.drop s.offset).take (readLimit maxBytes)).length
        view := s.view ++ decode ((file.drop s.offset).take (readLimit maxBytes))
        polling := none
        compacted := false } := by
  simp only [receive, readRunLogDelta, hfile, deltaStart_inReach hreach, Bool.false_eq_true, if_false]

theorem receive_of_outOfReach {s : LiveLog} {file : Bytes} {maxBytes size : Nat} (hfile : s.file = some file)
    (hreach : OutOfReach size s.offset maxBytes) :
    receive s maxBytes (some size) =
      { s with
        offset := size - readLimit maxBytes +
          ((file.drop (size - readLimit maxBytes)).take (readLimit maxBytes)).length
        view := decode ((file.drop (size - readLimit maxBytes)).take (readLimit maxBytes))
        polling := none
        shownFrom := size - readLimit maxBytes
        compacted := false } := by
  obtain ⟨hstart, hreset⟩ := deltaStart_outOfReach hreach
  simp only [receive, readRunLogDelta, hfile, hreset, hstart, startOf, if_true]

theorem content_of_file {s : LiveLog} {file : Bytes} (hfile : s.file = some file) : content s = file := by
  rw [content, hfile]
  rfl

theorem take_length_take {α : Type} (xs : List α) (n : Nat) : xs.take (xs.take n).length = xs.take n := by
  rw [List.length_take, List.take_eq_take_min, List.take_eq_take_min (i := n)]
  congr 1
  omega

/-- What is read from position `b` on extends what lies between `a` and `b`. -/
theorem extend_window {α : Type} (xs : List α) {a b : Nat} (hab : a ≤ b) (hb : b ≤ xs.length) (n : Nat) :
    (xs.take b).drop a ++ (xs.drop b).take n = (xs.take (b + ((xs.drop b).take n).length)).drop a := by
  have hlen : (xs.take b).length = b := by
    rw [List.length_take]
    omega
  rw [List.take_add, take_length_take, List.drop_append_of_le_length (by omega)]

theorem init_follows (maxBytes : Nat) (file : Option Bytes) : Follows (initial maxBytes file) where
  begins := Nat.le_refl _
  shown _ := ⟨Nat.zero_le _, rfl⟩
  absent _ := ⟨rfl, rfl⟩
  missing := by simp [initial]
  present := by simp [initial]

namespace Follows

variable {s t : LiveLog}

theorem create (h : Follows s) : Follows { s with file := some (s.file.getD []) } where
  begins := h.begins
  shown := h.shown
  absent hnone := nomatch hnone
  missing := h.missing
  present _ _ _ := nofun

theorem write (h : Follows s) {file : Bytes} (hfile : s.file = some file) (data : Bytes) :
    Follows { s with file := some (file ++ data) } where
  begins := h.begins
  shown hkept := by
    obtain ⟨hle, hview⟩ := h.shown hkept
    have hcontent := content_of_file hfile
    rw [hcontent] at hle hview
    refine ⟨?_, ?_⟩
    · simp only [content, Option.getD_some, List.length_append]
      omega
    · simp only [content, Option.getD_some, List.take_append_of_le_length hle]
      exact hview
  absent hnone := nomatch hnone
  missing := h.missing
  present _ _ _ := nofun

/-- A compaction keeps the first bytes of the file, so a client that has not
read beyond them still finds them. -/
theorem compact (h : Follows s) {file : Bytes} (hfile : s.file = some file) :
    Follows { s with
      file := some (compactRunLog file s.maxBytes)
      compacted := s.compacted || decide (0 < s.maxBytes ∧ s.maxBytes + compactMargin < file.length) } where
  begins := h.begins
  shown hkept := by
    have hcontent := content_of_file hfile
    by_cases hlong : 0 < s.maxBytes ∧ s.maxBytes + compactMargin < file.length
    · have hhead : s.offset ≤ headSize s.maxBytes := hkept (by simp [hlong])
      obtain ⟨-, hview⟩ := h.shown (fun _ => hhead)
      have hsizes := sizes_le s.maxBytes
      have hnew : compactRunLog file s.maxBytes =
          elide truncationMarker (headSize s.maxBytes) (tailSize s.maxBytes) file := by
        rw [compactRunLog, if_neg (by omega), if_neg (by omega)]
      simp only [content, Option.getD_some, hnew]
      rw [take_elide hhead (by omega), length_elide (by omega)]
      rw [hcontent] at hview
      exact ⟨by omega, hview⟩
    · have hsame : compactRunLog file s.maxBytes = file := by
        rw [compactRunLog]
        split
        · rfl
        · exact if_pos (by omega)
      have hkept' : s.compacted = true → s.offset ≤ headSize s.maxBytes := by
        intro hcompacted
        exact hkept (by simp [hcompacted])
      have hshown := h.shown hkept'
      rw [hcontent] at hshown
      simpa only [content, Option.getD_some, hsame] using hshown
  absent hnone := nomatch hnone
  missing := h.missing
  present _ _ _ := nofun

theorem stat (h : Follows s) (maxBytes : Nat) :
    Follows { s with polling := some (maxBytes, s.file.map List.length) } where
  begins := h.begins
  shown := h.shown
  absent := h.absent
  missing m hpolling := by
    simp only [Option.some.injEq, Prod.mk.injEq, Option.map_eq_none_iff] at hpolling
    exact h.absent hpolling.2
  present m size hpolling hnone := by
    dsimp only at hnone
    simp [hnone] at hpolling

/-- After an answer nothing is in flight, and the client's view is a window of
the file that ends at its offset. -/
theorem of_window (hfile : s.file ≠ none) (hbegins : s.shownFrom ≤ s.offset) (hend : s.offset ≤ (content s).length)
    (hview : s.view = decode (((content s).take s.offset).drop s.shownFrom)) (hidle : s.polling = none) :
    Follows s ∧ Current s := by
  refine ⟨⟨hbegins, fun _ => ⟨hend, hview⟩, fun hnone => absurd hnone hfile, ?_, ?_⟩, hend, s.shownFrom, hview⟩
  · intro m hpolling
    rw [hidle] at hpolling
    nomatch hpolling
  · intro m size hpolling
    rw [hidle] at hpolling
    nomatch hpolling

/-- A poll that finds no file leaves the empty view as it is. -/
theorem receive_missing (h : Follows s) {maxBytes : Nat} (hpolling : s.polling = some (maxBytes, none)) :
    Follows (receive s maxBytes none) ∧ Current (receive s maxBytes none) := by
  obtain ⟨hoffset, hview⟩ := h.missing maxBytes hpolling
  have hbegins := h.begins
  have hfrom : s.shownFrom = 0 := by omega
  have hreceive : receive s maxBytes none = { s with polling := none, compacted := false } := by
    simp [receive, readRunLogDelta, hoffset, hview]
  rw [hreceive]
  have hempty : s.view = decode (((content s).take s.offset).drop s.shownFrom) := by
    rw [hview, hoffset, List.take_zero, List.drop_nil]
    rfl
  have hend : s.offset ≤ (content s).length := by omega
  refine ⟨⟨h.begins, fun _ => ⟨hend, hempty⟩, h.absent, nofun, nofun⟩, hend, s.shownFrom, hempty⟩

theorem receive_outOfReach (h : Follows s) {maxBytes size : Nat} (hpolling : s.polling = some (maxBytes, some size))
    (hreach : OutOfReach size s.offset maxBytes) (htail : size - readLimit maxBytes ≤ (content s).length) :
    Follows (receive s maxBytes (some size)) ∧ Current (receive s maxBytes (some size)) := by
  obtain ⟨file, hfile⟩ := Option.ne_none_iff_exists'.mp (h.present maxBytes size hpolling)
  have hcontent := content_of_file hfile
  rw [hcontent] at htail
  rw [receive_of_outOfReach hfile hreach]
  have hwindow := extend_window file (Nat.le_refl _) htail (readLimit maxBytes)
  rw [List.drop_take, Nat.sub_self, List.take_zero, List.nil_append] at hwindow
  apply of_window
  · rw [hfile]
    nofun
  · exact Nat.le_add_right _ _
  · simp only [content, hfile, Option.getD_some, List.length_take, List.length_drop]
    omega
  · simp only [content, hfile, Option.getD_some, ← hwindow]
  · rfl

theorem receive_inReach (h : Follows s) {maxBytes size : Nat} (hpolling : s.polling = some (maxBytes, some size))
    (hreach : ¬ OutOfReach size s.offset maxBytes) (hcontinue : Continuable s) :
    Follows (receive s maxBytes (some size)) ∧ Current (receive s maxBytes (some size)) := by
  obtain ⟨file, hfile⟩ := Option.ne_none_iff_exists'.mp (h.present maxBytes size hpolling)
  have hcontent := content_of_file hfile
  obtain ⟨hkept, hcut⟩ := hcontinue
  obtain ⟨hend, hview⟩ := h.shown hkept
  rw [hcontent] at hend hview hcut
  rw [receive_of_inReach hfile hreach]
  have hcut' : ¬ Cut ((file.take s.offset).drop s.shownFrom) ((file.drop s.offset).take (readLimit maxBytes)) := by
    rintro ⟨p, hp, y, hy, hcontinues⟩
    have hlimit : readLimit maxBytes ≠ 0 := by
      rw [readLimit]
      omega
    rw [List.head?_take, if_neg hlimit] at hy
    exact hcut ⟨p, hp, y, hy, hcontinues⟩
  apply of_window
  · rw [hfile]
    nofun
  · exact Nat.le_trans h.begins (Nat.le_add_right _ _)
  · simp only [content, hfile, Option.getD_some, List.length_take, List.length_drop]
    omega
  · simp only [content, hfile, Option.getD_some]
    rw [← extend_window file h.begins hend, (decode_append_iff _ _).mpr hcut', hview]
  · rfl

/-- The window that the answer leaves is the one that the poll asked for. -/
theorem delivers (h : Follows s) {maxBytes : Nat} {size : Option Nat} (hpolling : s.polling = some (maxBytes, size))
    (hcond : Undisturbed s .read) : Follows (receive s maxBytes size) ∧ Delivers s (receive s maxBytes size) := by
  cases size with
  | none =>
      obtain ⟨hfollows, hcurrent⟩ := h.receive_missing hpolling
      obtain ⟨hoffset, hview⟩ := h.missing maxBytes hpolling
      have hreceive : receive s maxBytes none = { s with polling := none, compacted := false } := by
        simp [receive, readRunLogDelta, hoffset, hview]
      refine ⟨hfollows, rfl, hfollows.shown (fun hcompacted => nomatch hcompacted), ?_, ?_, ?_⟩
      · intro bound size hsize
        rw [hpolling] at hsize
        cases hsize
      · intro bound size hsize
        rw [hpolling] at hsize
        cases hsize
      · intro bound _
        rw [hreceive]
        exact ⟨hoffset, hview⟩
  | some size =>
      obtain ⟨htail, hcontinue⟩ := hcond _ hpolling size rfl
      obtain ⟨file, hfile⟩ := Option.ne_none_iff_exists'.mp (h.present maxBytes size hpolling)
      have hcontent := content_of_file hfile
      by_cases hreach : OutOfReach size s.offset maxBytes
      · have hfollows := (h.receive_outOfReach hpolling hreach (htail hreach)).1
        refine ⟨hfollows, rfl, hfollows.shown (fun hcompacted => nomatch hcompacted), ?_, ?_, ?_⟩
        · intro bound other hother hnot
          rw [hpolling] at hother
          cases hother
          exact absurd hreach hnot
        · intro bound other hother _
          rw [hpolling] at hother
          cases hother
          have hstart : size - readLimit maxBytes ≤ (content s).length := htail hreach
          rw [receive_of_outOfReach hfile hreach, hcontent]
          rw [hcontent] at hstart
          refine ⟨rfl, ?_⟩
          simp only [List.length_take, List.length_drop]
          omega
        · intro bound hnone
          rw [hpolling] at hnone
          cases hnone
      · have hfollows := (h.receive_inReach hpolling hreach (hcontinue hreach)).1
        refine ⟨hfollows, rfl, hfollows.shown (fun hcompacted => nomatch hcompacted), ?_, ?_, ?_⟩
        · intro bound other hother _
          rw [hpolling] at hother
          cases hother
          have hend := (h.shown (hcontinue hreach).1).1
          rw [receive_of_inReach hfile hreach, hcontent]
          rw [hcontent] at hend
          refine ⟨rfl, ?_⟩
          simp only [List.length_take, List.length_drop]
          omega
        · intro bound other hother hfar
          rw [hpolling] at hother
          cases hother
          exact absurd hfar hreach
        · intro bound hnone
          rw [hpolling] at hnone
          cases hnone

theorem read (h : Follows s) (ht : logNext s .read = some t) (hcond : Undisturbed s .read) :
    Follows t ∧ Delivers s t := by
  obtain ⟨⟨maxBytes, size⟩, hpolling, rfl⟩ := Option.map_eq_some_iff.mp ht
  exact h.delivers hpolling hcond

theorem next (h : Follows s) {e : LogEvent} (ht : logNext s e = some t) (hcond : Undisturbed s e) : Follows t := by
  cases e with
  | create => cases ht; exact h.create
  | write data =>
      obtain ⟨file, hfile, rfl⟩ := Option.map_eq_some_iff.mp ht
      exact h.write hfile data
  | compact =>
      obtain ⟨file, hfile, rfl⟩ := Option.map_eq_some_iff.mp ht
      exact h.compact hfile
  | stat maxBytes =>
      rw [logNext] at ht
      split at ht
      · cases ht; exact h.stat maxBytes
      · nomatch ht
  | read => exact (h.read ht hcond).1

end Follows

/-- After every poll of an undisturbed history the client sees the end of the
file as it is then, and each poll adds the bytes that follow. -/
theorem view_current {maxBytes : Nat} {file : Option Bytes} {es : List LogEvent} {s t : LiveLog}
    (h : History (meeting (graph logNext) Undisturbed) (initial maxBytes file) es s)
    (hread : logNext s .read = some t) (hcond : Undisturbed s .read) : Current t ∧ Delivers s t := by
  have hfollows : Follows s :=
    h.invariant Follows (init_follows maxBytes file) fun _ _ _ hs hstep => hs.next hstep.1 hstep.2
  have hdelivers := (hfollows.read hread hcond).2
  exact ⟨⟨hdelivers.shown.1, t.shownFrom, hdelivers.shown.2⟩, hdelivers⟩

/-- Two polls, one before and one after the second of two writes. -/
def twoPolls : List LogEvent := [.create, .write [0xE2, 0x82, 0xAC], .stat 0, .read, .write [97], .stat 0]

theorem view_current_of_twoPolls : ∃ s t, exec logNext (initial (1024 * 1024) none) twoPolls = some s ∧
    logNext s .read = some t ∧ (Current t ∧ Delivers s t) ∧ s.view = ['€'] ∧ t.view = ['€', 'a'] :=
  ⟨_, _, rfl, rfl, view_current (@history_of_along _ _ _ _ _ _ twoPolls rfl (by decide)) rfl (by decide), by decide,
    by decide⟩

/-- A poll between the bytes of a character: its three bytes become three
replacement characters. -/
theorem view_stale_of_cut :
    ¬ ∀ (maxBytes : Nat) (file : Option Bytes) (es : List LogEvent) (s t : LiveLog),
      History (graph logNext) (initial maxBytes file) es s → logNext s .read = some t → Current t := by
  intro hclaim
  have hpolls : History (graph logNext) (initial (1024 * 1024) none)
      [.create, .write [0xE2], .stat 0, .read, .write [0x82, 0xAC], .stat 0] _ := history_of_exec rfl
  obtain ⟨-, first, hview⟩ := hclaim _ _ _ _ _ hpolls rfl
  have hnone : ∀ k < 4, decode ([0xE2] : Bytes) ++ decode [0x82, 0xAC] ≠
      decode (([0xE2, 0x82, 0xAC] : Bytes).drop k) := by
    decide
  rcases Nat.lt_or_ge first 3 with hlt | hge
  · exact hnone first (by omega) hview
  · refine hnone 3 (by decide) ?_
    rw [List.drop_eq_nil_of_le hge] at hview
    exact hview

/-- A poll, a compaction and a second poll that can use its offset: the client
keeps what it has and goes on from there. -/
theorem poll_after_compaction (maxBytes bound : Nat) {xs ys file : Bytes}
    (hfile : compactRunLog (xs ++ ys) maxBytes = file) (hfirst : xs.length ≤ readLimit bound)
    (hback : xs.length ≤ file.length) (hnear : file.length - xs.length ≤ readLimit bound) :
    ∃ s t, History (graph logNext) (initial maxBytes none)
        [.create, .write xs, .stat bound, .read, .write ys, .compact, .stat bound] s ∧ logNext s .read = some t ∧
      content t = file ∧ t.offset = file.length ∧ t.view = decode xs ++ decode (file.drop xs.length) := by
  let s₀ : LiveLog := { initial maxBytes (some xs) with polling := some (bound, some xs.length) }
  let s₁ : LiveLog := { initial maxBytes (some xs) with offset := xs.length, view := decode xs }
  have hreach : ¬ OutOfReach xs.length 0 bound := by
    rw [OutOfReach]
    omega
  have hread : receive s₀ bound (some xs.length) = s₁ := by
    rw [receive_of_inReach rfl hreach]
    simp [s₀, s₁, initial, List.take_of_length_le hfirst]
  let s₂ : LiveLog :=
    { s₁ with
      file := some file
      polling := some (bound, some file.length)
      compacted := decide (0 < maxBytes ∧ maxBytes + compactMargin < (xs ++ ys).length) }
  have hcompact : logNext { s₁ with file := some (xs ++ ys) } .compact =
      some { s₁ with
        file := some file
        compacted := decide (0 < maxBytes ∧ maxBytes + compactMargin < (xs ++ ys).length) } := by
    rw [← hfile]
    simp [logNext, s₁, initial]
  have hreach₂ : ¬ OutOfReach file.length s₂.offset bound := by
    simp only [OutOfReach, s₂, s₁]
    omega
  refine ⟨s₂, receive s₂ bound (some file.length), ?_, rfl, ?_⟩
  · have hstart : History (graph logNext) (initial maxBytes none) [.create, .write xs, .stat bound] s₀ :=
      history_of_exec rfl
    have hpoll : graph logNext s₀ .read s₁ := congrArg some hread
    exact hstart.append (.cons hpoll (.cons rfl (.cons hcompact (.single rfl))))
  · have hrest : (file.drop xs.length).take (readLimit bound) = file.drop xs.length := by
      apply List.take_of_length_le
      rw [List.length_drop]
      exact hnear
    rw [@receive_of_inReach s₂ file _ _ rfl hreach₂]
    refine ⟨rfl, ?_, ?_⟩
    · simp only [s₂, s₁, hrest, List.length_drop]
      omega
    · simp only [s₂, s₁, hrest]

/-- A rewritten file whose head ends before the client's offset. -/
theorem elide_replicate {m : Nat} (a b : UInt8) {k n : Nat} (hm : m ≤ n) :
    elide truncationMarker k m (List.replicate (k + 1) a ++ List.replicate n b) =
      List.replicate k a ++ (truncationMarker ++ List.replicate m b) := by
  have hfirst : (List.replicate (k + 1) a ++ List.replicate n b).take k = List.replicate k a := by
    rw [List.take_append_of_le_length (by simp), List.take_replicate, Nat.min_eq_left (Nat.le_succ k)]
  have hlast : lastN m (List.replicate (k + 1) a ++ List.replicate n b) = List.replicate m b := by
    rw [lastN_append_of_le _ (by simpa using hm), lastN, List.drop_replicate, List.length_replicate,
      Nat.sub_sub_self hm]
  rw [elide, hfirst, hlast, List.append_assoc]

theorem length_decode_marker_append (m : Nat) :
    m ≤ (decode (truncationMarker ++ List.replicate m (UInt8.ofNat 98))).length := by
  have hcut : ¬ Cut truncationMarker (List.replicate m (UInt8.ofNat 98)) := by
    rintro ⟨p, -, y, hy, hlow, -⟩
    have hlowest := p.lowest
    have hbyte : y = UInt8.ofNat 98 := List.eq_of_mem_replicate (List.mem_of_mem_head? hy)
    rw [hbyte, toNat_ofNat (by decide)] at hlow
    omega
  rw [(decode_append_iff _ _).mpr hcut, decode_replicate (by decide), List.length_append, List.length_replicate]
  omega

/-- No end of that file reads like a view that goes on from the client's
offset: the view has one character of the old file too many. -/
theorem decode_drop_ne (k m first : Nat) (hk : 183 ≤ k) :
    decode (List.replicate (k + 1) (UInt8.ofNat 97)) ++
        decode ((List.replicate k (UInt8.ofNat 97) ++
          (truncationMarker ++ List.replicate m (UInt8.ofNat 98))).drop (k + 1)) ≠
      decode ((List.replicate k (UInt8.ofNat 97) ++
        (truncationMarker ++ List.replicate m (UInt8.ofNat 98))).drop first) := by
  obtain ⟨rest, hrest⟩ : ∃ rest, truncationMarker ++ List.replicate m (UInt8.ofNat 98) = UInt8.ofNat 10 :: rest :=
    ⟨_, by rw [marker_eq]; rfl⟩
  have hlong := length_decode_marker_append m
  have hlen := congrArg List.length hrest
  have hold (n : Nat) (bs : Bytes) := decode_replicate_append (show 97 < 0x80 by decide) n bs
  have hnew : decode (UInt8.ofNat 10 :: rest) = Char.ofNat 10 :: decode rest := decode_one (by decide) rest
  have hview := decode_replicate (show 97 < 0x80 by decide) (k + 1)
  have hdrop : (List.replicate k (UInt8.ofNat 97) ++ UInt8.ofNat 10 :: rest).drop (k + 1) = rest := by
    rw [List.drop_append, List.drop_eq_nil_of_le (by simp), List.length_replicate, Nat.add_sub_cancel_left]
    rfl
  rw [List.length_append, List.length_replicate, length_truncationMarker, List.length_cons] at hlen
  rw [hrest, hnew, List.length_cons] at hlong
  rw [hrest, hview, hdrop]
  intro heq
  have hcount := congrArg List.length heq
  rw [List.length_append, List.length_replicate] at hcount
  rcases Nat.lt_or_ge k first with hbehind | hinside
  · have hle := length_decode_le ((List.replicate k (UInt8.ofNat 97) ++ UInt8.ofNat 10 :: rest).drop first)
    simp only [List.length_drop, List.length_append, List.length_replicate, List.length_cons] at hle
    omega
  · have hsplit : (List.replicate k (UInt8.ofNat 97) ++ UInt8.ofNat 10 :: rest).drop first =
        List.replicate (k - first) (UInt8.ofNat 97) ++ UInt8.ofNat 10 :: rest := by
      rw [List.drop_append_of_le_length (by rwa [List.length_replicate]), List.drop_replicate]
    rw [hsplit, hold, hnew, List.length_append, List.length_replicate, List.length_cons] at hcount
    have hzero : first = 0 := by omega
    rw [hsplit, hold, hnew, hzero, Nat.sub_zero, List.replicate_succ', List.append_assoc,
      List.append_cancel_left_eq] at heq
    nomatch heq

/-- A file that is rewritten and still reaches beyond the offset of the client:
the client goes on from that offset and misses the marker. -/
theorem view_stale_of_compaction {maxBytes : Nat} (hmax : 1024 * 1024 ≤ maxBytes) :
    ∃ es s t, History (graph logNext) (initial maxBytes none) es s ∧ logNext s .read = some t ∧ ¬ Current t := by
  obtain ⟨k, hk⟩ : ∃ k, k = headSize maxBytes := ⟨_, rfl⟩
  have hhead : 183 ≤ k ∧ 2 * k + 184 ≤ maxBytes := by
    rw [hk, headSize, headBytes]
    omega
  have htail : tailSize maxBytes = maxBytes - k - 183 := by rw [tailSize, length_truncationMarker, hk]
  have hfile : compactRunLog
      (List.replicate (k + 1) (UInt8.ofNat 97) ++ List.replicate (maxBytes + compactMargin) (UInt8.ofNat 98)) maxBytes =
        List.replicate k (UInt8.ofNat 97) ++
          (truncationMarker ++ List.replicate (tailSize maxBytes) (UInt8.ofNat 98)) := by
    rw [compactRunLog, if_neg (by omega),
      if_neg (by simp only [List.length_append, List.length_replicate]; omega), ← hk]
    exact elide_replicate _ _ (by omega)
  have hlimit : maxBytes ≤ readLimit maxBytes := Nat.le_max_right _ _
  obtain ⟨s, t, hhistory, hread, hcontent, hoffset, hview⟩ :=
    poll_after_compaction maxBytes maxBytes hfile
      (by rw [List.length_replicate]; omega)
      (by simp only [List.length_append, List.length_replicate, length_truncationMarker]; omega)
      (by simp only [List.length_append, List.length_replicate, length_truncationMarker]; omega)
  refine ⟨_, s, t, hhistory, hread, ?_⟩
  rintro ⟨-, first, hcurrent⟩
  rw [hview, hcontent, hoffset, List.take_length, List.length_replicate] at hcurrent
  exact decode_drop_ne k _ first hhead.1 hcurrent

end BorgManager.LiveLogs
