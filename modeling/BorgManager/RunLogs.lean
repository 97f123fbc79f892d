import BorgManager.ElidedLogs
import BorgManager.Histories

namespace BorgManager.RunLogs

open ElidedLogs Histories

abbrev Bytes := List UInt8

def truncationText : String :=
  "\n\n================ PROTOKOLL GEKÜRZT ================\n" ++
  "Der mittlere Teil wurde wegen der konfigurierten Maximalgröße entfernt.\n" ++
  "====================================================\n\n"

/-- `text.encode("utf-8")`. -/
def encode (text : String) : Bytes := text.toByteArray.data.toList

def truncationMarker : Bytes := encode truncationText

def headBytes : Nat := 64 * 1024

def compactMargin : Nat := 1024 * 1024

def headSize (maxBytes : Nat) : Nat := min headBytes (maxBytes / 4)

def tailSize (maxBytes : Nat) : Nat := maxBytes - headSize maxBytes - truncationMarker.length

theorem length_truncationMarker : truncationMarker.length = 183 := by decide +kernel

theorem marker_eq : truncationMarker = 10 :: truncationMarker.tail := by decide +kernel

/-- `_compact_run_log` on the content of the log file. -/
def compactRunLog (file : Bytes) (maxBytes : Nat) : Bytes :=
  if maxBytes = 0 then file
  else if file.length ≤ maxBytes + compactMargin then file
  else elide truncationMarker (headSize maxBytes) (tailSize maxBytes) file

/-- A log writer, its pending bytes, and the file it appends to. `handle` says
whether the file is open, `lastFlush` is a reading of the writer's clock. -/
structure RunLogWriter where
  maxBytes : Nat
  bufferBytes : Nat
  flushInterval : Int
  file : Bytes
  buffer : Bytes
  handle : Bool
  lastFlush : Int
  closed : Bool
  writtenSize : Nat

namespace RunLogWriter

def openFile (w : RunLogWriter) : RunLogWriter :=
  { w with handle := true, writtenSize := w.file.length }

def init (file : Bytes) (maxBytes bufferBytes : Nat) (flushInterval now : Int) : RunLogWriter :=
  openFile
    { maxBytes := maxBytes, bufferBytes := max 4096 bufferBytes, flushInterval := max 0 flushInterval, file := file,
      buffer := [], handle := false, lastFlush := now, closed := false, writtenSize := 0 }

/-- The first half of `flush`: the pending bytes reach the file. -/
def writeBuffer (w : RunLogWriter) (now : Int) : RunLogWriter :=
  { w with file := w.file ++ w.buffer, writtenSize := w.writtenSize + w.buffer.length, buffer := [], lastFlush := now }

/-- The second half of `flush`: a file that has grown too long is compacted
and opened again. -/
def compactWritten (w : RunLogWriter) : RunLogWriter :=
  if 0 < w.maxBytes ∧ w.maxBytes + compactMargin < w.writtenSize then
    openFile { w with handle := false, file := compactRunLog w.file w.maxBytes }
  else w

def flush (w : RunLogWriter) (now : Int) : RunLogWriter :=
  if w.closed = true ∨ w.buffer = [] then w
  else compactWritten (writeBuffer (if w.handle then w else openFile w) now)

def appendBytes (w : RunLogWriter) (data : Bytes) (now : Int) : RunLogWriter :=
  if w.closed = true ∨ data = [] then w
  else
    let w' := { w with buffer := w.buffer ++ data }
    if w'.bufferBytes ≤ w'.buffer.length ∨ w'.flushInterval ≤ now - w'.lastFlush then flush w' now else w'

def append (w : RunLogWriter) (text : String) (now : Int) : RunLogWriter :=
  if text = "" then w else appendBytes w (encode text) now

def flushIfDue (w : RunLogWriter) (now : Int) : RunLogWriter :=
  if w.closed = true ∨ w.buffer = [] then w
  else if now - w.lastFlush < w.flushInterval then w
  else flush w now

def close (w : RunLogWriter) (now : Int) : RunLogWriter :=
  if w.closed then w else { flush w now with handle := false, closed := true }

end RunLogWriter

/-- The calls of a writer. Each carries the reading of the clock that it makes. -/
inductive WriterCall
  | appendBytes (data : Bytes) (now : Int)
  | flush (now : Int)
  | flushIfDue (now : Int)
  | close (now : Int)

def call (w : RunLogWriter) : WriterCall → RunLogWriter
  | .appendBytes data now => w.appendBytes data now
  | .flush now => w.flush now
  | .flushIfDue now => w.flushIfDue now
  | .close now => w.close now

def runCalls (w : RunLogWriter) (calls : List WriterCall) : RunLogWriter := calls.foldl call w

/-- Everything that is passed to `append_bytes`. -/
def totalInput : List WriterCall → Bytes
  | [] => []
  | .appendBytes data _ :: calls => data ++ totalInput calls
  | _ :: calls => totalInput calls

/-- What is passed to `append_bytes` before the writer is closed. -/
def acceptedInput : List WriterCall → Bytes
  | [] => []
  | .appendBytes data _ :: calls => data ++ acceptedInput calls
  | .close _ :: _ => []
  | _ :: calls => acceptedInput calls

/-- The writer has taken the stream `s`. -/
structure Keeps (s : Bytes) (w : RunLogWriter) : Prop where
  limited : 0 < w.maxBytes
  sized : w.writtenSize = w.file.length
  bounded : w.file.length ≤ w.maxBytes + compactMargin
  shows : Shows truncationMarker (headSize w.maxBytes) s (w.file ++ w.buffer)

variable {s : Bytes} {w : RunLogWriter}

theorem sizes_le (maxBytes : Nat) :
    headSize maxBytes + truncationMarker.length + tailSize maxBytes ≤ maxBytes + compactMargin := by
  have hmarker := length_truncationMarker
  simp only [tailSize, headSize, headBytes, compactMargin]
  omega

theorem length_compactRunLog_le {file : Bytes} {maxBytes : Nat} (hmax : 0 < maxBytes) :
    (compactRunLog file maxBytes).length ≤ maxBytes + compactMargin := by
  rw [compactRunLog, if_neg (by omega)]
  split
  · assumption
  · have hsizes := sizes_le maxBytes
    rw [length_elide (by omega)]
    exact hsizes

theorem shows_compactRunLog {file : Bytes} {maxBytes : Nat}
    (hs : Shows truncationMarker (headSize maxBytes) s file) :
    Shows truncationMarker (headSize maxBytes) s (compactRunLog file maxBytes) := by
  rw [compactRunLog]
  split
  · exact hs
  · split
    · exact hs
    · have hsizes := sizes_le maxBytes
      exact hs.elide (by omega)

namespace Keeps

theorem openFile (h : Keeps s w) : Keeps s w.openFile := ⟨h.limited, rfl, h.bounded, h.shows⟩

theorem compactWritten (hlimited : 0 < w.maxBytes) (hsized : w.writtenSize = w.file.length) (hbuffer : w.buffer = [])
    (hshows : Shows truncationMarker (headSize w.maxBytes) s w.file) : Keeps s w.compactWritten := by
  rw [RunLogWriter.compactWritten]
  split
  · refine ⟨hlimited, rfl, length_compactRunLog_le hlimited, ?_⟩
    have hcompact := shows_compactRunLog hshows
    simpa [RunLogWriter.openFile, hbuffer] using hcompact
  · refine ⟨hlimited, hsized, by omega, ?_⟩
    rw [hbuffer, List.append_nil]
    exact hshows

/-- One flush: the pending bytes extend the file, which is compacted if it has
grown beyond its limit. -/
theorem flush (h : Keeps s w) (now : Int) : Keeps s (w.flush now) := by
  rw [RunLogWriter.flush]
  split
  · exact h
  have hopen : Keeps s (if w.handle then w else w.openFile) := by
    split
    · exact h
    · exact h.openFile
  generalize (if w.handle then w else w.openFile) = v at hopen
  apply compactWritten
  · exact hopen.limited
  · simp only [RunLogWriter.writeBuffer, List.length_append, hopen.sized]
  · rfl
  · exact hopen.shows

theorem appendBytes (h : Keeps s w) (hopen : w.closed = false) (data : Bytes) (now : Int) :
    Keeps (s ++ data) (w.appendBytes data now) := by
  have hpending : Keeps (s ++ data) { w with buffer := w.buffer ++ data } := by
    refine ⟨h.limited, h.sized, h.bounded, ?_⟩
    rw [← List.append_assoc]
    exact h.shows.append data
  rw [RunLogWriter.appendBytes]
  split
  · next hskip =>
    have hnil : data = [] := by
      rcases hskip with hclosed | hnil
      · rw [hopen] at hclosed
        nomatch hclosed
      · exact hnil
    rw [hnil, List.append_nil]
    exact h
  · dsimp only
    split
    · exact hpending.flush now
    · exact hpending

theorem flushIfDue (h : Keeps s w) (now : Int) : Keeps s (w.flushIfDue now) := by
  rw [RunLogWriter.flushIfDue]
  split
  · exact h
  · split
    · exact h
    · exact h.flush now

theorem close (h : Keeps s w) (now : Int) : Keeps s (w.close now) := by
  rw [RunLogWriter.close]
  split
  · exact h
  · exact ⟨(h.flush now).limited, (h.flush now).sized, (h.flush now).bounded, (h.flush now).shows⟩

end Keeps

theorem closed_call (h : w.closed = true) (c : WriterCall) : call w c = w := by
  cases c <;> simp [call, RunLogWriter.appendBytes, RunLogWriter.flush, RunLogWriter.flushIfDue, RunLogWriter.close, h]

theorem closed_runCalls (h : w.closed = true) (calls : List WriterCall) : runCalls w calls = w := by
  induction calls with
  | nil => rfl
  | cons c calls ih => rw [runCalls, List.foldl_cons, closed_call h]; exact ih

@[simp] theorem closed_openFile (w : RunLogWriter) : w.openFile.closed = w.closed := rfl

@[simp] theorem closed_flush (w : RunLogWriter) (now : Int) : (w.flush now).closed = w.closed := by
  rw [RunLogWriter.flush]
  split
  · rfl
  · rw [RunLogWriter.compactWritten]
    split <;> split <;> rfl

@[simp] theorem closed_appendBytes (w : RunLogWriter) (data : Bytes) (now : Int) :
    (w.appendBytes data now).closed = w.closed := by
  rw [RunLogWriter.appendBytes]
  split
  · rfl
  · dsimp only
    split
    · rw [closed_flush]
    · rfl

@[simp] theorem closed_flushIfDue (w : RunLogWriter) (now : Int) : (w.flushIfDue now).closed = w.closed := by
  rw [RunLogWriter.flushIfDue]
  split
  · rfl
  · split
    · rfl
    · exact closed_flush w now

theorem closed_close (w : RunLogWriter) (now : Int) : (w.close now).closed = true := by
  rw [RunLogWriter.close]
  split
  · assumption
  · rfl

/-- A run of calls: the open writer takes the bytes that come before its
`close`. -/
theorem Keeps.runCalls (h : Keeps s w) (hopen : w.closed = false) (calls : List WriterCall) :
    Keeps (s ++ acceptedInput calls) (runCalls w calls) := by
  induction calls generalizing s w with
  | nil => rwa [acceptedInput, List.append_nil]
  | cons c calls ih =>
      rw [RunLogs.runCalls, List.foldl_cons]
      cases c with
      | appendBytes data now =>
          have hnext := ih (h.appendBytes hopen data now) ((closed_appendBytes w data now).trans hopen)
          rwa [List.append_assoc] at hnext
      | flush now => exact ih (h.flush now) ((closed_flush w now).trans hopen)
      | flushIfDue now => exact ih (h.flushIfDue now) ((closed_flushIfDue w now).trans hopen)
      | close now =>
          have hstay := closed_runCalls (closed_close w now) calls
          rw [RunLogs.runCalls] at hstay
          rw [acceptedInput, List.append_nil, call, hstay]
          exact h.close now

theorem keeps_init {maxBytes : Nat} (hmax : 0 < maxBytes) (bufferBytes : Nat) (flushInterval now : Int) :
    Keeps [] (RunLogWriter.init [] maxBytes bufferBytes flushInterval now) :=
  ⟨hmax, rfl, Nat.zero_le _, .refl _⟩

theorem maxBytes_flush (w : RunLogWriter) (now : Int) : (w.flush now).maxBytes = w.maxBytes := by
  rw [RunLogWriter.flush]
  split
  · rfl
  · rw [RunLogWriter.compactWritten]
    split <;> split <;> rfl

theorem maxBytes_call (w : RunLogWriter) (c : WriterCall) : (call w c).maxBytes = w.maxBytes := by
  cases c with
  | appendBytes data now =>
      rw [call, RunLogWriter.appendBytes]
      split
      · rfl
      · dsimp only
        split
        · rw [maxBytes_flush]
        · rfl
  | flush now => exact maxBytes_flush w now
  | flushIfDue now =>
      rw [call, RunLogWriter.flushIfDue]
      split
      · rfl
      · split
        · rfl
        · exact maxBytes_flush w now
  | close now =>
      rw [call, RunLogWriter.close]
      split
      · rfl
      · exact maxBytes_flush w now

theorem maxBytes_runCalls (w : RunLogWriter) (calls : List WriterCall) : (runCalls w calls).maxBytes = w.maxBytes := by
  induction calls generalizing w with
  | nil => rfl
  | cons c calls ih =>
      rw [runCalls, List.foldl_cons]
      exact (ih (call w c)).trans (maxBytes_call w c)

theorem file_flush (hsized : w.writtenSize = w.file.length) (now : Int) :
    (w.flush now).file = w.file ∨ (w.flush now).file = compactRunLog (w.file ++ w.buffer) w.maxBytes := by
  rw [RunLogWriter.flush]
  split
  · exact .inl rfl
  right
  have hopen : ∃ v, (if w.handle then w else w.openFile) = v ∧ v.file = w.file ∧ v.maxBytes = w.maxBytes ∧
      v.buffer = w.buffer ∧ v.writtenSize = v.file.length := by
    refine ⟨_, rfl, ?_⟩
    split
    · exact ⟨rfl, rfl, rfl, hsized⟩
    · exact ⟨rfl, rfl, rfl, rfl⟩
  obtain ⟨v, hv, hfile, hmax, hbuffer, hsize⟩ := hopen
  rw [hv, ← hfile, ← hmax, ← hbuffer, RunLogWriter.compactWritten]
  split
  · rfl
  · next hsmall =>
    have hshort : ¬ (0 < v.maxBytes ∧ v.maxBytes + compactMargin < (v.file ++ v.buffer).length) := by
      rw [List.length_append, ← hsize]
      exact hsmall
    rw [compactRunLog]
    split
    · rfl
    · rw [if_pos (by omega)]
      rfl

/-- What one call does to the file: nothing, or bytes are written to it and it
is compacted. -/
theorem file_call (hsized : w.writtenSize = w.file.length) (c : WriterCall) :
    (call w c).file = w.file ∨ ∃ data, (call w c).file = compactRunLog (w.file ++ data) w.maxBytes := by
  have hflush (v : RunLogWriter) (hfile : v.file = w.file) (hmax : v.maxBytes = w.maxBytes)
      (hv : v.writtenSize = w.writtenSize) (now : Int) :
      (v.flush now).file = w.file ∨ ∃ data, (v.flush now).file = compactRunLog (w.file ++ data) w.maxBytes := by
    rw [← hfile, ← hmax]
    rcases file_flush (by rw [hv, hsized, hfile]) now with hsame | hcompact
    · exact .inl hsame
    · exact .inr ⟨v.buffer, hcompact⟩
  cases c with
  | appendBytes data now =>
      rw [call, RunLogWriter.appendBytes]
      split
      · exact .inl rfl
      · dsimp only
        split
        · exact hflush { w with buffer := w.buffer ++ data } rfl rfl rfl now
        · exact .inl rfl
  | flush now => exact hflush w rfl rfl rfl now
  | flushIfDue now =>
      rw [call, RunLogWriter.flushIfDue]
      split
      · exact .inl rfl
      · split
        · exact .inl rfl
        · exact hflush w rfl rfl rfl now
  | close now =>
      rw [call, RunLogWriter.close]
      split
      · exact .inl rfl
      · exact hflush w rfl rfl rfl now

/-- The log of one writer shows all it was given before it was closed, or the
head of it, one marker and the end of it, and stays within its limit. -/
theorem log_shows_accepted_input {maxBytes : Nat} (hmax : 1024 * 1024 ≤ maxBytes) (bufferBytes : Nat)
    (flushInterval now : Int) (calls : List WriterCall) :
    Shows truncationMarker (min (64 * 1024) (maxBytes / 4)) (acceptedInput calls)
        ((runCalls (.init [] maxBytes bufferBytes flushInterval now) calls).file ++
          (runCalls (.init [] maxBytes bufferBytes flushInterval now) calls).buffer) ∧
      (runCalls (.init [] maxBytes bufferBytes flushInterval now) calls).file.length ≤ maxBytes + 1024 * 1024 := by
  have hkeeps := (keeps_init (show 0 < maxBytes by omega) bufferBytes flushInterval now).runCalls rfl calls
  have hlimit : (runCalls (.init [] maxBytes bufferBytes flushInterval now) calls).maxBytes = maxBytes :=
    maxBytes_runCalls _ calls
  have hshows := hkeeps.shows
  have hbounded := hkeeps.bounded
  rw [hlimit] at hshows hbounded
  exact ⟨hshows, hbounded⟩

def longChunk : Bytes := List.replicate (3 * 1024 * 1024) 97

theorem buffer_appendBytes_init {data : Bytes} (hdata : data ≠ []) (maxBytes bufferBytes : Nat) :
    (runCalls (.init [] maxBytes bufferBytes 0 0) [.appendBytes data 0]).buffer = [] := by
  simp only [runCalls, List.foldl_cons, List.foldl_nil, call, RunLogWriter.appendBytes, RunLogWriter.init,
    RunLogWriter.openFile,
    RunLogWriter.flush, RunLogWriter.compactWritten, RunLogWriter.writeBuffer]
  have hdue : max 4096 bufferBytes ≤ data.length ∨ max (0 : Int) 0 ≤ 0 - 0 := .inr (by decide)
  simp only [hdata, Bool.false_eq_true, or_self, if_false, List.nil_append, if_pos hdue, if_true]
  split
  · rfl
  · rfl

/-- Of a chunk that is longer than the limit the middle is left out. -/
theorem log_shows_accepted_input_of_long_chunk :
    ∃ head dropped tail, head.length = 64 * 1024 ∧ longChunk = head ++ dropped ++ tail ∧
      (runCalls (.init [] (1024 * 1024) 4096 0 0) [.appendBytes longChunk 0]).file = head ++
        truncationMarker ++ tail := by
  have hlength : longChunk.length = 3 * 1024 * 1024 := List.length_replicate
  have hdata : longChunk ≠ [] := List.ne_nil_of_length_pos (by omega)
  obtain ⟨hshows, hbounded⟩ := log_shows_accepted_input (Nat.le_refl (1024 * 1024)) 4096 0 0 [.appendBytes longChunk 0]
  rw [buffer_appendBytes_init hdata, List.append_nil] at hshows
  have haccepted : acceptedInput [.appendBytes longChunk 0] = longChunk := List.append_nil _
  rw [haccepted] at hshows
  rcases hshows with hall | ⟨head, dropped, tail, hhead, hsplit, hlog⟩
  · rw [hall, hlength] at hbounded
    omega
  · exact ⟨head, dropped, tail, hhead, hsplit, hlog⟩

/-- A closed writer ignores what it is given. -/
theorem log_omits_input_after_close :
    ¬ ∀ (maxBytes bufferBytes : Nat) (flushInterval now : Int) (calls : List WriterCall), 1024 * 1024 ≤ maxBytes →
      Shows truncationMarker (min (64 * 1024) (maxBytes / 4)) (totalInput calls)
        ((runCalls (.init [] maxBytes bufferBytes flushInterval now) calls).file ++
          (runCalls (.init [] maxBytes bufferBytes flushInterval now) calls).buffer) := by
  intro hclaim
  have hlog := hclaim (1024 * 1024) 4096 0 0 [.appendBytes [97] 0, .close 0, .appendBytes [98] 0] (Nat.le_refl _)
  have hshort : (runCalls (.init [] (1024 * 1024) 4096 0 0)
    [.appendBytes [97] 0, .close 0, .appendBytes [98] 0]).file ++
      (runCalls (.init [] (1024 * 1024) 4096 0 0) [.appendBytes [97] 0, .close 0, .appendBytes [98] 0]).buffer =
        [97] := by decide
  rw [hshort] at hlog
  rcases hlog with hall | ⟨head, dropped, tail, hlen, -, hlog⟩
  · nomatch hall
  · have hcount := congrArg List.length hlog
    simp only [List.length_append, List.length_singleton, hlen, length_truncationMarker] at hcount
    omega

end BorgManager.RunLogs
