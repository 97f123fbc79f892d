import BorgManager.NetworkStream
import BorgManager.RemoteOutput
import BorgManager.Utf8Decoding
import Mathlib.Order.MinMax

namespace BorgManager.RestoreProgress

open ByteLines BytePatterns
open NetworkStream (floatLimit)
open RemoteOutput (Runtime Json LoadError PyError Payload textOr truthyJson counter unsigned)

inductive Phase
  | preparing | restoring | permissions | finished | failed
  deriving DecidableEq

/-- `BorgRestoreProgress` -/
structure Progress (φ : Type) where
  phase : Phase
  processedBytes : Nat
  totalBytes : Nat
  processedFiles : Nat
  totalFiles : Nat
  path : String
  bytesPerSecond : φ
  etaSeconds : Option Int
  percent : Option φ

/-- The floats that are not `nan`, and the clock of the host: `ready a b` is
`max(0.0, b - a) >= 0.25`, `rate n a b` is `n / (b - a)`, `seconds n r` is
`int(round(n / r))` unless the quotient is infinite, and `percentage m n` is
`m / n * 100.0`. -/
structure Arithmetic (τ φ : Type) [LinearOrder φ] where
  zero : φ
  hundred : φ
  zero_le_hundred : zero ≤ hundred
  ready : τ → τ → Bool
  rate : Nat → τ → τ → φ
  seconds : Nat → φ → Option Int
  percentage : Nat → Nat → φ

/-- What the records count. -/
structure Counters where
  processedFiles : Nat
  totalFiles : Nat
  baselineTotalBytes : Nat

/-- The arguments of `_snapshot`. -/
structure Report where
  phase : Phase
  processedBytes : Option Nat
  totalBytes : Option Nat
  path : Option String
  finished : Bool

def Report.ofPhase (phase : Phase) : Report := ⟨phase, none, none, none, false⟩

/-- What a record is taken for: its text in the log, the counters after it, and
the snapshot that is taken, if one is. -/
structure Effect where
  output : List UInt8
  counters : Counters
  report : Option Report

section Records

variable (rt : Runtime)

/-- A text in UTF-8. -/
def encode (text : List Char) : List UInt8 := text.flatMap String.utf8EncodeChar

/-- `bytes.decode("utf-8", errors="strict")`; nothing stands for a `UnicodeDecodeError`. -/
def decodeStrict (bytes : List UInt8) : Option String :=
  if encode (Utf8Decoding.decode bytes) = bytes then some (String.ofList (Utf8Decoding.decode bytes)) else none

/-- `_human_line` -/
def humanLine (message : String) : List UInt8 :=
  let text := message.toList.rdropWhile (fun c => c == '\r' || c == '\n')
  if text = [] then [] else encode (text ++ ['\n'])

/-- A record that stays in the log. -/
def kept (record : List UInt8) : List UInt8 := record ++ [10]

/-- `_RESTORE_CONTROL_PREFIX` -/
def controlPrefix : List UInt8 := 0x1e :: bytesOf "BBMRESTORE\t".toList

/-- Only the digits of ASCII are digits of `int` over bytes. -/
def asciiDecimal (c : Char) : Option Nat := if c.isDigit then some (c.toNat - 48) else none

/-- `int` of bytes. -/
def intOfBytes (field : List UInt8) : Except PyError Int :=
  let digits := unsigned { rt with decimal := asciiDecimal }
  match PythonText.stripWhile isBlank (latin field) with
  | '-' :: text => (digits text).map (fun n => -n)
  | '+' :: text => digits text
  | text => digits text

/-- `decode("ascii", errors="ignore").upper()` -/
def command (field : List UInt8) : List Char := (latin (field.filter (fun b => b < 128))).map Char.toUpper

/-- `_control_record` -/
def controlRecord (c : Counters) (record : List UInt8) : Effect :=
  let fields := record.splitOn 9
  let word := command (fields.getD 1 [])
  if word = "PREPARING".toList then
    ⟨humanLine "RESTORE-VORBEREITUNG: Archivmetadaten werden ausgewertet.", c, some (.ofPhase .preparing)⟩
  else if word = "BASELINE".toList ∧ 4 ≤ fields.length then
    let unread := humanLine "WARNUNG: Restore-Basisdaten konnten nicht gelesen werden."
    match intOfBytes rt (fields.getD 2 []) with
    | .error _ => ⟨unread, c, none⟩
    | .ok files =>
        match intOfBytes rt (fields.getD 3 []) with
        | .error _ => ⟨unread, { c with totalFiles := files.toNat }, none⟩
        | .ok bytes =>
            ⟨humanLine ("RESTORE-BASIS: " ++ toString files.toNat ++ " Dateien/Objekte · " ++
              toString bytes.toNat ++ " Byte."),
              { c with totalFiles := files.toNat, baselineTotalBytes := bytes.toNat },
              some { Report.ofPhase .preparing with totalBytes := some bytes.toNat }⟩
  else if word = "RESTORING".toList then
    ⟨humanLine "RESTORE: Daten werden verarbeitet.", c, some (.ofPhase .restoring)⟩
  else if word = "FINISHED".toList then
    let returnCode :=
      if 2 < fields.length then
        match intOfBytes rt (fields.getD 2 []) with
        | .ok code => code
        | .error _ => 2
      else 0
    if returnCode = 0 ∨ returnCode = 1 then
      ⟨[], { c with processedFiles := max c.processedFiles c.totalFiles },
        some { Report.ofPhase .finished with finished := true }⟩
    else ⟨[], c, some (.ofPhase .failed)⟩
  else ⟨kept record, c, none⟩

/-- What a JSON object is taken for. -/
def payloadEffect (c : Counters) (payload : Payload) : Effect :=
  let kind := textOr rt (payload.get "type") ""
  let msgid := textOr rt (payload.get "msgid") ""
  let message := textOr rt (payload.get "message") ""
  if kind = "progress_percent" ∧ msgid = "extract" then
    if truthyJson (payload.get "finished") then ⟨[], c, some { Report.ofPhase .permissions with finished := true }⟩
    else
      match counter rt (payload.get "current"), counter rt (payload.get "total") with
      | .ok current, .ok total =>
          let path :=
            match payload.get "info" with
            | .list (first :: _) => textOr rt first ""
            | _ => ""
          ⟨[], c, some ⟨.restoring, some current.toNat, some total.toNat, some path, false⟩⟩
      | _, _ => ⟨[], c, none⟩
  else if kind = "progress_percent" ∧ msgid = "extract.permissions" then
    if truthyJson (payload.get "finished") then ⟨[], c, some { Report.ofPhase .finished with finished := true }⟩
    else ⟨[], c, some (.ofPhase .permissions)⟩
  else if kind = "progress_message" then ⟨humanLine message, c, none⟩
  else if kind = "log_message" then
    if textOr rt (payload.get "name") "" = "borg.output.list" then
      ⟨humanLine message, { c with processedFiles := c.processedFiles + 1 },
        some { Report.ofPhase .restoring with path := some message }⟩
    else ⟨humanLine message, c, none⟩
  else if kind = "question_prompt" then ⟨humanLine message, c, none⟩
  else ⟨[], c, none⟩

/-- The JSON of a record: the errors that `_json_record` expects are of a
decoding, and others leave it. -/
def load (record : List UInt8) : Except LoadError Json :=
  match decodeStrict record with
  | none => .error .decode
  | some text => rt.jsonLoads text

/-- `_json_record`; nothing stands for an error that leaves it. -/
def jsonRecord (c : Counters) (record : List UInt8) : Option Effect :=
  match load rt record with
  | .error .decode => some ⟨kept record, c, none⟩
  | .error (.raised _) => none
  | .ok (.dict payload) => some (payloadEffect rt c payload)
  | .ok _ => some ⟨kept record, c, none⟩

/-- `record.strip()` -/
def strip (record : List UInt8) : List UInt8 :=
  (record.dropWhile (fun b => isBlank (Char.ofNat b.toNat))).rdropWhile (fun b => isBlank (Char.ofNat b.toNat))

def braced (record : List UInt8) : Bool := record.head? == some 123 && record.getLast? == some 125

/-- `_consume_record` up to the snapshot. -/
def effect (c : Counters) (record : List UInt8) : Option Effect :=
  if controlPrefix.isPrefixOf record then some (controlRecord rt c record)
  else if braced (strip record) then jsonRecord rt c (strip record)
  else some ⟨kept record, c, none⟩

end Records

/-- The fields of `BorgRestoreProgressStreamFilter` but its carry, and the
number of snapshots, each of which reads the clock. -/
structure State (τ φ : Type) where
  latest : Progress φ
  startedAt : Option τ
  counters : Counters
  seen : Nat

section Snapshots

variable {τ φ : Type} [LinearOrder φ] (ar : Arithmetic τ φ)

namespace Report

def current (r : Report) (latest : Progress φ) : Nat := r.processedBytes.getD latest.processedBytes

def total (r : Report) (latest : Progress φ) (c : Counters) : Nat :=
  if r.totalBytes.getD latest.totalBytes = 0 then c.baselineTotalBytes else r.totalBytes.getD latest.totalBytes

/-- `self._restore_started_at`, which is set at first. -/
def startedAt (r : Report) (startedAt : Option τ) (now : τ) : Option τ :=
  if r.phase = .restoring then startedAt.or (some now) else startedAt

end Report

/-- `(current / elapsed) if current > 0 and elapsed >= 0.25 else 0.0`; nothing
stands for an `OverflowError`, here and below. -/
def rateOf (started : Option τ) (now : τ) (current : Nat) : Option φ :=
  match started with
  | none => some ar.zero
  | some begun =>
      if 0 < current ∧ ar.ready begun now = true then
        if floatLimit ≤ current then none else some (ar.rate current begun now)
      else some ar.zero

/-- `int(round(remaining / rate)) if rate > 0 and total else None` -/
def etaOf (rate : φ) (current total : Nat) : Option (Option Int) :=
  if ar.zero < rate ∧ total ≠ 0 then
    if floatLimit ≤ total - current then none else (ar.seconds (total - current) rate).map some
  else some none

/-- `min(100.0, max(0.0, current / total * 100.0)) if total else None` -/
def percentOf (current total : Nat) : Option (Option φ) :=
  if total = 0 then some none
  else if floatLimit * total ≤ current then none
  else some (some (min ar.hundred (max ar.zero (ar.percentage current total))))

/-- `_snapshot` -/
def snapshot (times : Nat → τ) (s : State τ φ) (c : Counters) (r : Report) : Option (State τ φ) := do
  let now := times s.seen
  let current := r.current s.latest
  let total := r.total s.latest c
  let startedAt := r.startedAt s.startedAt now
  let rate ← rateOf ar startedAt now current
  let eta ← etaOf ar rate current total
  let percent ← percentOf ar current total
  let complete := r.finished && total != 0
  return {
    latest := {
      phase := r.phase
      processedBytes := if complete then total else current
      totalBytes := total
      processedFiles := c.processedFiles
      totalFiles := c.totalFiles
      path := r.path.getD s.latest.path
      bytesPerSecond := max ar.zero rate
      etaSeconds := if complete then some 0 else eta
      percent := if complete then some ar.hundred else percent }
    startedAt := startedAt
    counters := c
    seen := s.seen + 1 }

end Snapshots

/-- `BorgRestoreProgressStreamFilter` -/
structure Filter (τ φ : Type) where
  carry : List UInt8
  state : State τ φ

section Filter

variable {τ φ : Type} [LinearOrder φ] (rt : Runtime) (ar : Arithmetic τ φ) (times : Nat → τ)

/-- `_consume_record` -/
def consumeRecord (s : State τ φ) (record : List UInt8) : Option (List UInt8 × State τ φ × Option (Progress φ)) :=
  match effect rt s.counters record with
  | none => none
  | some e =>
      match e.report with
      | none => some (e.output, { s with counters := e.counters }, none)
      | some r => (snapshot ar times s e.counters r).map (fun next => (e.output, next, some next.latest))

/-- The records of whole lines: `payload[start:newline].rstrip(b"\r")`. -/
def recordOf (line : List UInt8) : List UInt8 := line.dropLast.rdropWhile carriageReturn

def records (payload : List UInt8) : List (List UInt8) := (lines lineFeed payload).map recordOf

/-- The loop of `feed`. -/
def consumeAll (s : State τ φ) : List (List UInt8) → Option (List UInt8 × State τ φ × Option (Progress φ))
  | [] => some ([], s, none)
  | record :: rest =>
      match consumeRecord rt ar times s record with
      | none => none
      | some (output, next, newest) =>
          (consumeAll next rest).map (fun more => (output ++ more.1, more.2.1, more.2.2.or newest))

def maxCarry : Nat := 256 * 1024

/-- `feed` -/
def Filter.feed (f : Filter τ φ) (data : List UInt8) : Option (List UInt8 × Filter τ φ × Option (Progress φ)) :=
  if data = [] then some (data, f, none)
  else
    let payload := f.carry ++ data
    (consumeAll rt ar times f.state (records (complete lineFeed payload))).map (fun fed =>
      if maxCarry < (trailing lineFeed payload).length then (fed.1 ++ trailing lineFeed payload, ⟨[], fed.2.1⟩, fed.2.2)
      else (fed.1, ⟨trailing lineFeed payload, fed.2.1⟩, fed.2.2))

/-- `finalize` -/
def Filter.finalize (f : Filter τ φ) : Option (List UInt8 × Filter τ φ × Option (Progress φ)) :=
  if f.carry = [] then some ([], f, none)
  else
    (consumeRecord rt ar times f.state (f.carry.rdropWhile carriageReturn)).map
      (fun last => (last.1, ⟨[], last.2.1⟩, last.2.2))

def Filter.feedAll (f : Filter τ φ) : List (List UInt8) → Option (List UInt8 × Filter τ φ)
  | [] => some ([], f)
  | chunk :: chunks =>
      match f.feed rt ar times chunk with
      | none => none
      | some (output, next, _) => (next.feedAll chunks).map (fun more => (output ++ more.1, more.2))

def initial : State τ φ :=
  ⟨⟨.preparing, 0, 0, 0, 0, "", ar.zero, none, none⟩, none, ⟨0, 0, 0⟩, 0⟩

/-- The log and the filter after all chunks of a stream. -/
def filtered (chunks : List (List UInt8)) : Option (List UInt8 × Filter τ φ) :=
  match (Filter.mk [] (initial ar)).feedAll rt ar times chunks with
  | none => none
  | some (output, f) => (f.finalize rt ar times).map (fun last => (output ++ last.1, last.2.1))

end Filter

end BorgManager.RestoreProgress
