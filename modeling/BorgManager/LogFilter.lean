import BorgManager.RemoteOutput

namespace BorgManager.LogFilter

open PythonText Patterns RemoteOutput

def contains (part text : String) : Bool := text.toList.tails.any (fun rest => part.toList.isPrefixOf rest)

def isLineBreak (c : Char) : Bool :=
  let n := c.toNat
  (10 ≤ n && n ≤ 13) || (28 ≤ n && n ≤ 30) || n == 0x85 || n == 0x2028 || n == 0x2029

/-- `str.splitlines` of a text without carriage returns. -/
def splitLines : List Char → List (List Char)
  | [] => []
  | c :: cs =>
      if isLineBreak c then [] :: splitLines cs
      else
        match splitLines cs with
        | [] => [[c]]
        | line :: lines => (c :: line) :: lines

/-- `text.replace("\r\n", "\n").replace("\r", "\n")` -/
def normalizeNewlines : List Char → List Char
  | [] => []
  | '\r' :: '\n' :: cs => '\n' :: normalizeNewlines cs
  | c :: cs => (if c = '\r' then '\n' else c) :: normalizeNewlines cs

def rstrip (s : String) : String := String.ofList (rstripWhile isSpace s.toList)

def strippedLines (text : String) : List String :=
  (splitLines (normalizeNewlines text.toList)).map (fun line => rstrip (String.ofList line))

def trimBlank (lines : List String) : List String :=
  ((lines.dropWhile (· == "")).reverse.dropWhile (· == "")).reverse

/-- An empty line, unless one stands there already or nothing precedes it. -/
def addBlank (lines : List String) : List String :=
  if lines.getLast?.any (· != "") then lines ++ [""] else lines

variable (rt : Runtime)

/-- `^\s*(?:(?i:Remote):\s*)?([AMUCERdbchsfipx?+\-.])\s+\S` -/
def fileStatus : Pattern :=
  sequence [spaces, optional (sequence [caseless rt "Remote", exactly ":", spaces]),
    .group 1 (.char (fun c => "AMUCERdbchsfipx?+-.".toList.contains c)), plus true space,
    .char (fun c => !isSpace c)]

/-- The letter of a line of `borg create --list`. -/
def statusLetter (line : String) : Option String :=
  ((fileStatus rt).ends ⟨none, line.toList, []⟩).head?.map (fun found => found.group 1)

def marksProblem (letter : String) : Bool := letter == "C" || letter == "E"

def isFileActivity (line : String) : Bool := (statusLetter rt line).any (fun letter => !marksProblem letter)

def keepLine (kept : List String) (line : String) : List String :=
  if (statusLetter rt line).isSome then kept
  else if line = "" then addBlank kept
  else kept ++ [line]

def stripBorgItemLines (text : String) : String :=
  String.intercalate "\n" (trimBlank ((strippedLines text).foldl (keepLine rt) []))

/-- `(?:PermissionError:\s*)?\[Errno 13\] Permission denied:\s*["'][^"']+["']` -/
def permissionError : Pattern :=
  let quote := fun c => c == '"' || c == '\''
  .group 1 (sequence [optional (sequence [caseless rt "PermissionError:", spaces]),
    caseless rt "[Errno 13] Permission denied:", spaces, .char quote, plus true (.char (fun c => !quote c)),
    .char quote])

def errorMarkers : List String :=
  ["error", "failed", "failure", "exception", "traceback", "permission denied", "connection closed",
    "connection refused", "timed out", "timeout", "no such file", "not found", "repository does not exist",
    "not a borg repository", "passphrase", "integrity", "lock timeout", "failed to create/acquire the lock",
    "read-only", "no space left", "disk full", "terminating with", "critical", "fatal", "invalid", "refused",
    "denied", "unreachable", "corrupt", "damaged", "unsupported", "cannot", "can't", "could not", "unable",
    "not available", "authentication", "host key verification failed", "network is unreachable", "broken pipe",
    "file changed while we backed it up", "errno"]

def traceContextPrefixes : List String :=
  ["file ", "platform:", "linux:", "borg:", "pid:", "cwd:", "sys.argv:", "ssh_original_command:",
    "during handling of the above exception", "the above exception"]

def startsWith (text part : String) : Bool := part.toList.isPrefixOf text.toList

def isTraceContext (lower : String) : Bool := traceContextPrefixes.any (startsWith lower)

/-- The lines that are selected so far, and whether a traceback goes on. -/
structure Selection where
  selected : List String
  traceback : Bool

def selectLine (s : Selection) (line : String) : Selection :=
  let stripped := strip line
  let lower := rt.lower stripped
  if stripped = "" then { s with selected := addBlank s.selected }
  else if isFileActivity rt line then s
  else if contains "terminating with success status" lower || lower == "success" || lower == "rc 0" then s
  else if startsWith lower "traceback (most recent call last):" then ⟨s.selected ++ [line], true⟩
  else if s.traceback then
    -- A traceback ends at the first line of it that is not indented and names an exception.
    let goesOn := (line.toList.take 1).any isSpace || !contains ":" line || isTraceContext lower
    ⟨s.selected ++ [line], goesOn⟩
  else if (statusLetter rt line).any marksProblem || errorMarkers.any (fun marker => contains marker lower) ||
      (isTraceContext lower && !s.selected.isEmpty) then { s with selected := s.selected ++ [line] }
  else s

def cleanLine (cleaned : List String) (line : String) : List String :=
  if line = "" then addBlank cleaned
  else if cleaned.getLast? = some line then cleaned
  else cleaned ++ [line]

def extractErrorOutput (text : String) : String :=
  match ((permissionError rt).finditer (normalizeNewlines text.toList)).getLast? with
  | some found => found.group 1
  | none =>
      let selection := (strippedLines text).foldl (selectLine rt) ⟨[], false⟩
      String.intercalate "\n" (trimBlank (selection.selected.foldl cleanLine []))

def technicalMarkers : List String :=
  ["Traceback (most recent call last)", "During handling of the above exception",
    "The above exception was the direct cause", "ExceptionGroup Traceback", "  File \"", "  File '",
    "sqlalchemy.exc.", "pydantic_core._pydantic_core", "starlette.middleware", "fastapi.routing"]

/-- `(?:^|\n)[A-Za-z_][A-Za-z0-9_.]*(?:Error|Exception):\s*` -/
def exceptionLine : Pattern :=
  sequence [.alt .lineStart (exactly "\n"), .char (fun c => c.isAlpha || c == '_'),
    .many true (.char (fun c => c.isAlphanum || c == '_' || c == '.')),
    .alt (exactly "Error") (exactly "Exception"), exactly ":", spaces]

def detailRequiresDebugLog (detail : String) : Bool :=
  let text := strip detail
  text != "" && (technicalMarkers.any (fun marker => contains marker text) ||
    ((exceptionLine.search text.toList).isSome && contains "\n" text))

def publicErrorMessage (errorId : String) : String :=
  "Unerwarteter interner Fehler. Details wurden im Debug-Log gespeichert. Fehler-ID: " ++ errorId

end BorgManager.LogFilter
