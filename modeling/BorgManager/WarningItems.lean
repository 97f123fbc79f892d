import BorgManager.BytePatterns
import BorgManager.RemoteOutput

namespace BorgManager.WarningItems

open PythonText Patterns BytePatterns
open RemoteOutput (Runtime caseless space spaces dot)

inductive Kind
  | changed | permission | missing | io | error | other | unknown
  deriving DecidableEq

/-- A warning; also the key `(kind, path, reason)` of one that is recorded. -/
structure Item where
  kind : Kind
  path : List Char
  reason : List Char
  deriving DecidableEq

section Patterns

variable (rt : Runtime)

/-- A label that may stand there, with blanks behind it. -/
def label (text : String) : Pattern := optional (.seq (caseless rt text) spaces)

def lazyText : Pattern := plus false dot

/-- `_STATUS_RE` between `^` and `$`, as the others are here. The groups are
`status` and `path`. -/
def statusPattern : Pattern :=
  sequence [spaces, optional (sequence [caseless rt "Remote", exactly ":", spaces]), .group 1 (among "CE"),
    plus true space,
    .group 2 lazyText, spaces]

/-- `_CHANGED_RE` -/
def changedPattern : Pattern :=
  sequence [label rt "Remote:", label rt "warning:", label rt "backup:", .group 2 lazyText, caseless rt ":", spaces,
    caseless rt "file changed while we backed it up", spaces]

/-- `_CHANGED_RE_ALT` -/
def changedAltPattern : Pattern :=
  sequence [label rt "Remote:", label rt "warning:", caseless rt "file changed while we backed it up:", spaces,
    .group 2 lazyText, spaces]

/-- `\[Errno\s+\d+\]\s*` -/
def errno : Pattern :=
  sequence [caseless rt "[Errno", plus true space, plus true (RemoteOutput.digit rt), caseless rt "]", spaces]

/-- `_OPERATION_ERROR_RE`, with `operation`, `path` and `reason`. -/
def operationErrorPattern : Pattern :=
  sequence [label rt "Remote:", label rt "warning:",
    .group 1 (oneOf (["open", "stat", "lstat", "read", "scandir", "listdir", "access"].map (caseless rt))),
      caseless rt ":", spaces,
    .group 2 lazyText, caseless rt ":", spaces, .group 3 (.seq (optional (errno rt)) lazyText), spaces]

/-- `_PATH_ERRNO_RE` -/
def pathErrnoPattern : Pattern :=
  sequence [label rt "Remote:", label rt "warning:", .group 2 lazyText, caseless rt ":", spaces,
    .group 3 (.seq (errno rt) lazyText), spaces]

/-- `_PYTHON_PATH_ERROR_RE` -/
def pythonPathErrorPattern : Pattern :=
  sequence [oneOf (["PermissionError", "OSError", "FileNotFoundError"].map (caseless rt)), caseless rt ":", spaces,
    .group 3 (.seq (errno rt) lazyText), caseless rt ":", spaces, among "\"'", .group 2 lazyText, among "\"'", spaces]

/-- `_WARNING_PREFIX_RE`, with `message`. -/
def warningPrefixPattern : Pattern :=
  sequence [label rt "Remote:", oneOf (["warning", "warning:", "warn"].map (caseless rt)), spaces,
    optional (caseless rt ":"), spaces,
    .group 4 lazyText, spaces]

/-- `_UNMATCHED_PATTERN_RE` -/
def unmatchedPattern : Pattern :=
  sequence [label rt "Remote:",
    .group 4 (sequence [oneOf (["Include", "Exclude"].map (caseless rt)), caseless rt " pattern ", lazyText,
      caseless rt " never matched", optional (exactly ".")]), spaces]

/-- `_TERMINATION_RE` -/
def termination : Pattern :=
  sequence [caseless rt "terminating with ", oneOf (["warning", "success", "error"].map (caseless rt)),
    caseless rt " status,", spaces,
    caseless rt "rc", spaces, plus true (RemoteOutput.digit rt)]

def cleanPath (value : List Char) : List Char := stripWhile (fun c => c == '"' || c == '\'') (stripWhile isSpace value)

def kindForReason (reason : List Char) : Kind :=
  let lower := (rt.casefold (String.ofList reason)).toList
  if contains "permission denied".toList lower || contains "operation not permitted".toList lower then .permission
  else if contains "no such file or directory".toList lower || contains "not found".toList lower then .missing
  else if contains "input/output error".toList lower || contains "i/o error".toList lower then .io
  else .error

def changedReason : List Char := "file changed while we backed it up".toList

/-- `_warning_item` -/
def warningItem (text : List Char) : Option Item :=
  let line := stripWhile isSpace text
  if line = [] ∨ ((termination rt).search line).isSome then none
  else
    match matchWhole (statusPattern rt) line with
    | some m =>
        if field m 1 = ['C'] then some ⟨.changed, cleanPath (field m 2), changedReason⟩
        else some ⟨.error, cleanPath (field m 2), "Borg reported a file access/read error".toList⟩
    | none =>
        match (matchWhole (changedPattern rt) line).or (matchWhole (changedAltPattern rt) line) with
        | some m => some ⟨.changed, cleanPath (field m 2), changedReason⟩
        | none =>
            match matchWhole (operationErrorPattern rt) line with
            | some m =>
                let reason := stripWhile isSpace (field m 3)
                some ⟨kindForReason rt reason, cleanPath (field m 2), field m 1 ++ ": ".toList ++ reason⟩
            | none =>
                match (matchWhole (pythonPathErrorPattern rt) line).or (matchWhole (pathErrnoPattern rt) line) with
                | some m =>
                    let reason := stripWhile isSpace (field m 3)
                    some ⟨kindForReason rt reason, cleanPath (field m 2), reason⟩
                | none =>
                    let message := ((matchWhole (warningPrefixPattern rt) line).map
                      (fun m => stripWhile isSpace (field m 4))).getD []
                    if message ≠ [] ∧ ((termination rt).search message).isNone then some ⟨.other, [], message⟩
                    else (matchWhole (unmatchedPattern rt) line).map
                      (fun m => ⟨.other, [], stripWhile isSpace (field m 4)⟩)

end Patterns

end BorgManager.WarningItems
