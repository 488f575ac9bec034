import VDevLab.Lib.Check
import VDevLab.Lib.Json

/-!
# `analysis.py`: the application log

The monitor's JSONL output as `parse_application_log` reads it, and the
retry and recovery observations that `calculate_recovery_metrics` takes from
it. The window tracker of the second is one step function folded over the
events.
-/

namespace VDevLab.Analysis

open Check PyStr

/-- The exceptions of the analysis and of the report: an
`ApplicationLogError`, and the others that no caller handles. -/
inductive Raised
  | applicationLogError (line : Nat) (message : PyStr)
  | valueError (message : PyStr)
  /-- The `ValueError` of `int` on an over-long numeral. -/
  | intLimit
  | keyError (key : PyStr)
  | indexError
  | overflowError
  deriving DecidableEq

structure ApplicationLogEvent where
  line : Nat
  timestampMs : Int
  event : PyStr
  fields : PyDict

structure RecoveryWindow where
  firstErrorTimestampMs : Int
  recoveryTimestampMs : Int
  recoveryLatencyMs : Int
  observedRetries : Nat
  reportedRetries : Int
  deriving DecidableEq

structure RecoveryMetrics where
  observedEioCount : Nat
  applicationRetryCount : Nat
  recoveries : List RecoveryWindow
  firstErrorTimestampMs : Option Int
  recoveryTimestampMs : Option Int
  recoveryLatencyMs : Option Int
  deriving DecidableEq

/-- `d.get(key)`: `None` when it is absent. -/
def getOrNone (d : PyDict) (key : String) : PyValue := (d.get? (py key)).getD .none

/-- `_require_nonnegative_integer`; a Python `bool` is not a `.int` here. -/
def requireNonnegativeInteger (value : PyValue) (line : Nat) (field : String) :
    Except Raised Int :=
  match value with
  | .int n =>
      if n < 0 then
        .error (.applicationLogError line (py field ++ py " must be a non-negative integer"))
      else .ok n
  | _ => .error (.applicationLogError line (py field ++ py " must be a non-negative integer"))

/-! ## `parse_application_log` -/

/-- The text of `event`, when it is a string that is not blank. -/
def requireEventName (value : PyValue) (line : Nat) : Except Raised PyStr :=
  match value with
  | .str s =>
      if isBlank s then .error (.applicationLogError line (py "event must be a non-empty string"))
      else .ok s
  | _ => .error (.applicationLogError line (py "event must be a non-empty string"))

/-- The entries besides the two that every event has. -/
def extraFields (d : PyDict) : PyDict :=
  d.filter fun kv => !(kv.1.eqStr (py "timestamp_ms") || kv.1.eqStr (py "event"))

/-- The checks on a loaded line. -/
def parseRecord (line : Nat) (previous : Option Int) (value : PyValue) :
    Except Raised ApplicationLogEvent :=
  match value with
  | .dict d => do
      let timestampMs ← requireNonnegativeInteger (getOrNone d "timestamp_ms") line "timestamp_ms"
      refuse (∃ p ∈ previous, timestampMs < p)
        (.applicationLogError line (py "timestamp_ms must be monotonically non-decreasing"))
      let event ← requireEventName (getOrNone d "event") line
      return { line, timestampMs, event, fields := extraFields d }
  | _ => .error (.applicationLogError line (py "event must be a JSON object"))

/-- One line that is not blank. Only a decoding error is turned into an
`ApplicationLogError`. -/
def parseLine (lim : IntLimit) (line : Nat) (previous : Option Int) (raw : PyStr) :
    Except Raised ApplicationLogEvent :=
  match Json.loads lim raw with
  | .error .decode => .error (.applicationLogError line (py "invalid JSON"))
  | .error .value => .error .intLimit
  | .ok value => parseRecord line previous value

/-- The loop over the lines, from the given line number on. -/
def parseLines (lim : IntLimit) : Nat → Option Int → List PyStr →
    Except Raised (List ApplicationLogEvent)
  | _, _, [] => .ok []
  | line, previous, raw :: rest =>
      if isBlank raw then parseLines lim (line + 1) previous rest
      else do
        let event ← parseLine lim line previous raw
        let events ← parseLines lim (line + 1) (some event.timestampMs) rest
        return event :: events

/-- `parse_application_log`. -/
def parseApplicationLog (lim : IntLimit) (text : PyStr) : Except Raised (List ApplicationLogEvent) :=
  parseLines lim 1 none (splitlines text)

/-! ## `calculate_recovery_metrics` -/

/-- `errno.EIO`. -/
abbrev errnoEio : Int := 5

/-- The local variables of the loop. -/
structure Tracker where
  observedEioCount : Nat := 0
  applicationRetryCount : Nat := 0
  recoveries : List RecoveryWindow := []
  firstObservedErrorTimestampMs : Option Int := none
  firstErrorTimestampMs : Option Int := none
  activeRetryCount : Nat := 0

/-- The updates of the `READ_RETRY` branch. -/
def Tracker.countRetry (t : Tracker) (retryErrno timestampMs : Int) : Tracker :=
  { t with
    applicationRetryCount := t.applicationRetryCount + 1
    activeRetryCount := t.activeRetryCount + 1
    observedEioCount :=
      if retryErrno = errnoEio then t.observedEioCount + 1 else t.observedEioCount
    firstObservedErrorTimestampMs := t.firstObservedErrorTimestampMs.or (some timestampMs)
    firstErrorTimestampMs := t.firstErrorTimestampMs.or (some timestampMs) }

/-- The `READ_RETRY` branch. -/
def Tracker.readRetry (t : Tracker) (event : ApplicationLogEvent) : Except Raised Tracker := do
  let retryErrno ← requireNonnegativeInteger (getOrNone event.fields "errno") event.line "errno"
  let _ ← requireNonnegativeInteger (getOrNone event.fields "retry") event.line "retry"
  return t.countRetry retryErrno event.timestampMs

/-- The updates of the `RECOVERY_SUCCESS` branch. -/
def Tracker.closeWindow (t : Tracker) (first reportedRetries timestampMs : Int) : Tracker :=
  { t with
    recoveries := t.recoveries ++ [{
      firstErrorTimestampMs := first
      recoveryTimestampMs := timestampMs
      recoveryLatencyMs := timestampMs - first
      observedRetries := t.activeRetryCount
      reportedRetries }]
    firstErrorTimestampMs := none
    activeRetryCount := 0 }

/-- The `RECOVERY_SUCCESS` branch. -/
def Tracker.recoverySuccess (t : Tracker) (event : ApplicationLogEvent) :
    Except Raised Tracker := do
  let reportedRetries ←
    requireNonnegativeInteger (getOrNone event.fields "retries") event.line "retries"
  match t.firstErrorTimestampMs with
  | none =>
      .error (.applicationLogError event.line (py "RECOVERY_SUCCESS has no preceding READ_RETRY"))
  | some first => return t.closeWindow first reportedRetries event.timestampMs

/-- The body of the loop. -/
def Tracker.step (t : Tracker) (event : ApplicationLogEvent) : Except Raised Tracker :=
  if event.event = py "READ_RETRY" then t.readRetry event
  else if event.event = py "RECOVERY_SUCCESS" then t.recoverySuccess event
  else .ok t

/-- What is returned behind the loop. -/
def Tracker.metrics (t : Tracker) : RecoveryMetrics where
  observedEioCount := t.observedEioCount
  applicationRetryCount := t.applicationRetryCount
  recoveries := t.recoveries
  firstErrorTimestampMs := t.firstObservedErrorTimestampMs
  recoveryTimestampMs := t.recoveries.head?.map (·.recoveryTimestampMs)
  recoveryLatencyMs := t.recoveries.head?.map (·.recoveryLatencyMs)

/-- `calculate_recovery_metrics`. -/
def calculateRecoveryMetrics (events : List ApplicationLogEvent) : Except Raised RecoveryMetrics :=
  (events.foldlM Tracker.step {}).map Tracker.metrics

end VDevLab.Analysis
