import VDevLab.Analysis.Log

/-!
# `analysis.py`: the evaluators

The functions that compare a normalized assertion with what was observed.
Each tests the type of the fields it reads again and raises a `ValueError`
of its own.
-/

namespace VDevLab.Analysis

open Check PyStr

structure RecoveryLatencyAssertion where
  maximumMs : Int
  observedMs : Option Int
  passed : Bool

structure EventCountAssertion where
  event : PyStr
  expected : Int
  observed : Nat
  withinMs : Option Int
  passed : Bool

inductive StdoutOperator
  | contains
  | notContains
  deriving DecidableEq

structure StdoutAssertion where
  operator : StdoutOperator
  text : PyStr
  passed : Bool

structure DisconnectAssertion where
  expected : Bool
  observed : Bool
  passed : Bool

structure KernelWarningAssertion where
  expected : Int
  observed : Option Nat
  available : Bool
  passed : Bool

/-- `evaluate_recovery_latency`. -/
def evaluateRecoveryLatency (metrics : RecoveryMetrics) (maximumMs : PyValue) :
    Except Raised RecoveryLatencyAssertion := do
  let maximum ← requireNonnegativeInteger maximumMs 0 "maximum recovery latency"
  let observed := (metrics.recoveries.map (·.recoveryLatencyMs)).max?
  return { maximumMs := maximum, observedMs := observed, passed := observed.any (· ≤ maximum) }

/-- The value of `within_ms`: `None` or a non-negative integer. -/
def withinMs (definition : PyDict) : Except Raised (Option Int) :=
  match getOrNone definition "within_ms" with
  | .none => .ok none
  | .int n =>
      if n < 0 then .error (.valueError (py "assertion within_ms must be a non-negative integer"))
      else .ok (some n)
  | _ => .error (.valueError (py "assertion within_ms must be a non-negative integer"))

/-- The body of the loop of `evaluate_event_assertions`. -/
def evaluateEventAssertion (events : List ApplicationLogEvent) (definition : PyDict) :
    Except Raised EventCountAssertion := do
  let event ← match getOrNone definition "event" with
    | .str s =>
        if s = [] then .error (.valueError (py "assertion event must be a non-empty string"))
        else .ok s
    | _ => .error (.valueError (py "assertion event must be a non-empty string"))
  let expected ← match getOrNone definition "count" with
    | .int n =>
        if n ≤ 0 then .error (.valueError (py "assertion count must be a positive integer"))
        else .ok n
    | _ => .error (.valueError (py "assertion count must be a positive integer"))
  let within ← withinMs definition
  let originTimestampMs := events.head?.map (·.timestampMs)
  let observed := events.countP fun item =>
    item.event = event && within.all fun ms =>
      originTimestampMs.any fun origin => item.timestampMs - origin ≤ ms
  return { event, expected, observed, withinMs := within, passed := observed = expected }

/-- `evaluate_event_assertions`. -/
def evaluateEventAssertions (events : List ApplicationLogEvent) (definitions : List PyDict) :
    Except Raised (List EventCountAssertion) :=
  definitions.mapM (evaluateEventAssertion events)

/-- The result for one operator of a stdout assertion, when its text is
given. -/
def stdoutResult (stdout : PyStr) (definition : PyDict) (operator : StdoutOperator) :
    List StdoutAssertion :=
  match operator with
  | .contains =>
      match getOrNone definition "contains" with
      | .str text => [{ operator, text, passed := isSubstring text stdout }]
      | _ => []
  | .notContains =>
      match getOrNone definition "not_contains" with
      | .str text => [{ operator, text, passed := !isSubstring text stdout }]
      | _ => []

/-- `evaluate_stdout_assertion`. -/
def evaluateStdoutAssertion (stdout : PyStr) (definition : PyDict) :
    Except Raised (List StdoutAssertion) :=
  let results := stdoutResult stdout definition .contains
    ++ stdoutResult stdout definition .notContains
  if results.isEmpty then
    .error (.valueError (py "stdout assertion requires contains or not_contains"))
  else .ok results

/-- `any(event.event == "DEVICE_DISCONNECTED" for event in events)`. -/
def disconnected (events : List ApplicationLogEvent) : Bool :=
  events.any fun event => event.event = py "DEVICE_DISCONNECTED"

/-- `evaluate_disconnect`. -/
def evaluateDisconnect (events : List ApplicationLogEvent) (expected : PyValue) :
    Except Raised DisconnectAssertion :=
  match expected with
  | .bool expected =>
      let observed := disconnected events
      .ok { expected, observed, passed := observed == expected }
  | _ => .error (.valueError (py "disconnect expected value must be a boolean"))

/-- `evaluate_kernel_warnings`. -/
def evaluateKernelWarnings (warnings : List PyStr) (expected : PyValue) (available : Bool) :
    Except Raised KernelWarningAssertion :=
  match expected with
  | .int n =>
      if n < 0 then
        .error (.valueError (py "kernel warning count must be a non-negative integer"))
      else
        .ok {
          expected := n
          observed := if available then some warnings.length else none
          available
          passed := available && warnings.length = n }
  | _ => .error (.valueError (py "kernel warning count must be a non-negative integer"))

end VDevLab.Analysis
