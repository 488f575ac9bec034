import VDevLab.Analysis.Evaluate
import VDevLab.Runner.Run

/-!
# `report.py`: the scenario report

`build_scenario_report` with its three passes over the assertions, the
observations, the merged timeline and the status. An exception of a callee
that the function does not handle is its own result.
-/

namespace VDevLab.Report

open Analysis Check PyStr Runner

inductive ReportStatus
  | pass
  | fail
  | error
  | timeout
  deriving DecidableEq

/-! ## The timeline -/

/-- The `event` of a dispatch entry: `FAULT_INJECTED`, or the upper-cased
action with `_DISPATCHED` behind it. -/
inductive DispatchEvent
  | faultInjected
  | dispatched (action : PyStr)
  deriving DecidableEq

/-- A timeline entry, by its source. -/
inductive TimelineEntry
  | scenario (event : DispatchEvent) (timestampMs : Int) (eventIndex : Nat) (scheduledMs : Int)
      (durationMs : ℚ) (details : PyDict)
  | application (event : PyStr) (timestampMs : Int) (line : Nat) (details : PyDict)

def TimelineEntry.timestampMs : TimelineEntry → Int
  | .scenario _ timestampMs _ _ _ _ => timestampMs
  | .application _ timestampMs _ _ => timestampMs

/-- `0 if item["source"] == "scenario" else 1`. -/
def TimelineEntry.rank : TimelineEntry → Nat
  | .scenario .. => 0
  | .application .. => 1

/-- `int(x)` of a number: towards zero. -/
def truncate (x : ℚ) : Int := Int.tdiv x.num x.den

/-- `scenario.events[index]`. -/
def eventAt (scenario : ScenarioDefinition) (index : Nat) : Except Raised PyDict :=
  match scenario.events[index]? with
  | some definition => .ok definition
  | none => .error .indexError

/-- The body of the loop of `_dispatch_timeline`. -/
def dispatchEntry (scenario : ScenarioDefinition) (dispatch : DispatchRecord) :
    Except Raised TimelineEntry := do
  let definition ← eventAt scenario dispatch.index
  let details := definition.filter fun kv =>
    !(kv.1.eqStr (py "action") || kv.1.eqStr (py "at_ms"))
  return .scenario
    (if dispatch.action = py "fault" then .faultInjected else .dispatched dispatch.action)
    (truncate dispatch.monotonicStartedMs) dispatch.index dispatch.scheduledMs
    (dispatch.finishedMs - dispatch.startedMs) details

/-- `_dispatch_timeline`. -/
def dispatchTimeline (scenario : ScenarioDefinition) (dispatches : List DispatchRecord) :
    Except Raised (List TimelineEntry) :=
  dispatches.mapM (dispatchEntry scenario)

/-- `_application_timeline`. -/
def applicationTimeline (events : List ApplicationLogEvent) : List TimelineEntry :=
  events.map fun event => .application event.event event.timestampMs event.line event.fields

/-- `float(n)` of an integer, as the number it is. -/
def floatKey (n : Int) : Except Raised ℚ :=
  if (Binary64.ofInt n).isFinite then .ok (Binary64.ofInt n).toRat else .error .overflowError

/-- An entry with its key. -/
def withKey (entry : TimelineEntry) : Except Raised (ℚ × TimelineEntry) := do
  return (← floatKey entry.timestampMs, entry)

/-- The order of the keys `(float(timestamp_ms), rank)`. -/
def keyLe (a b : ℚ × TimelineEntry) : Bool :=
  a.1 < b.1 || (a.1 = b.1 && a.2.rank ≤ b.2.rank)

/-- `_sorted_timeline`: all keys first, then a stable sort. -/
def sortedTimeline (entries : List TimelineEntry) : Except Raised (List TimelineEntry) := do
  let keyed ← entries.mapM withKey
  return (keyed.insertionSort (keyLe · ·)).map (·.2)

/-! ## Observations -/

/-- `_first_fault_timestamp`. -/
def firstFaultTimestamp (scenario : ScenarioDefinition) :
    List DispatchRecord → Except Raised (Option Int)
  | [] => .ok none
  | dispatch :: rest => do
      let definition ← eventAt scenario dispatch.index
      if (getOrNone definition "action").eqStr (py "fault") then
        return some (truncate dispatch.monotonicStartedMs)
      else firstFaultTimestamp scenario rest

/-- `_causal_duration`. -/
def causalDuration (endMs startMs : Option Int) : Option Int := do
  return (← endMs) - (← startMs)

structure KernelLog where
  available : Bool
  warningCount : Option Nat
  warnings : List PyStr
  error : Option PyStr

structure Observations where
  observedEioCount : Nat
  applicationRetryCount : Nat
  faultInjectionTimestampMs : Option Int
  firstErrorTimestampMs : Option Int
  recoveryTimestampMs : Option Int
  recoveryLatencyMs : Option Int
  faultToFirstErrorMs : Option Int
  faultToRecoveryMs : Option Int
  recoveries : List RecoveryWindow
  disconnected : Bool
  kernelLog : KernelLog

/-- The `observations` of a report with a valid log. -/
def observe (metrics : RecoveryMetrics) (events : List ApplicationLogEvent)
    (faultTimestampMs : Option Int) (result : ScenarioRunResult) : Observations where
  observedEioCount := metrics.observedEioCount
  applicationRetryCount := metrics.applicationRetryCount
  faultInjectionTimestampMs := faultTimestampMs
  firstErrorTimestampMs := metrics.firstErrorTimestampMs
  recoveryTimestampMs := metrics.recoveryTimestampMs
  recoveryLatencyMs := metrics.recoveryLatencyMs
  faultToFirstErrorMs := causalDuration metrics.firstErrorTimestampMs faultTimestampMs
  faultToRecoveryMs := causalDuration metrics.recoveryTimestampMs faultTimestampMs
  recoveries := metrics.recoveries
  disconnected := disconnected events
  kernelLog := {
    available := result.kernelLogAvailable
    warningCount := if result.kernelLogAvailable then some result.kernelWarnings.length else none
    warnings := result.kernelWarnings
    error := result.kernelLogError }

/-! ## Assertions -/

/-- An entry of the report's `assertions`, by its `type`. -/
inductive AssertionDocument
  | eventCount (assertion : EventCountAssertion)
  | stdout (assertion : StdoutAssertion)
  | disconnect (assertion : DisconnectAssertion)
  | kernelWarnings (assertion : KernelWarningAssertion)
  | processExitCode (expected observed : Int) (passed : Bool)
  | recoveryLatency (assertion : RecoveryLatencyAssertion)

/-- `assertion["passed"]`. -/
def AssertionDocument.passed : AssertionDocument → Bool
  | .eventCount a => a.passed
  | .stdout a => a.passed
  | .disconnect a => a.passed
  | .kernelWarnings a => a.passed
  | .processExitCode _ _ passed => passed
  | .recoveryLatency a => a.passed

/-- The subscript `definition[key]`. -/
def subscript (definition : PyDict) (key : String) : Except Raised PyValue :=
  match definition.get? (py key) with
  | some v => .ok v
  | none => .error (.keyError (py key))

/-- The first pass: event counts, which is also the type by default. -/
def eventDocuments (events : List ApplicationLogEvent) (assertions : List PyDict) :
    Except Raised (List AssertionDocument) := do
  let definitions := assertions.filter fun definition =>
    ((definition.get? (py "type")).getD (.str (py "event_count"))).eqStr (py "event_count")
  let results ← evaluateEventAssertions events definitions
  return results.map .eventCount

/-- The body of the second pass. -/
def typedDocuments (events : List ApplicationLogEvent) (result : ScenarioRunResult)
    (definition : PyDict) : Except Raised (List AssertionDocument) :=
  let assertionType := getOrNone definition "type"
  if assertionType.eqStr (py "stdout") then do
    let results ← evaluateStdoutAssertion result.application.stdout definition
    return results.map .stdout
  else if assertionType.eqStr (py "disconnect") then do
    let assertion ← evaluateDisconnect events (← subscript definition "expected")
    return [.disconnect assertion]
  else if assertionType.eqStr (py "kernel_warnings") then do
    let assertion ← evaluateKernelWarnings result.kernelWarnings (← subscript definition "count")
      result.kernelLogAvailable
    return [.kernelWarnings assertion]
  else .ok []

/-- The body of the third pass. -/
def latencyDocuments (metrics : RecoveryMetrics) (definition : PyDict) :
    Except Raised (List AssertionDocument) :=
  match getOrNone definition "max_latency_ms" with
  | .int n => do
      let assertion ← evaluateRecoveryLatency metrics (.int n)
      return [.recoveryLatency assertion]
  | _ => .ok []

/-- The entry for the exit code. -/
def exitDocument (application : ApplicationResult) : AssertionDocument :=
  .processExitCode 0 application.exitCode (application.exitCode = 0)

/-- All assertion documents, in the order of the report. -/
def assertionDocuments (scenario : ScenarioDefinition) (result : ScenarioRunResult)
    (events : List ApplicationLogEvent) (metrics : RecoveryMetrics) :
    Except Raised (List AssertionDocument) := do
  let counts ← eventDocuments events scenario.assertions
  let typed ← scenario.assertions.mapM (typedDocuments events result)
  let latencies ← scenario.assertions.mapM (latencyDocuments metrics)
  return counts ++ typed.flatten ++ [exitDocument result.application] ++ latencies.flatten

/-! ## The report -/

structure ReportError where
  type : PyStr
  message : PyStr
  deriving DecidableEq

/-- `observations` is `none` where the source has an empty mapping. -/
structure ScenarioReport where
  status : ReportStatus
  scenarioName : PyStr
  application : Option ApplicationResult
  observations : Option Observations
  assertions : List AssertionDocument
  timeline : List TimelineEntry
  error : Option ReportError := none

/-- The message of an `ApplicationLogError`. -/
def logErrorMessage (line : Nat) (message : PyStr) : PyStr :=
  py "stdout[" ++ decimal line ++ py "]: " ++ message

/-- The body of the `try`. -/
def analyse (lim : IntLimit) (stdout : PyStr) :
    Except Raised (List ApplicationLogEvent × RecoveryMetrics) := do
  let events ← parseApplicationLog lim stdout
  let metrics ← calculateRecoveryMetrics events
  return (events, metrics)

/-- `result.kernel_log_error or "kernel log is unavailable"`. -/
def kernelLogMessage (error : Option PyStr) : PyStr :=
  match error with
  | some (c :: s) => c :: s
  | _ => py "kernel log is unavailable"

/-- The status and the error of a report with a valid log. -/
def judge (scenario : ScenarioDefinition) (result : ScenarioRunResult)
    (documents : List AssertionDocument) : ReportStatus × Option ReportError :=
  let assertionsPassed := documents.all AssertionDocument.passed
  if kernelLogRequired scenario && !result.kernelLogAvailable then
    (.error, some ⟨py "KernelLogUnavailable", kernelLogMessage result.kernelLogError⟩)
  else if result.application.timedOut then (.timeout, none)
  else if !assertionsPassed then (.fail, none)
  else (.pass, none)

/-- The report of a run whose log is valid. -/
def analysedReport (scenario : ScenarioDefinition) (result : ScenarioRunResult)
    (dispatches : List TimelineEntry) (events : List ApplicationLogEvent)
    (metrics : RecoveryMetrics) : Except Raised ScenarioReport := do
  let documents ← assertionDocuments scenario result events metrics
  let faultTimestampMs ← firstFaultTimestamp scenario result.dispatches
  let (status, error) := judge scenario result documents
  let timeline ← sortedTimeline (dispatches ++ applicationTimeline events)
  return {
    status
    scenarioName := scenario.name
    application := some result.application
    observations := some (observe metrics events faultTimestampMs result)
    assertions := documents
    timeline
    error }

/-- `build_scenario_report`. -/
def buildScenarioReport (lim : IntLimit) (scenario : ScenarioDefinition)
    (result : ScenarioRunResult) : Except Raised ScenarioReport := do
  let dispatches ← dispatchTimeline scenario result.dispatches
  match analyse lim result.application.stdout with
  | .error (.applicationLogError line message) => do
      let timeline ← sortedTimeline dispatches
      return {
        status := .error
        scenarioName := scenario.name
        application := some result.application
        observations := none
        assertions := []
        timeline
        error := some ⟨py "ApplicationLogError", logErrorMessage line message⟩ }
  | .error e => .error e
  | .ok (events, metrics) => analysedReport scenario result dispatches events metrics

/-! ## How a report comes out -/

/-- The four judgements. -/
theorem judge_cases (scenario : ScenarioDefinition) (result : ScenarioRunResult)
    (documents : List AssertionDocument) :
    (∃ error, judge scenario result documents = (.error, some error)) ∨
    (result.application.timedOut = true ∧ judge scenario result documents = (.timeout, none)) ∨
    (documents.all AssertionDocument.passed = false ∧
      judge scenario result documents = (.fail, none)) ∨
    (documents.all AssertionDocument.passed = true ∧
      judge scenario result documents = (.pass, none)) := by
  simp only [judge]
  split
  · exact .inl ⟨_, rfl⟩
  · split
    · exact .inr (.inl ⟨by assumption, rfl⟩)
    · split
      · next hall => exact .inr (.inr (.inl ⟨by simpa using hall, rfl⟩))
      · next hall => exact .inr (.inr (.inr ⟨by simpa using hall, rfl⟩))

/-- A report is an error about the log, or the judgement of its assertions. -/
theorem buildScenarioReport_eq_ok {lim : IntLimit} {scenario : ScenarioDefinition}
    {result : ScenarioRunResult} {report : ScenarioReport}
    (h : buildScenarioReport lim scenario result = .ok report) :
    ((∃ line message, analyse lim result.application.stdout =
        .error (.applicationLogError line message)) ∧
      report.status = .error ∧ ∃ error, report.error = some error) ∨
    ∃ events m, analyse lim result.application.stdout = .ok (events, m) ∧
      assertionDocuments scenario result events m = .ok report.assertions ∧
      (report.status, report.error) = judge scenario result report.assertions := by
  simp only [buildScenarioReport, bind_eq_ok] at h
  obtain ⟨dispatches, -, h⟩ := h
  cases hlog : analyse lim result.application.stdout with
  | error e =>
    rw [hlog] at h
    -- any other exception leaves `build_scenario_report`, so no report
    cases e with
    | applicationLogError line message =>
      simp only [bind_eq_ok, pure_eq_ok] at h
      obtain ⟨timeline, -, rfl⟩ := h
      exact .inl ⟨⟨line, message, rfl⟩, rfl, _, rfl⟩
    | _ => cases h
  | ok p =>
    obtain ⟨events, m⟩ := p
    rw [hlog] at h
    simp only [analysedReport, bind_eq_ok, pure_eq_ok] at h
    obtain ⟨documents, hdocuments, _, -, timeline, -, rfl⟩ := h
    exact .inr ⟨events, m, rfl, hdocuments, rfl⟩

end VDevLab.Report
