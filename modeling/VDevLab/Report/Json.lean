import VDevLab.Lib.JsonWritten
import VDevLab.Report.Junit
import VDevLab.Report.Timeline

/-!
# `report.py`: the report as JSON

`to_dict` and `to_json`. A report is a document in the sense of JSON, all keys
are strings and different, as soon as the details of its timeline are; what
the texts and numbers in it are is another matter.
-/

namespace VDevLab.Report

open Analysis Check PyStr Runner

/-! ## `to_dict` -/

section ToDict

-- `str.upper`
variable (upper : PyStr → PyStr)

def DispatchEvent.text : DispatchEvent → PyStr
  | .faultInjected => py "FAULT_INJECTED"
  | .dispatched action => upper action ++ py "_DISPATCHED"

/-- An entry of the timeline. The duration is a difference of floats. -/
def TimelineEntry.toValue : TimelineEntry → PyValue
  | .scenario event timestampMs eventIndex scheduledMs durationMs details =>
      .dict (PyDict.ofList [("source", .str (py "scenario")), ("event", .str (event.text upper)),
        ("timestamp_ms", .int timestampMs), ("event_index", .int eventIndex),
        ("scheduled_ms", .int scheduledMs), ("duration_ms", .float (.ofRat durationMs)),
        ("details", .dict details)])
  | .application event timestampMs line details =>
      .dict (PyDict.ofList [("source", .str (py "application")), ("event", .str event),
        ("timestamp_ms", .int timestampMs), ("line", .int line), ("details", .dict details)])

/-- `asdict(window)`. -/
def windowDict (w : RecoveryWindow) : PyValue :=
  .dict (PyDict.ofList [("first_error_timestamp_ms", .int w.firstErrorTimestampMs),
    ("recovery_timestamp_ms", .int w.recoveryTimestampMs),
    ("recovery_latency_ms", .int w.recoveryLatencyMs),
    ("observed_retries", .int w.observedRetries), ("reported_retries", .int w.reportedRetries)])

/-- An integer or `None`. -/
def intOrNone : Option Int → PyValue
  | some n => .int n
  | none => .none

def KernelLog.toValue (log : KernelLog) : PyValue :=
  .dict (PyDict.ofList [("available", .bool log.available),
    ("warning_count", intOrNone (log.warningCount.map Int.ofNat)),
    ("warnings", .list (log.warnings.map .str)),
    ("error", (log.error.map PyValue.str).getD .none)])

def Observations.toValue (o : Observations) : PyValue :=
  .dict (PyDict.ofList [("observed_eio_count", .int o.observedEioCount),
    ("application_retry_count", .int o.applicationRetryCount),
    ("fault_injection_timestamp_ms", intOrNone o.faultInjectionTimestampMs),
    ("first_error_timestamp_ms", intOrNone o.firstErrorTimestampMs),
    ("recovery_timestamp_ms", intOrNone o.recoveryTimestampMs),
    ("recovery_latency_ms", intOrNone o.recoveryLatencyMs),
    ("fault_to_first_error_ms", intOrNone o.faultToFirstErrorMs),
    ("fault_to_recovery_ms", intOrNone o.faultToRecoveryMs),
    ("recoveries", .list (o.recoveries.map windowDict)),
    ("disconnected", .bool o.disconnected), ("kernel_log", o.kernelLog.toValue)])

/-- `report.to_dict()`. -/
def ScenarioReport.toDict (report : ScenarioReport) : PyValue :=
  .dict (PyDict.ofList [("schema_version", .int reportSchemaVersion),
    ("status", .str report.status.value),
    ("scenario", .dict (PyDict.ofList [("name", .str report.scenarioName)])),
    ("application",
      (report.application.map fun a => Json.ofDoc (.object (applicationDocument a))).getD .none),
    ("observations", (report.observations.map Observations.toValue).getD (.dict [])),
    ("assertions", .list (report.assertions.map fun a => Json.ofDoc (.object a.document))),
    ("timeline", .list (report.timeline.map (TimelineEntry.toValue upper))),
    ("error", (report.error.map fun e => Json.ofDoc (.object e.document)).getD .none)])

/-- `report.to_json()`, unless `json.dumps` raises. -/
def ScenarioReport.toJson (lim : IntLimit) (report : ScenarioReport) : Option PyStr :=
  (Json.dumps lim (report.toDict upper)).map (· ++ py "\n")

end ToDict

/-! ## A report is a document -/

section Documents

variable {upper : PyStr → PyStr}

theorem document_intOrNone (n : Option Int) : (intOrNone n).Document := by
  cases n with
  | none => exact .none
  | some n => exact .int n

theorem document_strOrNone (s : Option PyStr) :
    ((s.map PyValue.str).getD .none).Document := by
  cases s with
  | none => exact .none
  | some s => exact .str s

theorem document_entry {entry : TimelineEntry} (h : (PyValue.dict entry.details).Document) :
    (entry.toValue upper).Document := by
  cases entry with
  | scenario event timestampMs eventIndex scheduledMs durationMs details =>
    refine Json.document_ofList (by simp only [List.map]; decide) ?_
    simp only [List.forall_mem_cons]
    exact ⟨.str _, .str _, .int _, .int _, .int _, .float _, h, by simp⟩
  | application event timestampMs line details =>
    refine Json.document_ofList (by simp only [List.map]; decide) ?_
    simp only [List.forall_mem_cons]
    exact ⟨.str _, .str _, .int _, .int _, h, by simp⟩

theorem document_window (w : RecoveryWindow) : (windowDict w).Document := by
  refine Json.document_ofList (by simp only [List.map]; decide) ?_
  simp only [List.forall_mem_cons]
  exact ⟨.int _, .int _, .int _, .int _, .int _, by simp⟩

theorem document_kernelLog (log : KernelLog) : log.toValue.Document := by
  refine Json.document_ofList (by simp only [List.map]; decide) ?_
  simp only [List.forall_mem_cons]
  refine ⟨.bool _, document_intOrNone _, .list ?_, document_strOrNone _, by simp⟩
  rw [List.forall_mem_map]
  exact fun w _ => .str w

theorem document_observations (o : Observations) : o.toValue.Document := by
  refine Json.document_ofList (by simp only [List.map]; decide) ?_
  simp only [List.forall_mem_cons]
  refine ⟨.int _, .int _, document_intOrNone _, document_intOrNone _, document_intOrNone _,
    document_intOrNone _, document_intOrNone _, document_intOrNone _, .list ?_, .bool _,
    document_kernelLog _, by simp⟩
  rw [List.forall_mem_map]
  exact fun w _ => document_window w

theorem document_optionalInt (n : Option Int) : (Json.ofDoc (optionalInt n)).Document := by
  cases n with
  | none => exact .none
  | some n => exact .int n

theorem document_optionalNat (n : Option Nat) : (Json.ofDoc (optionalNat n)).Document := by
  cases n with
  | none => exact .none
  | some n => exact .int n

theorem document_assertion (a : AssertionDocument) :
    (Json.ofDoc (.object a.document)).Document := by
  have hkeys : (a.document.map Prod.fst).Nodup := by
    cases a <;> (simp only [AssertionDocument.document, List.map]; decide)
  refine Json.document_object hkeys ?_
  cases a with
  | eventCount a =>
    simp only [AssertionDocument.document, List.forall_mem_cons]
    exact ⟨.str _, .str _, .int _, .int _, document_optionalInt _, .bool _, by simp⟩
  | stdout a =>
    simp only [AssertionDocument.document, List.forall_mem_cons]
    exact ⟨.str _, .str _, .str _, .bool _, by simp⟩
  | disconnect a =>
    simp only [AssertionDocument.document, List.forall_mem_cons]
    exact ⟨.str _, .bool _, .bool _, .bool _, by simp⟩
  | kernelWarnings a =>
    simp only [AssertionDocument.document, List.forall_mem_cons]
    exact ⟨.str _, .int _, document_optionalNat _, .bool _, .bool _, by simp⟩
  | processExitCode expected observed passed =>
    simp only [AssertionDocument.document, List.forall_mem_cons]
    exact ⟨.str _, .int _, .int _, .bool _, by simp⟩
  | recoveryLatency a =>
    simp only [AssertionDocument.document, List.forall_mem_cons]
    exact ⟨.str _, .int _, document_optionalInt _, .bool _, by simp⟩

theorem document_application (a : ApplicationResult) :
    (Json.ofDoc (.object (applicationDocument a))).Document := by
  refine Json.document_object (by simp only [applicationDocument, List.map]; decide) ?_
  simp only [applicationDocument, List.forall_mem_cons]
  refine ⟨?_, .int _, .bool _, .bool _, .str _, .str _, by simp⟩
  rw [Json.ofDoc_list, List.map_map]
  refine .list ?_
  rw [List.forall_mem_map]
  exact fun s _ => .str s

theorem document_error (e : ReportError) : (Json.ofDoc (.object e.document)).Document := by
  refine Json.document_object (by simp only [ReportError.document, List.map]; decide) ?_
  simp only [ReportError.document, List.forall_mem_cons]
  exact ⟨.str _, .str _, by simp⟩

/-- A report is a document when the details of its timeline are. -/
theorem document_toDict {report : ScenarioReport}
    (h : ∀ entry ∈ report.timeline, (PyValue.dict entry.details).Document) :
    (report.toDict upper).Document := by
  refine Json.document_ofList (by simp only [List.map]; decide) ?_
  simp only [List.forall_mem_cons]
  refine ⟨.int _, .str _, ?_, ?_, ?_, .list ?_, .list ?_, ?_, by simp⟩
  · refine Json.document_ofList (by simp only [List.map]; decide) ?_
    simp only [List.forall_mem_cons]
    exact ⟨.str _, by simp⟩
  · cases report.application with
    | none => exact .none
    | some a => exact document_application a
  · cases report.observations with
    | none => exact .dict .nil (by simp)
    | some o => exact document_observations o
  · rw [List.forall_mem_map]
    exact fun a _ => document_assertion a
  · rw [List.forall_mem_map]
    exact fun entry hentry => document_entry (h entry hentry)
  · cases report.error with
    | none => exact .none
    | some e => exact document_error e

/-! ### The details -/

theorem document_eventDict (e : Event) : (PyValue.dict e.dict).Document := by
  obtain ⟨atMs, action⟩ := e
  have hwrite : ∀ l : List (String × PyValue), (l.map fun kv => py kv.1).Nodup →
      (∀ kv ∈ l, kv.2.Document) → Event.dict ⟨atMs, action⟩ = PyDict.ofList l →
      (PyValue.dict (Event.dict ⟨atMs, action⟩)).Document := by
    intro l hkeys hvalues heq
    rw [heq]
    exact Json.document_ofList hkeys hvalues
  cases action with
  | write data =>
    refine hwrite [("action", _), ("data", _), ("at_ms", _)] (by simp only [List.map]; decide) ?_ rfl
    simp only [List.forall_mem_cons]
    exact ⟨.str _, .str _, .int _, by simp⟩
  | fault f =>
    cases f with
    | disconnect =>
      refine hwrite [("action", _), ("type", _), ("at_ms", _)] (by simp only [List.map]; decide)
        ?_ rfl
      simp only [List.forall_mem_cons]
      exact ⟨.str _, .str _, .int _, by simp⟩
    | eio repeats =>
      refine hwrite [("action", _), ("type", _), ("repeat", _), ("at_ms", _)]
        (by simp only [List.map]; decide) ?_ rfl
      simp only [List.forall_mem_cons]
      exact ⟨.str _, .str _, .int _, .int _, by simp⟩
    | delay duration =>
      refine hwrite [("action", _), ("type", _), ("duration_ms", _), ("at_ms", _)]
        (by simp only [List.map]; decide) ?_ rfl
      simp only [List.forall_mem_cons]
      exact ⟨.str _, .str _, .int _, .int _, by simp⟩
    | partialRead bytes =>
      refine hwrite [("action", _), ("type", _), ("bytes", _), ("at_ms", _)]
        (by simp only [List.map]; decide) ?_ rfl
      simp only [List.forall_mem_cons]
      exact ⟨.str _, .str _, .int _, .int _, by simp⟩
  | clear =>
    refine hwrite [("action", _), ("at_ms", _)] (by simp only [List.map]; decide) ?_ rfl
    simp only [List.forall_mem_cons]
    exact ⟨.str _, .int _, by simp⟩
  | reset =>
    refine hwrite [("action", _), ("at_ms", _)] (by simp only [List.map]; decide) ?_ rfl
    simp only [List.forall_mem_cons]
    exact ⟨.str _, .int _, by simp⟩

theorem document_fields {lim : IntLimit} {text : PyStr} {events : List ApplicationLogEvent}
    (h : parseApplicationLog lim text = .ok events) :
    ∀ e ∈ events, (PyValue.dict e.fields).Document := by
  intro e he
  obtain ⟨line, previous, raw, hline⟩ := mem_parseLines h e he
  unfold parseLine at hline
  split at hline
  · cases hline
  · cases hline
  · next hloads =>
    unfold parseRecord at hline
    split at hline
    · simp only [bind_eq_ok, pure_eq_ok] at hline
      obtain ⟨_, -, _, -, _, -, rfl⟩ := hline
      exact (Json.loads_document hloads).filter _
    · cases hline

end Documents

end VDevLab.Report
