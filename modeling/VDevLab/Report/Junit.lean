import VDevLab.Lib.JsonDump
import VDevLab.Report.Build

/-!
# `junit.py`: the report as a JUnit suite

`report_to_junit_xml` up to the element tree that it builds; what follows
there is the indentation of the tree and its serialisation by the library.
The texts of the elements are JSON documents.
-/

namespace VDevLab.Report

open Analysis PyStr Runner

/-! ## Documents -/

def optionalInt : Option Int → JsonDoc
  | some n => .int n
  | none => .null

def optionalNat : Option Nat → JsonDoc
  | some n => .int n
  | none => .null

def StdoutOperator.name : StdoutOperator → PyStr
  | .contains => py "contains"
  | .notContains => py "not_contains"

/-- An entry of `report.assertions`: its type and the fields of the result. -/
def AssertionDocument.document : AssertionDocument → List (PyStr × JsonDoc)
  | .eventCount a =>
      [(py "type", .str (py "event_count")), (py "event", .str a.event),
        (py "expected", .int a.expected), (py "observed", .int a.observed),
        (py "within_ms", optionalInt a.withinMs), (py "passed", .bool a.passed)]
  | .stdout a =>
      [(py "type", .str (py "stdout")), (py "operator", .str (StdoutOperator.name a.operator)),
        (py "text", .str a.text), (py "passed", .bool a.passed)]
  | .disconnect a =>
      [(py "type", .str (py "disconnect")), (py "expected", .bool a.expected),
        (py "observed", .bool a.observed), (py "passed", .bool a.passed)]
  | .kernelWarnings a =>
      [(py "type", .str (py "kernel_warnings")), (py "expected", .int a.expected),
        (py "observed", optionalNat a.observed), (py "available", .bool a.available),
        (py "passed", .bool a.passed)]
  | .processExitCode expected observed passed =>
      [(py "type", .str (py "process_exit_code")), (py "expected", .int expected),
        (py "observed", .int observed), (py "passed", .bool passed)]
  | .recoveryLatency a =>
      [(py "type", .str (py "recovery_latency")), (py "maximum_ms", .int a.maximumMs),
        (py "observed_ms", optionalInt a.observedMs), (py "passed", .bool a.passed)]

/-- `document.get(key)`. -/
def lookup (document : List (PyStr × JsonDoc)) (key : PyStr) : Option JsonDoc :=
  (document.find? fun member => member.1 = key).map (·.2)

/-- `assertion.get("passed") is False`. -/
def isFailed (document : List (PyStr × JsonDoc)) : Bool :=
  match lookup document (py "passed") with
  | some (.bool false) => true
  | _ => false

/-- `_application_document`. -/
def applicationDocument (application : ApplicationResult) : List (PyStr × JsonDoc) :=
  [(py "command", .list (application.command.map .str)), (py "exit_code", .int application.exitCode),
    (py "timed_out", .bool application.timedOut), (py "forced", .bool application.forced),
    (py "stdout", .str application.stdout), (py "stderr", .str application.stderr)]

/-- The `error` of a report. -/
def ReportError.document (error : ReportError) : List (PyStr × JsonDoc) :=
  [(py "type", .str error.type), (py "message", .str error.message)]

/-! ## The element tree -/

/-- `ElementTree.Element`, without the white space between elements. -/
inductive XmlElement
  | element (tag : PyStr) (attributes : List (PyStr × PyStr)) (text : Option PyStr)
      (children : List XmlElement)

namespace XmlElement

def tag : XmlElement → PyStr
  | .element tag _ _ _ => tag

def attributes : XmlElement → List (PyStr × PyStr)
  | .element _ attributes _ _ => attributes

def text : XmlElement → Option PyStr
  | .element _ _ text _ => text

def children : XmlElement → List XmlElement
  | .element _ _ _ children => children

/-- `element.get(key)`. -/
def get (e : XmlElement) (key : PyStr) : Option PyStr :=
  (e.attributes.find? fun a => a.1 = key).map (·.2)

/-- `element.find(tag)`. -/
def find (e : XmlElement) (tag : PyStr) : Option XmlElement := e.children.find? fun c => c.tag = tag

end XmlElement

/-- `REPORT_SCHEMA_VERSION`. -/
abbrev reportSchemaVersion : Nat := 1

/-- `status.value`. -/
def ReportStatus.value : ReportStatus → PyStr
  | .pass => py "PASS"
  | .fail => py "FAIL"
  | .error => py "ERROR"
  | .timeout => py "TIMEOUT"

/-- `str(int(b))`. -/
def flag (b : Bool) : PyStr := decimal b.toNat

/-- The assertions that the suite lists. -/
def failedAssertions (report : ScenarioReport) : List (List (PyStr × JsonDoc)) :=
  (report.assertions.map AssertionDocument.document).filter isFailed

/-- The element for a failed report. -/
def failureElement (report : ScenarioReport) : XmlElement :=
  let failed := failedAssertions report
  .element (py "failure")
    [(py "message", decimal failed.length ++ py " assertion(s) failed"),
      (py "type", py "VDevLabAssertionFailure")]
    (some (JsonDoc.dumps (.object [(py "failed_assertions", .list (failed.map .object))]))) []

/-- `str(document.get(key, default))`, for the texts in an error. -/
def textOr (document : List (PyStr × JsonDoc)) (key otherwise : PyStr) : PyStr :=
  match lookup document key with
  | some (.str s) => s
  | _ => otherwise

/-- The element for a report with an error. -/
def errorElement (report : ScenarioReport) : XmlElement :=
  let document := (report.error.map ReportError.document).getD []
  .element (py "error")
    [(py "message", textOr document (py "message") (py "scenario report error")),
      (py "type", textOr document (py "type") (py "VDevLabError"))]
    (some (JsonDoc.dumps (.object document))) []

/-- The element for a scenario that timed out. -/
def timeoutElement (report : ScenarioReport) : XmlElement :=
  .element (py "error")
    [(py "message", py "scenario timed out"), (py "type", py "VDevLabTimeout")]
    (some (JsonDoc.dumps (.object
      [(py "application", .object ((report.application.map applicationDocument).getD [])),
        (py "status", .str report.status.value)]))) []

/-- The children of the test case. -/
def caseChildren (report : ScenarioReport) : List XmlElement :=
  match report.status with
  | .fail => [failureElement report]
  | .error => [errorElement report]
  | .timeout => [timeoutElement report]
  | .pass => []

/-- The suite of `report_to_junit_xml`. -/
def reportToJunitXml (report : ScenarioReport) : XmlElement :=
  .element (py "testsuite")
    [(py "name", py "vdevlab"), (py "tests", py "1"),
      (py "failures", flag (report.status = .fail)),
      (py "errors", flag (report.status = .error || report.status = .timeout)),
      (py "skipped", py "0")] none
    [.element (py "properties") [] none
      [.element (py "property")
          [(py "name", py "vdevlab.report_schema_version"), (py "value", decimal reportSchemaVersion)]
          none [],
        .element (py "property")
          [(py "name", py "vdevlab.status"), (py "value", report.status.value)] none []],
      .element (py "testcase")
        [(py "classname", py "vdevlab.scenario"), (py "name", report.scenarioName)] none
        (caseChildren report)]

/-! ## What the documents say -/

/-- `passed` is a boolean, so `is False` and truthiness agree. -/
theorem isFailed_document (a : AssertionDocument) : isFailed a.document = !a.passed := by
  have hpassed : lookup a.document (py "passed") = some (.bool a.passed) := by
    cases a <;> rfl
  rw [isFailed, hpassed]
  cases a.passed <;> rfl

/-- The listed assertions are those that did not pass, in order. -/
theorem failedAssertions_eq (report : ScenarioReport) :
    failedAssertions report =
      (report.assertions.filter fun a => !a.passed).map AssertionDocument.document := by
  rw [failedAssertions, List.filter_map]
  congr 1
  apply List.filter_congr
  intro a _
  exact isFailed_document a

theorem find_testcase (report : ScenarioReport) :
    ((reportToJunitXml report).find (py "testcase")).map XmlElement.children =
      some (caseChildren report) := rfl

theorem caseChildren_eq_nil {report : ScenarioReport} :
    caseChildren report = [] ↔ report.status = .pass := by
  unfold caseChildren
  cases report.status <;> simp

end VDevLab.Report
