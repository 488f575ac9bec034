import VDevLab.Report.Junit

/-!
# `cli.py`: the outcome of `vdevlab run`

The user sees a run three times: in the exit code, in the status of the JSON
report and in the elements of the JUnit suite. The exit code is computed from
the raw exit code of the application and the status, the suite from the status
and the assertions; all three agree.

Whether the report files can be written is a parameter.
-/

namespace VDevLab.Report

open Analysis Check PyStr Runner

/-! ## The command -/

/-- How the `try` of the command ends. An error is known by its type and its
text. -/
inductive Attempt
  | completed (scenario : ScenarioDefinition) (result : ScenarioRunResult)
  /-- `ScenarioValidationError`. -/
  | invalid (error : ReportError)
  /-- `KeyboardInterrupt`. -/
  | interrupted
  /-- `OSError` or `RunnerError`. -/
  | failed (error : ReportError)

/-- `build_error_report`. -/
def buildErrorReport (scenarioName : PyStr) (error : ReportError) : ScenarioReport where
  status := .error
  scenarioName
  application := none
  observations := none
  assertions := []
  timeline := []
  error := some error

/-- The end of `main` for a report that was written. -/
def exitCode (report : ScenarioReport) (application : ApplicationResult) : Int :=
  if report.status = .timeout then 124
  else if application.exitCode ≠ 0 then
    if 1 ≤ application.exitCode ∧ application.exitCode ≤ 125 then application.exitCode else 1
  else if report.status ≠ .pass then 1
  else 0

/-- The value `main` returns and the report in the files, if it is there. -/
structure CommandResult where
  exitCode : Int
  report : Option ScenarioReport

/-- `_write_error_report`. -/
def writeErrorReport (canWrite : ScenarioReport → Bool) (scenarioName : PyStr)
    (error : ReportError) : Option ScenarioReport :=
  if canWrite (buildErrorReport scenarioName error) then some (buildErrorReport scenarioName error)
  else none

/-- `main` for the command `run`. -/
def runCommand (lim : IntLimit) (canWrite : ScenarioReport → Bool) (scenarioName : PyStr) :
    Attempt → Except Raised CommandResult
  | .invalid error => .ok ⟨2, writeErrorReport canWrite scenarioName error⟩
  | .interrupted =>
      .ok ⟨130, writeErrorReport canWrite scenarioName ⟨py "RuntimeError", py "interrupted"⟩⟩
  | .failed error => .ok ⟨1, writeErrorReport canWrite scenarioName error⟩
  | .completed scenario result => do
      let report ← buildScenarioReport lim scenario result
      if canWrite report then return ⟨exitCode report result.application, some report⟩
      else return ⟨1, none⟩

/-! ## What a report says -/

/-- The exit code of the application is always among the assertions. -/
theorem exitDocument_mem {scenario : ScenarioDefinition} {result : ScenarioRunResult}
    {events : List ApplicationLogEvent} {metrics : RecoveryMetrics}
    {documents : List AssertionDocument}
    (h : assertionDocuments scenario result events metrics = .ok documents) :
    exitDocument result.application ∈ documents := by
  simp only [assertionDocuments, bind_eq_ok, pure_eq_ok] at h
  obtain ⟨counts, -, typed, -, latencies, -, rfl⟩ := h
  simp

/-- Which reports there are: an error, with its cause; a TIMEOUT; a report with
a failed assertion; one whose assertions all passed. -/
theorem buildScenarioReport_cases {lim : IntLimit} {scenario : ScenarioDefinition}
    {result : ScenarioRunResult} {report : ScenarioReport}
    (h : buildScenarioReport lim scenario result = .ok report) :
    (report.status = .error ∧ ∃ error, report.error = some error) ∨
    (report.status = .timeout ∧ result.application.timedOut = true) ∨
    (report.status = .fail ∧ report.assertions.all AssertionDocument.passed = false) ∨
    (report.status = .pass ∧ report.assertions.all AssertionDocument.passed = true ∧
      exitDocument result.application ∈ report.assertions) := by
  rcases buildScenarioReport_eq_ok h with ⟨-, herror⟩ | ⟨events, m, -, hdocuments, hjudge⟩
  · exact .inl herror
  · rcases judge_cases scenario result report.assertions with
      ⟨error, hj⟩ | ⟨htimedOut, hj⟩ | ⟨hall, hj⟩ | ⟨hall, hj⟩
    all_goals
      rw [hj, Prod.mk.injEq] at hjudge
      obtain ⟨hstatus, herror⟩ := hjudge
    · exact .inl ⟨hstatus, error, herror⟩
    · exact .inr (.inl ⟨hstatus, htimedOut⟩)
    · exact .inr (.inr (.inl ⟨hstatus, hall⟩))
    · exact .inr (.inr (.inr ⟨hstatus, hall, exitDocument_mem hdocuments⟩))

section Reports

variable {lim : IntLimit} {scenario : ScenarioDefinition} {result : ScenarioRunResult}
  {report : ScenarioReport}

theorem exitCode_of_pass (h : buildScenarioReport lim scenario result = .ok report)
    (hpass : report.status = .pass) : result.application.exitCode = 0 := by
  rcases buildScenarioReport_cases h with ⟨hs, -⟩ | ⟨hs, -⟩ | ⟨hs, -⟩ | ⟨-, hall, hmem⟩
  · cases hpass.symm.trans hs
  · cases hpass.symm.trans hs
  · cases hpass.symm.trans hs
  · simpa [exitDocument, AssertionDocument.passed] using List.all_eq_true.mp hall _ hmem

theorem failed_of_fail (h : buildScenarioReport lim scenario result = .ok report)
    (hfail : report.status = .fail) : (report.assertions.filter fun a => !a.passed) ≠ [] := by
  rcases buildScenarioReport_cases h with ⟨hs, -⟩ | ⟨hs, -⟩ | ⟨-, hall⟩ | ⟨hs, -⟩
  · cases hfail.symm.trans hs
  · cases hfail.symm.trans hs
  · obtain ⟨a, ha, hnot⟩ := List.all_eq_false.mp hall
    intro hnil
    rw [List.filter_eq_nil_iff] at hnil
    exact hnil a ha (by simpa using hnot)
  · cases hfail.symm.trans hs

theorem error_of_error (h : buildScenarioReport lim scenario result = .ok report)
    (herror : report.status = .error) : ∃ error, report.error = some error := by
  rcases buildScenarioReport_cases h with ⟨-, hsome⟩ | ⟨hs, -⟩ | ⟨hs, -⟩ | ⟨hs, -⟩
  · exact hsome
  · cases herror.symm.trans hs
  · cases herror.symm.trans hs
  · cases herror.symm.trans hs

/-- The command ends with zero exactly for a report that passed. -/
theorem exitCode_eq_zero (h : buildScenarioReport lim scenario result = .ok report) :
    exitCode report result.application = 0 ↔ report.status = .pass := by
  constructor
  · intro hzero
    unfold exitCode at hzero
    split at hzero
    · cases hzero
    · split at hzero
      · split at hzero
        · next hne _ => exact absurd hzero hne
        · cases hzero
      · split at hzero
        · cases hzero
        · next hpass => exact not_not.mp hpass
  · intro hpass
    have hzero := exitCode_of_pass h hpass
    simp [exitCode, hpass, hzero]

end Reports

/-! ## Agreement -/

/-- The exit code, the status and the suite of one run. -/
structure OutcomesAgree (report : ScenarioReport) (code : Int) (suite : XmlElement) : Prop where
  exit_pass : code = 0 ↔ report.status = .pass
  junit_pass : report.status = .pass ↔
    suite.get (py "failures") = some (py "0") ∧ suite.get (py "errors") = some (py "0") ∧
      ∃ testcase, suite.find (py "testcase") = some testcase ∧ testcase.children = []
  timeout : report.status = .timeout → code = 124 ∧
    ∃ testcase e, suite.find (py "testcase") = some testcase ∧ testcase.children = [e] ∧
      e.tag = py "error"
  error : report.status = .error → code ≠ 0 ∧
    ∃ testcase e cause, suite.find (py "testcase") = some testcase ∧ testcase.children = [e] ∧
      e.tag = py "error" ∧ report.error = some cause ∧
      e.get (py "type") = some cause.type ∧ e.get (py "message") = some cause.message
  /-- The failure lists the assertions that did not pass, in order, and
  counts them. -/
  fail : report.status = .fail → code ≠ 0 ∧
    ∃ testcase e failed, suite.find (py "testcase") = some testcase ∧ testcase.children = [e] ∧
      e.tag = py "failure" ∧ failed = (report.assertions.filter fun a => !a.passed) ∧
      failed ≠ [] ∧
      e.get (py "message") = some (decimal failed.length ++ py " assertion(s) failed") ∧
      e.text = some (JsonDoc.dumps (.object
        [(py "failed_assertions", .list (failed.map fun a => .object a.document))]))

theorem reportToJunitXml_pass {report : ScenarioReport} : report.status = .pass ↔
    (reportToJunitXml report).get (py "failures") = some (py "0") ∧
    (reportToJunitXml report).get (py "errors") = some (py "0") ∧
    ∃ testcase, (reportToJunitXml report).find (py "testcase") = some testcase ∧
      testcase.children = [] := by
  have hfailures : (reportToJunitXml report).get (py "failures")
      = some (flag (report.status = .fail)) := rfl
  have herrors : (reportToJunitXml report).get (py "errors")
      = some (flag (report.status = .error || report.status = .timeout)) := rfl
  constructor
  · intro hpass
    rw [hfailures, herrors, hpass]
    refine ⟨by decide, by decide, ?_⟩
    obtain ⟨testcase, hfind, hchildren⟩ := Option.map_eq_some_iff.mp (find_testcase report)
    exact ⟨testcase, hfind, hchildren.trans (caseChildren_eq_nil.mpr hpass)⟩
  · intro h
    obtain ⟨-, -, testcase, hfind, hnil⟩ := h
    have hchildren := find_testcase report
    rw [hfind, Option.map_some, hnil] at hchildren
    exact caseChildren_eq_nil.mp (Option.some.inj hchildren).symm

/-- A scenario without assertions of its own. -/
def bareScenario : ScenarioDefinition where
  source := []
  schemaVersion := 1
  devicePath := py "/dev/vdevlab0"
  command := [py "./vtemp-monitor"]
  startupTimeoutMs := 1000
  name := py "bare"
  timeoutMs := 5000
  events := []
  assertions := []

/-- A run of it in which the application died of SIGSEGV. -/
def crashedRun : ScenarioRunResult where
  scenarioName := py "bare"
  dispatches := []
  application := { command := [py "./vtemp-monitor"], exitCode := -11, stdout := [], stderr := [] }

end VDevLab.Report
