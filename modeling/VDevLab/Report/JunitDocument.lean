import VDevLab.Lib.XmlText
import VDevLab.Report.Cli
import VDevLab.Report.Total
import VDevLab.Runner.Dispatch

/-!
# When the JUnit file is XML

`report_to_junit_xml` from the element tree to the string. Names and messages
reach it through the escapes of XML alone, the documents in the elements
through those of JSON first: a control character is a problem in the one and
not in the other, a lone surrogate or `U+FFFE` in both.
-/

namespace VDevLab.Report

open PyStr Runner

/-! ## The string -/

/-- `indentations[level]`. -/
def indentation (level : Nat) : PyStr := ch '\n' :: List.replicate (2 * level) (ch ' ')

mutual

/-- `ElementTree.indent`, on an element without tails; one without children is
left alone. -/
def indentElement (level : Nat) : XmlElement → Xml.Element
  | .element tag attributes text children =>
      let text := text.getD []
      if children.isEmpty then .element tag attributes text []
      else .element tag attributes (if isBlank text then indentation (level + 1) else text)
        (indentChildren level children)

/-- The last tail is that of the level above. -/
def indentChildren (level : Nat) : List XmlElement → List (Xml.Element × PyStr)
  | [] => []
  | child :: rest =>
      (indentElement (level + 1) child, indentation (if rest.isEmpty then level else level + 1)) ::
        indentChildren level rest

end

/-- Whether UTF-8 has the character. -/
def encodes (c : CodePoint) : Bool := (encodeCodePoint c).isSome

/-- `report_to_junit_xml`: characters that UTF-8 has not are replaced by
references. -/
def reportToJunitXmlString (report : ScenarioReport) : PyStr :=
  Xml.write encodes (indentElement 0 (reportToJunitXml report)) ++ py "\n"

/-- The string is well-formed XML and has the name and the error of the
report. -/
def IsJunitDocument (report : ScenarioReport) : Prop :=
  (∀ c ∈ reportToJunitXmlString report, Xml.isXmlChar c = true) ∧
  ∃ suite testcase, Xml.parse (reportToJunitXmlString report) = some suite ∧
    suite.find (py "testcase") = some testcase ∧
    testcase.get (py "name") = some report.scenarioName ∧
    ∀ e ∈ report.error, ∃ error, testcase.find (py "error") = some error ∧
      error.get (py "message") = some e.message ∧ error.get (py "type") = some e.type

/-! ## What is asked of a report -/

/-- A text that is legal behind the escapes of JSON. -/
def JsonLegal (s : PyStr) : Prop := ∀ c ∈ s, c.val < 0x20 ∨ Xml.isXmlChar c = true

/-- The texts that a failed assertion brings into the file. -/
def AssertionDocument.Legal : AssertionDocument → Prop
  | .eventCount a => JsonLegal a.event
  | .stdout a => JsonLegal a.text
  | _ => True

/-- The strings that are copied into the file are of XML characters, or of
characters that JSON escapes where it is JSON that they are copied into. -/
structure JunitLegal (report : ScenarioReport) : Prop where
  name : report.scenarioName.all Xml.isXmlChar = true
  error : report.status = .error → ∀ e ∈ report.error,
    e.type.all Xml.isXmlChar = true ∧ e.message.all Xml.isXmlChar = true
  failed : report.status = .fail → ∀ a ∈ report.assertions, a.passed = false → a.Legal
  timedOut : report.status = .timeout → ∀ a ∈ report.application,
    (∀ argument ∈ a.command, JsonLegal argument) ∧ JsonLegal a.stdout ∧ JsonLegal a.stderr

theorem encodes_ascii {c : CodePoint} (h : c.val < 0x80) : encodes c = true := by
  rw [encodes, encodeCodePoint, if_pos h]
  rfl

/-! ## The tree -/

theorem suite_named (report : ScenarioReport) :
    (indentElement 0 (reportToJunitXml report)).named (Xml.isWritableName encodes) = true := by
  rw [reportToJunitXml, caseChildren]
  cases report.status <;> rfl

/-- What the reader of the file looks up. -/
theorem suite_testcase (report : ScenarioReport) :
    ∃ testcase, (indentElement 0 (reportToJunitXml report)).find (py "testcase") = some testcase ∧
      testcase.get (py "name") = some report.scenarioName ∧
      (report.status = .error →
        testcase.find (py "error") = some (indentElement 2 (errorElement report))) := by
  rw [reportToJunitXml, caseChildren]
  cases report.status with
  | error => exact ⟨_, rfl, rfl, fun _ => rfl⟩
  | _ => exact ⟨_, rfl, rfl, fun h => by cases h⟩

theorem errorElement_get {report : ScenarioReport} {e : ReportError} (h : report.error = some e) :
    (indentElement 2 (errorElement report)).get (py "message") = some e.message ∧
      (indentElement 2 (errorElement report)).get (py "type") = some e.type := by
  rw [errorElement, h]
  exact ⟨rfl, rfl⟩

section Characters

variable {p q : CodePoint → Bool} (hp : ∀ c, JsonDoc.isLayout c = true → p c = true)
  (hq : ∀ c, JsonDoc.isLayout c = true → q c = true)

include hq in
theorem indentation_all (level : Nat) : (indentation level).all q = true := JsonDoc.newline_all hq level

include hp hq

/-- In the suite, the name and the texts of the case are not the program's. -/
theorem suite_every (report : ScenarioReport) :
    (indentElement 0 (reportToJunitXml report)).every (·.all p) (·.all q) =
      (report.scenarioName.all p &&
        (caseChildren report).all fun e => (indentElement 2 e).every (·.all p) (·.all q)) := by
  have hindent := indentation_all hq
  have hconst : ∀ {s : PyStr}, s.all JsonDoc.isLayout = true → s.all p = true :=
    JsonDoc.all_layout hp
  have hstatus : report.status.value.all p = true := by
    cases report.status <;> exact hconst (by decide)
  have hflag : ∀ b, (flag b).all p = true := fun b => JsonDoc.decimal_all hp _
  have hversion : (decimal reportSchemaVersion).all p = true := JsonDoc.decimal_all hp _
  have hcase : ∀ level, Xml.Element.everyChild (·.all p) (·.all q)
      (indentChildren level (caseChildren report)) =
        (caseChildren report).all fun e => (indentElement (level + 1) e).every (·.all p) (·.all q) := by
    intro level
    unfold caseChildren
    cases report.status <;> simp [indentChildren, Xml.Element.everyChild, hindent]
  have hblank : isBlank [] = true := rfl
  have hvalues : ∀ s ∈ [py "vdevlab", py "1", py "0", py "vdevlab.report_schema_version",
      py "vdevlab.status", py "vdevlab.scenario"], s.all p = true := by
    have hall : [py "vdevlab", py "1", py "0", py "vdevlab.report_schema_version",
      py "vdevlab.status", py "vdevlab.scenario"].all (·.all JsonDoc.isLayout) = true := by decide
    exact fun s hs => hconst (List.all_eq_true.mp hall s hs)
  simp only [List.forall_mem_cons] at hvalues
  obtain ⟨hname, hone, hzero, hkey, hstatusKey, hclass, -⟩ := hvalues
  rw [reportToJunitXml]
  by_cases hnone : (caseChildren report).isEmpty = true
  · rw [List.isEmpty_iff] at hnone
    simp [hnone, indentElement, indentChildren, Xml.Element.every, Xml.Element.everyChild, hindent,
      hname, hone, hzero, hkey, hstatusKey, hclass, hstatus, hflag, hversion, hblank]
  · simp [hnone, indentElement, indentChildren, Xml.Element.every, Xml.Element.everyChild, hindent,
      hname, hone, hzero, hkey, hstatusKey, hclass, hstatus, hflag, hversion, hblank, hcase]

omit hp in
theorem inString_layout {s : PyStr} (h : s.all JsonDoc.isLayout = true) :
    s.all (JsonDoc.inString q) = true :=
  JsonDoc.all_layout (fun c hc => by rw [JsonDoc.inString, hq c hc, Bool.or_true]) h

theorem failureElement_every (report : ScenarioReport) :
    (indentElement 2 (failureElement report)).every (·.all p) (·.all q) =
      (failedAssertions report).all (JsonDoc.everyMember (JsonDoc.inString q)) := by
  have hlength : (decimal (failedAssertions report).length).all p = true := JsonDoc.decimal_all hp _
  have htext : (py " assertion(s) failed").all p = true := JsonDoc.all_layout hp (by decide)
  have htype : (py "VDevLabAssertionFailure").all p = true := JsonDoc.all_layout hp (by decide)
  have hkey : (py "failed_assertions").all (JsonDoc.inString q) = true :=
    inString_layout hq (by decide)
  simp [failureElement, indentElement, Xml.Element.every, Xml.Element.everyChild, hlength, htext, htype,
    JsonDoc.dumps_all hq, JsonDoc.everyChar, JsonDoc.everyMember, JsonDoc.everyItem_eq, hkey,
    Function.comp_def]

omit hp in
theorem errorElement_every {report : ScenarioReport} {e : ReportError} (h : report.error = some e) :
    (indentElement 2 (errorElement report)).every (·.all p) (·.all q) =
      (e.message.all p && e.type.all p &&
        (e.type.all (JsonDoc.inString q) && e.message.all (JsonDoc.inString q))) := by
  have hmessage : textOr e.document (py "message") (py "scenario report error") = e.message := rfl
  have htype : textOr e.document (py "type") (py "VDevLabError") = e.type := rfl
  have hkeys : (py "type").all (JsonDoc.inString q) = true ∧
      (py "message").all (JsonDoc.inString q) = true :=
    ⟨inString_layout hq (by decide), inString_layout hq (by decide)⟩
  have hdocument : JsonDoc.everyMember (JsonDoc.inString q) e.document =
      (e.type.all (JsonDoc.inString q) && e.message.all (JsonDoc.inString q)) := by
    simp [ReportError.document, JsonDoc.everyMember, JsonDoc.everyChar, hkeys]
  simp [errorElement, h, indentElement, Xml.Element.every, Xml.Element.everyChild, hmessage, htype,
    JsonDoc.dumps_all hq, JsonDoc.everyChar, hdocument]

theorem timeoutElement_every {report : ScenarioReport} (hstatus : report.status = .timeout) :
    (indentElement 2 (timeoutElement report)).every (·.all p) (·.all q) =
      report.application.all fun a => a.command.all (·.all (JsonDoc.inString q)) &&
        a.stdout.all (JsonDoc.inString q) && a.stderr.all (JsonDoc.inString q) := by
  have htexts : (py "scenario timed out").all p = true ∧ (py "VDevLabTimeout").all p = true :=
    ⟨JsonDoc.all_layout hp (by decide), JsonDoc.all_layout hp (by decide)⟩
  have hkeys : ∀ s ∈ [py "application", py "status", py "TIMEOUT", py "command", py "exit_code",
      py "timed_out", py "forced", py "stdout", py "stderr"], s.all (JsonDoc.inString q) = true := by
    have hall : [py "application", py "status", py "TIMEOUT", py "command", py "exit_code",
      py "timed_out", py "forced", py "stdout", py "stderr"].all (·.all JsonDoc.isLayout) = true := by
      decide
    exact fun s hs => inString_layout hq (List.all_eq_true.mp hall s hs)
  simp only [List.forall_mem_cons] at hkeys
  cases happlication : report.application <;>
    simp [timeoutElement, happlication, hstatus, ReportStatus.value, indentElement, Xml.Element.every,
      Xml.Element.everyChild, htexts, JsonDoc.dumps_all hq, JsonDoc.everyChar, JsonDoc.everyMember,
      JsonDoc.everyItem_eq, applicationDocument, hkeys, Function.comp_def, Bool.and_assoc]

end Characters

/-! ## The file -/

section File

variable {report : ScenarioReport}

theorem legal_layout (c : CodePoint) (h : JsonDoc.isLayout c = true) : Xml.isXmlChar c = true := by
  simp only [JsonDoc.isLayout, Bool.or_eq_true, Bool.and_eq_true, decide_eq_true_eq, beq_iff_eq] at h
  rcases h with h | rfl
  · simp only [Xml.isXmlChar, Bool.or_eq_true, Bool.and_eq_true, decide_eq_true_eq, beq_iff_eq]
    omega
  · decide

theorem no_return_layout (c : CodePoint) (h : JsonDoc.isLayout c = true) : (c != ch '\r') = true := by
  rw [bne_iff_ne]
  intro hc
  rw [hc] at h
  exact absurd h (by decide)

theorem jsonLegal_iff {s : PyStr} :
    JsonLegal s ↔ s.all (JsonDoc.inString Xml.isXmlChar) = true := by
  simp [JsonLegal, JsonDoc.inString]

/-- No text has a carriage return: it is either layout or escaped by JSON. -/
theorem suite_lines (hbuilt : report.status = .error → ∃ e, report.error = some e) :
    (indentElement 0 (reportToJunitXml report)).every (fun _ => true) (·.all (· != ch '\r')) = true := by
  have hescaped : JsonDoc.inString (· != ch '\r') = fun _ => true := by
    funext c
    by_cases hc : c = ch '\r'
    · rw [hc]
      rfl
    · simp [JsonDoc.inString, hc]
  have hall : (indentElement 0 (reportToJunitXml report)).every (·.all fun _ => true)
      (·.all (· != ch '\r')) = true := by
    rw [suite_every (fun _ _ => rfl) no_return_layout, Bool.and_eq_true]
    refine ⟨by simp, ?_⟩
    unfold caseChildren
    cases hstatus : report.status with
    | pass => rfl
    | fail =>
      rw [List.all_cons, failureElement_every (fun _ _ => rfl) no_return_layout, hescaped]
      simp [JsonDoc.everyMember_true]
    | error =>
      obtain ⟨e, he⟩ := hbuilt hstatus
      rw [List.all_cons, errorElement_every no_return_layout he, hescaped]
      simp
    | timeout =>
      rw [List.all_cons, timeoutElement_every (fun _ _ => rfl) no_return_layout hstatus, hescaped]
      cases report.application <;> simp
  exact Xml.Element.every_mono (fun _ _ => rfl) (fun _ h => h) hall

theorem optionalInt_every (n : Option Int) {p : CodePoint → Bool} :
    (optionalInt n).everyChar p = true := by
  cases n <;> rfl

theorem optionalNat_every (n : Option Nat) {p : CodePoint → Bool} :
    (optionalNat n).everyChar p = true := by
  cases n <;> rfl

/-- The names in a document of an assertion. -/
def assertionNames : List PyStr :=
  [py "type", py "event_count", py "event", py "expected", py "observed", py "within_ms", py "passed",
    py "stdout", py "operator", py "contains", py "not_contains", py "text", py "disconnect",
    py "kernel_warnings", py "available", py "process_exit_code", py "recovery_latency",
    py "maximum_ms", py "observed_ms"]

theorem document_legal (a : AssertionDocument) :
    JsonDoc.everyMember (JsonDoc.inString Xml.isXmlChar) a.document = true ↔ a.Legal := by
  have hnames : ∀ s ∈ assertionNames, s.all (JsonDoc.inString Xml.isXmlChar) = true := by
    have hall : assertionNames.all (·.all JsonDoc.isLayout) = true := by decide
    exact fun s hs => inString_layout legal_layout (List.all_eq_true.mp hall s hs)
  simp only [assertionNames, List.forall_mem_cons] at hnames
  cases a with
  | stdout a =>
    have hoperator : (StdoutOperator.name a.operator).all (JsonDoc.inString Xml.isXmlChar) = true := by
      cases a.operator <;> simp [StdoutOperator.name, hnames]
    simp [AssertionDocument.document, JsonDoc.everyMember, JsonDoc.everyChar, hnames, hoperator,
      AssertionDocument.Legal, jsonLegal_iff]
  | _ =>
    simp [AssertionDocument.document, JsonDoc.everyMember, JsonDoc.everyChar, hnames,
      AssertionDocument.Legal, jsonLegal_iff, optionalInt_every, optionalNat_every]

theorem case_legal (hbuilt : report.status = .error → ∃ e, report.error = some e) :
    ((caseChildren report).all fun e =>
        (indentElement 2 e).every (·.all Xml.isXmlChar) (·.all Xml.isXmlChar)) = true ↔
      (report.status = .error → ∀ e ∈ report.error,
        e.type.all Xml.isXmlChar = true ∧ e.message.all Xml.isXmlChar = true) ∧
      (report.status = .fail → ∀ a ∈ report.assertions, a.passed = false → a.Legal) ∧
      (report.status = .timeout → ∀ a ∈ report.application,
        (∀ argument ∈ a.command, JsonLegal argument) ∧ JsonLegal a.stdout ∧ JsonLegal a.stderr) := by
  unfold caseChildren
  cases hstatus : report.status with
  | pass => simp
  | fail =>
    rw [List.all_cons, failureElement_every legal_layout legal_layout, failedAssertions_eq]
    simp only [List.all_nil, Bool.and_true, List.all_map, List.all_filter, List.all_eq_true,
      reduceCtorEq, false_implies, true_and, and_true, true_implies]
    refine forall₂_congr fun a _ => ?_
    cases hpassed : a.passed <;> simp [document_legal]
  | error =>
    obtain ⟨e, he⟩ := hbuilt hstatus
    have hjson : ∀ s : PyStr, s.all Xml.isXmlChar = true →
        s.all (JsonDoc.inString Xml.isXmlChar) = true := by
      intro s hs
      rw [List.all_eq_true] at hs ⊢
      exact fun c hc => by rw [JsonDoc.inString, hs c hc, Bool.or_true]
    rw [List.all_cons, errorElement_every legal_layout he]
    simp only [List.all_nil, Bool.and_true, Bool.and_eq_true, he, Option.mem_some_iff, forall_eq',
      reduceCtorEq, false_implies, and_true, true_implies]
    constructor
    · intro h
      exact ⟨h.1.2, h.1.1⟩
    · intro h
      exact ⟨⟨h.2, h.1⟩, hjson _ h.1, hjson _ h.2⟩
  | timeout =>
    rw [List.all_cons, timeoutElement_every legal_layout legal_layout hstatus]
    cases report.application <;> simp [jsonLegal_iff, and_assoc]

theorem suite_legal (hbuilt : report.status = .error → ∃ e, report.error = some e) :
    (indentElement 0 (reportToJunitXml report)).everyChar Xml.isXmlChar = true ↔ JunitLegal report := by
  rw [Xml.Element.everyChar, suite_every legal_layout legal_layout, Bool.and_eq_true,
    case_legal hbuilt]
  constructor
  · intro h
    exact ⟨h.1, h.2.1, h.2.2.1, h.2.2.2⟩
  · intro h
    exact ⟨h.name, h.error, h.failed, h.timedOut⟩

/-- The file is read as the tree, or not at all. -/
theorem parse_string (hbuilt : report.status = .error → ∃ e, report.error = some e) :
    Xml.parse (reportToJunitXmlString report) =
      if (indentElement 0 (reportToJunitXml report)).everyChar Xml.isXmlChar then
        some (indentElement 0 (reportToJunitXml report))
      else none :=
  Xml.parse_write (fun _ => encodes_ascii) (suite_named report) (suite_lines hbuilt) (by decide)

theorem isJunitDocument_iff (hbuilt : report.status = .error ↔ ∃ e, report.error = some e) :
    IsJunitDocument report ↔ JunitLegal report := by
  rw [← suite_legal hbuilt.mp]
  constructor
  · intro h
    obtain ⟨-, suite, -, hparse, -⟩ := h
    rw [parse_string hbuilt.mp] at hparse
    by_contra hillegal
    rw [if_neg hillegal] at hparse
    cases hparse
  · intro hlegal
    have hparse := parse_string hbuilt.mp
    rw [if_pos hlegal] at hparse
    obtain ⟨testcase, hfind, hname, herror⟩ := suite_testcase report
    refine ⟨Xml.parse_legal hparse, _, testcase, hparse, hfind, hname, ?_⟩
    intro e he
    exact ⟨_, herror (hbuilt.mpr ⟨e, he⟩), errorElement_get he⟩

end File

/-! ## The reports -/

/-- The reports that are built from an accepted scenario. -/
inductive Built (safeLoad : PyStr → Except Scenario.LoadError PyValue) (lim : IntLimit) :
    ScenarioReport → Prop
  | run {text source : PyStr} {sd : ScenarioDefinition} {result : ScenarioRunResult}
      {report : ScenarioReport} :
      Scenario.parseScenario safeLoad lim text source = .ok sd →
      buildScenarioReport lim sd result = .ok report → Built safeLoad lim report
  | failed {text source : PyStr} {sd : ScenarioDefinition} (error : ReportError) :
      Scenario.parseScenario safeLoad lim text source = .ok sd →
      Built safeLoad lim (buildErrorReport sd.name error)

section Built

variable {safeLoad : PyStr → Except Scenario.LoadError PyValue} {lim : IntLimit}
  {report : ScenarioReport}

theorem built_error (h : Built safeLoad lim report) :
    report.status = .error ↔ ∃ e, report.error = some e := by
  cases h with
  | failed error _ => exact iff_of_true rfl ⟨error, rfl⟩
  | run _ hbuild =>
    rcases buildScenarioReport_eq_ok hbuild with ⟨-, hstatus, herror⟩ | ⟨_, _, -, -, hjudge⟩
    · exact iff_of_true hstatus herror
    · rcases judge_cases _ _ report.assertions with
        ⟨error, hj⟩ | ⟨-, hj⟩ | ⟨-, hj⟩ | ⟨-, hj⟩
      all_goals
        rw [hj, Prod.mk.injEq] at hjudge
        obtain ⟨hstatus, herror⟩ := hjudge
        simp [hstatus, herror]

/-- **When the JUnit file is XML**: when the strings that are copied into it
are, and only then. -/
theorem junit_document_iff (h : Built safeLoad lim report) :
    IsJunitDocument report ↔ JunitLegal report :=
  isJunitDocument_iff (built_error h)

end Built

/-- A message with everything that XML escapes. -/
theorem junit_document_iff_escaped : IsJunitDocument
    (buildErrorReport disconnectDefinition.name ⟨py "OSError", py "a <b> & \"c\"\r\n\t"⟩) := by
  have hbuilt := Built.failed ⟨py "OSError", py "a <b> & \"c\"\r\n\t"⟩ disconnectDefinition_accepted
  refine (junit_document_iff hbuilt).mpr ⟨by decide, ?_, ?_, ?_⟩
  · intro _ e he
    cases he
    decide
  · intro hfail
    cases hfail
  · intro htimeout
    cases htimeout

/-- The scenario of that run under another name. -/
def namedDocument (name : PyStr) : PyValue :=
  .dict (PyDict.ofList [("schema_version", .int 1),
    ("device", .dict (PyDict.ofList [("path", .str (py "/dev/vdevlab0"))])),
    ("application", .dict (PyDict.ofList [("command", .list [.str (py "./vtemp-monitor")])])),
    ("scenario", .dict (PyDict.ofList [("name", .str name), ("timeout", .str (py "5s")),
      ("events", .list [.dict (PyDict.ofList [("at", .str (py "100ms")),
        ("action", .str (py "fault")), ("type", .str (py "disconnect"))])])])),
    ("assertions", .list [.dict (PyDict.ofList [("type", .str (py "disconnect")),
      ("expected", .bool true)])])])

theorem not_isJunitDocument {name : PyStr} (hname : name.all Xml.isXmlChar = false)
    (h : ((Scenario.parseScenario (fun _ => .ok (namedDocument name)) defaultIntLimit []
      []).toOption.bind fun sd =>
        (buildScenarioReport defaultIntLimit sd disconnectRun).toOption.map (·.scenarioName)) =
      some name) :
    ∃ sd report,
      Scenario.parseScenario (fun _ => .ok (namedDocument name)) defaultIntLimit [] [] = .ok sd ∧
      buildScenarioReport defaultIntLimit sd disconnectRun = .ok report ∧
      ¬ IsJunitDocument report := by
  cases hsd : Scenario.parseScenario (fun _ => .ok (namedDocument name)) defaultIntLimit [] [] with
  | error e => rw [hsd] at h; cases h
  | ok sd =>
    rw [hsd] at h
    cases hreport : buildScenarioReport defaultIntLimit sd disconnectRun with
    | error e => simp [hreport, Except.toOption] at h
    | ok report =>
      have hscenario : report.scenarioName = name := by simpa [hreport, Except.toOption] using h
      refine ⟨sd, report, rfl, hreport, ?_⟩
      rw [isJunitDocument_iff (built_error (Built.run hsd hreport))]
      intro hlegal
      have := hlegal.name
      rw [hscenario, hname] at this
      cases this

/-- A control character and a lone surrogate, as YAML has escapes for them. -/
theorem junit_document_fails :
    (∃ sd report, Scenario.parseScenario (fun _ => .ok (namedDocument [ch 'a', 0x01]))
        defaultIntLimit [] [] = .ok sd ∧
      buildScenarioReport defaultIntLimit sd disconnectRun = .ok report ∧
      ¬ IsJunitDocument report) ∧
    ∃ sd report, Scenario.parseScenario (fun _ => .ok (namedDocument [ch 'a', 0xd800]))
        defaultIntLimit [] [] = .ok sd ∧
      buildScenarioReport defaultIntLimit sd disconnectRun = .ok report ∧
      ¬ IsJunitDocument report :=
  ⟨not_isJunitDocument (by decide) (by decide +kernel),
    not_isJunitDocument (by decide) (by decide +kernel)⟩

end VDevLab.Report
