import VDevLab.Analysis.Segments
import VDevLab.Report.Build
import VDevLab.Scenario.Accept

/-!
# The verdict of a report

What it means for a declared assertion to hold, in terms of the log, of the
captured output and of the kernel warnings, and that the status of a report
says exactly that. The three passes of `build_scenario_report` each cover a
part of the meaning, and together they cover every assertion of an accepted
scenario.
-/

namespace VDevLab.Report

open Analysis Check PyStr Runner

/-! ## Meaning -/

/-- The number of events of the given name, at most `within` after the first
event of the log. -/
def occurrences (events : List ApplicationLogEvent) (event : PyStr) (within : Option Duration) :
    Nat :=
  events.countP fun e => e.event = event ∧
    ∀ ms ∈ within, ∀ first ∈ events.head?, e.timestampMs - first.timestampMs ≤ ms.1

/-- Some recovery was completed, and each took at most `maximum`. -/
def RecoversWithin (events : List ApplicationLogEvent) (maximum : Duration) : Prop :=
  (∃ r s, Completed events r s) ∧
    ∀ r s, Completed events r s → s.timestampMs - r.timestampMs ≤ maximum.1

/-- What a declared assertion says about a run and its log. -/
def Holds (result : ScenarioRunResult) (events : List ApplicationLogEvent) : Assertion → Prop
  | .eventCount event count within maxLatency _ =>
      occurrences events event.1 within = count.1 ∧
      ∀ maximum ∈ maxLatency, RecoversWithin events maximum
  | .stdout contains notContains _ =>
      (∀ text ∈ contains, text.1 <:+: result.application.stdout) ∧
      ∀ text ∈ notContains, ¬ text.1 <:+: result.application.stdout
  | .disconnect expected =>
      (∃ e ∈ events, e.event = py "DEVICE_DISCONNECTED") ↔ expected = true
  | .kernelWarnings count => result.kernelWarnings.length = count.1

/-- The output is an application log with these events, and its retries and
recoveries are well formed. -/
def ValidLog (lim : IntLimit) (stdout : PyStr) (events : List ApplicationLogEvent) : Prop :=
  parseApplicationLog lim stdout = .ok events ∧ WellFormed events

/-- Some assertion is about kernel warnings, and the kernel log could not be
read. -/
def LacksKernelLog (sc : Scenario) (result : ScenarioRunResult) : Prop :=
  (∃ count, .kernelWarnings count ∈ sc.assertions) ∧ result.kernelLogAvailable = false

/-- Everything a passing run has to satisfy. -/
structure Passes (lim : IntLimit) (sc : Scenario) (result : ScenarioRunResult)
    (events : List ApplicationLogEvent) : Prop where
  log : ValidLog lim result.application.stdout events
  kernelLog : ¬ LacksKernelLog sc result
  timedOut : result.application.timedOut = false
  exitCode : result.application.exitCode = 0
  assertions : ∀ a ∈ sc.assertions, Holds result events a

/-! ## What the passes return -/

/-- The first pass, on one assertion. -/
def countDocument (events : List ApplicationLogEvent) : Assertion → List AssertionDocument
  | .eventCount event count within _ _ =>
      [.eventCount {
        event := event.1
        expected := count.1
        observed := occurrences events event.1 within
        withinMs := within.map fun ms => (ms.1 : Int)
        passed := (occurrences events event.1 within : Int) = count.1 }]
  | _ => []

/-- The second pass. -/
def typedDocument (events : List ApplicationLogEvent) (result : ScenarioRunResult) :
    Assertion → List AssertionDocument
  | .eventCount .. => []
  | .stdout contains notContains _ =>
      (contains.toList.map fun text => .stdout
        ⟨.contains, text.1, isSubstring text.1 result.application.stdout⟩) ++
      notContains.toList.map fun text => .stdout
        ⟨.notContains, text.1, !isSubstring text.1 result.application.stdout⟩
  | .disconnect expected =>
      [.disconnect ⟨expected, disconnected events, disconnected events == expected⟩]
  | .kernelWarnings count =>
      [.kernelWarnings {
        expected := count.1
        observed := if result.kernelLogAvailable then some result.kernelWarnings.length else none
        available := result.kernelLogAvailable
        passed := result.kernelLogAvailable && result.kernelWarnings.length = (count.1 : Int) }]

/-- The third pass. -/
def latencyDocument (m : RecoveryMetrics) : Assertion → List AssertionDocument
  | .eventCount _ _ _ (some maximum) _ =>
      let observed := (m.recoveries.map (·.recoveryLatencyMs)).max?
      [.recoveryLatency ⟨maximum.1, observed, observed.any (· ≤ (maximum.1 : Int))⟩]
  | _ => []

section Passes

variable (events : List ApplicationLogEvent) (result : ScenarioRunResult) (m : RecoveryMetrics)

theorem countP_observed (event : PyStr) (within : Option Duration) :
    (events.countP fun item => item.event = event && (within.map fun ms => (ms.1 : Int)).all
      fun ms => (events.head?.map (·.timestampMs)).any fun origin =>
        item.timestampMs - origin ≤ ms) = occurrences events event within := by
  apply List.countP_congr
  intro e he
  obtain ⟨first, hfirst⟩ : ∃ first, events.head? = some first := by
    cases events with
    | nil => cases he
    | cons first rest => exact ⟨first, rfl⟩
  cases within <;> simp [hfirst]

theorem evaluateEventAssertion_dict (event count within maxLatency recovery) :
    evaluateEventAssertion events
        (Assertion.eventCount event count within maxLatency recovery).dict =
      .ok {
        event := event.1
        expected := count.1
        observed := occurrences events event.1 within
        withinMs := within.map fun ms => (ms.1 : Int)
        passed := (occurrences events event.1 within : Int) = count.1 } := by
  have hevent : getOrNone (Assertion.eventCount event count within maxLatency recovery).dict
      "event" = .str event.1 := rfl
  have hcount : getOrNone (Assertion.eventCount event count within maxLatency recovery).dict
      "count" = .int count.1 := rfl
  have hwithin : withinMs (Assertion.eventCount event count within maxLatency recovery).dict =
      .ok (within.map fun ms => (ms.1 : Int)) := by
    cases within with
    | none => cases maxLatency <;> rfl
    | some ms =>
      have hget : getOrNone (Assertion.eventCount event count (some ms) maxLatency recovery).dict
          "within_ms" = .int ms.1 := rfl
      simp [withinMs, hget]
  have hne : event.1 ≠ [] := by
    intro h0
    have := event.2
    rw [h0] at this
    exact absurd this (by decide)
  have hpos : ¬ (count.1 : Int) ≤ 0 := by
    have := count.2.1
    omega
  simp only [evaluateEventAssertion, hevent, hcount, hwithin, if_neg hne, if_neg hpos, ok_bind,
    countP_observed]
  rfl

/-- The filter of the first pass keeps the event counts. -/
theorem eventDocuments_dict (as : List Assertion) :
    eventDocuments events (as.map (·.dict)) = .ok (as.flatMap (countDocument events)) := by
  have hresults : ∃ results, evaluateEventAssertions events ((as.map (·.dict)).filter
      fun definition => ((definition.get? (py "type")).getD (.str (py "event_count"))).eqStr
        (py "event_count")) = .ok results ∧
      results.map .eventCount = as.flatMap (countDocument events) := by
    induction as with
    | nil => exact ⟨[], rfl, rfl⟩
    | cons a as ih =>
      obtain ⟨results, hresults, hmap⟩ := ih
      rw [evaluateEventAssertions] at hresults ⊢
      cases a with
      | eventCount event count within maxLatency recovery =>
        rw [List.map_cons, List.filter_cons_of_pos rfl, List.mapM_cons,
          evaluateEventAssertion_dict, hresults]
        exact ⟨_, rfl, by rw [List.flatMap_cons, ← hmap]; rfl⟩
      | _ =>
        rw [List.map_cons, List.filter_cons_of_neg (show ¬ (false = true) by decide), hresults]
        exact ⟨results, rfl, by rw [List.flatMap_cons, ← hmap]; rfl⟩
  obtain ⟨results, hresults, hmap⟩ := hresults
  rw [eventDocuments, hresults, ← hmap]
  rfl

theorem typedDocuments_dict (a : Assertion) :
    typedDocuments events result a.dict = .ok (typedDocument events result a) := by
  cases a with
  | eventCount event count within maxLatency recovery => rfl
  | stdout contains notContains given =>
    cases contains with
    | some text => cases notContains <;> rfl
    | none =>
      cases notContains with
      | some text => rfl
      | none => simp at given
  | disconnect expected => rfl
  | kernelWarnings count =>
    have hdef : typedDocuments events result (Assertion.kernelWarnings count).dict =
        (do
          let assertion ← evaluateKernelWarnings result.kernelWarnings (.int count.1)
            result.kernelLogAvailable
          return [AssertionDocument.kernelWarnings assertion]) := rfl
    rw [hdef, evaluateKernelWarnings, if_neg (by omega)]
    rfl

theorem latencyDocuments_dict (a : Assertion) :
    latencyDocuments m a.dict = .ok (latencyDocument m a) := by
  cases a with
  | eventCount event count within maxLatency recovery =>
    cases maxLatency with
    | none => cases within <;> rfl
    | some maximum =>
      have hdef : latencyDocuments m
          (Assertion.eventCount event count within (some maximum) recovery).dict =
          (do
            let assertion ← evaluateRecoveryLatency m (.int maximum.1)
            return [AssertionDocument.recoveryLatency assertion]) := by
        cases within <;> rfl
      have hmax : requireNonnegativeInteger (.int maximum.1) 0 "maximum recovery latency"
          = .ok (maximum.1 : Int) := requireNonnegativeInteger_eq_ok.mpr ⟨rfl, by omega⟩
      rw [hdef, evaluateRecoveryLatency, hmax]
      rfl
  | stdout contains notContains given => cases contains <;> cases notContains <;> rfl
  | disconnect expected => rfl
  | kernelWarnings count => rfl

/-- The evaluators take every assertion of a scenario. -/
theorem assertionDocuments_definition (sc : Scenario) (source : PyStr) :
    assertionDocuments (sc.definition source) result events m =
      .ok (sc.assertions.flatMap (countDocument events) ++
        sc.assertions.flatMap (typedDocument events result) ++ [exitDocument result.application] ++
        sc.assertions.flatMap (latencyDocument m)) := by
  have htyped : (sc.assertions.map (·.dict)).mapM (typedDocuments events result) =
      .ok (sc.assertions.map (typedDocument events result)) := by
    rw [List.mapM_map]
    exact mapM_eq_map fun a _ => typedDocuments_dict events result a
  have hlatency : (sc.assertions.map (·.dict)).mapM (latencyDocuments m) =
      .ok (sc.assertions.map (latencyDocument m)) := by
    rw [List.mapM_map]
    exact mapM_eq_map fun a _ => latencyDocuments_dict m a
  simp only [assertionDocuments, Scenario.definition, eventDocuments_dict, htyped, hlatency, ok_bind,
    ← List.flatMap_def]
  rfl

end Passes

/-! ## What the passes say -/

/-- The part of the meaning that the first pass covers. -/
def CountHolds (events : List ApplicationLogEvent) : Assertion → Prop
  | .eventCount event count within _ _ => occurrences events event.1 within = count.1
  | _ => True

theorem countDocument_passed {events : List ApplicationLogEvent} {a : Assertion} :
    (countDocument events a).all AssertionDocument.passed = true ↔ CountHolds events a := by
  cases a <;> simp [countDocument, CountHolds, AssertionDocument.passed]

/-- The part of the meaning that the second pass covers, and that the kernel
log was there where it was needed. -/
def TypedHolds (result : ScenarioRunResult) (events : List ApplicationLogEvent) :
    Assertion → Prop
  | .eventCount .. => True
  | .kernelWarnings count =>
      result.kernelLogAvailable = true ∧ result.kernelWarnings.length = count.1
  | a => Holds result events a

theorem typedDocument_passed {events : List ApplicationLogEvent} {result : ScenarioRunResult}
    {a : Assertion} :
    (typedDocument events result a).all AssertionDocument.passed = true ↔
      TypedHolds result events a := by
  cases a with
  | eventCount event count within maxLatency recovery => simp [typedDocument, TypedHolds]
  | stdout contains notContains given =>
    cases contains <;> cases notContains <;>
      simp [typedDocument, AssertionDocument.passed, TypedHolds, Holds, isSubstring_iff,
        ← Bool.not_eq_true]
  | disconnect expected =>
    simp only [typedDocument, List.all_cons, List.all_nil, Bool.and_true, AssertionDocument.passed,
      TypedHolds, Holds, disconnected, beq_iff_eq]
    rw [Bool.eq_iff_iff]
    simp
  | kernelWarnings count => simp [typedDocument, AssertionDocument.passed, TypedHolds]

/-- The part of the meaning that the third pass covers. -/
def LatencyHolds (events : List ApplicationLogEvent) : Assertion → Prop
  | .eventCount _ _ _ maxLatency _ => ∀ maximum ∈ maxLatency, RecoversWithin events maximum
  | _ => True

/-- The largest latency is within a bound iff there is one and all are. -/
theorem max?_any_le {l : List Int} {n : Int} :
    l.max?.any (· ≤ n) = true ↔ l ≠ [] ∧ ∀ a ∈ l, a ≤ n := by
  cases hmax : l.max? with
  | none =>
    rw [List.max?_eq_none_iff] at hmax
    simp [hmax]
  | some m =>
    obtain ⟨hmem, hle⟩ := List.max?_eq_some_iff.mp hmax
    have hne : l ≠ [] := List.ne_nil_of_mem hmem
    simp only [Option.any_some, decide_eq_true_eq, ne_eq, hne, not_false_eq_true, true_and]
    constructor
    · intro hm a ha
      exact le_trans (hle a ha) hm
    · intro hall
      exact hall m hmem

theorem recoversWithin_iff {events : List ApplicationLogEvent} {m : RecoveryMetrics}
    (hm : calculateRecoveryMetrics events = .ok m) {maximum : Duration} :
    (m.recoveries.map (·.recoveryLatencyMs)).max?.any (· ≤ (maximum.1 : Int)) = true ↔
      RecoversWithin events maximum := by
  have hlat := mem_latencies hm
  rw [max?_any_le, RecoversWithin]
  constructor
  · intro h
    obtain ⟨hne, hle⟩ := h
    obtain ⟨latency, hmem⟩ := List.exists_mem_of_ne_nil _ hne
    obtain ⟨r, s, hc, -⟩ := (hlat latency).mp hmem
    exact ⟨⟨r, s, hc⟩, fun r s hc => hle _ ((hlat _).mpr ⟨r, s, hc, rfl⟩)⟩
  · intro h
    obtain ⟨⟨r, s, hc⟩, hle⟩ := h
    refine ⟨List.ne_nil_of_mem ((hlat _).mpr ⟨r, s, hc, rfl⟩), ?_⟩
    intro latency hmem
    obtain ⟨r', s', hc', rfl⟩ := (hlat latency).mp hmem
    exact hle r' s' hc'

theorem latencyDocument_passed {events : List ApplicationLogEvent} {m : RecoveryMetrics}
    (hm : calculateRecoveryMetrics events = .ok m) {a : Assertion} :
    (latencyDocument m a).all AssertionDocument.passed = true ↔ LatencyHolds events a := by
  cases a with
  | eventCount event count within maxLatency recovery =>
    cases maxLatency with
    | none => simp [latencyDocument, LatencyHolds]
    | some maximum =>
      simp only [latencyDocument, List.all_cons, List.all_nil, Bool.and_true,
        AssertionDocument.passed, recoversWithin_iff hm]
      simp [LatencyHolds]
  | _ => simp [latencyDocument, LatencyHolds]

/-! ## All passes together -/

/-- The three passes leave nothing of an assertion out. -/
theorem holds_iff {result : ScenarioRunResult} {events : List ApplicationLogEvent} {a : Assertion}
    (hlog : (∃ count, a = .kernelWarnings count) → result.kernelLogAvailable = true) :
    Holds result events a ↔
      CountHolds events a ∧ TypedHolds result events a ∧ LatencyHolds events a := by
  cases a with
  | eventCount => simp [Holds, CountHolds, TypedHolds, LatencyHolds]
  | stdout => simp [Holds, CountHolds, TypedHolds, LatencyHolds]
  | disconnect => simp [Holds, CountHolds, TypedHolds, LatencyHolds]
  | kernelWarnings count =>
    simp [Holds, CountHolds, TypedHolds, LatencyHolds, hlog ⟨count, rfl⟩]

theorem assertionDocuments_passed {sc : Scenario} {source : PyStr} {result : ScenarioRunResult}
    {events : List ApplicationLogEvent} {m : RecoveryMetrics}
    (hm : calculateRecoveryMetrics events = .ok m) (hlog : ¬ LacksKernelLog sc result)
    {docs : List AssertionDocument}
    (h : assertionDocuments (sc.definition source) result events m = .ok docs) :
    docs.all AssertionDocument.passed = true ↔
      result.application.exitCode = 0 ∧ ∀ a ∈ sc.assertions, Holds result events a := by
  rw [assertionDocuments_definition, Except.ok.injEq] at h
  subst h
  have hkernel : ∀ a ∈ sc.assertions, (∃ count, a = .kernelWarnings count) →
      result.kernelLogAvailable = true := by
    rintro a ha ⟨count, rfl⟩
    cases hav : result.kernelLogAvailable with
    | true => rfl
    | false => exact absurd ⟨⟨count, ha⟩, hav⟩ hlog
  simp only [List.all_append, List.all_flatMap, Bool.and_eq_true, List.all_eq_true (l := sc.assertions),
    countDocument_passed, typedDocument_passed, latencyDocument_passed hm, List.all_cons,
    List.all_nil, Bool.and_true, exitDocument, AssertionDocument.passed, decide_eq_true_eq]
  constructor
  · intro h
    obtain ⟨⟨⟨hc, ht⟩, hexit⟩, hl⟩ := h
    refine ⟨hexit, ?_⟩
    intro a ha
    exact (holds_iff (hkernel a ha)).mpr ⟨hc a ha, ht a ha, hl a ha⟩
  · intro h
    obtain ⟨hexit, hall⟩ := h
    have hparts := fun a ha => (holds_iff (hkernel a ha)).mp (hall a ha)
    exact ⟨⟨⟨fun a ha => (hparts a ha).1, fun a ha => (hparts a ha).2.1⟩, hexit⟩,
      fun a ha => (hparts a ha).2.2⟩

theorem kernelLogRequired_definition (sc : Scenario) (source : PyStr) :
    kernelLogRequired (sc.definition source) = true ↔
      ∃ count, .kernelWarnings count ∈ sc.assertions := by
  have hdict : ∀ a : Assertion,
      ((a.dict.get? (py "type")).getD .none).eqStr (py "kernel_warnings") = true ↔
        ∃ count, a = .kernelWarnings count := by
    intro a
    cases a with
    | kernelWarnings count => exact iff_of_true rfl ⟨count, rfl⟩
    | _ => exact iff_of_false (show ¬ (false = true) by decide) (by simp)
  simp only [kernelLogRequired, Scenario.definition, List.any_map, List.any_eq_true,
    Function.comp_apply, hdict]
  constructor
  · intro h
    obtain ⟨_, ha, count, rfl⟩ := h
    exact ⟨count, ha⟩
  · intro h
    obtain ⟨count, ha⟩ := h
    exact ⟨_, ha, count, rfl⟩

/-! ## The status -/

theorem analyse_eq_ok {lim : IntLimit} {stdout : PyStr} {events : List ApplicationLogEvent}
    {m : RecoveryMetrics} :
    analyse lim stdout = .ok (events, m) ↔
      parseApplicationLog lim stdout = .ok events ∧ calculateRecoveryMetrics events = .ok m := by
  simp only [analyse, bind_eq_ok, pure_eq_ok, Prod.mk.injEq]
  constructor
  · intro h
    obtain ⟨_, hp, _, hc, rfl, rfl⟩ := h
    exact ⟨hp, hc⟩
  · intro h
    obtain ⟨hp, hc⟩ := h
    exact ⟨events, hp, m, hc, rfl, rfl⟩

/-- The analysis succeeds exactly on the valid logs. -/
theorem analyse_isOk {lim : IntLimit} {stdout : PyStr} {events : List ApplicationLogEvent} :
    (∃ m, analyse lim stdout = .ok (events, m)) ↔ ValidLog lim stdout events := by
  simp only [analyse_eq_ok, ValidLog, ← calculateRecoveryMetrics_isOk]
  constructor
  · intro h
    obtain ⟨m, hp, hc⟩ := h
    exact ⟨hp, m, hc⟩
  · intro h
    obtain ⟨hp, m, hc⟩ := h
    exact ⟨m, hp, hc⟩

/-- How a report can come out: with an invalid log, or judged. -/
theorem buildScenarioReport_status {lim : IntLimit} {sd : ScenarioDefinition}
    {result : ScenarioRunResult} {report : ScenarioReport}
    (h : buildScenarioReport lim sd result = .ok report) :
    ((¬ ∃ events, ValidLog lim result.application.stdout events) ∧ report.status = .error) ∨
    ∃ events m docs, analyse lim result.application.stdout = .ok (events, m) ∧
      assertionDocuments sd result events m = .ok docs ∧
      report.status = (judge sd result docs).1 := by
  rcases buildScenarioReport_eq_ok h with
    ⟨⟨line, message, hlog⟩, hstatus, -⟩ | ⟨events, m, hlog, hdocs, hjudge⟩
  · refine .inl ⟨?_, hstatus⟩
    intro h
    obtain ⟨events, hv⟩ := h
    obtain ⟨m, hm⟩ := analyse_isOk.mpr hv
    rw [hlog] at hm
    cases hm
  · exact .inr ⟨events, m, report.assertions, hlog, hdocs, congrArg Prod.fst hjudge⟩

/-! ## The verdict -/

section Judge

variable {lim : IntLimit} {sc : Scenario} {source : PyStr} {result : ScenarioRunResult}

theorem judge_of_lacking (hlacks : LacksKernelLog sc result) (docs : List AssertionDocument) :
    (judge (sc.definition source) result docs).1 = .error := by
  simp [judge, (kernelLogRequired_definition sc source).mpr hlacks.1, hlacks.2]

theorem judge_of_available (hlacks : ¬ LacksKernelLog sc result) (docs : List AssertionDocument) :
    (judge (sc.definition source) result docs).1 = if result.application.timedOut then .timeout
      else if !docs.all AssertionDocument.passed then .fail else .pass := by
  -- the first test of the chain is not taken
  have hgate : (kernelLogRequired (sc.definition source) && !result.kernelLogAvailable) = false := by
    by_contra hg
    rw [Bool.not_eq_false, Bool.and_eq_true, kernelLogRequired_definition] at hg
    exact hlacks ⟨hg.1, by simpa using hg.2⟩
  rw [judge, hgate]
  cases result.application.timedOut <;> cases docs.all AssertionDocument.passed <;> rfl

/-- With a valid log and a kernel log where one is asked for, what is left is
the timeout and the documents. -/
theorem passes_iff (hlacks : ¬ LacksKernelLog sc result) {events : List ApplicationLogEvent}
    {m : RecoveryMetrics} (hlog : analyse lim result.application.stdout = .ok (events, m))
    {docs : List AssertionDocument}
    (hdocs : assertionDocuments (sc.definition source) result events m = .ok docs) :
    (∃ events, Passes lim sc result events) ↔
      result.application.timedOut = false ∧ docs.all AssertionDocument.passed = true := by
  obtain ⟨hparse, hmetrics⟩ := analyse_eq_ok.mp hlog
  rw [assertionDocuments_passed hmetrics hlacks hdocs]
  constructor
  · intro h
    obtain ⟨events', hp⟩ := h
    cases Except.ok.inj (hparse.symm.trans hp.log.1)
    exact ⟨hp.timedOut, hp.exitCode, hp.assertions⟩
  · intro h
    obtain ⟨htime, hexit, hall⟩ := h
    exact ⟨events, analyse_isOk.mp ⟨m, hlog⟩, hlacks, htime, hexit, hall⟩

end Judge

/-- **The verdict is sound and complete.** A report passes iff everything
declared holds; otherwise an invalid log or a missing kernel log is an error,
then a timeout is reported, and only then a failure. -/
theorem report_verdict {safeLoad : PyStr → Except Scenario.LoadError PyValue} {lim : IntLimit}
    {text source : PyStr} {sd : ScenarioDefinition} {result : ScenarioRunResult}
    {report : ScenarioReport}
    (haccepted : Scenario.parseScenario safeLoad lim text source = .ok sd)
    (hreport : buildScenarioReport lim sd result = .ok report) :
    ∃ sc : Scenario, sd = sc.definition source ∧
      (report.status = .pass ↔ ∃ events, Passes lim sc result events) ∧
      ((¬ ∃ events, ValidLog lim result.application.stdout events) ∨ LacksKernelLog sc result →
        report.status = .error) ∧
      ((∃ events, ValidLog lim result.application.stdout events) → ¬ LacksKernelLog sc result →
        result.application.timedOut = true → report.status = .timeout) ∧
      ((∃ events, ValidLog lim result.application.stdout events) → ¬ LacksKernelLog sc result →
        result.application.timedOut = false → (¬ ∃ events, Passes lim sc result events) →
        report.status = .fail) := by
  obtain ⟨sc, rfl⟩ := Scenario.parseScenario_definition haccepted
  refine ⟨sc, rfl, ?_⟩
  rcases buildScenarioReport_status hreport with
    ⟨hinvalid, hstatus⟩ | ⟨events, m, docs, hlog, hdocs, hstatus⟩
  · rw [hstatus]
    refine ⟨iff_of_false (by decide) ?_, fun _ => rfl, fun hv => absurd hv hinvalid,
      fun hv => absurd hv hinvalid⟩
    intro h
    obtain ⟨events, hp⟩ := h
    exact hinvalid ⟨events, hp.log⟩
  · have hvalid := analyse_isOk.mp ⟨m, hlog⟩
    by_cases hlacks : LacksKernelLog sc result
    · rw [hstatus, judge_of_lacking hlacks]
      refine ⟨iff_of_false (by decide) ?_, fun _ => rfl, fun _ hn => absurd hlacks hn,
        fun _ hn => absurd hlacks hn⟩
      intro h
      obtain ⟨events, hp⟩ := h
      exact hp.kernelLog hlacks
    · rw [hstatus, judge_of_available hlacks, passes_iff hlacks hlog hdocs]
      refine ⟨?_, ?_, ?_, ?_⟩
      · cases result.application.timedOut <;> cases docs.all AssertionDocument.passed <;> decide
      · intro h
        rcases h with hinvalid | hl
        · exact absurd ⟨events, hvalid⟩ hinvalid
        · exact absurd hl hlacks
      · intro _ _ htime
        rw [htime]
        rfl
      · intro _ _ htime hfail
        have hnot : docs.all AssertionDocument.passed = false := by
          rw [← Bool.not_eq_true]
          intro hall
          exact hfail ⟨htime, hall⟩
        rw [htime, hnot]
        rfl

/-- A scenario that disconnects the device and expects the application to
notice. -/
def disconnectDocument : PyValue :=
  .dict (PyDict.ofList [("schema_version", .int 1),
    ("device", .dict (PyDict.ofList [("path", .str (py "/dev/vdevlab0"))])),
    ("application", .dict (PyDict.ofList [("command", .list [.str (py "./vtemp-monitor")])])),
    ("scenario", .dict (PyDict.ofList [("name", .str (py "disconnect")), ("timeout", .str (py "5s")),
      ("events", .list [.dict (PyDict.ofList [("at", .str (py "100ms")),
        ("action", .str (py "fault")), ("type", .str (py "disconnect"))])])])),
    ("assertions", .list [.dict (PyDict.ofList [("type", .str (py "disconnect")),
      ("expected", .bool true)])])])

/-- A run of it in which the application did. -/
def disconnectRun : ScenarioRunResult where
  scenarioName := py "disconnect"
  dispatches := [⟨0, py "fault", 100, 100, 100, 100, 100⟩]
  application := {
    command := [py "./vtemp-monitor"]
    exitCode := 0
    stdout := py "\x7b\"timestamp_ms\":101,\"event\":\"DEVICE_DISCONNECTED\"\x7d\n"
    stderr := [] }

/-- The report of that run passes, so the run is as the scenario declares. -/
theorem report_verdict_disconnect : ∃ sd report,
    Scenario.parseScenario (fun _ => .ok disconnectDocument) defaultIntLimit [] [] = .ok sd ∧
    buildScenarioReport defaultIntLimit sd disconnectRun = .ok report ∧
    report.status = .pass ∧
    ∃ sc : Scenario, sd = sc.definition [] ∧
      ∃ events, Passes defaultIntLimit sc disconnectRun events := by
  have hstatus : ((Scenario.parseScenario (fun _ => .ok disconnectDocument) defaultIntLimit []
      []).toOption.bind fun sd =>
        (buildScenarioReport defaultIntLimit sd disconnectRun).toOption.map (·.status)) =
      some .pass := by
    decide +kernel
  cases hsd : Scenario.parseScenario (fun _ => .ok disconnectDocument) defaultIntLimit [] [] with
  | error e => rw [hsd] at hstatus; cases hstatus
  | ok sd =>
    rw [hsd] at hstatus
    cases hrep : buildScenarioReport defaultIntLimit sd disconnectRun with
    | error e => simp [hrep, Except.toOption] at hstatus
    | ok report =>
      have hpass : report.status = .pass := by simpa [hrep, Except.toOption] using hstatus
      obtain ⟨sc, hsc, hiff, -⟩ := report_verdict hsd hrep
      exact ⟨sd, report, rfl, hrep, hpass, sc, hsc, hiff.mp hpass⟩

end VDevLab.Report
