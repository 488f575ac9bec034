import VDevLab.Report.Json

/-!
# When the JSON report is JSON

Most of a report is made of texts and numbers that the program computes. The
name and the data of a scenario, the streams of the application and the
fields of its log lines are copied as they are, and they decide: `json.loads`
takes numbers and characters from a log line that `json.dumps` has no JSON
for, or no encoding.
-/

namespace VDevLab.Report

open Analysis Check PyStr Runner

/-! ## What is written -/

/-- `report.to_json()` is JSON, has an encoding, and is read as the dict. -/
def IsJsonDocument (lim : IntLimit) (upper : PyStr → PyStr) (report : ScenarioReport) : Prop :=
  ∃ text, report.toJson upper lim = some text ∧
    (∃ v, Json.Rfc8259 text v ∧ Json.loads lim text = .ok v ∧ v.Same (report.toDict upper)) ∧
    (encodeUtf8 text).isSome = true

/-- What a dispatch brings into the report. -/
structure DispatchWritable (lim : IntLimit) (upper : PyStr → PyStr) (sd : ScenarioDefinition)
    (d : DispatchRecord) : Prop where
  index : Json.Admits lim d.index = true
  scheduledMs : Json.Admits lim d.scheduledMs = true
  durationMs : (Binary64.ofRat (d.finishedMs - d.startedMs)).isFinite = true
  action : d.action ≠ py "fault" → Json.NoSurrogates (upper d.action)
  data : ∀ definition, sd.events[d.index]? = some definition → Runner.Encodable definition

/-- What an event of the log brings into the report. -/
structure EventWritable (lim : IntLimit) (e : ApplicationLogEvent) : Prop where
  line : Json.Admits lim e.line = true
  event : Json.NoSurrogates e.event
  fields : Json.Writable lim (.dict e.fields)

/-- The texts that a stdout assertion brings into the report. -/
def TextsWritable (definition : PyDict) : Prop :=
  ∀ key ∈ ["contains", "not_contains"], ∀ text,
    definition.get? (py key) = some (.str text) → Json.NoSurrogates text

/-- What comes into the report when the log is valid. -/
structure LogWritable (lim : IntLimit) (sd : ScenarioDefinition) (result : ScenarioRunResult)
    (events : List ApplicationLogEvent) : Prop where
  events : ∀ e ∈ events, EventWritable lim e
  texts : ∀ definition ∈ sd.assertions, TextsWritable definition
  warnings : ∀ w ∈ result.kernelWarnings, Json.NoSurrogates w
  warningCount : result.kernelLogAvailable = true →
    Json.Admits lim result.kernelWarnings.length = true
  kernelLogError : ∀ e ∈ result.kernelLogError, Json.NoSurrogates e

/-- The strings that are copied into the report have no surrogates, the floats
are numbers, and the integers within the digit limit. -/
structure ReportWritable (lim : IntLimit) (upper : PyStr → PyStr) (sd : ScenarioDefinition)
    (result : ScenarioRunResult) : Prop where
  name : Json.NoSurrogates sd.name
  command : ∀ argument ∈ result.application.command, Json.NoSurrogates argument
  exitCode : Json.Admits lim result.application.exitCode = true
  stdout : Json.NoSurrogates result.application.stdout
  stderr : Json.NoSurrogates result.application.stderr
  dispatches : ∀ d ∈ result.dispatches, DispatchWritable lim upper sd d
  log : ∀ events, ValidLog lim result.application.stdout events →
    LogWritable lim sd result events

theorem encodeUtf8_isSome {s : PyStr} : (encodeUtf8 s).isSome = true ↔ Json.NoSurrogates s := by
  induction s with
  | nil => exact iff_of_true rfl rfl
  | cons c s ih =>
    have hc : (encodeCodePoint c).isSome = true ↔ (!Json.isSurrogate c) = true := by
      simp only [encodeCodePoint, Json.isSurrogate, Bool.not_eq_true', Bool.and_eq_false_iff,
        decide_eq_false_iff_not]
      split
      · simp
        omega
      · split
        · simp
          omega
        · split
          · simp
            omega
          · split
            · simp
              omega
            · simp
              omega
    rw [Json.NoSurrogates, List.all_cons, Bool.and_eq_true, ← hc]
    rw [Json.NoSurrogates] at ih
    rw [← ih]
    cases hbytes : encodeCodePoint c <;> cases hrest : encodeUtf8 s <;> simp [encodeUtf8, hbytes, hrest]

theorem encodable_iff {definition : PyDict} : Runner.Encodable definition ↔
    ∀ data, definition.get? (py "data") = some (.str data) → Json.NoSurrogates data := by
  simp only [Runner.Encodable, encodeUtf8_isSome]

/-! ## The parts of a report -/

section Parts

variable {lim : IntLimit} {upper : PyStr → PyStr}

theorem writable_intOrNone {n : Option Int} :
    Json.Writable lim (intOrNone n) ↔ ∀ k ∈ n, Json.Admits lim k = true := by
  cases n <;> simp [intOrNone]

theorem writable_strOrNone {s : Option PyStr} :
    Json.Writable lim ((s.map PyValue.str).getD .none) ↔ ∀ t ∈ s, Json.NoSurrogates t := by
  cases s <;> simp

theorem writable_optionalInt {n : Option Int} :
    Json.Writable lim (Json.ofDoc (optionalInt n)) ↔ ∀ k ∈ n, Json.Admits lim k = true := by
  cases n <;> simp [optionalInt, Json.ofDoc]

theorem noSurrogates_status (status : ReportStatus) : Json.NoSurrogates status.value := by
  cases status <;> exact Json.noSurrogates_py _

theorem writable_application {a : ApplicationResult} :
    Json.Writable lim (Json.ofDoc (.object (applicationDocument a))) ↔
      (∀ argument ∈ a.command, Json.NoSurrogates argument) ∧ Json.Admits lim a.exitCode = true ∧
        Json.NoSurrogates a.stdout ∧ Json.NoSurrogates a.stderr := by
  simp only [Json.writable_object, applicationDocument, List.forall_mem_cons, Json.ofDoc_list]
  simp [Json.ofDoc]

theorem writable_error {e : ReportError} :
    Json.Writable lim (Json.ofDoc (.object e.document)) ↔
      Json.NoSurrogates e.type ∧ Json.NoSurrogates e.message := by
  simp only [Json.writable_object, ReportError.document, List.forall_mem_cons]
  simp [Json.ofDoc]

/-- What is asked of a report, part by part. -/
theorem writable_toDict {report : ScenarioReport} :
    Json.Writable lim (report.toDict upper) ↔
      Json.NoSurrogates report.scenarioName ∧
      (∀ a ∈ report.application,
        Json.Writable lim (Json.ofDoc (.object (applicationDocument a)))) ∧
      (∀ o ∈ report.observations, Json.Writable lim o.toValue) ∧
      (∀ a ∈ report.assertions, Json.Writable lim (Json.ofDoc (.object a.document))) ∧
      (∀ entry ∈ report.timeline, Json.Writable lim (entry.toValue upper)) ∧
      ∀ e ∈ report.error, Json.Writable lim (Json.ofDoc (.object e.document)) := by
  have hversion : Json.Admits lim (reportSchemaVersion : Int) = true :=
    Json.admits_small (by decide)
  simp only [ScenarioReport.toDict, Json.writable_ofList, List.forall_mem_cons, Json.writable_int,
    hversion, Json.writable_str, noSurrogates_status, Json.writable_list, List.forall_mem_map,
    List.not_mem_nil, false_implies, implies_true, and_true, true_and]
  refine and_congr_right fun _ => and_congr ?_ (and_congr ?_ (and_congr_right fun _ =>
    and_congr_right fun _ => ?_))
  · cases report.application <;> simp
  · cases report.observations <;> simp [Json.writable_dict]
  · cases report.error <;> simp

/-- The JSON of a report, by what it is made of. -/
theorem isJsonDocument_iff_writable {report : ScenarioReport}
    (h : ∀ entry ∈ report.timeline, (PyValue.dict entry.details).Document) :
    IsJsonDocument lim upper report ↔ Json.Writable lim (report.toDict upper) := by
  have hline : Json.Ws (py "\n") := by
    intro c hc
    cases List.mem_singleton.mp hc
    decide
  rw [← Json.dumps_written_iff (document_toDict h) hline, IsJsonDocument]
  constructor
  · intro hdocument
    obtain ⟨text, htext, hread, hencoded⟩ := hdocument
    obtain ⟨t, ht, rfl⟩ := Option.map_eq_some_iff.mp htext
    exact ⟨t, ht, hread, encodeUtf8_isSome.mp hencoded⟩
  · intro hwritten
    obtain ⟨t, ht, hread, hencoded⟩ := hwritten
    exact ⟨t ++ py "\n", by rw [ScenarioReport.toJson, ht]; rfl, hread,
      encodeUtf8_isSome.mpr hencoded⟩

/-! ## The timeline -/

theorem admits_float {n : Int} (h : n.natAbs < 2 ^ 1024 - 2 ^ 970) : Json.Admits lim n = true := by
  have hpow : 2 ^ 1024 - 2 ^ 970 ≤ 10 ^ 640 := by decide +kernel
  exact Json.admits_of_lt (h.trans_le hpow)

/-- The difference of two timestamps. -/
theorem admits_sub {m n : Int} (hm : m.natAbs < 2 ^ 1024 - 2 ^ 970)
    (hn : n.natAbs < 2 ^ 1024 - 2 ^ 970) : Json.Admits lim (m - n) = true := by
  have hpow : (2 ^ 1024 - 2 ^ 970) + (2 ^ 1024 - 2 ^ 970) ≤ 10 ^ 640 := by decide +kernel
  have hsub : (m - n).natAbs ≤ m.natAbs + n.natAbs := Int.natAbs_sub_le m n
  exact Json.admits_of_lt ((hsub.trans_lt (Nat.add_lt_add hm hn)).trans_le hpow)

/-- Of a normalized event only the data can be in the way. -/
theorem writable_details (e : Event) :
    Json.Writable lim (.dict (eventDetails e.dict)) ↔ Runner.Encodable e.dict := by
  have hother : ∀ l : List (String × PyValue), eventDetails e.dict = PyDict.ofList l →
      (∀ kv ∈ l, Json.Writable lim kv.2) → e.dict.get? (py "data") = none →
      (Json.Writable lim (.dict (eventDetails e.dict)) ↔ Runner.Encodable e.dict) := by
    intro l heq hall hnone
    refine iff_of_true ?_ ?_
    · rw [heq, Json.writable_ofList]
      exact hall
    · intro data hdata
      cases hnone.symm.trans hdata
  obtain ⟨atMs, action⟩ := e
  cases action with
  | write data =>
    have hdetails : eventDetails (Event.dict ⟨atMs, .write data⟩) =
        PyDict.ofList [("data", .str data.1)] := rfl
    have hget : (Event.dict ⟨atMs, .write data⟩).get? (py "data") = some (.str data.1) := rfl
    rw [hdetails, encodable_iff, hget]
    simp
  | fault f =>
    cases f with
    | disconnect => exact hother [("type", .str (py "disconnect"))] rfl (by simp) rfl
    | eio repeats =>
      have hadmits : Json.Admits lim (repeats.1 : Int) = true := by
        have := repeats.2.2
        exact Json.admits_small (by simp [Scenario.maxEioRepeat] at this ⊢; omega)
      exact hother [("type", .str (py "eio")), ("repeat", .int repeats.1)] rfl (by simp [hadmits]) rfl
    | delay duration =>
      have hadmits : Json.Admits lim (duration.1 : Int) = true := by
        have := duration.2
        exact Json.admits_small (by simp [Scenario.maxDurationMs] at this ⊢; omega)
      exact hother [("type", .str (py "delay")), ("duration_ms", .int duration.1)] rfl
        (by simp [hadmits]) rfl
    | partialRead bytes =>
      have hadmits : Json.Admits lim (bytes.1 : Int) = true := by
        have := bytes.2.2
        exact Json.admits_small (by simp [Scenario.maxPartialReadBytes] at this ⊢; omega)
      exact hother [("type", .str (py "partial-read")), ("bytes", .int bytes.1)] rfl
        (by simp [hadmits]) rfl
  | clear => exact hother [] rfl (by simp) rfl
  | reset => exact hother [] rfl (by simp) rfl

theorem noSurrogates_dispatchEvent {action : PyStr} :
    Json.NoSurrogates (DispatchEvent.text upper
        (if action = py "fault" then .faultInjected else .dispatched action)) ↔
      (action ≠ py "fault" → Json.NoSurrogates (upper action)) := by
  by_cases hfault : action = py "fault"
  · simp [hfault, DispatchEvent.text]
  · simp [hfault, DispatchEvent.text, Json.noSurrogates_append]

theorem writable_dispatchEntry {sc : Scenario} {source : PyStr} {d : DispatchRecord}
    {entry : TimelineEntry} (h : dispatchEntry (sc.definition source) d = .ok entry)
    (hfinite : entry.timestampMs.natAbs < 2 ^ 1024 - 2 ^ 970) :
    Json.Writable lim (entry.toValue upper) ↔
      DispatchWritable lim upper (sc.definition source) d := by
  obtain ⟨-, -, definition, hget, -⟩ := dispatchEntry_isScenario h
  obtain ⟨e, -, rfl⟩ : ∃ e ∈ sc.events, e.dict = definition :=
    List.mem_map.mp (List.mem_of_getElem? hget)
  have heventAt : eventAt (sc.definition source) d.index = .ok e.dict := by
    rw [eventAt, hget]
  simp only [dispatchEntry, heventAt, ok_bind] at h
  cases pure_eq_ok.mp h
  have htime : Json.Admits lim (truncate d.monotonicStartedMs) = true := admits_float hfinite
  simp only [TimelineEntry.toValue, Json.writable_ofList, List.forall_mem_cons, Json.writable_int,
    Json.writable_str, Json.writable_float, noSurrogates_dispatchEvent, Json.noSurrogates_py,
    List.not_mem_nil, false_implies, implies_true, and_true, true_and]
  have hdetails : Json.Writable lim (.dict (eventDetails e.dict)) ↔ Runner.Encodable e.dict :=
    writable_details e
  constructor
  · intro hall
    obtain ⟨haction, -, hindex, hscheduled, hduration, hentry⟩ := hall
    refine ⟨hindex, hscheduled, hduration, haction, ?_⟩
    intro definition hdefinition
    cases hget.symm.trans hdefinition
    exact hdetails.mp hentry
  · intro hd
    exact ⟨hd.action, htime, hd.index, hd.scheduledMs, hd.durationMs,
      hdetails.mpr (hd.data _ hget)⟩

theorem writable_applicationTimeline {events : List ApplicationLogEvent}
    (hfinite : ∀ entry ∈ applicationTimeline events,
      entry.timestampMs.natAbs < 2 ^ 1024 - 2 ^ 970) :
    (∀ entry ∈ applicationTimeline events, Json.Writable lim (entry.toValue upper)) ↔
      ∀ e ∈ events, EventWritable lim e := by
  rw [applicationTimeline, List.forall_mem_map] at hfinite ⊢
  refine forall₂_congr fun e he => ?_
  have htime : Json.Admits lim e.timestampMs = true := admits_float (hfinite e he)
  simp only [TimelineEntry.toValue, Json.writable_ofList, List.forall_mem_cons, Json.writable_int,
    Json.writable_str, Json.noSurrogates_py, List.not_mem_nil, false_implies, implies_true, and_true,
    true_and]
  constructor
  · intro hall
    exact ⟨hall.2.2.1, hall.1, hall.2.2.2⟩
  · intro he
    exact ⟨he.event, htime, he.line, he.fields⟩

theorem sortedTimeline_perm {entries timeline : List TimelineEntry}
    (h : sortedTimeline entries = .ok timeline) : timeline.Perm entries := by
  simp only [sortedTimeline, bind_eq_ok, pure_eq_ok] at h
  obtain ⟨keyed, hkeyed, rfl⟩ := h
  have hentries : keyed.map (·.2) = entries := by
    have hall := mapM_forall₂ hkeyed
    clear hkeyed
    induction hall with
    | nil => rfl
    | @cons entry pair entries keyed hpair _ ih =>
      simp only [withKey, bind_eq_ok, pure_eq_ok] at hpair
      obtain ⟨_, -, rfl⟩ := hpair
      rw [List.map_cons, ih]
  rw [← hentries]
  exact (List.perm_insertionSort _ _).map _

theorem firstFaultTimestamp_mem {sd : ScenarioDefinition} {dispatches : List DispatchRecord}
    {n : Int} (h : firstFaultTimestamp sd dispatches = .ok (some n)) :
    ∃ d ∈ dispatches, truncate d.monotonicStartedMs = n := by
  induction dispatches with
  | nil => cases h
  | cons d rest ih =>
    simp only [firstFaultTimestamp, bind_eq_ok] at h
    obtain ⟨definition, -, h⟩ := h
    split at h
    · cases pure_eq_ok.mp h
      exact ⟨d, List.mem_cons_self, rfl⟩
    · obtain ⟨d', hd', hn⟩ := ih h
      exact ⟨d', List.mem_cons_of_mem d hd', hn⟩

theorem admits_duration (ms : Duration) : Json.Admits lim (ms.1 : Int) = true := by
  have hle := ms.2
  simp only [Scenario.maxDurationMs] at hle
  exact Json.admits_small (by simp; omega)

theorem writable_document {a : AssertionDocument} :
    Json.Writable lim (Json.ofDoc (.object a.document)) ↔
      ∀ member ∈ a.document, Json.NoSurrogates member.1 ∧ Json.Writable lim (Json.ofDoc member.2) :=
  Json.writable_object

/-! ## The observations -/

section Observed

variable {events : List ApplicationLogEvent} {m : RecoveryMetrics}
  (hsegments : Segmentation events m)
  (htimes : ∀ e ∈ events, e.timestampMs.natAbs < 2 ^ 1024 - 2 ^ 970)
  (hlength : Json.Admits lim events.length = true)

include hsegments htimes

/-- The times of a window are those of events. -/
theorem window_times {w : RecoveryWindow} (hw : w ∈ m.recoveries) :
    w.firstErrorTimestampMs.natAbs < 2 ^ 1024 - 2 ^ 970 ∧
      w.recoveryTimestampMs.natAbs < 2 ^ 1024 - 2 ^ 970 := by
  obtain ⟨before, s, after, rfl, hof⟩ := hsegments.window_of_mem hw
  obtain ⟨r, hr, hfirst⟩ := hof.first
  have hmem : r ∈ before := (List.rtakeWhile_suffix _ _).subset (List.mem_of_find?_eq_some hr)
  rw [hfirst, hof.recovery]
  exact ⟨htimes r (List.mem_append_left _ hmem), htimes s (by simp)⟩

theorem admits_latency {w : RecoveryWindow} (hw : w ∈ m.recoveries) :
    Json.Admits lim w.recoveryLatencyMs = true := by
  obtain ⟨hfirst, hrecovery⟩ := window_times hsegments htimes hw
  obtain ⟨_, _, _, -, hof⟩ := hsegments.window_of_mem hw
  rw [hof.latency]
  exact admits_sub hrecovery hfirst

include hlength

theorem writable_window (hevents : ∀ e ∈ events, EventWritable lim e) {w : RecoveryWindow}
    (hw : w ∈ m.recoveries) : Json.Writable lim (windowDict w) := by
  obtain ⟨hfirst, hrecovery⟩ := window_times hsegments htimes hw
  have hlatency : Json.Admits lim w.recoveryLatencyMs = true := admits_latency hsegments htimes hw
  obtain ⟨before, s, after, rfl, hof⟩ := hsegments.window_of_mem hw
  have hobserved : Json.Admits lim w.observedRetries = true := by
    refine Json.admits_of_le ?_ hlength
    rw [hof.observed]
    have hsuffix := (List.rtakeWhile_suffix (fun e => !e.isRecovery) before).length_le
    have hcount := List.countP_le_length (p := ApplicationLogEvent.isRetry) (l := sinceRecovery before)
    rw [List.length_append]
    exact (hcount.trans hsuffix).trans (Nat.le_add_right _ _)
  have hreported : Json.Admits lim w.reportedRetries = true := by
    have hfields := (hevents s (by simp)).fields
    have hmem := PyDict.mem_of_get? hof.reported
    exact Json.writable_int.mp (Json.writable_dict.mp hfields _ hmem).2
  simp [windowDict, admits_float hfirst, admits_float hrecovery, hlatency, hobserved, hreported]

theorem writable_observe (hevents : ∀ e ∈ events, EventWritable lim e) {t : Option Int}
    (ht : ∀ n ∈ t, n.natAbs < 2 ^ 1024 - 2 ^ 970) {result : ScenarioRunResult} :
    Json.Writable lim (observe m events t result).toValue ↔
      (∀ w ∈ result.kernelWarnings, Json.NoSurrogates w) ∧
      (result.kernelLogAvailable = true →
        Json.Admits lim result.kernelWarnings.length = true) ∧
      ∀ e ∈ result.kernelLogError, Json.NoSurrogates e := by
  have hcount : ∀ p : ApplicationLogEvent → Bool, Json.Admits lim (events.countP p : Nat) = true :=
    fun p => Json.admits_of_le List.countP_le_length hlength
  have hfirst : ∀ n ∈ m.firstErrorTimestampMs, n.natAbs < 2 ^ 1024 - 2 ^ 970 := by
    intro n hn
    rw [hsegments.firstError] at hn
    obtain ⟨e, he, rfl⟩ := Option.map_eq_some_iff.mp hn
    exact htimes e (List.mem_of_find?_eq_some he)
  have hrecovery : ∀ n ∈ m.recoveryTimestampMs, n.natAbs < 2 ^ 1024 - 2 ^ 970 := by
    intro n hn
    rw [hsegments.firstRecovery] at hn
    obtain ⟨w, hw, rfl⟩ := Option.map_eq_some_iff.mp hn
    exact (window_times hsegments htimes (List.mem_of_mem_head? hw)).2
  have hlatency : ∀ n ∈ m.recoveryLatencyMs, Json.Admits lim n = true := by
    intro n hn
    rw [hsegments.firstLatency] at hn
    obtain ⟨w, hw, rfl⟩ := Option.map_eq_some_iff.mp hn
    exact admits_latency hsegments htimes (List.mem_of_mem_head? hw)
  have hcausal : ∀ {a : Option Int}, (∀ n ∈ a, n.natAbs < 2 ^ 1024 - 2 ^ 970) →
      ∀ n ∈ causalDuration a t, Json.Admits lim n = true := by
    intro a ha n hn
    simp only [causalDuration, Option.mem_def, Option.bind_eq_bind, Option.bind_eq_some_iff,
      Option.pure_def, Option.some.injEq] at hn
    obtain ⟨x, hx, y, hy, rfl⟩ := hn
    exact admits_sub (ha x hx) (ht y hy)
  have hwindows : ∀ w ∈ m.recoveries, Json.Writable lim (windowDict w) :=
    fun w hw => writable_window hsegments htimes hlength hevents hw
  have hkernel : Json.Writable lim (observe m events t result).kernelLog.toValue ↔
      (∀ w ∈ result.kernelWarnings, Json.NoSurrogates w) ∧
      (result.kernelLogAvailable = true →
        Json.Admits lim result.kernelWarnings.length = true) ∧
      ∀ e ∈ result.kernelLogError, Json.NoSurrogates e := by
    simp only [KernelLog.toValue, observe, Json.writable_ofList, List.forall_mem_cons,
      writable_intOrNone, writable_strOrNone, Json.writable_list, List.forall_mem_map,
      Json.writable_str, Json.writable_bool, List.not_mem_nil, false_implies, implies_true, and_true,
      true_and]
    cases result.kernelLogAvailable <;> simp [and_left_comm]
  rw [← hkernel]
  simp only [Observations.toValue, Json.writable_ofList, List.forall_mem_cons, writable_intOrNone,
    Json.writable_int, Json.writable_list, List.forall_mem_map, Json.writable_bool,
    List.not_mem_nil, false_implies, implies_true, and_true, true_and]
  constructor
  · intro h
    exact h.2.2.2.2.2.2.2.2.2
  · intro h
    refine ⟨?_, ?_, fun n hn => admits_float (ht n hn), fun n hn => admits_float (hfirst n hn),
      fun n hn => admits_float (hrecovery n hn), hlatency, hcausal hfirst, hcausal hrecovery,
      hwindows, h⟩
    · show Json.Admits lim (m.observedEioCount : Nat) = true
      rw [hsegments.eio]
      exact hcount _
    · show Json.Admits lim (m.applicationRetryCount : Nat) = true
      rw [hsegments.retries]
      exact hcount _

/-! ## The assertions -/

include hlength in
omit hsegments htimes in
theorem writable_countDocument (a : Assertion) : ∀ doc ∈ countDocument events a,
    Json.Writable lim (Json.ofDoc (.object doc.document)) := by
  intro doc hdoc
  cases a with
  | eventCount event count within maxLatency recovery =>
    cases List.mem_singleton.mp hdoc
    have hevent : Json.NoSurrogates event.1 := by
      have hnames : ∀ s ∈ Scenario.logEvents, Json.NoSurrogates s := by
        simp [Scenario.logEvents]
      exact hnames event.1 event.2
    have hcount : Json.Admits lim (count.1 : Int) = true := by
      have := count.2.2
      exact Json.admits_small (by simp; omega)
    have hobserved : Json.Admits lim (occurrences events event.1 within : Nat) = true :=
      Json.admits_of_le List.countP_le_length hlength
    have hwithin : ∀ k ∈ within.map (fun ms => (ms.1 : Int)), Json.Admits lim k = true := by
      intro k hk
      obtain ⟨ms, -, rfl⟩ := Option.map_eq_some_iff.mp hk
      exact admits_duration ms
    rw [writable_document]
    simp only [AssertionDocument.document, List.forall_mem_cons, Json.noSurrogates_py, Json.ofDoc,
      Json.writable_str, Json.writable_int, Json.writable_bool, writable_optionalInt]
    exact ⟨⟨trivial, trivial⟩, ⟨trivial, hevent⟩, ⟨trivial, hcount⟩, ⟨trivial, hobserved⟩,
      ⟨trivial, hwithin⟩, ⟨trivial, trivial⟩, by simp⟩
  | _ => cases hdoc

omit hlength in
theorem writable_latencyDocument (a : Assertion) : ∀ doc ∈ latencyDocument m a,
    Json.Writable lim (Json.ofDoc (.object doc.document)) := by
  intro doc hdoc
  cases a with
  | eventCount event count within maxLatency recovery =>
    cases maxLatency with
    | none => cases hdoc
    | some maximum =>
      cases List.mem_singleton.mp hdoc
      have hobserved : ∀ k ∈ (m.recoveries.map (·.recoveryLatencyMs)).max?,
          Json.Admits lim k = true := by
        intro k hk
        obtain ⟨w, hw, rfl⟩ := List.mem_map.mp (List.max?_mem hk)
        exact admits_latency hsegments htimes hw
      rw [writable_document]
      simp only [AssertionDocument.document, List.forall_mem_cons, Json.noSurrogates_py, Json.ofDoc,
        Json.writable_str, Json.writable_int, Json.writable_bool, writable_optionalInt]
      exact ⟨⟨trivial, trivial⟩, ⟨trivial, admits_duration maximum⟩, ⟨trivial, hobserved⟩,
        ⟨trivial, trivial⟩, by simp⟩
  | _ => cases hdoc

end Observed

theorem textsWritable_of_none {definition : PyDict}
    (h : definition.get? (py "contains") = none ∧ definition.get? (py "not_contains") = none) :
    TextsWritable definition := by
  intro key hkey text htext
  simp only [List.mem_cons, List.not_mem_nil, or_false] at hkey
  rcases hkey with rfl | rfl
  · cases h.1.symm.trans htext
  · cases h.2.symm.trans htext

theorem writable_typedDocument {events : List ApplicationLogEvent} {result : ScenarioRunResult}
    (hwarnings : result.kernelLogAvailable = true →
      Json.Admits lim result.kernelWarnings.length = true) (a : Assertion) :
    (∀ doc ∈ typedDocument events result a,
      Json.Writable lim (Json.ofDoc (.object doc.document))) ↔ TextsWritable a.dict := by
  cases a with
  | eventCount event count within maxLatency recovery =>
    refine iff_of_true (by simp [typedDocument]) (textsWritable_of_none ?_)
    cases within <;> cases maxLatency <;> exact ⟨rfl, rfl⟩
  | stdout contains notContains given =>
    have hcontains : (Assertion.stdout contains notContains given).dict.get? (py "contains") =
        contains.map fun text => .str text.1 := by
      cases contains <;> cases notContains <;> rfl
    have hnotContains : (Assertion.stdout contains notContains given).dict.get?
        (py "not_contains") = notContains.map fun text => .str text.1 := by
      cases contains <;> cases notContains <;> rfl
    have hdoc : ∀ operator text passed, Json.Writable lim (Json.ofDoc (.object
        (AssertionDocument.stdout ⟨operator, text, passed⟩).document)) ↔
          Json.NoSurrogates text := by
      intro operator text passed
      have hname : Json.NoSurrogates (StdoutOperator.name operator) := by
        cases operator <;> exact Json.noSurrogates_py _
      rw [writable_document]
      simp [AssertionDocument.document, Json.ofDoc, hname]
    simp only [typedDocument, List.forall_mem_append, List.forall_mem_map, hdoc, TextsWritable,
      List.forall_mem_cons, hcontains, hnotContains]
    cases contains <;> cases notContains <;> simp
  | disconnect expected =>
    refine iff_of_true ?_ (textsWritable_of_none ⟨rfl, rfl⟩)
    intro doc hdoc
    cases List.mem_singleton.mp hdoc
    rw [writable_document]
    simp [AssertionDocument.document, Json.ofDoc]
  | kernelWarnings count =>
    refine iff_of_true ?_ (textsWritable_of_none ⟨rfl, rfl⟩)
    intro doc hdoc
    cases List.mem_singleton.mp hdoc
    have hcount : Json.Admits lim (count.1 : Int) = true := by
      have := count.2.2
      exact Json.admits_small (by simp; omega)
    rw [writable_document]
    cases havailable : result.kernelLogAvailable with
    | false => simp [AssertionDocument.document, Json.ofDoc, hcount, optionalNat]
    | true => simp [AssertionDocument.document, Json.ofDoc, hcount, optionalNat, hwarnings havailable]

/-! ## The report -/

section Report

variable {sc : Scenario} {source : PyStr} {result : ScenarioRunResult} {report : ScenarioReport}
  {entries : List TimelineEntry} {events : List ApplicationLogEvent} {m : RecoveryMetrics}

theorem document_dispatchTimeline
    (h : dispatchTimeline (sc.definition source) result.dispatches = .ok entries) :
    ∀ entry ∈ entries, (PyValue.dict entry.details).Document := by
  intro entry hentry
  obtain ⟨d, -, hd⟩ := mem_of_mapM h hentry
  obtain ⟨-, -, definition, hget, hdetails, -⟩ := dispatchEntry_isScenario hd
  obtain ⟨e, -, rfl⟩ : ∃ e ∈ sc.events, e.dict = definition :=
    List.mem_map.mp (List.mem_of_getElem? hget)
  rw [hdetails]
  exact (document_eventDict e).filter _

theorem document_applicationTimeline
    (h : parseApplicationLog lim result.application.stdout = .ok events) :
    ∀ entry ∈ applicationTimeline events, (PyValue.dict entry.details).Document := by
  rw [applicationTimeline, List.forall_mem_map]
  exact document_fields h

theorem writable_dispatchTimeline
    (h : dispatchTimeline (sc.definition source) result.dispatches = .ok entries)
    (hfinite : ∀ entry ∈ entries, entry.timestampMs.natAbs < 2 ^ 1024 - 2 ^ 970) :
    (∀ entry ∈ entries, Json.Writable lim (entry.toValue upper)) ↔
      ∀ d ∈ result.dispatches, DispatchWritable lim upper (sc.definition source) d :=
  forall_mapM h fun _ _ entry hentry hd => writable_dispatchEntry hd (hfinite entry hentry)

/-- The message of an invalid log is the program's own. -/
theorem noSurrogates_logErrorMessage (line : Nat) (text : String) :
    Json.NoSurrogates (logErrorMessage line (py text)) := by
  have hline : Json.NoSurrogates (decimal line) := by
    apply Json.noSurrogates_ascii
    intro c hc
    have hdigit := List.all_eq_true.mp (isNumeral_decimal line).2.1 c hc
    simp only [isDigit, Bool.and_eq_true, decide_eq_true_eq] at hdigit
    omega
  simp [logErrorMessage, Json.noSurrogates_append, hline]

theorem noSurrogates_kernelLogMessage {error : Option PyStr}
    (h : ∀ e ∈ error, Json.NoSurrogates e) : Json.NoSurrogates (kernelLogMessage error) := by
  unfold kernelLogMessage
  split
  · exact h _ rfl
  · exact Json.noSurrogates_py _

/-- An error of `judge` is about the kernel log. -/
theorem writable_judge {sd : ScenarioDefinition} {documents : List AssertionDocument}
    (h : ∀ e ∈ result.kernelLogError, Json.NoSurrogates e) :
    ∀ e ∈ (judge sd result documents).2, Json.Writable lim (Json.ofDoc (.object e.document)) := by
  intro e he
  rw [writable_error]
  simp only [judge] at he
  split at he
  · cases Option.mem_some_iff.mp he
    exact ⟨Json.noSurrogates_py _, noSurrogates_kernelLogMessage h⟩
  · split at he
    · cases he
    · split at he <;> cases he

theorem writable_assertions {t : List AssertionDocument}
    (hsegments : Segmentation events m)
    (htimes : ∀ e ∈ events, e.timestampMs.natAbs < 2 ^ 1024 - 2 ^ 970)
    (hlength : Json.Admits lim events.length = true)
    (hexit : Json.Admits lim result.application.exitCode = true)
    (hwarnings : result.kernelLogAvailable = true →
      Json.Admits lim result.kernelWarnings.length = true)
    (h : assertionDocuments (sc.definition source) result events m = .ok t) :
    (∀ a ∈ t, Json.Writable lim (Json.ofDoc (.object a.document))) ↔
      ∀ definition ∈ (sc.definition source).assertions, TextsWritable definition := by
  rw [assertionDocuments_definition] at h
  cases h
  have hexitDocument : Json.Writable lim
      (Json.ofDoc (.object (exitDocument result.application).document)) := by
    have hzero : Json.Admits lim 0 = true := Json.admits_small (by decide)
    rw [writable_document]
    simp [exitDocument, AssertionDocument.document, Json.ofDoc, hexit, hzero]
  simp only [List.forall_mem_append, List.forall_mem_flatMap, List.forall_mem_singleton]
  have hdefinitions : (∀ definition ∈ (sc.definition source).assertions, TextsWritable definition) ↔
      ∀ a ∈ sc.assertions, TextsWritable a.dict := List.forall_mem_map
  rw [hdefinitions]
  constructor
  · intro hall a ha
    exact (writable_typedDocument hwarnings a).mp (hall.1.1.2 a ha)
  · intro htexts
    exact ⟨⟨⟨fun a _ => writable_countDocument hlength a,
      fun a ha => (writable_typedDocument hwarnings a).mpr (htexts a ha)⟩, hexitDocument⟩,
      fun a _ => writable_latencyDocument hsegments htimes a⟩

theorem buildScenarioReport_run (h : buildScenarioReport lim (sc.definition source) result = .ok report) :
    report.scenarioName = sc.name ∧ report.application = some result.application := by
  simp only [buildScenarioReport, bind_eq_ok] at h
  obtain ⟨entries, -, h⟩ := h
  split at h
  · simp only [bind_eq_ok, pure_eq_ok] at h
    obtain ⟨timeline, -, rfl⟩ := h
    exact ⟨rfl, rfl⟩
  · cases h
  · simp only [analysedReport, bind_eq_ok, pure_eq_ok] at h
    obtain ⟨documents, -, t, -, timeline, -, rfl⟩ := h
    exact ⟨rfl, rfl⟩

/-- The number of events is admitted with the line of the last one. -/
theorem admits_length (h : parseApplicationLog lim result.application.stdout = .ok events)
    (hevents : ∀ e ∈ events, EventWritable lim e) : Json.Admits lim events.length = true := by
  cases hlast : events.getLast? with
  | none =>
    cases List.getLast?_eq_none_iff.mp hlast
    exact Json.admits_small (by decide)
  | some e =>
    have hle := length_parseLines_le h e hlast
    exact Json.admits_of_le (by omega) (hevents e (List.mem_of_getLast? hlast)).line

theorem writable_of_invalid {line : Nat} {text : String}
    (hlog : analyse lim result.application.stdout = .error (.applicationLogError line (py text)))
    (h : buildScenarioReport lim (sc.definition source) result = .ok report) :
    (∀ entry ∈ report.timeline, (PyValue.dict entry.details).Document) ∧
      (Json.Writable lim (report.toDict upper) ↔
        ReportWritable lim upper (sc.definition source) result) := by
  have hinvalid : ∀ events, ¬ ValidLog lim result.application.stdout events := by
    intro events hvalid
    obtain ⟨m, hm⟩ := analyse_isOk.mpr hvalid
    cases hlog.symm.trans hm
  simp only [buildScenarioReport, hlog, bind_eq_ok, pure_eq_ok] at h
  obtain ⟨entries, hentries, timeline, htimeline, rfl⟩ := h
  have hperm := sortedTimeline_perm htimeline
  have hfinite := sortedTimeline_isOk.mp ⟨_, htimeline⟩
  have hdispatches : (∀ entry ∈ entries, Json.Writable lim (entry.toValue upper)) ↔
      ∀ d ∈ result.dispatches, DispatchWritable lim upper (sc.definition source) d :=
    writable_dispatchTimeline hentries hfinite
  refine ⟨fun entry hentry => document_dispatchTimeline hentries entry (hperm.subset hentry), ?_⟩
  have hsame : (∀ entry ∈ timeline, Json.Writable lim (entry.toValue upper)) ↔
      ∀ entry ∈ entries, Json.Writable lim (entry.toValue upper) :=
    forall_congr' fun entry => by rw [hperm.mem_iff]
  rw [writable_toDict]
  simp only [hsame, hdispatches, Option.mem_some_iff, forall_eq', writable_application,
    writable_error, noSurrogates_logErrorMessage, Json.noSurrogates_py, Option.not_mem_none,
    List.not_mem_nil, false_implies, implies_true, and_true, true_and]
  constructor
  · intro hall
    obtain ⟨hname, ⟨hcommand, hexit, hstdout, hstderr⟩, hdispatch⟩ := hall
    exact ⟨hname, hcommand, hexit, hstdout, hstderr, hdispatch,
      fun events hvalid => absurd hvalid (hinvalid events)⟩
  · intro hreport
    exact ⟨hreport.name, ⟨hreport.command, hreport.exitCode, hreport.stdout, hreport.stderr⟩,
      hreport.dispatches⟩

theorem writable_of_valid (hlog : analyse lim result.application.stdout = .ok (events, m))
    (h : buildScenarioReport lim (sc.definition source) result = .ok report) :
    (∀ entry ∈ report.timeline, (PyValue.dict entry.details).Document) ∧
      (Json.Writable lim (report.toDict upper) ↔
        ReportWritable lim upper (sc.definition source) result) := by
  obtain ⟨hparse, hmetrics⟩ := analyse_eq_ok.mp hlog
  have hvalid := analyse_isOk.mp ⟨m, hlog⟩
  have hsegments := calculateRecoveryMetrics_segmentation hparse hmetrics
  obtain ⟨hname, happlication⟩ := buildScenarioReport_run h
  obtain ⟨entries, t, hentries, ht, htimeline, hobservations⟩ := buildScenarioReport_timeline h hlog
  obtain ⟨documents, hdocuments, herror⟩ : ∃ documents,
      assertionDocuments (sc.definition source) result events m = .ok documents ∧
        report.assertions = documents ∧
        report.error = (judge (sc.definition source) result documents).2 := by
    rcases buildScenarioReport_eq_ok h with ⟨⟨line, message, herr⟩, -⟩ | ⟨_, _, hok, hdocs, hjudge⟩
    · cases hlog.symm.trans herr
    · cases hlog.symm.trans hok
      exact ⟨_, hdocs, rfl, congrArg Prod.snd hjudge⟩
  obtain ⟨rfl, herror⟩ := herror
  have hperm := sortedTimeline_perm htimeline
  have hfinite := sortedTimeline_isOk.mp ⟨_, htimeline⟩
  rw [List.forall_mem_append] at hfinite
  have htimes : ∀ e ∈ events, e.timestampMs.natAbs < 2 ^ 1024 - 2 ^ 970 := by
    have happ := hfinite.2
    rwa [applicationTimeline, List.forall_mem_map] at happ
  have hstarted : ∀ d ∈ result.dispatches,
      (truncate d.monotonicStartedMs).natAbs < 2 ^ 1024 - 2 ^ 970 := by
    refine (forall_mapM hentries fun d _ entry _ hd => ?_).mp hfinite.1
    rw [(dispatchEntry_isScenario hd).2.1]
  have hfault : ∀ n ∈ t, n.natAbs < 2 ^ 1024 - 2 ^ 970 := by
    intro n hn
    obtain rfl : t = some n := hn
    obtain ⟨d, hd, rfl⟩ := firstFaultTimestamp_mem ht
    exact hstarted d hd
  have hwritten : (∀ entry ∈ report.timeline, Json.Writable lim (entry.toValue upper)) ↔
      (∀ d ∈ result.dispatches, DispatchWritable lim upper (sc.definition source) d) ∧
        ∀ e ∈ events, EventWritable lim e := by
    rw [← writable_dispatchTimeline hentries hfinite.1, ← writable_applicationTimeline hfinite.2,
      ← List.forall_mem_append]
    exact forall_congr' fun entry => by rw [hperm.mem_iff]
  have hobserve : (∀ e ∈ events, EventWritable lim e) →
      (Json.Writable lim (observe m events t result).toValue ↔ _) := fun hevents =>
    writable_observe hsegments htimes (admits_length hparse hevents) hevents hfault
  refine ⟨?_, ?_⟩
  · intro entry hentry
    rcases List.mem_append.mp (hperm.subset hentry) with hentry | hentry
    · exact document_dispatchTimeline hentries entry hentry
    · exact document_applicationTimeline hparse entry hentry
  rw [writable_toDict, hname, happlication, hobservations, hwritten]
  simp only [Option.mem_some_iff, forall_eq', writable_application]
  constructor
  · intro hall
    obtain ⟨hname, ⟨hcommand, hexit, hstdout, hstderr⟩, hobs, hassert, ⟨hdispatch, hevents⟩, -⟩ := hall
    obtain ⟨hwarnings, hcount, hkernel⟩ := (hobserve hevents).mp hobs
    have htexts := (writable_assertions hsegments htimes (admits_length hparse hevents) hexit hcount
      hdocuments).mp hassert
    refine ⟨hname, hcommand, hexit, hstdout, hstderr, hdispatch, ?_⟩
    intro events' hvalid'
    cases Except.ok.inj (hvalid.1.symm.trans hvalid'.1)
    exact ⟨hevents, htexts, hwarnings, hcount, hkernel⟩
  · intro hreport
    have hl := hreport.log events hvalid
    refine ⟨hreport.name, ⟨hreport.command, hreport.exitCode, hreport.stdout, hreport.stderr⟩, ?_, ?_,
      ⟨hreport.dispatches, hl.events⟩, ?_⟩
    · exact (hobserve hl.events).mpr ⟨hl.warnings, hl.warningCount, hl.kernelLogError⟩
    · exact (writable_assertions hsegments htimes (admits_length hparse hl.events) hreport.exitCode
        hl.warningCount hdocuments).mpr hl.texts
    · rw [herror]
      exact writable_judge hl.kernelLogError

/-- What a report of an accepted scenario is made of. -/
theorem writable_report (upper : PyStr → PyStr)
    (h : buildScenarioReport lim (sc.definition source) result = .ok report) :
    (∀ entry ∈ report.timeline, (PyValue.dict entry.details).Document) ∧
      (Json.Writable lim (report.toDict upper) ↔
        ReportWritable lim upper (sc.definition source) result) := by
  cases hlog : analyse lim result.application.stdout with
  | ok p => exact writable_of_valid hlog h
  | error e =>
    rcases analyse_error hlog with ⟨rfl, -⟩ | ⟨line, message, rfl⟩
    · -- an integer beyond the digit limit leaves `build_scenario_report`
      simp only [buildScenarioReport, hlog, bind_eq_ok] at h
      obtain ⟨_, -, h⟩ := h
      cases h
    · exact writable_of_invalid hlog h

end Report

end Parts

section Document

variable {safeLoad : PyStr → Except Scenario.LoadError PyValue} {lim : IntLimit}
  {text source : PyStr} {sd : ScenarioDefinition} {result : ScenarioRunResult}
  {report : ScenarioReport}

end Document

/-- `str.upper` on ASCII. -/
def asciiUpper (s : PyStr) : PyStr :=
  s.map fun c => if 0x61 ≤ c.val ∧ c.val ≤ 0x7A then c - 0x20 else c

theorem disconnectRun_writable :
    ReportWritable defaultIntLimit asciiUpper disconnectDefinition disconnectRun where
  name := Json.noSurrogates_py _
  command := by simp [disconnectRun]
  exitCode := Json.admits_small (by decide)
  stdout := Json.noSurrogates_py _
  stderr := rfl
  dispatches := by
    intro d hd
    cases List.mem_singleton.mp hd
    refine ⟨Json.admits_small (by decide), Json.admits_small (by decide), by decide +kernel,
      fun haction => absurd rfl haction, ?_⟩
    intro definition hdefinition
    cases hdefinition
    rw [encodable_iff]
    intro data hdata
    cases hdata
  log := by
    intro events hvalid
    have hparse : (parseApplicationLog defaultIntLimit disconnectRun.application.stdout).toOption.map
        (·.all fun e => e.line = 1 && e.event = py "DEVICE_DISCONNECTED" && e.fields.isEmpty) =
          some true := by
      decide +kernel
    rw [hvalid.1] at hparse
    have hevents := List.all_eq_true.mp (Option.some.inj hparse)
    refine ⟨?_, ?_, by simp [disconnectRun], fun _ => Json.admits_small (by decide),
      by simp [disconnectRun]⟩
    · intro e he
      have hevent := hevents e he
      simp only [Bool.and_eq_true, decide_eq_true_eq, List.isEmpty_iff] at hevent
      obtain ⟨⟨hline, hname⟩, hfields⟩ := hevent
      refine ⟨?_, ?_, ?_⟩
      · rw [hline]
        exact Json.admits_small (by decide)
      · rw [hname]
        exact Json.noSurrogates_py _
      · rw [hfields]
        exact ⟨rfl, rfl, rfl⟩
    · intro definition hdefinition
      cases List.mem_singleton.mp hdefinition
      exact textsWritable_of_none ⟨rfl, rfl⟩

/-- A lone surrogate in the event of a log line. -/
def surrogateLine : PyStr := py "\x7b\"timestamp_ms\":1,\"event\":\"\\ud800\"\x7d\n"

/-- A number of a log line that is read as infinity. -/
def infiniteLine : PyStr := py "\x7b\"timestamp_ms\":1,\"event\":\"E\",\"v\":1e400\x7d\n"

theorem not_isJsonDocument {stdout : PyStr} {p : PyValue → Bool}
    (hp : ∀ v, Json.Writable defaultIntLimit v → v.everyScalar p = true)
    (h : (buildScenarioReport defaultIntLimit disconnectDefinition (printedRun stdout)).toOption.map
      (fun report => (report.toDict asciiUpper).everyScalar p) = some false) :
    ∃ report, buildScenarioReport defaultIntLimit disconnectDefinition (printedRun stdout) =
      .ok report ∧ ¬ IsJsonDocument defaultIntLimit asciiUpper report := by
  obtain ⟨sc, hsc⟩ := Scenario.parseScenario_definition disconnectDefinition_accepted
  cases hreport : buildScenarioReport defaultIntLimit disconnectDefinition (printedRun stdout) with
  | error e =>
    rw [hreport] at h
    cases h
  | ok report =>
    rw [hsc] at hreport
    refine ⟨report, rfl, ?_⟩
    rw [isJsonDocument_iff_writable (writable_report asciiUpper hreport).1]
    intro hwritable
    rw [← hsc] at hreport
    rw [hreport] at h
    cases (hp _ hwritable).symm.trans (Option.some.inj h)

end VDevLab.Report
