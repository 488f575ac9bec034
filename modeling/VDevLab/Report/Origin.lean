import VDevLab.Report.Timeline

/-!
# Verdicts do not depend on the origin of the clock

Both clocks of a run are the monotonic clock of the machine, and its origin
means nothing. Moving it by whole milliseconds moves every absolute timestamp
of a report by as much and leaves everything else as it is.

Two steps set a limit to this. A dispatch time is cut towards zero, which
agrees with a shift only on one side of zero, and the timeline is sorted by
floats, which agree with the timestamps below `2^53`.
-/

namespace VDevLab.Analysis

open Check PyStr

/-! ## The analysis -/

def ApplicationLogEvent.shift (c : Nat) (e : ApplicationLogEvent) : ApplicationLogEvent :=
  { e with timestampMs := e.timestampMs + c }

/-- The absolute times of a window; its length and its retries stay. -/
def RecoveryWindow.shift (c : Nat) (w : RecoveryWindow) : RecoveryWindow :=
  { w with
    firstErrorTimestampMs := w.firstErrorTimestampMs + c
    recoveryTimestampMs := w.recoveryTimestampMs + c }

def RecoveryMetrics.shift (c : Nat) (m : RecoveryMetrics) : RecoveryMetrics :=
  { m with
    recoveries := m.recoveries.map (·.shift c)
    firstErrorTimestampMs := m.firstErrorTimestampMs.map (· + c)
    recoveryTimestampMs := m.recoveryTimestampMs.map (· + c) }

def Tracker.shift (c : Nat) (t : Tracker) : Tracker :=
  { t with
    recoveries := t.recoveries.map (·.shift c)
    firstObservedErrorTimestampMs := t.firstObservedErrorTimestampMs.map (· + c)
    firstErrorTimestampMs := t.firstErrorTimestampMs.map (· + c) }

section Metrics

variable (c : Nat)

theorem Tracker.shift_countRetry (t : Tracker) (retryErrno timestampMs : Int) :
    (t.shift c).countRetry retryErrno (timestampMs + c) =
      (t.countRetry retryErrno timestampMs).shift c := by
  obtain ⟨_, _, _, observed, first, _⟩ := t
  cases observed <;> cases first <;> rfl

theorem Tracker.shift_closeWindow (t : Tracker) (first reportedRetries timestampMs : Int) :
    (t.shift c).closeWindow (first + c) reportedRetries (timestampMs + c) =
      (t.closeWindow first reportedRetries timestampMs).shift c := by
  simp [Tracker.closeWindow, Tracker.shift, RecoveryWindow.shift]

theorem Tracker.shift_readRetry (t : Tracker) (e : ApplicationLogEvent) :
    (t.shift c).readRetry (e.shift c) = (t.readRetry e).map (·.shift c) := by
  simp only [Tracker.readRetry, ApplicationLogEvent.shift]
  cases requireNonnegativeInteger (getOrNone e.fields "errno") e.line "errno" with
  | error err => rfl
  | ok errno =>
    cases requireNonnegativeInteger (getOrNone e.fields "retry") e.line "retry" with
    | error err => rfl
    | ok retry => exact congrArg Except.ok (t.shift_countRetry c errno e.timestampMs)

theorem Tracker.shift_recoverySuccess (t : Tracker) (e : ApplicationLogEvent) :
    (t.shift c).recoverySuccess (e.shift c) = (t.recoverySuccess e).map (·.shift c) := by
  have hfirst : (t.shift c).firstErrorTimestampMs =
      t.firstErrorTimestampMs.map (· + (c : Int)) := rfl
  simp only [Tracker.recoverySuccess, ApplicationLogEvent.shift, hfirst]
  cases requireNonnegativeInteger (getOrNone e.fields "retries") e.line "retries" with
  | error err => rfl
  | ok reported =>
    cases t.firstErrorTimestampMs with
    | none => rfl
    | some first => exact congrArg Except.ok (t.shift_closeWindow c first reported e.timestampMs)

theorem Tracker.shift_step (t : Tracker) (e : ApplicationLogEvent) :
    (t.shift c).step (e.shift c) = (t.step e).map (·.shift c) := by
  have hevent : (e.shift c).event = e.event := rfl
  simp only [Tracker.step, hevent]
  split
  · exact t.shift_readRetry c e
  · split
    · exact t.shift_recoverySuccess c e
    · rfl

theorem foldlM_shift (events : List ApplicationLogEvent) : ∀ t : Tracker,
    (events.map (·.shift c)).foldlM Tracker.step (t.shift c) =
      (events.foldlM Tracker.step t).map (·.shift c) := by
  induction events with
  | nil =>
    intro t
    rfl
  | cons e events ih =>
    intro t
    rw [List.map_cons, List.foldlM_cons, List.foldlM_cons, t.shift_step c e]
    cases t.step e with
    | error err => rfl
    | ok t' => exact ih t'

theorem Tracker.shift_metrics (t : Tracker) : (t.shift c).metrics = t.metrics.shift c := by
  obtain ⟨_, _, recoveries, _, _, _⟩ := t
  cases recoveries <;> rfl

/-- The metrics of a shifted log are the shifted metrics, or the same error. -/
theorem calculateRecoveryMetrics_shift (events : List ApplicationLogEvent) :
    calculateRecoveryMetrics (events.map (·.shift c)) =
      (calculateRecoveryMetrics events).map (·.shift c) := by
  have hrun : (events.map (·.shift c)).foldlM Tracker.step {} =
      (events.foldlM Tracker.step {}).map (·.shift c) := foldlM_shift c events {}
  rw [calculateRecoveryMetrics, calculateRecoveryMetrics, hrun]
  cases events.foldlM Tracker.step {} with
  | error err => rfl
  | ok t => exact congrArg Except.ok (t.shift_metrics c)

/-! ## The evaluators -/

theorem evaluateEventAssertion_shift (events : List ApplicationLogEvent) (definition : PyDict) :
    evaluateEventAssertion (events.map (·.shift c)) definition =
      evaluateEventAssertion events definition := by
  have hobserved : ∀ (event : PyStr) (within : Option Int),
      ((events.map (·.shift c)).countP fun item => item.event = event && within.all fun ms =>
        ((events.map (·.shift c)).head?.map (·.timestampMs)).any fun origin =>
          item.timestampMs - origin ≤ ms) =
      events.countP fun item => item.event = event && within.all fun ms =>
        (events.head?.map (·.timestampMs)).any fun origin => item.timestampMs - origin ≤ ms := by
    intro event within
    rw [List.countP_map]
    apply List.countP_congr
    intro e _
    cases events with
    | nil => simp [ApplicationLogEvent.shift]
    | cons first rest =>
      have hdiff : ∀ ms : Int, e.timestampMs + c - (first.timestampMs + c) ≤ ms ↔
          e.timestampMs - first.timestampMs ≤ ms := by
        intro ms
        omega
      simp only [Function.comp_apply, ApplicationLogEvent.shift, List.map_cons, List.head?_cons,
        Option.map_some, Option.any_some, hdiff]
  simp only [evaluateEventAssertion, hobserved]

theorem evaluateRecoveryLatency_shift (m : RecoveryMetrics) (maximum : PyValue) :
    evaluateRecoveryLatency (m.shift c) maximum = evaluateRecoveryLatency m maximum := by
  have hlatencies : ((m.shift c).recoveries.map (·.recoveryLatencyMs)) =
      m.recoveries.map (·.recoveryLatencyMs) := by
    rw [RecoveryMetrics.shift, List.map_map]
    rfl
  rw [evaluateRecoveryLatency, evaluateRecoveryLatency, hlatencies]

theorem disconnected_shift (events : List ApplicationLogEvent) :
    disconnected (events.map (·.shift c)) = disconnected events := by
  rw [disconnected, disconnected, List.any_map]
  rfl

end Metrics

end VDevLab.Analysis

namespace VDevLab.Report

open Analysis Check PyStr Runner

/-! ## The report -/

/-- The times on the monotonic clock; those since the start of the run stay. -/
def shiftRecord (c : Nat) (d : DispatchRecord) : DispatchRecord :=
  { d with
    monotonicStartedMs := d.monotonicStartedMs + c
    monotonicFinishedMs := d.monotonicFinishedMs + c }

def shiftResult (c : Nat) (result : ScenarioRunResult) : ScenarioRunResult :=
  { result with dispatches := result.dispatches.map (shiftRecord c) }

def TimelineEntry.shift (c : Nat) : TimelineEntry → TimelineEntry
  | .scenario event timestampMs eventIndex scheduledMs durationMs details =>
      .scenario event (timestampMs + c) eventIndex scheduledMs durationMs details
  | .application event timestampMs line details =>
      .application event (timestampMs + c) line details

/-- The absolute times of the observations; latencies, counts and the times
between fault, error and recovery stay. -/
def Observations.shift (c : Nat) (o : Observations) : Observations :=
  { o with
    faultInjectionTimestampMs := o.faultInjectionTimestampMs.map (· + c)
    firstErrorTimestampMs := o.firstErrorTimestampMs.map (· + c)
    recoveryTimestampMs := o.recoveryTimestampMs.map (· + c)
    recoveries := o.recoveries.map (·.shift c) }

def ScenarioReport.shift (c : Nat) (report : ScenarioReport) : ScenarioReport :=
  { report with
    observations := report.observations.map (·.shift c)
    timeline := report.timeline.map (·.shift c) }

section Shift

variable (c : Nat) (sd : ScenarioDefinition) (result : ScenarioRunResult)
  (events : List ApplicationLogEvent) (m : RecoveryMetrics)

theorem typedDocuments_shift (definition : PyDict) :
    typedDocuments (events.map (·.shift c)) (shiftResult c result) definition =
      typedDocuments events result definition := by
  simp only [typedDocuments, evaluateDisconnect, disconnected_shift]
  rfl

theorem latencyDocuments_shift (definition : PyDict) :
    latencyDocuments (m.shift c) definition = latencyDocuments m definition := by
  simp only [latencyDocuments, evaluateRecoveryLatency_shift]

/-- No assertion depends on the origin. -/
theorem assertionDocuments_shift :
    assertionDocuments sd (shiftResult c result) (events.map (·.shift c)) (m.shift c) =
      assertionDocuments sd result events m := by
  have hcounts : eventDocuments (events.map (·.shift c)) sd.assertions =
      eventDocuments events sd.assertions := by
    simp only [eventDocuments, evaluateEventAssertions, funext (evaluateEventAssertion_shift c events)]
  have htyped : typedDocuments (events.map (·.shift c)) (shiftResult c result) =
      typedDocuments events result := funext (typedDocuments_shift c result events)
  have hlatency : latencyDocuments (m.shift c) = latencyDocuments m :=
    funext (latencyDocuments_shift c m)
  rw [assertionDocuments, assertionDocuments, hcounts, htyped, hlatency]
  rfl

/-! ## Timestamps -/

theorem truncate_add {x : ℚ} (h : 0 ≤ x) : truncate (x + c) = truncate x + c := by
  rw [truncate_of_nonneg h, truncate_of_nonneg (by positivity), Int.floor_add_natCast]

theorem dispatchEntry_shift {d : DispatchRecord} (h : 0 ≤ d.monotonicStartedMs) :
    dispatchEntry sd (shiftRecord c d) = (dispatchEntry sd d).map (·.shift c) := by
  simp only [dispatchEntry, shiftRecord, truncate_add c h]
  cases eventAt sd d.index <;> rfl

theorem dispatchTimeline_shift {dispatches : List DispatchRecord}
    (h : ∀ d ∈ dispatches, 0 ≤ d.monotonicStartedMs) :
    dispatchTimeline sd (dispatches.map (shiftRecord c)) =
      (dispatchTimeline sd dispatches).map (List.map (·.shift c)) :=
  mapM_map_map fun d hd => dispatchEntry_shift c sd (h d hd)

theorem firstFaultTimestamp_shift {dispatches : List DispatchRecord}
    (h : ∀ d ∈ dispatches, 0 ≤ d.monotonicStartedMs) :
    firstFaultTimestamp sd (dispatches.map (shiftRecord c)) =
      (firstFaultTimestamp sd dispatches).map (Option.map (· + (c : Int))) := by
  induction dispatches with
  | nil => rfl
  | cons d rest ih =>
    obtain ⟨hd, hrest⟩ := List.forall_mem_cons.mp h
    simp only [List.map_cons, firstFaultTimestamp, shiftRecord, truncate_add c hd]
    cases eventAt sd d.index with
    | error e => rfl
    | ok definition =>
      simp only [ok_bind]
      split
      · rfl
      · exact ih hrest

theorem causalDuration_shift (endMs startMs : Option Int) :
    causalDuration (endMs.map (· + (c : Int))) (startMs.map (· + (c : Int))) =
      causalDuration endMs startMs := by
  cases endMs with
  | none => rfl
  | some e =>
    cases startMs with
    | none => rfl
    | some s =>
      show some (e + c - (s + c)) = some (e - s)
      rw [add_sub_add_right_eq_sub]

/-- The differences in the observations stay. -/
theorem observe_shift (t : Option Int) :
    observe (m.shift c) (events.map (·.shift c)) (t.map (· + (c : Int))) (shiftResult c result) =
      (observe m events t result).shift c := by
  simp only [observe, Observations.shift, RecoveryMetrics.shift, causalDuration_shift,
    disconnected_shift, shiftResult]
  rfl

theorem TimelineEntry.shift_timestampMs (e : TimelineEntry) :
    (e.shift c).timestampMs = e.timestampMs + c := by
  cases e <;> rfl

theorem entryLe_shift (a b : TimelineEntry) :
    entryLe (a.shift c) (b.shift c) ↔ entryLe a b := by
  have hrank : ∀ e : TimelineEntry, (e.shift c).rank = e.rank := by
    intro e
    cases e <;> rfl
  simp [entryLe, Merge.Le, TimelineEntry.shift_timestampMs, hrank]

/-- The order of the timeline stays, as long as both are sorted by exact keys. -/
theorem sortedTimeline_shift {entries : List TimelineEntry}
    (h : ∀ e ∈ entries, e.timestampMs.natAbs < 2 ^ 53)
    (hshifted : ∀ e ∈ entries, (e.timestampMs + c).natAbs < 2 ^ 53) :
    sortedTimeline (entries.map (·.shift c)) = (sortedTimeline entries).map (List.map (·.shift c)) := by
  have hentries : ∀ e ∈ entries.map (·.shift c), e.timestampMs.natAbs < 2 ^ 53 := by
    rw [List.forall_mem_map]
    intro e he
    rw [e.shift_timestampMs]
    exact hshifted e he
  rw [sortedTimeline_exact h, sortedTimeline_exact hentries,
    ← List.map_insertionSort entryLe entryLe (·.shift c) entries
      (fun a _ b _ => (entryLe_shift c a b).symm)]
  rfl

theorem applicationTimeline_shift :
    applicationTimeline (events.map (·.shift c)) =
      (applicationTimeline events).map (·.shift c) := by
  simp only [applicationTimeline, List.map_map]
  rfl

/-- The report of a shifted run is the shifted report. -/
theorem analysedReport_shift {entries : List TimelineEntry}
    (hfault : firstFaultTimestamp sd (shiftResult c result).dispatches =
      (firstFaultTimestamp sd result.dispatches).map (Option.map (· + (c : Int))))
    (hsorted : sortedTimeline ((entries ++ applicationTimeline events).map (·.shift c)) =
      (sortedTimeline (entries ++ applicationTimeline events)).map (List.map (·.shift c))) :
    analysedReport sd (shiftResult c result) (entries.map (·.shift c)) (events.map (·.shift c))
        (m.shift c) = (analysedReport sd result entries events m).map (·.shift c) := by
  have hjudge : ∀ documents, judge sd (shiftResult c result) documents =
      judge sd result documents := fun _ => rfl
  rw [List.map_append] at hsorted
  simp only [analysedReport, assertionDocuments_shift, hfault, applicationTimeline_shift, hsorted,
    hjudge]
  cases assertionDocuments sd result events m with
  | error e => rfl
  | ok documents =>
    cases firstFaultTimestamp sd result.dispatches with
    | error e => rfl
    | ok t =>
      simp only [Except.map, ok_bind, observe_shift]
      cases sortedTimeline (entries ++ applicationTimeline events) <;> rfl

end Shift

/-! ## The law -/

/-- The dispatches are on the side of zero where a monotonic clock is. -/
def StartsNonneg (result : ScenarioRunResult) : Prop :=
  ∀ d ∈ result.dispatches, 0 ≤ d.monotonicStartedMs

/-- All timestamps are below `2^53`, before and after the shift. -/
def BelowExact (c : Nat) (result : ScenarioRunResult) (events : List ApplicationLogEvent) : Prop :=
  (∀ d ∈ result.dispatches, d.monotonicStartedMs + c < 2 ^ 53) ∧
  ∀ e ∈ events, -2 ^ 53 < e.timestampMs ∧ e.timestampMs + c < 2 ^ 53

/-- What a shift by `c` does to the analysis and to the report. -/
structure OriginFree (c : Nat) (sd : ScenarioDefinition) (result : ScenarioRunResult)
    (events : List ApplicationLogEvent) : Prop where
  metrics : calculateRecoveryMetrics (events.map (·.shift c)) =
    (calculateRecoveryMetrics events).map (·.shift c)
  assertions : ∀ m,
    assertionDocuments sd (shiftResult c result) (events.map (·.shift c)) (m.shift c) =
      assertionDocuments sd result events m
  observations : ∀ m t,
    observe (m.shift c) (events.map (·.shift c)) (t.map (· + (c : Int))) (shiftResult c result) =
      (observe m events t result).shift c
  faultTimestamp : StartsNonneg result →
    firstFaultTimestamp sd (shiftResult c result).dispatches =
      (firstFaultTimestamp sd result.dispatches).map (Option.map (· + (c : Int)))
  dispatches : StartsNonneg result →
    dispatchTimeline sd (shiftResult c result).dispatches =
      (dispatchTimeline sd result.dispatches).map (List.map (·.shift c))
  report : StartsNonneg result → BelowExact c result events → ∀ m entries,
    dispatchTimeline sd result.dispatches = .ok entries →
    analysedReport sd (shiftResult c result) (entries.map (·.shift c)) (events.map (·.shift c))
        (m.shift c) = (analysedReport sd result entries events m).map (·.shift c)

/-- **Verdicts do not depend on the clock origin.** -/
theorem clock_origin_free (c : Nat) (sd : ScenarioDefinition) (result : ScenarioRunResult)
    (events : List ApplicationLogEvent) : OriginFree c sd result events := by
  refine ⟨calculateRecoveryMetrics_shift c events, assertionDocuments_shift c sd result events,
    observe_shift c result events, fun h => firstFaultTimestamp_shift c sd h,
    fun h => dispatchTimeline_shift c sd h, ?_⟩
  intro hnonneg hbelow m entries hentries
  apply analysedReport_shift c sd result events m (firstFaultTimestamp_shift c sd hnonneg)
  have hdispatched : ∀ e ∈ entries, 0 ≤ e.timestampMs ∧ e.timestampMs + c < 2 ^ 53 := by
    intro e he
    obtain ⟨d, hd, hentry⟩ := mem_of_mapM hentries he
    have hlow := hnonneg d hd
    have hhigh := hbelow.1 d hd
    rw [(dispatchEntry_isScenario hentry).2.1]
    constructor
    · rw [truncate_of_nonneg hlow]
      exact Int.floor_nonneg.mpr hlow
    · rw [← truncate_add c hlow, truncate_of_nonneg (by positivity), Int.floor_lt]
      exact_mod_cast hhigh
  have hlogged : ∀ e ∈ applicationTimeline events,
      -2 ^ 53 < e.timestampMs ∧ e.timestampMs + c < 2 ^ 53 := by
    intro e he
    obtain ⟨event, hevent, rfl⟩ := List.mem_map.mp he
    exact hbelow.2 event hevent
  have hall : ∀ e ∈ entries ++ applicationTimeline events,
      -2 ^ 53 < e.timestampMs ∧ e.timestampMs + c < 2 ^ 53 := by
    rw [List.forall_mem_append]
    refine ⟨?_, hlogged⟩
    intro e he
    have := hdispatched e he
    omega
  apply sortedTimeline_shift
  · intro e he
    have := hall e he
    omega
  · intro e he
    have := hall e he
    omega

/-- The disconnection, observed a second later on the clock. -/
theorem clock_origin_free_disconnect : ∃ entries,
    dispatchTimeline disconnectDefinition disconnectRun.dispatches = .ok entries ∧
    ∀ m, analysedReport disconnectDefinition (shiftResult 1000 disconnectRun)
        (entries.map (·.shift 1000)) [⟨1, 1101, py "DEVICE_DISCONNECTED", []⟩] (m.shift 1000) =
      (analysedReport disconnectDefinition disconnectRun entries
        [⟨1, 101, py "DEVICE_DISCONNECTED", []⟩] m).map (·.shift 1000) := by
  refine ⟨_, rfl, ?_⟩
  intro m
  refine (clock_origin_free 1000 disconnectDefinition disconnectRun
    [⟨1, 101, py "DEVICE_DISCONNECTED", []⟩]).report ?_ ?_ m _ rfl
  · intro d hd
    cases List.mem_singleton.mp hd
    norm_num
  · constructor
    · intro d hd
      cases List.mem_singleton.mp hd
      norm_num
    · intro e he
      cases List.mem_singleton.mp he
      norm_num

/-- A run with its dispatch at the given moment. -/
def dispatchedAt (monotonicMs : ℚ) : ScenarioRunResult :=
  { disconnectRun with dispatches := [⟨0, py "fault", 100, 100, 100, monotonicMs, monotonicMs⟩] }

/-- The sources of the timeline entries, in order, of a run with one event in
its log. -/
def sourcesOf (result : ScenarioRunResult) (timestampMs : Int) : Option (List Bool) :=
  ((dispatchTimeline disconnectDefinition result.dispatches).toOption.bind fun entries =>
    (sortedTimeline (entries ++ applicationTimeline
      [⟨1, timestampMs, py "DEVICE_DISCONNECTED", []⟩])).toOption).map (·.map (·.isScenario))

/-- Beyond `2^53` two floats can tie before the shift and not after it, and
half a millisecond before zero the cut goes the other way. -/
theorem origin_matters :
    (sourcesOf (dispatchedAt 9007199254740996) 9007199254740995 = some [true, false] ∧
      sourcesOf (shiftResult 2 (dispatchedAt 9007199254740996)) (9007199254740995 + 2) =
        some [false, true]) ∧
    truncate (-1 / 2 + (1 : Nat)) ≠ truncate (-1 / 2) + (1 : Nat) := by
  decide +kernel

end VDevLab.Report
