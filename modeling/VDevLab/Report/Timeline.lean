import VDevLab.Lib.Merge
import VDevLab.Runner.Clock
import VDevLab.Report.Total

/-!
# The timeline is a merge

Dispatch times are floats that are cut to whole milliseconds, log timestamps
are integers; the entries of both are sorted by `float(timestamp_ms)` and then
by source. As long as the timestamps are below `2^53` the floats are the
integers, and the stable sort merges the two streams without touching the
order of either.
-/

namespace VDevLab.Report

open Analysis Check PyStr Runner

/-! ## The sort -/

/-- The order of the entries when the keys are exact. -/
abbrev entryLe : TimelineEntry → TimelineEntry → Prop :=
  Merge.Le TimelineEntry.timestampMs TimelineEntry.rank

theorem floatKey_exact {n : Int} (h : n.natAbs < 2 ^ 53) : floatKey n = .ok (n : ℚ) := by
  obtain ⟨hfin, hval⟩ := Binary64.ofInt_exact h
  rw [floatKey, if_pos hfin, hval]

/-- Below `2^53` the sort is one of the timestamps themselves. -/
theorem sortedTimeline_exact {entries : List TimelineEntry}
    (h : ∀ e ∈ entries, e.timestampMs.natAbs < 2 ^ 53) :
    sortedTimeline entries = .ok (entries.insertionSort entryLe) := by
  have hkeyed : entries.mapM withKey =
      .ok (entries.map fun e => ((e.timestampMs : ℚ), e)) := by
    apply mapM_eq_map
    intro e he
    rw [withKey, floatKey_exact (h e he)]
    rfl
  rw [sortedTimeline, hkeyed]
  show Except.ok _ = Except.ok _
  rw [← List.map_insertionSort entryLe (fun a b => keyLe a b) (fun e => ((e.timestampMs : ℚ), e))]
  · rw [List.map_map]
    exact congrArg _ (List.map_id _)
  · intro a _ b _
    simp [keyLe, entryLe, Merge.Le]

/-! ## Entries -/

def TimelineEntry.isScenario : TimelineEntry → Bool
  | .scenario .. => true
  | .application .. => false

/-- A `FAULT_INJECTED` entry of the scenario. -/
def TimelineEntry.isFault : TimelineEntry → Bool
  | .scenario .faultInjected .. => true
  | _ => false

def TimelineEntry.details : TimelineEntry → PyDict
  | .scenario _ _ _ _ _ details => details
  | .application _ _ _ details => details

/-- The fields of an event that are not in the entry itself. -/
def eventDetails (definition : PyDict) : PyDict :=
  definition.filter fun kv => !(kv.1.eqStr (py "action") || kv.1.eqStr (py "at_ms"))

/-- What the timeline of a report is. -/
structure CausalTimeline (sd : ScenarioDefinition) (dispatches : List DispatchRecord)
    (events : List ApplicationLogEvent) (report : ScenarioReport) : Prop where
  /-- None is lost or duplicated. -/
  perm : ∃ entries, dispatchTimeline sd dispatches = .ok entries ∧
    report.timeline.Perm (entries ++ applicationTimeline events)
  ordered : report.timeline.Pairwise fun a b => a.timestampMs ≤ b.timestampMs
  /-- The entries of each source stand in their own order. -/
  scenarioOrder : dispatchTimeline sd dispatches = .ok (report.timeline.filter (·.isScenario))
  applicationOrder : report.timeline.filter (!·.isScenario) = applicationTimeline events
  before : ∀ (i j : Nat) (a b : TimelineEntry), report.timeline[i]? = some a → report.timeline[j]? = some b →
    a.isScenario = true → b.isScenario = false → (i < j ↔ a.timestampMs ≤ b.timestampMs)
  /-- The dispatch entry at place `k` is about event `k`. -/
  details : ∀ (k : Nat) (entry : TimelineEntry), (report.timeline.filter (·.isScenario))[k]? = some entry →
    ∃ definition, sd.events[k]? = some definition ∧ entry.details = eventDetails definition
  faultTimestamp : ∃ observations, report.observations = some observations ∧
    observations.faultInjectionTimestampMs =
      (report.timeline.find? (·.isFault)).map (·.timestampMs)

section Merge

variable {sd : ScenarioDefinition} {dispatches : List DispatchRecord} {entries : List TimelineEntry}
  {events : List ApplicationLogEvent}

theorem rank_eq (e : TimelineEntry) : e.rank = if e.isScenario then 0 else 1 := by
  cases e <;> rfl

theorem dispatchEntry_isScenario {d : DispatchRecord} {e : TimelineEntry}
    (h : dispatchEntry sd d = .ok e) :
    e.isScenario = true ∧ e.timestampMs = truncate d.monotonicStartedMs ∧
      ∃ definition, sd.events[d.index]? = some definition ∧ e.details = eventDetails definition ∧
        e.isFault = decide (d.action = py "fault") := by
  simp only [dispatchEntry, bind_eq_ok, pure_eq_ok] at h
  obtain ⟨definition, hdef, rfl⟩ := h
  refine ⟨rfl, rfl, definition, ?_, rfl, ?_⟩
  · unfold eventAt at hdef
    split at hdef
    · next hget =>
      cases hdef
      exact hget
    · cases hdef
  · by_cases hfault : d.action = py "fault" <;> simp [TimelineEntry.isFault, hfault]

theorem entries_isScenario (hentries : dispatchTimeline sd dispatches = .ok entries) :
    ∀ e ∈ entries, e.isScenario = true := by
  intro e he
  obtain ⟨d, -, hd⟩ := mem_of_mapM hentries he
  exact (dispatchEntry_isScenario hd).1

theorem applicationTimeline_isScenario : ∀ e ∈ applicationTimeline events, e.isScenario = false := by
  intro e he
  obtain ⟨event, -, rfl⟩ := List.mem_map.mp he
  rfl

theorem filter_scenario (hentries : dispatchTimeline sd dispatches = .ok entries) :
    (entries ++ applicationTimeline events).filter (·.isScenario) = entries := by
  rw [List.filter_append, List.filter_eq_self.mpr (entries_isScenario hentries),
    List.filter_eq_nil_iff.mpr, List.append_nil]
  intro e he
  simp [applicationTimeline_isScenario e he]

theorem filter_application (hentries : dispatchTimeline sd dispatches = .ok entries) :
    (entries ++ applicationTimeline events).filter (!·.isScenario) = applicationTimeline events := by
  rw [List.filter_append, List.filter_eq_nil_iff.mpr, List.filter_eq_self.mpr, List.nil_append]
  · intro e he
    simp [applicationTimeline_isScenario e he]
  · intro e he
    simp [entries_isScenario hentries e he]

/-- The dispatch entries of a monotone clock are in order. -/
theorem entries_ordered (hentries : dispatchTimeline sd dispatches = .ok entries)
    (hordered : dispatches.Pairwise fun a b => a.monotonicStartedMs ≤ b.monotonicStartedMs) :
    entries.Pairwise entryLe := by
  have hall := mapM_forall₂ hentries
  clear hentries
  induction hall with
  | nil => exact .nil
  | @cons d e ds es hde hrest ih =>
    obtain ⟨hfirst, hordered⟩ := List.pairwise_cons.mp hordered
    refine .cons ?_ (ih hordered)
    intro e' he'
    obtain ⟨d', hd', hde'⟩ : ∃ d' ∈ ds, dispatchEntry sd d' = .ok e' := by
      obtain ⟨i, hi, rfl⟩ := List.mem_iff_getElem.mp he'
      have hlen := hrest.length_eq
      exact ⟨ds[i], List.getElem_mem _, (List.forall₂_iff_get.mp hrest).2 i (by omega) hi⟩
    obtain ⟨hs, ht, -⟩ := dispatchEntry_isScenario hde
    obtain ⟨hs', ht', -⟩ := dispatchEntry_isScenario hde'
    apply Merge.le_of_key_le
    · rw [ht, ht']
      exact truncate_mono (hfirst d' hd')
    · rw [rank_eq, rank_eq, hs, hs']

theorem applicationTimeline_ordered
    (hordered : events.Pairwise fun a b => a.timestampMs ≤ b.timestampMs) :
    (applicationTimeline events).Pairwise entryLe := by
  apply List.pairwise_map.mpr
  refine hordered.imp ?_
  intro a b h
  exact Merge.le_of_key_le h rfl

end Merge

/-! ## The first fault -/

/-- An event that was dispatched is a fault iff its action reads so. -/
theorem actionText_fault {event : PyDict} {c : BackendCall} (str : PyValue → PyStr)
    (h : dispatch event = .ok c) :
    (getOrNone event "action").eqStr (py "fault") = decide (actionText str event = py "fault") := by
  unfold getOrNone actionText
  cases hget : event.get? (py "action") with
  | none =>
    simp only [dispatch, hget] at h
    cases h
  | some value =>
    cases value with
    | str action => rfl
    | _ =>
      simp only [dispatch, hget] at h
      cases h

theorem firstFaultTimestamp_eq {sd : ScenarioDefinition} {dispatches : List DispatchRecord}
    {entries : List TimelineEntry} (hentries : dispatchTimeline sd dispatches = .ok entries)
    (haction : ∀ d ∈ dispatches, ∀ definition, sd.events[d.index]? = some definition →
      (getOrNone definition "action").eqStr (py "fault") = decide (d.action = py "fault")) :
    firstFaultTimestamp sd dispatches = .ok ((entries.find? (·.isFault)).map (·.timestampMs)) := by
  have hall := mapM_forall₂ hentries
  clear hentries
  induction hall with
  | nil => rfl
  | @cons d e ds es hde hrest ih =>
    obtain ⟨hfirst, haction⟩ := List.forall_mem_cons.mp haction
    obtain ⟨-, htime, definition, hdef, -, hfault⟩ := dispatchEntry_isScenario hde
    have heventAt : eventAt sd d.index = .ok definition := by rw [eventAt, hdef]
    simp only [firstFaultTimestamp, heventAt, ok_bind, hfirst definition hdef, ← hfault]
    cases hf : e.isFault with
    | true =>
      rw [if_pos rfl, List.find?_cons_of_pos hf, ← htime]
      rfl
    | false =>
      rw [if_neg (by decide), ih haction, List.find?_cons_of_neg (by simp [hf])]

/-! ## The merge -/

section Report

variable {lim : IntLimit} {sd : ScenarioDefinition} {result : ScenarioRunResult}
  {events : List ApplicationLogEvent} {m : RecoveryMetrics} {report : ScenarioReport}

/-- A report with a valid log and what its timeline is sorted from. -/
theorem buildScenarioReport_timeline (h : buildScenarioReport lim sd result = .ok report)
    (hlog : analyse lim result.application.stdout = .ok (events, m)) :
    ∃ entries t, dispatchTimeline sd result.dispatches = .ok entries ∧
      firstFaultTimestamp sd result.dispatches = .ok t ∧
      sortedTimeline (entries ++ applicationTimeline events) = .ok report.timeline ∧
      report.observations = some (observe m events t result) := by
  simp only [buildScenarioReport, bind_eq_ok, hlog] at h
  obtain ⟨entries, hentries, h⟩ := h
  simp only [analysedReport, bind_eq_ok, pure_eq_ok] at h
  obtain ⟨documents, -, t, ht, timeline, htimeline, rfl⟩ := h
  exact ⟨entries, t, hentries, ht, htimeline, rfl⟩

end Report

section Law

variable {ε : Type} {units : Milliseconds} {str : PyValue → PyStr} {isException : ε → Bool}
  {origin : ℚ} {turns : List (Turn ε)} {sd : ScenarioDefinition}

/-- The dispatch entry at place `k` carries the details of event `k`. -/
theorem entries_details {dispatches : List DispatchRecord} {entries : List TimelineEntry}
    (hrun : recordEvents units str isException origin 0 sd.events turns = some (.ok dispatches))
    (hentries : dispatchTimeline sd dispatches = .ok entries) (k : Nat) (entry : TimelineEntry)
    (hk : entries[k]? = some entry) :
    ∃ definition, sd.events[k]? = some definition ∧ entry.details = eventDetails definition := by
  obtain ⟨hlen, hget⟩ := List.forall₂_iff_get.mp (mapM_forall₂ hentries)
  obtain ⟨hk', rfl⟩ := List.getElem?_eq_some_iff.mp hk
  have hkd : k < dispatches.length := by omega
  obtain ⟨_, _, -, -, hrecord⟩ := (recordEvents_eq_ok hrun).2 k dispatches[k]
    (List.getElem?_eq_getElem hkd)
  obtain ⟨-, -, definition, hdef, hdetails, -⟩ := dispatchEntry_isScenario (hget k hkd hk')
  simp only [List.get_eq_getElem] at hdef hdetails
  rw [hrecord.index, Nat.zero_add] at hdef
  exact ⟨definition, hdef, hdetails⟩

theorem records_action {dispatches : List DispatchRecord}
    (hrun : recordEvents units str isException origin 0 sd.events turns = some (.ok dispatches)) :
    ∀ d ∈ dispatches, ∀ definition, sd.events[d.index]? = some definition →
      (getOrNone definition "action").eqStr (py "fault") = decide (d.action = py "fault") := by
  intro d hd definition hdef
  obtain ⟨k, hk, rfl⟩ := List.mem_iff_getElem.mp hd
  obtain ⟨event, _, hevent, -, hrecord⟩ := (recordEvents_eq_ok hrun).2 k dispatches[k]
    (List.getElem?_eq_getElem hk)
  rw [hrecord.index, Nat.zero_add] at hdef
  cases hevent.symm.trans hdef
  obtain ⟨c, hc⟩ := hrecord.dispatched
  rw [hrecord.action]
  exact actionText_fault str hc

theorem records_index {dispatches : List DispatchRecord}
    (hrun : recordEvents units str isException origin 0 sd.events turns = some (.ok dispatches)) :
    ∀ d ∈ dispatches, d.index < sd.events.length := by
  intro d hd
  obtain ⟨k, hk, rfl⟩ := List.mem_iff_getElem.mp hd
  obtain ⟨hlen, hrecords⟩ := recordEvents_eq_ok hrun
  obtain ⟨_, _, -, -, hrecord⟩ := hrecords k dispatches[k] (List.getElem?_eq_getElem hk)
  rw [hrecord.index]
  omega

/-- Below `2^53` the timeline is the sorted one. -/
theorem timeline_small {dispatches : List DispatchRecord} {entries : List TimelineEntry}
    {events : List ApplicationLogEvent} (hentries : dispatchTimeline sd dispatches = .ok entries)
    (hdispatches : ∀ d ∈ dispatches, |d.monotonicStartedMs| < 2 ^ 53)
    (hnonneg : ∀ e ∈ events, 0 ≤ e.timestampMs) (hevents : ∀ e ∈ events, e.timestampMs < 2 ^ 53) :
    ∀ e ∈ entries ++ applicationTimeline events, e.timestampMs.natAbs < 2 ^ 53 := by
  rw [List.forall_mem_append]
  constructor
  · intro e he
    obtain ⟨d, hd, hentry⟩ := mem_of_mapM hentries he
    rw [(dispatchEntry_isScenario hentry).2.1]
    exact natAbs_truncate_lt (by exact_mod_cast hdispatches d hd)
  · intro e he
    obtain ⟨event, hevent, rfl⟩ := List.mem_map.mp he
    have hlow := hnonneg event hevent
    have hhigh := hevents event hevent
    show event.timestampMs.natAbs < 2 ^ 53
    omega

/-- **The timeline is a correct merge** of the dispatches of a monotone clock
with the events of a valid log. -/
theorem timeline_merge {lim : IntLimit} {result : ScenarioRunResult}
    {events : List ApplicationLogEvent} {m : RecoveryMetrics}
    (hunits : Monotone units.ofReading) (hclock : ClockMonotone origin turns)
    (hrun : recordEvents units str isException origin 0 sd.events turns =
      some (.ok result.dispatches))
    (hparse : parseApplicationLog lim result.application.stdout = .ok events)
    (hmetrics : calculateRecoveryMetrics events = .ok m)
    (hdispatches : ∀ d ∈ result.dispatches, |d.monotonicStartedMs| < 2 ^ 53)
    (hevents : ∀ e ∈ events, e.timestampMs < 2 ^ 53) :
    (∀ report, buildScenarioReport lim sd result = .ok report →
      CausalTimeline sd result.dispatches events report) ∧
    ∀ safeLoad text source, Scenario.parseScenario safeLoad lim text source = .ok sd →
      ∃ report, buildScenarioReport lim sd result = .ok report := by
  have hlog := analyse_eq_ok.mpr ⟨hparse, hmetrics⟩
  have hnonneg := parseLines_nonneg hparse
  constructor
  · intro report hreport
    obtain ⟨entries, t, hentries, ht, hsorted, hobs⟩ := buildScenarioReport_timeline hreport hlog
    have hsmall := timeline_small hentries hdispatches hnonneg hevents
    rw [sortedTimeline_exact hsmall] at hsorted
    have htimeline := Except.ok.inj hsorted
    have hpairs : report.timeline.Pairwise entryLe :=
      htimeline ▸ List.pairwise_insertionSort entryLe _
    -- each source is in order on its own, so the stable sort keeps it
    have hscenario : report.timeline.filter (·.isScenario) = entries := by
      rw [← htimeline, Merge.filter_insertionSort, filter_scenario hentries]
      rw [filter_scenario hentries]
      exact entries_ordered hentries (recordEvents_ordered hunits hclock hrun)
    have happlication : report.timeline.filter (!·.isScenario) = applicationTimeline events := by
      rw [← htimeline, Merge.filter_insertionSort, filter_application hentries]
      rw [filter_application hentries]
      exact applicationTimeline_ordered (parseLines_ordered hparse).1
    refine ⟨⟨entries, hentries, htimeline ▸ List.perm_insertionSort entryLe _⟩,
      hpairs.imp Merge.Le.key_le, by rw [hscenario, hentries], happlication, ?_, ?_, ?_⟩
    · intro i j a b ha hb hsa hsb
      refine Merge.before_iff hpairs ha hb ?_
      rw [rank_eq, rank_eq, hsa, hsb]
      decide
    · rw [hscenario]
      exact entries_details hrun hentries
    · refine ⟨_, hobs, ?_⟩
      have hfault : report.timeline.find? (·.isFault) = entries.find? (·.isFault) := by
        rw [← hscenario, List.find?_filter]
        congr 1
        funext e
        cases e <;> simp [TimelineEntry.isScenario, TimelineEntry.isFault]
      rw [firstFaultTimestamp_eq hentries (records_action hrun)] at ht
      rw [hfault]
      exact (Except.ok.inj ht).symm
  · intro safeLoad text source haccepted
    obtain ⟨sc, rfl⟩ := Scenario.parseScenario_definition haccepted
    obtain ⟨entries, hentries⟩ := dispatchTimeline_isOk (records_index hrun)
    have hsmall := timeline_small hentries hdispatches hnonneg hevents
    simp only [buildScenarioReport, hentries, hlog, ok_bind]
    rw [analysedReport_isOk_iff_sorted (records_index hrun)]
    exact ⟨_, sortedTimeline_exact hsmall⟩

end Law

/-- One event, at its deadline, on a clock that starts at zero. -/
def promptTurn : List (Turn Unit) := [⟨0, 1 / 10, 1 / 10, .ok ()⟩]

theorem promptTurn_monotone : ClockMonotone 0 promptTurn := by
  refine clockMonotone_cons le_rfl ?_ le_rfl (List.pairwise_singleton _ _)
  norm_num

theorem promptTurn_records (str : PyValue → PyStr) :
    recordEvents .exact str (fun _ => true) 0 0 disconnectDefinition.events promptTurn =
      some (.ok disconnectRun.dispatches) := by
  have hscheduled : scheduledMs (Event.dict ⟨⟨100, by decide⟩, .fault .disconnect⟩) 0 = .ok 100 := rfl
  have hdispatch : dispatch (Event.dict ⟨⟨100, by decide⟩, .fault .disconnect⟩)
      = .ok (.setFault { faultType := py "disconnect" }) := rfl
  have haction : actionText str (Event.dict ⟨⟨100, by decide⟩, .fault .disconnect⟩) = py "fault" := rfl
  simp only [disconnectDefinition, promptTurn, recordEvents, hscheduled, hdispatch, haction,
    Turn.record, Milliseconds.exact, Option.map_some, Except.map, disconnectRun]
  norm_num

/-- The run of the scenario with other output. -/
def printedRun (stdout : PyStr) : ScenarioRunResult :=
  { disconnectRun with application := { disconnectRun.application with stdout } }

/-- The timeline of the run with the fault and the disconnection. -/
theorem timeline_merge_disconnect : ∃ events report,
    buildScenarioReport defaultIntLimit disconnectDefinition disconnectRun = .ok report ∧
      CausalTimeline disconnectDefinition disconnectRun.dispatches events report := by
  have haccepted : Scenario.parseScenario (fun _ => .ok disconnectDocument) defaultIntLimit [] []
      = .ok disconnectDefinition := rfl
  have hlog : (analyse defaultIntLimit disconnectRun.application.stdout).toOption.map
      (fun p => p.1.all fun e => decide (e.timestampMs < 2 ^ 53)) = some true := by
    decide +kernel
  cases hanalyse : analyse defaultIntLimit disconnectRun.application.stdout with
  | error e =>
    rw [hanalyse] at hlog
    cases hlog
  | ok p =>
    obtain ⟨events, m⟩ := p
    rw [hanalyse] at hlog
    obtain ⟨hparse, hmetrics⟩ := analyse_eq_ok.mp hanalyse
    have hevents : ∀ e ∈ events, e.timestampMs < 2 ^ 53 := by
      intro e he
      exact of_decide_eq_true (List.all_eq_true.mp (Option.some.inj hlog) e he)
    have hdispatches : ∀ d ∈ disconnectRun.dispatches, |d.monotonicStartedMs| < 2 ^ 53 := by
      intro d hd
      cases List.mem_singleton.mp hd
      norm_num
    have hunits : Monotone Milliseconds.exact.ofReading := by
      intro x y h
      show x * 1000 ≤ y * 1000
      linarith
    obtain ⟨hcausal, hexists⟩ := timeline_merge hunits promptTurn_monotone
      (promptTurn_records fun _ => []) hparse hmetrics hdispatches hevents
    obtain ⟨report, hreport⟩ := hexists _ _ _ haccepted
    exact ⟨events, report, hreport, hcausal report hreport⟩

/-- An entry whose event reads `FAULT_INJECTED`, of either source. -/
def TimelineEntry.readsFaultInjected : TimelineEntry → Bool
  | .scenario .faultInjected .. => true
  | .scenario .. => false
  | .application event .. => event = py "FAULT_INJECTED"

/-- A log that the parser takes and the metrics refuse leaves no entry in the
timeline, and an application can print `FAULT_INJECTED` itself. -/
theorem timeline_without_log :
    ((parseApplicationLog defaultIntLimit
      (py "\x7b\"timestamp_ms\":101,\"event\":\"RECOVERY_SUCCESS\",\"retries\":0\x7d\n")).toOption.map
        List.length = some 1 ∧
      (buildScenarioReport defaultIntLimit disconnectDefinition (printedRun
        (py "\x7b\"timestamp_ms\":101,\"event\":\"RECOVERY_SUCCESS\",\"retries\":0\x7d\n"))).toOption.map
          (fun report => (report.timeline.map (·.isScenario), report.observations.isSome)) =
        some ([true], false)) ∧
    (buildScenarioReport defaultIntLimit disconnectDefinition (printedRun
      (py "\x7b\"timestamp_ms\":50,\"event\":\"FAULT_INJECTED\"\x7d\n"))).toOption.map
        (fun report => (report.observations.bind (·.faultInjectionTimestampMs),
          (report.timeline.find? (·.readsFaultInjected)).map (·.timestampMs))) =
      some (some 100, some 50) := by
  decide +kernel

end VDevLab.Report
