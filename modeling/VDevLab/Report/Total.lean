import Mathlib.Data.Rat.Floor
import VDevLab.Lib.Rounding
import VDevLab.Analysis.Windows
import VDevLab.Report.Verdict

/-!
# When `build_scenario_report` returns

On an accepted scenario the evaluators never raise, and an invalid log is an
error report. One step lies behind the handler and can still fail: the sort
key of the timeline is `float(timestamp_ms)`, and a timestamp that the log
parser takes can be too large for a float.
-/

namespace VDevLab.Report

open Analysis Check PyStr Runner

/-! ## Whole milliseconds -/

theorem truncate_of_nonneg {x : ℚ} (h : 0 ≤ x) : truncate x = ⌊x⌋ := by
  rw [truncate, Int.tdiv_eq_ediv_of_nonneg (Rat.num_nonneg.mpr h), Rat.floor_def']

theorem truncate_neg (x : ℚ) : truncate (-x) = -truncate x := by
  rw [truncate, truncate, Rat.num_neg_eq_neg_num, Rat.den_neg_eq_den, Int.neg_tdiv]

theorem truncate_mono {x y : ℚ} (h : x ≤ y) : truncate x ≤ truncate y := by
  rcases le_or_gt 0 x with hx | hx
  · rw [truncate_of_nonneg hx, truncate_of_nonneg (hx.trans h)]
    exact Int.floor_mono h
  · have hneg : truncate x = -⌊-x⌋ := by
      rw [← truncate_of_nonneg (by linarith), truncate_neg, neg_neg]
    rcases le_or_gt 0 y with hy | hy
    · have hx' : 0 ≤ ⌊-x⌋ := Int.floor_nonneg.mpr (by linarith)
      have hy' : 0 ≤ ⌊y⌋ := Int.floor_nonneg.mpr hy
      rw [hneg, truncate_of_nonneg hy]
      omega
    · have hneg' : truncate y = -⌊-y⌋ := by
        rw [← truncate_of_nonneg (by linarith), truncate_neg, neg_neg]
      have := Int.floor_mono (by linarith : -y ≤ -x)
      rw [hneg, hneg']
      omega

theorem natAbs_truncate_lt {x : ℚ} {n : Nat} (h : |x| < n) : (truncate x).natAbs < n := by
  have hnonneg : ∀ {z : ℚ}, 0 ≤ z → z < n → (truncate z).natAbs < n := by
    intro z hz hlt
    have h0 : 0 ≤ ⌊z⌋ := Int.floor_nonneg.mpr hz
    have hle : ((⌊z⌋ : Int) : ℚ) < (n : Int) := (Int.floor_le z).trans_lt (by exact_mod_cast hlt)
    have := Int.cast_lt.mp hle
    rw [truncate_of_nonneg hz]
    omega
  rcases le_or_gt 0 x with hx | hx
  · exact hnonneg hx (by rwa [abs_of_nonneg hx] at h)
  · have := hnonneg (z := -x) (by linarith) (by rwa [abs_of_neg hx] at h)
    rwa [truncate_neg, Int.natAbs_neg] at this

/-! ## Keys -/

/-- Sorting fails iff some timestamp has no float. -/
theorem sortedTimeline_isOk {entries : List TimelineEntry} :
    (∃ timeline, sortedTimeline entries = .ok timeline) ↔
      ∀ e ∈ entries, e.timestampMs.natAbs < 2 ^ 1024 - 2 ^ 970 := by
  have hkey : ∀ e : TimelineEntry, (∃ p, withKey e = .ok p) ↔
      e.timestampMs.natAbs < 2 ^ 1024 - 2 ^ 970 := by
    intro e
    rw [← Binary64.ofInt_isFinite_iff]
    simp only [withKey, floatKey, bind_eq_ok, pure_eq_ok]
    constructor
    · intro h
      obtain ⟨_, q, hq, -⟩ := h
      by_contra hinf
      rw [if_neg hinf] at hq
      cases hq
    · intro hfin
      exact ⟨_, _, if_pos hfin, rfl⟩
  simp only [← hkey, ← mapM_isOk, sortedTimeline, bind_eq_ok, pure_eq_ok]
  constructor
  · intro h
    obtain ⟨_, keyed, h, -⟩ := h
    exact ⟨keyed, h⟩
  · intro h
    obtain ⟨keyed, h⟩ := h
    exact ⟨_, keyed, h, rfl⟩

/-! ## The records of a run -/

/-- A value of a Python `float` that is a number. -/
def IsFloat (q : ℚ) : Prop := ∃ x : Binary64, x.isFinite = true ∧ x.toRat = q

/-- The largest double is below every integer without a float. -/
theorem IsFloat.abs_lt {q : ℚ} (h : IsFloat q) : |q| < (2 ^ 1024 - 2 ^ 970 : Nat) := by
  obtain ⟨x, hfin, rfl⟩ := h
  cases x with
  | nan => cases hfin
  | inf neg => cases hfin
  | finite neg mant exp hc =>
    have hmant := hc.1
    have hexp := hc.2.2.1
    have habs : |(Binary64.finite neg mant exp hc).toRat| = mant * (2 : ℚ) ^ exp := by
      rw [Binary64.toRat, abs_mul, abs_mul, abs_of_pos (by positivity : (0 : ℚ) < 2 ^ exp),
        Nat.abs_cast]
      cases neg <;> simp
    have hmant' : (mant : ℚ) ≤ ((2 ^ 53 - 1 : Nat) : ℚ) := by
      exact_mod_cast (by omega : mant ≤ 2 ^ 53 - 1)
    have hexp' : (2 : ℚ) ^ exp ≤ 2 ^ (971 : Int) :=
      zpow_le_zpow_right₀ (by norm_num) hexp
    have hlt : ((2 ^ 53 - 1 : Nat) : ℚ) * 2 ^ (971 : Int) < (2 ^ 1024 - 2 ^ 970 : Nat) := by
      have hnat : (2 ^ 53 - 1) * 2 ^ 971 < 2 ^ 1024 - 2 ^ 970 := by decide +kernel
      rw [show (971 : Int) = ((971 : Nat) : Int) by rfl, zpow_natCast]
      exact_mod_cast hnat
    rw [habs]
    exact (mul_le_mul hmant' hexp' (by positivity) (by positivity)).trans_lt hlt

/-- What every run of the scenario records: dispatches of its events, at times
that are floats. -/
structure RecordsFor (sd : ScenarioDefinition) (dispatches : List DispatchRecord) : Prop where
  index : ∀ d ∈ dispatches, d.index < sd.events.length
  time : ∀ d ∈ dispatches, IsFloat d.monotonicStartedMs

section Dispatches

variable {sd : ScenarioDefinition} {dispatches : List DispatchRecord}

theorem eventAt_isOk {index : Nat} (h : index < sd.events.length) :
    eventAt sd index = .ok sd.events[index] := by
  rw [eventAt, List.getElem?_eq_getElem h]

theorem dispatchEntry_eq {d : DispatchRecord} (h : d.index < sd.events.length) :
    ∃ event duration details, dispatchEntry sd d =
      .ok (.scenario event (truncate d.monotonicStartedMs) d.index d.scheduledMs duration
        details) := by
  rw [dispatchEntry, eventAt_isOk h]
  exact ⟨_, _, _, rfl⟩

theorem dispatchTimeline_isOk (h : ∀ d ∈ dispatches, d.index < sd.events.length) :
    ∃ entries, dispatchTimeline sd dispatches = .ok entries := by
  apply mapM_isOk.mpr
  intro d hd
  obtain ⟨_, _, _, hentry⟩ := dispatchEntry_eq (h d hd)
  exact ⟨_, hentry⟩

/-- The timestamps of the dispatches have floats again. -/
theorem dispatchTimeline_finite (h : RecordsFor sd dispatches) {entries : List TimelineEntry}
    (hentries : dispatchTimeline sd dispatches = .ok entries) :
    ∀ e ∈ entries, e.timestampMs.natAbs < 2 ^ 1024 - 2 ^ 970 := by
  intro e he
  obtain ⟨d, hd, hentry⟩ := mem_of_mapM hentries he
  obtain ⟨_, _, _, heq⟩ := dispatchEntry_eq (h.index d hd)
  cases hentry.symm.trans heq
  exact natAbs_truncate_lt (h.time d hd).abs_lt

theorem firstFaultTimestamp_isOk (h : ∀ d ∈ dispatches, d.index < sd.events.length) :
    ∃ t, firstFaultTimestamp sd dispatches = .ok t := by
  induction dispatches with
  | nil => exact ⟨none, rfl⟩
  | cons d rest ih =>
    obtain ⟨t, ht⟩ := ih fun d' hd' => h d' (List.mem_cons_of_mem d hd')
    have hlt := h d List.mem_cons_self
    rw [firstFaultTimestamp, eventAt_isOk hlt]
    by_cases hfault : (getOrNone sd.events[d.index] "action").eqStr (py "fault") = true
    · exact ⟨_, if_pos hfault⟩
    · exact ⟨t, (if_neg hfault).trans ht⟩

end Dispatches

/-! ## What the analysis raises -/

theorem parseLines_error {lim : IntLimit} {raws : List PyStr} :
    ∀ {line : Nat} {previous : Option Int} {e : Raised},
    parseLines lim line previous raws = .error e →
    (e = .intLimit ∧ lim.digits ≠ 0) ∨
      ∃ (line : Nat) (text : String), e = .applicationLogError line (py text) := by
  induction raws with
  | nil =>
    intro line previous e h
    cases h
  | cons raw rest ih =>
    intro line previous e h
    unfold parseLines at h
    split at h
    · exact ih h
    · rcases bind_eq_error.mp h with herr | ⟨event, -, h⟩
      · unfold parseLine at herr
        split at herr
        · cases herr
          exact .inr ⟨_, _, rfl⟩
        · next hvalue =>
          cases herr
          exact .inl ⟨rfl, fun hlim => Json.loads_ne_value hlim raw hvalue⟩
        · obtain ⟨text, rfl⟩ := parseRecord_error herr
          exact .inr ⟨_, _, rfl⟩
      · rcases bind_eq_error.mp h with herr | ⟨_, -, h⟩
        · exact ih herr
        · cases h

/-- The analysis raises nothing but `ApplicationLogError`, as far as there is
no digit limit. -/
theorem analyse_error {lim : IntLimit} {stdout : PyStr} {e : Raised}
    (h : analyse lim stdout = .error e) :
    (e = .intLimit ∧ lim.digits ≠ 0) ∨
      ∃ (line : Nat) (text : String), e = .applicationLogError line (py text) := by
  rcases bind_eq_error.mp h with herr | ⟨events, hevents, h⟩
  · exact parseLines_error herr
  · rcases bind_eq_error.mp h with herr | ⟨m, -, h⟩
    · obtain ⟨_, text, -, rfl⟩ := (tracker_run events).2 e (map_eq_error herr)
      exact .inr ⟨_, _, rfl⟩
    · cases h

theorem parseLines_nonneg {lim : IntLimit} {raws : List PyStr} {line : Nat}
    {previous : Option Int} {events : List ApplicationLogEvent}
    (h : parseLines lim line previous raws = .ok events) : ∀ e ∈ events, 0 ≤ e.timestampMs := by
  intro e he
  obtain ⟨line, previous, raw, hline⟩ := mem_parseLines h e he
  unfold parseLine at hline
  split at hline
  · cases hline
  · cases hline
  · unfold parseRecord at hline
    split at hline
    · simp only [bind_eq_ok, refuse_eq_ok, pure_eq_ok] at hline
      obtain ⟨timestampMs, htime, -, -, event, -, rfl⟩ := hline
      exact (requireNonnegativeInteger_eq_ok.mp htime).2
    · cases hline

/-! ## The report -/

/-- Every timestamp of the log has a float. -/
def TimestampsFit (events : List ApplicationLogEvent) : Prop :=
  ∀ e ∈ events, e.timestampMs < 2 ^ 1024 - 2 ^ 970

/-- What is expected of a report: it is there, and an invalid log is an error
that says so. -/
def Reported (lim : IntLimit) (sd : ScenarioDefinition) (result : ScenarioRunResult) : Prop :=
  ∃ report, buildScenarioReport lim sd result = .ok report ∧
    ((¬ ∃ events, ValidLog lim result.application.stdout events) →
      report.status = .error ∧
        ∃ message, report.error = some ⟨py "ApplicationLogError", message⟩)

section Report

variable {lim : IntLimit} {sc : Scenario} {source : PyStr} {result : ScenarioRunResult}
  {events : List ApplicationLogEvent} {m : RecoveryMetrics} {dispatches : List TimelineEntry}

theorem applicationTimeline_finite (hnonneg : ∀ e ∈ events, 0 ≤ e.timestampMs) :
    (∀ entry ∈ applicationTimeline events, entry.timestampMs.natAbs < 2 ^ 1024 - 2 ^ 970) ↔
      TimestampsFit events := by
  have hcast : ((2 ^ 1024 - 2 ^ 970 : Nat) : Int) = 2 ^ 1024 - 2 ^ 970 := by
    rw [Nat.cast_sub (by gcongr <;> norm_num), Nat.cast_pow, Nat.cast_pow, Nat.cast_ofNat]
  simp only [applicationTimeline, List.forall_mem_map, TimelineEntry.timestampMs, TimestampsFit]
  constructor
  · intro h e he
    have hlt := h e he
    have hpos := hnonneg e he
    rw [← hcast]
    generalize 2 ^ 1024 - 2 ^ 970 = bound at hlt ⊢
    omega
  · intro h e he
    have hlt := h e he
    have hpos := hnonneg e he
    rw [← hcast] at hlt
    generalize 2 ^ 1024 - 2 ^ 970 = bound at hlt ⊢
    omega

/-- With a valid log, the report is there iff the timeline can be sorted. -/
theorem analysedReport_isOk_iff_sorted
    (hindex : ∀ d ∈ result.dispatches, d.index < (sc.definition source).events.length) :
    (∃ report, analysedReport (sc.definition source) result dispatches events m = .ok report) ↔
      ∃ timeline, sortedTimeline (dispatches ++ applicationTimeline events) = .ok timeline := by
  obtain ⟨t, ht⟩ := firstFaultTimestamp_isOk hindex
  simp only [analysedReport, assertionDocuments_definition, ht, ok_bind]
  constructor
  · intro h
    obtain ⟨report, h⟩ := h
    obtain ⟨timeline, htimeline, -⟩ := bind_eq_ok.mp h
    exact ⟨timeline, htimeline⟩
  · intro h
    obtain ⟨timeline, htimeline⟩ := h
    exact ⟨_, bind_eq_ok.mpr ⟨timeline, htimeline, rfl⟩⟩

theorem analysedReport_isOk (hrun : RecordsFor (sc.definition source) result.dispatches)
    (hdispatches : dispatchTimeline (sc.definition source) result.dispatches = .ok dispatches)
    (hnonneg : ∀ e ∈ events, 0 ≤ e.timestampMs) :
    (∃ report, analysedReport (sc.definition source) result dispatches events m = .ok report) ↔
      TimestampsFit events := by
  rw [analysedReport_isOk_iff_sorted hrun.index, sortedTimeline_isOk, List.forall_mem_append,
    applicationTimeline_finite hnonneg]
  exact and_iff_right (dispatchTimeline_finite hrun hdispatches)

end Report

/-- An interpreter without a digit limit. -/
def noIntLimit : IntLimit := ⟨0, .inl rfl⟩

/-- The run above with one more line of output, `10 ^ exp` milliseconds after
the start of the clock. -/
def lateRun (exp : Nat) : ScenarioRunResult :=
  { disconnectRun with
    application := { disconnectRun.application with
      stdout := disconnectRun.application.stdout ++ py "\x7b\"timestamp_ms\":1"
        ++ List.replicate exp (digit 0) ++ py ",\"event\":\"LATE\"\x7d\n" } }

/-- The scenario of that run. -/
def disconnectDefinition : ScenarioDefinition where
  source := []
  schemaVersion := 1
  devicePath := py "/dev/vdevlab0"
  command := [py "./vtemp-monitor"]
  startupTimeoutMs := 2000
  name := py "disconnect"
  timeoutMs := 5000
  events := [Event.dict ⟨⟨100, by decide⟩, .fault .disconnect⟩]
  assertions := [PyDict.ofList [("type", .str (py "disconnect")), ("expected", .bool true)]]

theorem disconnectDefinition_accepted : Scenario.parseScenario (fun _ => .ok disconnectDocument)
    defaultIntLimit [] [] = .ok disconnectDefinition := rfl

theorem disconnectRun_records : RecordsFor disconnectDefinition disconnectRun.dispatches := by
  have hfloat : IsFloat 100 := by
    obtain ⟨hfin, hval⟩ := Binary64.ofInt_exact (n := 100) (by decide)
    exact ⟨_, hfin, hval⟩
  constructor
  · intro d hd
    cases List.mem_singleton.mp hd
    exact Nat.one_pos
  · intro d hd
    cases List.mem_singleton.mp hd
    exact hfloat

end VDevLab.Report
