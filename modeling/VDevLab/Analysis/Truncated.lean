import VDevLab.Analysis.Log
import VDevLab.Lib.JsonCut

/-!
# A log that is cut

A monitor that is killed leaves the beginning of its log, which may end
inside of a line. What is left has the events of the log up to there. A line
that is torn counts as the event it was, or is refused; it never becomes
another event.
-/

namespace VDevLab.Analysis

open Check PyStr

/-! ## The events -/

/-- What comes of the beginning of a log with these events: the first of
them, or an error in its last line. -/
inductive Truncated (events : List ApplicationLogEvent) (last : Nat) :
    Except Raised (List ApplicationLogEvent) → Prop
  | kept {kept : List ApplicationLogEvent} (h : kept <+: events) : Truncated events last (.ok kept)
  | torn : Truncated events last (.error (.applicationLogError last (py "invalid JSON")))
  /-- A number without its fraction may be over-long. -/
  | overlong : Truncated events last (.error .intLimit)

theorem Truncated.cons {events : List ApplicationLogEvent} {last : Nat}
    {r : Except Raised (List ApplicationLogEvent)} (h : Truncated events last r)
    (e : ApplicationLogEvent) :
    Truncated (e :: events) last (r >>= fun kept => pure (e :: kept)) := by
  cases h with
  | kept h => exact .kept ((List.prefix_cons_inj e).mpr h)
  | torn => exact .torn
  | overlong => exact .overlong

theorem Truncated.kept_prefix {events kept : List ApplicationLogEvent} {last : Nat}
    (h : Truncated events last (.ok kept)) : kept <+: events := by
  cases h with
  | kept h => exact h

theorem parseRecord_dict {line : Nat} {previous : Option Int} {v : PyValue}
    {e : ApplicationLogEvent} (h : parseRecord line previous v = .ok e) : ∃ d, v = .dict d := by
  cases v with
  | dict d => exact ⟨d, rfl⟩
  | _ => cases h

/-- A torn line that still loads has the event of the line. -/
theorem parseLine_torn {lim : IntLimit} {line : Nat} {previous : Option Int} {piece raw : PyStr}
    {e : ApplicationLogEvent} (hpiece : piece <+: raw)
    (h : parseLine lim line previous raw = .ok e) :
    parseLine lim line previous piece = .ok e ∨
      parseLine lim line previous piece = .error (.applicationLogError line (py "invalid JSON")) ∨
      parseLine lim line previous piece = .error .intLimit := by
  obtain ⟨tail, rfl⟩ := hpiece
  unfold parseLine at h ⊢
  cases hload : Json.loads lim piece with
  | error err =>
    cases err with
    | decode => exact .inr (.inl rfl)
    | value => exact .inr (.inr rfl)
  | ok v =>
    left
    cases hwhole : Json.loads lim (piece ++ tail) with
    | error err =>
      rw [hwhole] at h
      cases err <;> cases h
    | ok w =>
      rw [hwhole] at h
      obtain ⟨d, rfl⟩ := parseRecord_dict h
      rw [Json.loads_cut hwhole hload]
      exact h

theorem parseLines_torn {lim : IntLimit} {short long : List PyStr} (htorn : Torn short long)
    {line : Nat} {previous : Option Int} {events : List ApplicationLogEvent}
    (h : parseLines lim line previous long = .ok events) :
    Truncated events (line + short.length - 1) (parseLines lim line previous short) := by
  induction htorn generalizing line previous events with
  | whole rest => exact .kept List.nil_prefix
  | @torn piece raw hpiece rest =>
    simp only [parseLines] at h ⊢
    by_cases hblank : isBlank piece = true
    · rw [if_pos hblank]
      exact .kept List.nil_prefix
    · have hraw : ¬ isBlank raw = true := fun hb => hblank (isBlank_of_begins hpiece hb)
      rw [if_neg hraw] at h
      rw [if_neg hblank]
      obtain ⟨e, he, h⟩ := bind_eq_ok.mp h
      obtain ⟨events', -, h⟩ := bind_eq_ok.mp h
      cases h
      rcases parseLine_torn hpiece he with hp | hp | hp
      · rw [hp]
        exact .kept ⟨events', rfl⟩
      · rw [hp]
        exact .torn
      · rw [hp]
        exact .overlong
  | @line raw short long _ ih =>
    have hlast : line + (raw :: short).length - 1 = line + 1 + short.length - 1 := by
      rw [List.length_cons]
      omega
    rw [hlast]
    simp only [parseLines] at h ⊢
    by_cases hblank : isBlank raw = true
    · rw [if_pos hblank] at h ⊢
      exact ih h
    · rw [if_neg hblank] at h ⊢
      obtain ⟨e, he, h⟩ := bind_eq_ok.mp h
      obtain ⟨events', hevents, h⟩ := bind_eq_ok.mp h
      cases h
      rw [he, ok_bind]
      exact (ih hevents).cons e

/-- A retry, and a recovery that is torn off. -/
def tornText : PyStr :=
  py "\x7b\"timestamp_ms\":10,\"event\":\"READ_RETRY\",\"retry\":1,\"errno\":5\x7d\n" ++
  py "\x7b\"timestamp_ms\":30,\"event\":\"RECOV"

def tornRest : PyStr := py "ERY_SUCCESS\",\"retries\":1\x7d\n"

/-- The loop is further on in the same log. -/
structure Tracker.Grows (t u : Tracker) : Prop where
  observed : t.observedEioCount ≤ u.observedEioCount
  retries : t.applicationRetryCount ≤ u.applicationRetryCount
  recoveries : t.recoveries <+: u.recoveries
  first : ∀ m ∈ t.firstObservedErrorTimestampMs, u.firstObservedErrorTimestampMs = some m

theorem Tracker.Grows.refl (t : Tracker) : t.Grows t :=
  ⟨Nat.le_refl _, Nat.le_refl _, List.prefix_refl _, fun _ h => h⟩

theorem Tracker.Grows.trans {t u v : Tracker} (h : t.Grows u) (h' : u.Grows v) : t.Grows v where
  observed := Nat.le_trans h.observed h'.observed
  retries := Nat.le_trans h.retries h'.retries
  recoveries := h.recoveries.trans h'.recoveries
  first := fun m hm => h'.first m (h.first m hm)

theorem Tracker.countRetry_grows (t : Tracker) (retryErrno timestampMs : Int) :
    t.Grows (t.countRetry retryErrno timestampMs) where
  observed := by
    simp only [countRetry]
    split <;> omega
  retries := Nat.le_succ _
  recoveries := List.prefix_refl _
  first := by
    intro m hm
    rw [countRetry, Option.mem_def.mp hm]
    rfl

theorem Tracker.closeWindow_grows (t : Tracker) (first reportedRetries timestampMs : Int) :
    t.Grows (t.closeWindow first reportedRetries timestampMs) where
  observed := Nat.le_refl _
  retries := Nat.le_refl _
  recoveries := List.prefix_append _ _
  first := fun _ h => h

theorem Tracker.step_grows {t u : Tracker} {e : ApplicationLogEvent} (h : t.step e = .ok u) :
    t.Grows u := by
  unfold step at h
  split at h
  · obtain ⟨errno, -, h⟩ := bind_eq_ok.mp h
    obtain ⟨_, -, h⟩ := bind_eq_ok.mp h
    cases h
    exact t.countRetry_grows errno e.timestampMs
  · split at h
    · obtain ⟨retries, -, h⟩ := bind_eq_ok.mp h
      split at h
      · cases h
      · next first _ =>
        cases h
        exact t.closeWindow_grows first retries e.timestampMs
    · cases h
      exact .refl t

theorem Tracker.run_grows {t u : Tracker} {events : List ApplicationLogEvent}
    (h : events.foldlM step t = .ok u) : t.Grows u := by
  induction events generalizing t with
  | nil =>
    cases h
    exact .refl _
  | cons e events ih =>
    rw [List.foldlM_cons] at h
    obtain ⟨v, hv, h⟩ := bind_eq_ok.mp h
    exact (step_grows hv).trans (ih h)

/-- The metrics of the beginning of a log. -/
structure RecoveryMetrics.Begins (m n : RecoveryMetrics) : Prop where
  observed : m.observedEioCount ≤ n.observedEioCount
  retries : m.applicationRetryCount ≤ n.applicationRetryCount
  recoveries : m.recoveries <+: n.recoveries
  firstError : ∀ t ∈ m.firstErrorTimestampMs, n.firstErrorTimestampMs = some t
  recovery : ∀ t ∈ m.recoveryTimestampMs, n.recoveryTimestampMs = some t
  latency : ∀ t ∈ m.recoveryLatencyMs, n.recoveryLatencyMs = some t

theorem head?_of_prefix {α : Type} {short long : List α} {a : α} (h : short <+: long)
    (ha : short.head? = some a) : long.head? = some a := by
  obtain ⟨tail, rfl⟩ := h
  rw [List.head?_append, ha]
  rfl

theorem Tracker.Grows.metrics {t u : Tracker} (h : t.Grows u) : t.metrics.Begins u.metrics where
  observed := h.observed
  retries := h.retries
  recoveries := h.recoveries
  firstError := h.first
  recovery := by
    intro m hm
    obtain ⟨w, hw, rfl⟩ := Option.map_eq_some_iff.mp (Option.mem_def.mp hm)
    exact Option.map_eq_some_iff.mpr ⟨w, head?_of_prefix h.recoveries hw, rfl⟩
  latency := by
    intro m hm
    obtain ⟨w, hw, rfl⟩ := Option.map_eq_some_iff.mp (Option.mem_def.mp hm)
    exact Option.map_eq_some_iff.mpr ⟨w, head?_of_prefix h.recoveries hw, rfl⟩

/-- What is measured on the beginning of a log is measured on all of it:
nothing that was observed is taken back. -/
theorem truncated_metrics (lim : IntLimit) (text more : PyStr)
    (events kept : List ApplicationLogEvent) (metrics : RecoveryMetrics)
    (hlog : parseApplicationLog lim (text ++ more) = .ok events)
    (hmetrics : calculateRecoveryMetrics events = .ok metrics)
    (hkept : parseApplicationLog lim text = .ok kept) :
    ∃ m, calculateRecoveryMetrics kept = .ok m ∧ m.Begins metrics := by
  have hprefix := parseLines_torn (splitlines_torn text more) hlog
  rw [← parseApplicationLog, hkept] at hprefix
  obtain ⟨lost, rfl⟩ := hprefix.kept_prefix
  obtain ⟨u, hu, rfl⟩ := map_eq_ok hmetrics
  rw [List.foldlM_append] at hu
  obtain ⟨t, ht, hu⟩ := bind_eq_ok.mp hu
  refine ⟨t.metrics, ?_, (Tracker.run_grows hu).metrics⟩
  rw [calculateRecoveryMetrics, ht]
  rfl

/-- A recovery that is followed by a retry, which is lost. -/
def keptText : PyStr :=
  py "\x7b\"timestamp_ms\":10,\"event\":\"READ_RETRY\",\"retry\":1,\"errno\":5\x7d\n" ++
  py "\x7b\"timestamp_ms\":30,\"event\":\"RECOVERY_SUCCESS\",\"retries\":1\x7d\n"

def lostText : PyStr :=
  py "\x7b\"timestamp_ms\":40,\"event\":\"READ_RETRY\",\"retry\":1,\"errno\":5\x7d\n"

theorem truncated_metrics_keptText : ∃ events kept metrics,
    parseApplicationLog defaultIntLimit (keptText ++ lostText) = .ok events ∧
    calculateRecoveryMetrics events = .ok metrics ∧ metrics.observedEioCount = 2 ∧
    parseApplicationLog defaultIntLimit keptText = .ok kept ∧
    ∃ m, calculateRecoveryMetrics kept = .ok m ∧ m.Begins metrics := by
  have hm : (parseApplicationLog defaultIntLimit (keptText ++ lostText) >>= fun events =>
      (calculateRecoveryMetrics events).map (·.observedEioCount)) = .ok 2 := by decide +kernel
  have hk : (parseApplicationLog defaultIntLimit keptText).map List.length = .ok 2 := by
    decide +kernel
  obtain ⟨events, hlog, hm⟩ := bind_eq_ok.mp hm
  obtain ⟨metrics, hmetrics, hm⟩ := map_eq_ok hm
  obtain ⟨kept, hkept, -⟩ := map_eq_ok hk
  exact ⟨events, kept, metrics, hlog, hmetrics, hm, hkept,
    truncated_metrics _ keptText lostText events kept metrics hlog hmetrics hkept⟩

end VDevLab.Analysis
