import Mathlib.Algebra.BigOperators.Group.List.Basic
import Mathlib.Data.List.DropRight
import VDevLab.Analysis.Segments

/-!
# The recovery windows, declaratively

The recoveries cut the log into windows. Window `j` belongs to recovery `j`
and reaches back to the recovery before it; its retries are those in between.
`calculate_recovery_metrics` walks the log once, with two of its variables
reset at every recovery. What it returns is this segmentation, and what it
raises names the first event that has no place in it.
-/

namespace VDevLab.Analysis

open Check PyStr

/-! ## The segmentation -/

def ApplicationLogEvent.isRetry (e : ApplicationLogEvent) : Bool := e.event = py "READ_RETRY"

def ApplicationLogEvent.isRecovery (e : ApplicationLogEvent) : Bool :=
  e.event = py "RECOVERY_SUCCESS"

/-- A retry whose `errno` is EIO. -/
def ApplicationLogEvent.isEio (e : ApplicationLogEvent) : Bool :=
  e.isRetry &&
    match e.fields.get? (py "errno") with
    | some (.int n) => n = errnoEio
    | _ => false

@[simp] theorem ApplicationLogEvent.isRetry_iff {e : ApplicationLogEvent} :
    e.isRetry = true ↔ e.IsRetry := decide_eq_true_iff

@[simp] theorem ApplicationLogEvent.isRecovery_iff {e : ApplicationLogEvent} :
    e.isRecovery = true ↔ e.IsRecovery := decide_eq_true_iff

@[simp] theorem ApplicationLogEvent.isRetry_false {e : ApplicationLogEvent} :
    e.isRetry = false ↔ ¬ e.IsRetry := decide_eq_false_iff_not

@[simp] theorem ApplicationLogEvent.isRecovery_false {e : ApplicationLogEvent} :
    e.isRecovery = false ↔ ¬ e.IsRecovery := decide_eq_false_iff_not

/-- The events behind the last recovery. -/
def sinceRecovery (events : List ApplicationLogEvent) : List ApplicationLogEvent :=
  events.rtakeWhile fun e => !e.isRecovery

/-- The event `e` behind the events `before` is refused: a number is missing,
or a recovery has no retry since the recovery before it. -/
def Offends (before : List ApplicationLogEvent) (e : ApplicationLogEvent) : Prop :=
  (e.IsRetry ∧ ¬ (e.HasNumber "errno" ∧ e.HasNumber "retry")) ∨
  (e.IsRecovery ∧ (¬ e.HasNumber "retries" ∨ ∀ r ∈ sinceRecovery before, ¬ r.IsRetry))

/-- `e` is the first event that is refused. -/
def FirstOffence (events : List ApplicationLogEvent) (e : ApplicationLogEvent) : Prop :=
  ∃ before after, events = before ++ e :: after ∧ Offends before e ∧
    ∀ before' e' after', before = before' ++ e' :: after' → ¬ Offends before' e'

/-- The window of the recovery `s` behind the events `before`. -/
structure WindowOf (before : List ApplicationLogEvent) (s : ApplicationLogEvent)
    (w : RecoveryWindow) : Prop where
  first : ∃ r, (sinceRecovery before).find? (·.isRetry) = some r ∧
    w.firstErrorTimestampMs = r.timestampMs
  recovery : w.recoveryTimestampMs = s.timestampMs
  latency : w.recoveryLatencyMs = w.recoveryTimestampMs - w.firstErrorTimestampMs
  observed : w.observedRetries = (sinceRecovery before).countP (·.isRetry)
  reported : s.fields.get? (py "retries") = some (.int w.reportedRetries)

/-- The metrics are the segmentation of the events. -/
structure Segmentation (events : List ApplicationLogEvent) (m : RecoveryMetrics) : Prop where
  /-- One window per recovery, in their order. -/
  length : m.recoveries.length = events.countP (·.isRecovery)
  window : ∀ before s after, events = before ++ s :: after → s.IsRecovery →
    ∃ w, m.recoveries[before.countP (·.isRecovery)]? = some w ∧ WindowOf before s w ∧
      1 ≤ w.observedRetries
  latency : ∀ w ∈ m.recoveries, 0 ≤ w.recoveryLatencyMs
  apart : m.recoveries.Pairwise fun w w' => w.recoveryTimestampMs ≤ w'.firstErrorTimestampMs
  retries : m.applicationRetryCount = events.countP (·.isRetry)
  total : (m.recoveries.map (·.observedRetries)).sum +
    (sinceRecovery events).countP (·.isRetry) = m.applicationRetryCount
  eio : m.observedEioCount = events.countP (·.isEio)
  firstError : m.firstErrorTimestampMs = (events.find? (·.isRetry)).map (·.timestampMs)
  firstRecovery : m.recoveryTimestampMs = m.recoveries.head?.map (·.recoveryTimestampMs)
  firstLatency : m.recoveryLatencyMs = m.recoveries.head?.map (·.recoveryLatencyMs)

/-! ## One event more -/

section Concat

variable {l : List ApplicationLogEvent} {e : ApplicationLogEvent}

theorem sinceRecovery_recovery (h : e.IsRecovery) : sinceRecovery (l ++ [e]) = [] :=
  List.rtakeWhile_concat_neg _ _ _ (by simp [h])

theorem sinceRecovery_other (h : ¬ e.IsRecovery) :
    sinceRecovery (l ++ [e]) = sinceRecovery l ++ [e] :=
  List.rtakeWhile_concat_pos _ _ _ (by simpa using h)

theorem isEio_of_errno {errno : Nat} (h : e.IsRetry)
    (herrno : e.fields.get? (py "errno") = some (.int errno)) :
    e.isEio = decide ((errno : Int) = errnoEio) := by
  simp [ApplicationLogEvent.isEio, h, herrno]

theorem isEio_false (h : ¬ e.IsRetry) : e.isEio = false := by
  simp [ApplicationLogEvent.isEio, h]

end Concat

/-! ## The tracker -/

/-- What the variables of the loop are, behind the events so far. -/
structure Tracked (events : List ApplicationLogEvent) (t : Tracker) : Prop where
  awaited : t.firstErrorTimestampMs =
    ((sinceRecovery events).find? (·.isRetry)).map (·.timestampMs)
  active : t.activeRetryCount = (sinceRecovery events).countP (·.isRetry)
  retries : t.applicationRetryCount = events.countP (·.isRetry)
  eio : t.observedEioCount = events.countP (·.isEio)
  firstError : t.firstObservedErrorTimestampMs = (events.find? (·.isRetry)).map (·.timestampMs)
  length : t.recoveries.length = events.countP (·.isRecovery)
  window : ∀ before s after, events = before ++ s :: after → s.IsRecovery →
    ∃ w, t.recoveries[before.countP (·.isRecovery)]? = some w ∧ WindowOf before s w
  total : (t.recoveries.map (·.observedRetries)).sum + t.activeRetryCount =
    t.applicationRetryCount

theorem Tracked.nil : Tracked [] {} where
  awaited := rfl
  active := rfl
  retries := rfl
  eio := rfl
  firstError := rfl
  length := rfl
  window := by
    intro before s after h
    simp at h
  total := rfl

section Steps

variable {events : List ApplicationLogEvent} {t : Tracker} {e : ApplicationLogEvent}

theorem find?_concat_map {p : ApplicationLogEvent → Bool} {l : List ApplicationLogEvent}
    (he : p e = true) : ((l ++ [e]).find? p).map (·.timestampMs) =
      ((l.find? p).map (·.timestampMs)).or (some e.timestampMs) := by
  rw [List.find?_append, List.find?_cons_of_pos he]
  cases l.find? p <;> rfl

/-- Windows that are there stay when others are added. -/
theorem Tracked.kept (h : Tracked events t) {recoveries : List RecoveryWindow}
    (hpre : t.recoveries <+: recoveries) {before : List ApplicationLogEvent}
    {s : ApplicationLogEvent} {after : List ApplicationLogEvent}
    (hcut : events = before ++ s :: after) (hs : s.IsRecovery) :
    ∃ w, recoveries[before.countP (·.isRecovery)]? = some w ∧ WindowOf before s w := by
  obtain ⟨w, hw, hof⟩ := h.window before s after hcut hs
  obtain ⟨more, rfl⟩ := hpre
  refine ⟨w, ?_, hof⟩
  rw [List.getElem?_append_left (List.getElem?_eq_some_iff.mp hw).1]
  exact hw

theorem Tracked.window_other (h : Tracked events t) (hlast : ¬ e.IsRecovery) :
    ∀ before s after, events ++ [e] = before ++ s :: after → s.IsRecovery →
      ∃ w, t.recoveries[before.countP (·.isRecovery)]? = some w ∧ WindowOf before s w := by
  intro before s after hcut hs
  rcases Lts.concat_eq_cut.mp hcut with ⟨-, -, rfl⟩ | ⟨after', -, hcut'⟩
  · exact absurd hs hlast
  · exact h.kept (List.prefix_refl _) hcut' hs

theorem Tracked.countRetry (h : Tracked events t) (he : e.IsRetry) {errno : Nat}
    (herrno : e.fields.get? (py "errno") = some (.int errno)) :
    Tracked (events ++ [e]) (t.countRetry errno e.timestampMs) := by
  have hs := he.not_isRecovery
  have hretry : e.isRetry = true := by simpa using he
  refine ⟨?_, ?_, ?_, ?_, ?_, ?_, ?_, ?_⟩
  · rw [sinceRecovery_other hs, find?_concat_map hretry, ← h.awaited]
    rfl
  · rw [sinceRecovery_other hs, List.countP_append, ← h.active]
    simp [Tracker.countRetry, hretry]
  · rw [List.countP_append, ← h.retries]
    simp [Tracker.countRetry, hretry]
  · rw [List.countP_append, ← h.eio]
    simp only [Tracker.countRetry, List.countP_singleton, isEio_of_errno he herrno,
      decide_eq_true_eq]
    split <;> rfl
  · rw [find?_concat_map hretry, ← h.firstError]
    rfl
  · rw [List.countP_append, ← h.length]
    simp [Tracker.countRetry, hs]
  · exact h.window_other hs
  · have htotal := h.total
    simp only [Tracker.countRetry]
    omega

theorem Tracked.other (h : Tracked events t) (hr : ¬ e.IsRetry) (hs : ¬ e.IsRecovery) :
    Tracked (events ++ [e]) t := by
  have hretry : e.isRetry = false := by simpa using hr
  refine ⟨?_, ?_, ?_, ?_, ?_, ?_, ?_, h.total⟩
  · rw [sinceRecovery_other hs, List.find?_append, h.awaited]
    simp [hretry]
  · rw [sinceRecovery_other hs, List.countP_append, ← h.active]
    simp [hretry]
  · rw [List.countP_append, ← h.retries]
    simp [hretry]
  · rw [List.countP_append, ← h.eio]
    simp [isEio_false hr]
  · rw [List.find?_append, h.firstError]
    simp [hretry]
  · rw [List.countP_append, ← h.length]
    simp [hs]
  · exact h.window_other hs

theorem Tracked.closeWindow (h : Tracked events t) (he : e.IsRecovery) {reported : Nat}
    (hreported : e.fields.get? (py "retries") = some (.int reported)) {first : Int}
    (hfirst : t.firstErrorTimestampMs = some first) :
    Tracked (events ++ [e]) (t.closeWindow first reported e.timestampMs) := by
  have hr : ¬ e.IsRetry := fun hr => hr.not_isRecovery he
  have hretry : e.isRetry = false := by simpa using hr
  refine ⟨?_, ?_, ?_, ?_, ?_, ?_, ?_, ?_⟩
  · rw [sinceRecovery_recovery he]
    rfl
  · rw [sinceRecovery_recovery he]
    rfl
  · rw [List.countP_append, ← h.retries]
    simp [Tracker.closeWindow, hretry]
  · rw [List.countP_append, ← h.eio]
    simp [Tracker.closeWindow, isEio_false hr]
  · rw [List.find?_append, Tracker.closeWindow, h.firstError]
    simp [hretry]
  · rw [List.countP_append, ← h.length]
    simp [Tracker.closeWindow, he]
  · intro before s after hcut hs
    rcases Lts.concat_eq_cut.mp hcut with ⟨-, rfl, rfl⟩ | ⟨after', -, hcut'⟩
    · -- the new window, behind all others
      rw [h.awaited] at hfirst
      obtain ⟨r, hr, rfl⟩ := Option.map_eq_some_iff.mp hfirst
      refine ⟨⟨r.timestampMs, s.timestampMs, s.timestampMs - r.timestampMs, t.activeRetryCount,
        reported⟩, ?_, ⟨r, hr, rfl⟩, rfl, rfl, h.active, hreported⟩
      rw [← h.length]
      exact List.getElem?_concat_length
    · exact h.kept (List.prefix_append _ _) hcut' hs
  · have htotal := h.total
    simp only [Tracker.closeWindow, List.map_append, List.map_cons, List.map_nil, List.sum_append,
      List.sum_singleton, Nat.add_zero]
    exact htotal

/-- A step that succeeds keeps track. -/
theorem Tracked.step (h : Tracked events t) {t' : Tracker} (hstep : t.step e = .ok t') :
    Tracked (events ++ [e]) t' := by
  rcases Tracker.step_eq_ok.mp hstep with
    ⟨hr, -, errno, herrno, rfl⟩ | ⟨hs, reported, first, hreported, hfirst, rfl⟩ | ⟨hr, hs, rfl⟩
  · exact h.countRetry hr herrno
  · exact h.closeWindow hs hreported hfirst
  · exact h.other hr hs

/-- A recovery is awaited iff there was a retry since the last one. -/
theorem Tracked.awaited_iff (h : Tracked events t) :
    (∃ first, t.firstErrorTimestampMs = some first) ↔ ∃ r ∈ sinceRecovery events, r.IsRetry := by
  rw [h.awaited]
  constructor
  · intro hsome
    obtain ⟨first, hfirst⟩ := hsome
    obtain ⟨r, hr, -⟩ := Option.map_eq_some_iff.mp hfirst
    exact ⟨r, List.mem_of_find?_eq_some hr, by simpa using List.find?_some hr⟩
  · intro hmem
    obtain ⟨r, hr, hretry⟩ := hmem
    have hsome : ((sinceRecovery events).find? (·.isRetry)).isSome = true :=
      List.find?_isSome.mpr ⟨r, hr, by simpa using hretry⟩
    obtain ⟨r', hr'⟩ := Option.isSome_iff_exists.mp hsome
    exact ⟨r'.timestampMs, by rw [hr']; rfl⟩

/-- A step succeeds iff its event is not refused. -/
theorem Tracked.step_ok_iff (h : Tracked events t) :
    (∃ t', t.step e = .ok t') ↔ ¬ Offends events e := by
  simp only [Tracker.step_eq_ok, Offends]
  constructor
  · intro hok
    obtain ⟨t', ⟨hr, hretry, errno, herrno, -⟩ | ⟨hs, reported, first, hreported, hfirst, -⟩ |
      ⟨hr, hs, -⟩⟩ := hok
    · intro hoff
      rcases hoff with ⟨-, hno⟩ | ⟨hs, -⟩
      · exact hno ⟨⟨errno, herrno⟩, hretry⟩
      · exact hr.not_isRecovery hs
    · intro hoff
      rcases hoff with ⟨hr, -⟩ | ⟨-, hno | hnone⟩
      · exact hr.not_isRecovery hs
      · exact hno ⟨reported, hreported⟩
      · obtain ⟨r, hr, hretry⟩ := h.awaited_iff.mp ⟨first, hfirst⟩
        exact hnone r hr hretry
    · intro hoff
      rcases hoff with ⟨hr', -⟩ | ⟨hs', -⟩
      · exact hr hr'
      · exact hs hs'
  · intro hno
    rw [not_or] at hno
    by_cases hr : e.IsRetry
    · obtain ⟨⟨errno, herrno⟩, hretry⟩ := not_not.mp (fun hne => hno.1 ⟨hr, hne⟩)
      exact ⟨_, .inl ⟨hr, hretry, errno, herrno, rfl⟩⟩
    · by_cases hs : e.IsRecovery
      · have hrec := not_or.mp (fun hne => hno.2 ⟨hs, hne⟩)
        obtain ⟨reported, hreported⟩ := not_not.mp hrec.1
        have hretry : ∃ r ∈ sinceRecovery events, r.IsRetry := by
          by_contra hne
          exact hrec.2 (fun r hr hretry => hne ⟨r, hr, hretry⟩)
        obtain ⟨first, hfirst⟩ := h.awaited_iff.mpr hretry
        exact ⟨_, .inr (.inl ⟨hs, reported, first, hreported, hfirst, rfl⟩)⟩
      · exact ⟨t, .inr (.inr ⟨hr, hs, rfl⟩)⟩

end Steps

/-! ## Errors -/

/-- The error names the line; its message is a text of the source. -/
theorem requireNonnegativeInteger_error {v : PyValue} {line : Nat} {field : String} {err : Raised}
    (h : requireNonnegativeInteger v line field = .error err) :
    ∃ text : String, err = .applicationLogError line (py text) := by
  have hmessage : py field ++ py " must be a non-negative integer" =
      py (field ++ " must be a non-negative integer") := by
    simp [py]
  unfold requireNonnegativeInteger at h
  split at h
  · split at h
    · cases h
      exact ⟨_, congrArg _ hmessage⟩
    · cases h
  · cases h
    exact ⟨_, congrArg _ hmessage⟩

/-- So does a record. -/
theorem parseRecord_error {line : Nat} {previous : Option Int} {value : PyValue} {e : Raised}
    (h : parseRecord line previous value = .error e) :
    ∃ text : String, e = .applicationLogError line (py text) := by
  unfold parseRecord at h
  split at h
  · rcases bind_eq_error.mp h with herr | ⟨_, -, h⟩
    · exact requireNonnegativeInteger_error herr
    · rcases bind_eq_error.mp h with herr | ⟨_, -, h⟩
      · unfold refuse at herr
        split at herr
        · cases herr
          exact ⟨_, rfl⟩
        · cases herr
      · rcases bind_eq_error.mp h with herr | ⟨_, -, h⟩
        · unfold requireEventName at herr
          split at herr
          · split at herr
            · cases herr
              exact ⟨_, rfl⟩
            · cases herr
          · cases herr
            exact ⟨_, rfl⟩
        · cases h
  · cases h
    exact ⟨_, rfl⟩

/-- A step that fails names the line of its event. -/
theorem Tracker.step_error {t : Tracker} {e : ApplicationLogEvent} {err : Raised}
    (h : t.step e = .error err) :
    ∃ text : String, err = .applicationLogError e.line (py text) := by
  unfold Tracker.step at h
  split at h
  · rcases bind_eq_error.mp h with herr | ⟨errno, -, h⟩
    · exact requireNonnegativeInteger_error herr
    · rcases bind_eq_error.mp h with herr | ⟨retry, -, h⟩
      · exact requireNonnegativeInteger_error herr
      · cases h
  · split at h
    · rcases bind_eq_error.mp h with herr | ⟨reported, -, h⟩
      · exact requireNonnegativeInteger_error herr
      · split at h
        · cases h
          exact ⟨_, rfl⟩
        · cases h
    · cases h

/-! ## Windows in time -/

/-- What the variables of the loop say about the times of the events so far. -/
structure Ordered (events : List ApplicationLogEvent) (t : Tracker) : Prop where
  latency : ∀ w ∈ t.recoveries, 0 ≤ w.recoveryLatencyMs
  apart : t.recoveries.Pairwise fun w w' => w.recoveryTimestampMs ≤ w'.firstErrorTimestampMs
  recovered : ∀ w ∈ t.recoveries, ∃ s ∈ events, w.recoveryTimestampMs = s.timestampMs
  opened : ∀ first, t.firstErrorTimestampMs = some first →
    (∃ r ∈ events, first = r.timestampMs) ∧ ∀ w ∈ t.recoveries, w.recoveryTimestampMs ≤ first

theorem Ordered.nil : Ordered [] {} where
  latency := by simp
  apart := List.Pairwise.nil
  recovered := by simp
  opened := by simp

section Ordered

variable {events : List ApplicationLogEvent} {t t' : Tracker} {e : ApplicationLogEvent}

theorem Ordered.concat (h : Ordered events t) : Ordered (events ++ [e]) t where
  latency := h.latency
  apart := h.apart
  recovered := by
    intro w hw
    obtain ⟨s, hs, heq⟩ := h.recovered w hw
    exact ⟨s, List.mem_append_left _ hs, heq⟩
  opened := by
    intro first hfirst
    obtain ⟨⟨r, hr, heq⟩, hpast⟩ := h.opened first hfirst
    exact ⟨⟨r, List.mem_append_left _ hr, heq⟩, hpast⟩

/-- The next event is the latest so far. -/
theorem Ordered.step (h : Ordered events t) (hle : ∀ x ∈ events, x.timestampMs ≤ e.timestampMs)
    (hstep : t.step e = .ok t') : Ordered (events ++ [e]) t' := by
  have hlater : ∀ w ∈ t.recoveries, w.recoveryTimestampMs ≤ e.timestampMs := by
    intro w hw
    obtain ⟨s, hs, heq⟩ := h.recovered w hw
    rw [heq]
    exact hle s hs
  rcases Tracker.step_eq_ok.mp hstep with
    ⟨-, -, errno, -, rfl⟩ | ⟨-, reported, first, -, hfirst, rfl⟩ | ⟨-, -, rfl⟩
  · refine ⟨h.latency, h.apart, h.concat.recovered, ?_⟩
    intro first hfirst
    cases hopen : t.firstErrorTimestampMs with
    | some first' =>
      simp only [Tracker.countRetry, hopen, Option.some_or, Option.some.injEq] at hfirst
      subst hfirst
      exact h.concat.opened _ hopen
    | none =>
      -- the retry opens the window, behind all recoveries
      simp only [Tracker.countRetry, hopen, Option.none_or, Option.some.injEq] at hfirst
      subst hfirst
      exact ⟨⟨e, by simp, rfl⟩, hlater⟩
  · obtain ⟨⟨r, hr, heq⟩, hpast⟩ := h.opened first hfirst
    refine ⟨?_, ?_, ?_, ?_⟩
    · intro w hw
      rcases List.mem_append.mp hw with hw | hw
      · exact h.latency w hw
      · rw [List.mem_singleton.mp hw, heq]
        have hre := hle r hr
        show 0 ≤ e.timestampMs - r.timestampMs
        omega
    · refine List.pairwise_append.mpr ⟨h.apart, List.pairwise_singleton _ _, ?_⟩
      intro w hw w' hw'
      rw [List.mem_singleton.mp hw']
      exact hpast w hw
    · intro w hw
      rcases List.mem_append.mp hw with hw | hw
      · exact h.concat.recovered w hw
      · rw [List.mem_singleton.mp hw]
        exact ⟨e, by simp, rfl⟩
    · intro first' hfirst'
      cases hfirst'
  · exact h.concat

end Ordered

/-- The loop: as long as no event is refused it keeps track, and it stops at
the first one that is. -/
theorem tracker_run (events : List ApplicationLogEvent) :
    (∀ t, events.foldlM Tracker.step {} = .ok t →
      Tracked events t ∧ (∀ before e after, events = before ++ e :: after → ¬ Offends before e) ∧
      (events.Pairwise (fun e e' => e.timestampMs ≤ e'.timestampMs) → Ordered events t)) ∧
    ∀ err, events.foldlM Tracker.step {} = .error err →
      ∃ (e : ApplicationLogEvent) (text : String), FirstOffence events e ∧
        err = .applicationLogError e.line (py text) := by
  induction events using List.reverseRecOn with
  | nil =>
    refine ⟨?_, ?_⟩
    · intro t ht
      cases ht
      refine ⟨Tracked.nil, ?_, fun _ => Ordered.nil⟩
      intro before e after h
      simp at h
    · intro err herr
      cases herr
  | append_singleton events e ih =>
    obtain ⟨hok, herror⟩ := ih
    have hfold : (events ++ [e]).foldlM Tracker.step {} =
        events.foldlM Tracker.step {} >>= fun t => t.step e := by
      simp [List.foldlM_append]
    rw [hfold]
    refine ⟨?_, ?_⟩
    · intro t' ht'
      obtain ⟨t, ht, hstep⟩ := bind_eq_ok.mp ht'
      obtain ⟨htracked, hno, hordered⟩ := hok t ht
      refine ⟨htracked.step hstep, ?_, ?_⟩
      · intro before e' after hcut
        rcases Lts.concat_eq_cut.mp hcut with ⟨-, rfl, rfl⟩ | ⟨after', -, hcut'⟩
        · exact htracked.step_ok_iff.mp ⟨t', hstep⟩
        · exact hno before e' after' hcut'
      · intro hsorted
        obtain ⟨hpre, -, hlast⟩ := List.pairwise_append.mp hsorted
        exact (hordered hpre).step (fun x hx => hlast x hx e (by simp)) hstep
    · intro err herr
      rcases bind_eq_error.mp herr with herr | ⟨t, ht, hstep⟩
      · obtain ⟨e', message, ⟨before, after, rfl, hoff, hfirst⟩, rfl⟩ := herror err herr
        exact ⟨e', message, ⟨before, after ++ [e], by simp, hoff, hfirst⟩, rfl⟩
      · obtain ⟨htracked, hno, -⟩ := hok t ht
        obtain ⟨message, rfl⟩ := Tracker.step_error hstep
        have hoff : Offends events e := by
          by_contra hne
          obtain ⟨t', hok'⟩ := htracked.step_ok_iff.mpr hne
          rw [hstep] at hok'
          cases hok'
        exact ⟨e, message, ⟨events, [], rfl, hoff, hno⟩, rfl⟩

/-! ## Accepted logs -/

theorem parseLine_previous {lim : IntLimit} {line : Nat} {previous : Option Int} {raw : PyStr}
    {e : ApplicationLogEvent} (h : parseLine lim line previous raw = .ok e) :
    ∀ p ∈ previous, p ≤ e.timestampMs := by
  unfold parseLine at h
  split at h
  · cases h
  · cases h
  · unfold parseRecord at h
    split at h
    · simp only [bind_eq_ok, refuse_eq_ok, pure_eq_ok] at h
      obtain ⟨timestampMs, -, -, hle, event, -, rfl⟩ := h
      intro p hp
      by_contra hlt
      exact hle ⟨p, hp, not_le.mp hlt⟩
    · cases h

theorem parseLines_ordered {lim : IntLimit} {raws : List PyStr} : ∀ {line : Nat}
    {previous : Option Int} {events : List ApplicationLogEvent},
    parseLines lim line previous raws = .ok events →
    events.Pairwise (fun e e' => e.timestampMs ≤ e'.timestampMs) ∧
      ∀ p ∈ previous, ∀ e ∈ events, p ≤ e.timestampMs := by
  induction raws with
  | nil =>
    intro line previous events h
    cases h
    exact ⟨List.Pairwise.nil, by simp⟩
  | cons raw rest ih =>
    intro line previous events h
    unfold parseLines at h
    split at h
    · exact ih h
    · simp only [bind_eq_ok, pure_eq_ok] at h
      obtain ⟨e, he, events, hrest, rfl⟩ := h
      obtain ⟨hpairs, hfirst⟩ := ih hrest
      have hnext : ∀ e' ∈ events, e.timestampMs ≤ e'.timestampMs := hfirst e.timestampMs rfl
      refine ⟨List.pairwise_cons.mpr ⟨hnext, hpairs⟩, ?_⟩
      intro p hp e' he'
      have hpe := parseLine_previous he p hp
      rcases List.mem_cons.mp he' with rfl | he'
      · exact hpe
      · exact hpe.trans (hnext e' he')

/-- Every event of a log comes from one of its lines. -/
theorem mem_parseLines {lim : IntLimit} {raws : List PyStr} : ∀ {line : Nat}
    {previous : Option Int} {events : List ApplicationLogEvent},
    parseLines lim line previous raws = .ok events → ∀ e ∈ events,
      ∃ line previous raw, parseLine lim line previous raw = .ok e := by
  induction raws with
  | nil =>
    intro line previous events h
    cases h
    simp
  | cons raw rest ih =>
    intro line previous events h
    unfold parseLines at h
    split at h
    · exact ih h
    · simp only [bind_eq_ok, pure_eq_ok] at h
      obtain ⟨e, he, events, hrest, rfl⟩ := h
      rw [List.forall_mem_cons]
      exact ⟨⟨_, _, _, he⟩, ih hrest⟩

theorem parseLine_line {lim : IntLimit} {line : Nat} {previous : Option Int} {raw : PyStr}
    {e : ApplicationLogEvent} (h : parseLine lim line previous raw = .ok e) : e.line = line := by
  unfold parseLine at h
  split at h
  · cases h
  · cases h
  · unfold parseRecord at h
    split at h
    · simp only [bind_eq_ok, pure_eq_ok] at h
      obtain ⟨_, -, _, -, _, -, rfl⟩ := h
      rfl
    · cases h

/-- The events stand on lines of their own. -/
theorem length_parseLines_le {lim : IntLimit} {raws : List PyStr} : ∀ {line : Nat}
    {previous : Option Int} {events : List ApplicationLogEvent},
    parseLines lim line previous raws = .ok events →
    ∀ e ∈ events.getLast?, line + events.length ≤ e.line + 1 := by
  induction raws with
  | nil =>
    intro line previous events h
    cases h
    simp
  | cons raw rest ih =>
    intro line previous events h e he
    unfold parseLines at h
    split at h
    · have := ih h e he
      omega
    · simp only [bind_eq_ok, pure_eq_ok] at h
      obtain ⟨first, hfirst, events, hrest, rfl⟩ := h
      cases events with
      | nil =>
        cases he
        show line + 1 ≤ first.line + 1
        rw [parseLine_line hfirst]
      | cons second events =>
        have := ih hrest e (by simpa using he)
        simp only [List.length_cons] at this ⊢
        omega

/-- What is returned for a log is its segmentation. -/
theorem calculateRecoveryMetrics_segmentation {lim : IntLimit} {text : PyStr}
    {events : List ApplicationLogEvent} {m : RecoveryMetrics}
    (h : parseApplicationLog lim text = .ok events)
    (hm : calculateRecoveryMetrics events = .ok m) : Segmentation events m := by
  obtain ⟨t, hfold, rfl⟩ := map_eq_ok hm
  obtain ⟨htracked, -, hordered⟩ := (tracker_run events).1 t hfold
  have hsorted := hordered (parseLines_ordered h).1
  refine ⟨htracked.length, ?_, hsorted.latency, hsorted.apart, htracked.retries, ?_,
    htracked.eio, htracked.firstError, rfl, rfl⟩
  · intro before s after hcut hs
    obtain ⟨w, hw, hof⟩ := htracked.window before s after hcut hs
    refine ⟨w, hw, hof, ?_⟩
    obtain ⟨r, hr, -⟩ := hof.first
    rw [hof.observed]
    exact List.countP_pos_iff.mpr ⟨r, List.mem_of_find?_eq_some hr, List.find?_some hr⟩
  · rw [← htracked.active]
    exact htracked.total

/-- The element behind `n` others of its kind. -/
theorem exists_cut_of_countP {α : Type} {p : α → Bool} {l : List α} {n : Nat}
    (h : n < l.countP p) : ∃ before a after, l = before ++ a :: after ∧ p a = true ∧
      before.countP p = n := by
  induction l generalizing n with
  | nil => cases h
  | cons a l ih =>
    by_cases ha : p a = true
    · cases n with
      | zero => exact ⟨[], a, l, rfl, ha, rfl⟩
      | succ n =>
        rw [List.countP_cons_of_pos ha] at h
        obtain ⟨before, b, after, rfl, hb, hcount⟩ := ih (Nat.lt_of_succ_lt_succ h)
        exact ⟨a :: before, b, after, rfl, hb, by rw [List.countP_cons_of_pos ha, hcount]⟩
    · rw [List.countP_cons_of_neg ha] at h
      obtain ⟨before, b, after, rfl, hb, hcount⟩ := ih h
      exact ⟨a :: before, b, after, rfl, hb, by rw [List.countP_cons_of_neg ha, hcount]⟩

/-- Every window belongs to a recovery. -/
theorem Segmentation.window_of_mem {events : List ApplicationLogEvent} {m : RecoveryMetrics}
    (h : Segmentation events m) {w : RecoveryWindow} (hw : w ∈ m.recoveries) :
    ∃ before s after, events = before ++ s :: after ∧ WindowOf before s w := by
  obtain ⟨n, hn, rfl⟩ := List.mem_iff_getElem.mp hw
  obtain ⟨before, s, after, hcut, hs, hcount⟩ := exists_cut_of_countP (h.length ▸ hn)
  obtain ⟨w', hw', hof, -⟩ := h.window before s after hcut (by simpa using hs)
  rw [hcount, List.getElem?_eq_getElem hn] at hw'
  cases hw'
  exact ⟨before, s, after, hcut, hof⟩

/-- **The recovery metrics are the declarative segmentation** of every accepted
log: the calculation raises iff some event is refused, naming the line of the
first; otherwise its windows, counts and summary are those of the segmentation. -/
theorem recovery_metrics_segmentation {lim : IntLimit} {text : PyStr}
    {events : List ApplicationLogEvent} (h : parseApplicationLog lim text = .ok events) :
    ((∃ err, calculateRecoveryMetrics events = .error err) ↔
      ∃ before e after, events = before ++ e :: after ∧ Offends before e) ∧
    (∀ err, calculateRecoveryMetrics events = .error err →
      ∃ e message, FirstOffence events e ∧ err = .applicationLogError e.line message) ∧
    ∀ m, calculateRecoveryMetrics events = .ok m → Segmentation events m := by
  obtain ⟨hok, herror⟩ := tracker_run events
  unfold calculateRecoveryMetrics
  cases hfold : events.foldlM Tracker.step {} with
  | error err =>
    obtain ⟨e, text, hfirst, rfl⟩ := herror err hfold
    refine ⟨iff_of_true ⟨_, rfl⟩ ?_, ?_, ?_⟩
    · obtain ⟨before, after, hcut, hoff, -⟩ := hfirst
      exact ⟨before, e, after, hcut, hoff⟩
    · intro err' herr'
      cases herr'
      exact ⟨e, _, hfirst, rfl⟩
    · intro m hm
      cases hm
  | ok t =>
    obtain ⟨-, hno, -⟩ := hok t hfold
    refine ⟨iff_of_false ?_ ?_, ?_, ?_⟩
    · intro herr
      obtain ⟨err, herr⟩ := herr
      cases herr
    · intro hoff
      obtain ⟨before, e, after, hcut, hoff⟩ := hoff
      exact hno before e after hcut hoff
    · intro err herr
      cases herr
    · intro m hm
      exact calculateRecoveryMetrics_segmentation h (by rw [calculateRecoveryMetrics, hfold, hm])

/-- A window, and a retry that nothing recovers from. -/
def unfinishedLog : PyStr :=
  py "\x7b\"timestamp_ms\":10,\"event\":\"READ_RETRY\",\"retry\":1,\"errno\":5\x7d\n" ++
  py "\x7b\"timestamp_ms\":30,\"event\":\"RECOVERY_SUCCESS\",\"retries\":1\x7d\n" ++
  py "\x7b\"timestamp_ms\":40,\"event\":\"READ_RETRY\",\"retry\":1,\"errno\":19\x7d\n"

theorem recovery_metrics_segmentation_unfinished : ∃ events m,
    parseApplicationLog defaultIntLimit unfinishedLog = .ok events ∧
    calculateRecoveryMetrics events = .ok m ∧ Segmentation events m ∧
    m = ⟨1, 2, [⟨10, 30, 20, 1, 1⟩], some 10, some 30, some 20⟩ := by
  have hm : (parseApplicationLog defaultIntLimit unfinishedLog).toOption.bind
      (fun events => (calculateRecoveryMetrics events).toOption) =
      some ⟨1, 2, [⟨10, 30, 20, 1, 1⟩], some 10, some 30, some 20⟩ := by
    decide +kernel
  cases hparse : parseApplicationLog defaultIntLimit unfinishedLog with
  | error err =>
    rw [hparse] at hm
    cases hm
  | ok events =>
    rw [hparse] at hm
    cases hcalc : calculateRecoveryMetrics events with
    | error err =>
      simp [Except.toOption, hcalc] at hm
    | ok m =>
      simp only [Except.toOption, Option.bind_some, hcalc, Option.some.injEq] at hm
      exact ⟨events, m, rfl, hcalc, (recovery_metrics_segmentation hparse).2.2 m hcalc, hm⟩

end VDevLab.Analysis
