import VDevLab.Analysis.Log
import VDevLab.Lib.Lts

/-!
# Retries and recoveries, declaratively

What the recovery metrics are about, said of the list of events and not of
the loop that walks it: which retry opens a recovery that is still awaited,
which recoveries were completed, and when the events of the two kinds are
well formed. The tracker of `calculate_recovery_metrics` agrees with it
event by event.
-/

namespace VDevLab.Analysis

open Check PyStr

/-! ## The segmentation -/

def ApplicationLogEvent.IsRetry (e : ApplicationLogEvent) : Prop := e.event = py "READ_RETRY"

def ApplicationLogEvent.IsRecovery (e : ApplicationLogEvent) : Prop :=
  e.event = py "RECOVERY_SUCCESS"

/-- The event carries a non-negative integer under the key. -/
def ApplicationLogEvent.HasNumber (e : ApplicationLogEvent) (key : String) : Prop :=
  ∃ n : Nat, e.fields.get? (py key) = some (.int n)

/-- Every retry is followed by a recovery. -/
def Settled (events : List ApplicationLogEvent) : Prop :=
  ∀ before e after, events = before ++ e :: after → e.IsRetry → ∃ s ∈ after, s.IsRecovery

/-- `r` is the first retry since the last recovery. -/
def Pending (events : List ApplicationLogEvent) (r : ApplicationLogEvent) : Prop :=
  ∃ before after, events = before ++ r :: after ∧ Settled before ∧ r.IsRetry ∧
    ∀ e ∈ after, ¬ e.IsRecovery

/-- The recovery `s` completes what the retry `r` began. -/
def Completed (events : List ApplicationLogEvent) (r s : ApplicationLogEvent) : Prop :=
  ∃ before after, events = before ++ s :: after ∧ s.IsRecovery ∧ Pending before r

/-- Every retry and every recovery has its numbers, and no recovery comes
without a retry since the one before. -/
def WellFormed (events : List ApplicationLogEvent) : Prop :=
  ∀ before e after, events = before ++ e :: after →
    (e.IsRetry → e.HasNumber "errno" ∧ e.HasNumber "retry") ∧
    (e.IsRecovery → e.HasNumber "retries" ∧ ¬ Settled before)

theorem ApplicationLogEvent.IsRetry.not_isRecovery {e : ApplicationLogEvent} (h : e.IsRetry) :
    ¬ e.IsRecovery := by
  intro h'
  exact absurd (h.symm.trans h') (by decide)

/-! ## One event more -/

theorem settled_nil : Settled [] := by
  intro before e after h
  simp at h

theorem settled_concat {l : List ApplicationLogEvent} {e : ApplicationLogEvent} :
    Settled (l ++ [e]) ↔ e.IsRecovery ∨ (¬ e.IsRetry ∧ Settled l) := by
  constructor
  · intro h
    by_cases hs : e.IsRecovery
    · exact .inl hs
    · refine .inr ⟨?_, ?_⟩
      · intro hr
        obtain ⟨s, hs, -⟩ := h l e [] rfl hr
        cases hs
      · intro before r after hl hr
        obtain ⟨s, hmem, hrec⟩ := h before r (after ++ [e]) (by simp [hl]) hr
        rcases List.mem_append.mp hmem with hmem | hmem
        · exact ⟨s, hmem, hrec⟩
        · exact absurd (List.mem_singleton.mp hmem ▸ hrec) hs
  · intro h before r after hl hr
    rcases Lts.concat_eq_cut.mp hl with ⟨rfl, rfl, rfl⟩ | ⟨after', rfl, hl'⟩
    · rcases h with hs | ⟨hn, -⟩
      · exact absurd hs hr.not_isRecovery
      · exact absurd hr hn
    · rcases h with hs | ⟨-, hset⟩
      · exact ⟨e, by simp, hs⟩
      · obtain ⟨s, hmem, hrec⟩ := hset before r after' hl' hr
        exact ⟨s, List.mem_append_left _ hmem, hrec⟩

theorem pending_concat {l : List ApplicationLogEvent} {e r : ApplicationLogEvent} :
    Pending (l ++ [e]) r ↔
      ¬ e.IsRecovery ∧ (Pending l r ∨ (Settled l ∧ e.IsRetry ∧ r = e)) := by
  constructor
  · intro h
    obtain ⟨before, after, hl, hset, hr, hafter⟩ := h
    rcases Lts.concat_eq_cut.mp hl with ⟨rfl, rfl, rfl⟩ | ⟨after', rfl, hl'⟩
    · exact ⟨hr.not_isRecovery, .inr ⟨hset, hr, rfl⟩⟩
    · refine ⟨hafter e (by simp), .inl ⟨before, after', hl', hset, hr, ?_⟩⟩
      intro s hs
      exact hafter s (List.mem_append_left _ hs)
  · intro h
    obtain ⟨hne, ⟨before, after, rfl, hset, hr, hafter⟩ | ⟨hset, hr, rfl⟩⟩ := h
    · refine ⟨before, after ++ [e], by simp, hset, hr, ?_⟩
      intro s hs
      rcases List.mem_append.mp hs with hs | hs
      · exact hafter s hs
      · rw [List.mem_singleton.mp hs]
        exact hne
    · exact ⟨l, [], rfl, hset, hr, by simp⟩

theorem completed_concat {l : List ApplicationLogEvent} {e r s : ApplicationLogEvent} :
    Completed (l ++ [e]) r s ↔ Completed l r s ∨ (e.IsRecovery ∧ s = e ∧ Pending l r) := by
  constructor
  · intro h
    obtain ⟨before, after, hl, hs, hp⟩ := h
    rcases Lts.concat_eq_cut.mp hl with ⟨rfl, rfl, rfl⟩ | ⟨after', rfl, hl'⟩
    · exact .inr ⟨hs, rfl, hp⟩
    · exact .inl ⟨before, after', hl', hs, hp⟩
  · intro h
    rcases h with ⟨before, after, rfl, hs, hp⟩ | ⟨hs, rfl, hp⟩
    · exact ⟨before, after ++ [e], by simp, hs, hp⟩
    · exact ⟨l, [], rfl, hs, hp⟩

theorem wellFormed_concat {l : List ApplicationLogEvent} {e : ApplicationLogEvent} :
    WellFormed (l ++ [e]) ↔ WellFormed l ∧
      (e.IsRetry → e.HasNumber "errno" ∧ e.HasNumber "retry") ∧
      (e.IsRecovery → e.HasNumber "retries" ∧ ¬ Settled l) := by
  constructor
  · intro h
    refine ⟨?_, h l e [] rfl⟩
    intro before e' after hl
    exact h before e' (after ++ [e]) (by simp [hl])
  · rintro ⟨hl, he⟩ before e' after hcut
    rcases Lts.concat_eq_cut.mp hcut with ⟨rfl, rfl, rfl⟩ | ⟨after', rfl, hl'⟩
    · exact he
    · exact hl before e' after' hl'

/-! ## The tracker -/

/-- What the tracker's variables say about the events so far. -/
structure Tracks (events : List ApplicationLogEvent) (t : Tracker) : Prop where
  settled : t.firstErrorTimestampMs = none ↔ Settled events
  pending : ∀ first, t.firstErrorTimestampMs = some first ↔
    ∃ r, Pending events r ∧ r.timestampMs = first
  completed : ∀ latency, latency ∈ t.recoveries.map (·.recoveryLatencyMs) ↔
    ∃ r s, Completed events r s ∧ latency = s.timestampMs - r.timestampMs

theorem Tracks.nil : Tracks [] {} where
  settled := iff_of_true rfl settled_nil
  pending := by simp [Pending]
  completed := by simp [Completed]

theorem requireNonnegativeInteger_eq_ok {v : PyValue} {line : Nat} {field : String} {n : Int} :
    requireNonnegativeInteger v line field = .ok n ↔ v = .int n ∧ 0 ≤ n := by
  cases v with
  | int m =>
    simp only [requireNonnegativeInteger, ite_error_eq_ok, Except.ok.injEq, PyValue.int.injEq]
    constructor
    · intro h
      obtain ⟨hm, rfl⟩ := h
      exact ⟨rfl, by omega⟩
    · intro h
      obtain ⟨rfl, hm⟩ := h
      exact ⟨by omega, rfl⟩
  | _ => simp [requireNonnegativeInteger]

/-- A field passes the check iff it is there with a non-negative integer. -/
theorem requireNonnegativeInteger_getOrNone {d : PyDict} {line : Nat} {key : String} {n : Int} :
    requireNonnegativeInteger (getOrNone d key) line key = .ok n ↔
      ∃ m : Nat, d.get? (py key) = some (.int m) ∧ n = m := by
  rw [requireNonnegativeInteger_eq_ok, getOrNone]
  constructor
  · intro h
    obtain ⟨hv, hn⟩ := h
    cases hget : d.get? (py key) with
    | none => rw [hget] at hv; cases hv
    | some v =>
      rw [hget, Option.getD_some] at hv
      exact ⟨n.toNat, by rw [hv, Int.toNat_of_nonneg hn], by omega⟩
  · intro h
    obtain ⟨m, hget, rfl⟩ := h
    exact ⟨by rw [hget, Option.getD_some], by omega⟩

/-- What a step of the tracker can do. -/
theorem Tracker.step_eq_ok {t t' : Tracker} {e : ApplicationLogEvent} :
    t.step e = .ok t' ↔
      (e.IsRetry ∧ e.HasNumber "retry" ∧ ∃ errno : Nat,
        e.fields.get? (py "errno") = some (.int errno) ∧ t' = t.countRetry errno e.timestampMs) ∨
      (e.IsRecovery ∧ ∃ (reported : Nat) (first : Int),
        e.fields.get? (py "retries") = some (.int reported) ∧
        t.firstErrorTimestampMs = some first ∧ t' = t.closeWindow first reported e.timestampMs) ∨
      (¬ e.IsRetry ∧ ¬ e.IsRecovery ∧ t' = t) := by
  by_cases hr : e.IsRetry
  · have hs := hr.not_isRecovery
    have hstep : t.step e = t.readRetry e := if_pos hr
    rw [hstep]
    simp only [hr, hs, Tracker.readRetry, bind_eq_ok, pure_eq_ok, requireNonnegativeInteger_getOrNone,
      not_true_eq_false, false_and, or_false, true_and]
    constructor
    · intro h
      obtain ⟨_, ⟨n, hn, rfl⟩, _, ⟨m, hm, -⟩, rfl⟩ := h
      exact ⟨⟨m, hm⟩, n, hn, rfl⟩
    · intro h
      obtain ⟨⟨m, hm⟩, n, hn, rfl⟩ := h
      exact ⟨n, ⟨n, hn, rfl⟩, m, ⟨m, hm, rfl⟩, rfl⟩
  · by_cases hs : e.IsRecovery
    · have hstep : t.step e = t.recoverySuccess e := (if_neg hr).trans (if_pos hs)
      rw [hstep]
      simp only [hr, hs, Tracker.recoverySuccess, bind_eq_ok, requireNonnegativeInteger_getOrNone,
        not_true_eq_false, false_and, and_false, or_false, true_and, false_or]
      constructor
      · intro h
        obtain ⟨_, ⟨n, hn, rfl⟩, h⟩ := h
        cases hfirst : t.firstErrorTimestampMs with
        | none => rw [hfirst] at h; cases h
        | some first =>
          rw [hfirst] at h
          exact ⟨n, first, hn, rfl, (pure_eq_ok.mp h).symm⟩
      · intro h
        obtain ⟨n, first, hn, hfirst, rfl⟩ := h
        refine ⟨n, ⟨n, hn, rfl⟩, ?_⟩
        rw [hfirst]
        rfl
    · have hstep : t.step e = .ok t := (if_neg hr).trans (if_neg hs)
      rw [hstep]
      simp [hr, hs, eq_comm]

theorem Tracks.concat {events : List ApplicationLogEvent} {t t' : Tracker}
    {e : ApplicationLogEvent} (h : Tracks events t) (hstep : t.step e = .ok t') :
    Tracks (events ++ [e]) t' := by
  rcases Tracker.step_eq_ok.mp hstep with
    ⟨hr, -, errno, -, rfl⟩ | ⟨hs, reported, first, -, hfirst, rfl⟩ | ⟨hr, hs, rfl⟩
  · have hs := hr.not_isRecovery
    refine ⟨?_, ?_, ?_⟩
    · simp [Tracker.countRetry, settled_concat, hr, hs]
    · intro first
      cases hf : t.firstErrorTimestampMs with
      | none =>
        -- the retry opens a window, as nothing was awaited before
        have hset := h.settled.mp hf
        have hnone : ∀ r, ¬ Pending events r := by
          intro r hr
          have := (h.pending _).mpr ⟨r, hr, rfl⟩
          rw [hf] at this
          cases this
        simp [Tracker.countRetry, hf, pending_concat, hs, hset, hr, hnone]
      | some first' =>
        -- the window stays open from its first retry on
        have hset : ¬ Settled events := by
          rw [← h.settled, hf]
          simp
        rw [Tracker.countRetry, hf, Option.some_or, ← hf, h.pending first]
        simp [pending_concat, hs, hset]
    · intro latency
      simpa [Tracker.countRetry, completed_concat, hs] using h.completed latency
  · have hr : ¬ e.IsRetry := fun hr => hr.not_isRecovery hs
    refine ⟨?_, ?_, ?_⟩
    · simp [Tracker.closeWindow, settled_concat, hs]
    · simp [Tracker.closeWindow, pending_concat, hs]
    · intro latency
      -- the recovery completes the retry that opened the window
      obtain ⟨r, hp, hrfirst⟩ := (h.pending first).mp hfirst
      simp only [Tracker.closeWindow, List.map_append, List.map_cons, List.map_nil,
        List.mem_append, List.mem_singleton, h.completed latency, completed_concat, hs, true_and]
      constructor
      · intro h
        rcases h with ⟨r', s, hc, rfl⟩ | rfl
        · exact ⟨r', s, .inl hc, rfl⟩
        · exact ⟨r, e, .inr ⟨rfl, hp⟩, by rw [hrfirst]⟩
      · intro h
        obtain ⟨r', s, hc | ⟨rfl, hp'⟩, rfl⟩ := h
        · exact .inl ⟨r', s, hc, rfl⟩
        · have := (h.pending _).mpr ⟨r', hp', rfl⟩
          rw [hfirst] at this
          exact .inr (by rw [Option.some.inj this])
  · refine ⟨?_, ?_, ?_⟩
    · simp [settled_concat, hr, hs, h.settled]
    · simp [pending_concat, hr, hs, h.pending]
    · simp [completed_concat, hs, h.completed]

/-- The fold succeeds exactly on well-formed events, and keeps track of them. -/
theorem tracker_fold (events : List ApplicationLogEvent) :
    ((∃ t, events.foldlM Tracker.step {} = .ok t) ↔ WellFormed events) ∧
      ∀ t, events.foldlM Tracker.step {} = .ok t → Tracks events t := by
  induction events using List.reverseRecOn with
  | nil =>
    refine ⟨iff_of_true ⟨{}, rfl⟩ ?_, ?_⟩
    · intro before e after h
      simp at h
    · intro t ht
      cases ht
      exact Tracks.nil
  -- from the end: the tracker has read all events but the last
  | append_singleton events e ih =>
    obtain ⟨hok, htracks⟩ := ih
    have hfold : ∀ t', (events ++ [e]).foldlM Tracker.step {} = .ok t' ↔
        ∃ t, events.foldlM Tracker.step {} = .ok t ∧ t.step e = .ok t' := by
      intro t'
      simp [List.foldlM_append, bind_eq_ok]
    refine ⟨?_, ?_⟩
    · rw [wellFormed_concat, ← hok]
      simp only [hfold]
      constructor
      · intro h
        obtain ⟨t', t, ht, hstep⟩ := h
        refine ⟨⟨t, ht⟩, ?_⟩
        rcases Tracker.step_eq_ok.mp hstep with
          ⟨hr, hretry, errno, herrno, -⟩ | ⟨hs, reported, first, hrep, hfirst, -⟩ | ⟨hr, hs, -⟩
        · exact ⟨fun _ => ⟨⟨errno, herrno⟩, hretry⟩, fun hs => absurd hs hr.not_isRecovery⟩
        · refine ⟨fun hr => absurd hs hr.not_isRecovery, fun _ => ⟨⟨reported, hrep⟩, ?_⟩⟩
          -- an open window is what the recovery needs before it
          rw [← (htracks t ht).settled, hfirst]
          simp
        · exact ⟨fun h => absurd h hr, fun h => absurd h hs⟩
      · intro h
        obtain ⟨⟨t, ht⟩, hretry, hrecovery⟩ := h
        simp only [Tracker.step_eq_ok]
        by_cases hr : e.IsRetry
        · obtain ⟨⟨errno, herrno⟩, hnum⟩ := hretry hr
          exact ⟨_, t, ht, .inl ⟨hr, hnum, errno, herrno, rfl⟩⟩
        · by_cases hs : e.IsRecovery
          · obtain ⟨⟨reported, hrep⟩, hset⟩ := hrecovery hs
            rw [← (htracks t ht).settled] at hset
            obtain ⟨first, hfirst⟩ := Option.ne_none_iff_exists'.mp hset
            exact ⟨_, t, ht, .inr (.inl ⟨hs, reported, first, hrep, hfirst, rfl⟩)⟩
          · exact ⟨t, t, ht, .inr (.inr ⟨hr, hs, rfl⟩)⟩
    · intro t' ht'
      obtain ⟨t, ht, hstep⟩ := (hfold t').mp ht'
      exact (htracks t ht).concat hstep

theorem calculateRecoveryMetrics_isOk (events : List ApplicationLogEvent) :
    (∃ m, calculateRecoveryMetrics events = .ok m) ↔ WellFormed events := by
  rw [← (tracker_fold events).1]
  unfold calculateRecoveryMetrics
  cases events.foldlM Tracker.step {} <;> simp [Except.map]

/-- The latencies of the metrics are those of the completed recoveries. -/
theorem mem_latencies {events : List ApplicationLogEvent} {m : RecoveryMetrics}
    (h : calculateRecoveryMetrics events = .ok m) (latency : Int) :
    latency ∈ m.recoveries.map (·.recoveryLatencyMs) ↔
      ∃ r s, Completed events r s ∧ latency = s.timestampMs - r.timestampMs := by
  unfold calculateRecoveryMetrics at h
  cases ht : events.foldlM Tracker.step {} with
  | error e => rw [ht] at h; cases h
  | ok t =>
    rw [ht] at h
    cases h
    exact ((tracker_fold events).2 t ht).completed latency

end VDevLab.Analysis
