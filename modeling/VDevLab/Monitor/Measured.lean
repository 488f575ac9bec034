import VDevLab.Monitor.EndToEnd
import VDevLab.Report.Verdict

/-!
# Injected errors in the verdict

From the device to the report: what `calculate_recovery_metrics` and the
event assertions make of the monitor's output, in terms of the occurrences
that the kernel handed out. An assertion on the number of retries passes
exactly when it names that number, up to the monitor's three.
-/

namespace VDevLab.Monitor

open Analysis Check PyStr Report
open Kernel (Sys eioReturns)

/-! ## The tracker on the log of one phase -/

theorem LogLine.Calm.neutral {l : LogLine} (h : l.Calm) : l.Neutral := by
  cases l with
  | retry n => exact h.elim
  | recovery n => exact h.elim
  | _ => trivial

/-- The tracker goes over one part of the log and then over the rest. -/
theorem foldlM_entries_append {clock : Nat → Timespec} {i : Nat} {ls ls' : List LogLine}
    {t t' u : Tracker} (h : (entriesFrom clock i ls).foldlM Tracker.step t = .ok t')
    (h' : (entriesFrom clock (i + ls.length) ls').foldlM Tracker.step t' = .ok u) :
    (entriesFrom clock i (ls ++ ls')).foldlM Tracker.step t = .ok u := by
  rw [entriesFrom_append, List.foldlM_append, h]
  exact h'

theorem foldlM_entries_singleton {clock : Nat → Timespec} {i : Nat} {l : LogLine} {t t' : Tracker}
    (h : t.step (entry (i + 1) (clock i) l) = .ok t') :
    (entriesFrom clock i [l]).foldlM Tracker.step t = .ok t' := by
  rw [entriesFrom, List.foldlM_cons, h]
  rfl

/-- The tracker behind `h` retries, the first at the given reading. -/
def Tracker.afterRetries (clock : Nat → Timespec) (i : Nat) (t : Tracker) : Nat → Tracker
  | 0 => t
  | h + 1 => (afterRetries clock i t h).countRetry 5 (monotonicMilliseconds (clock (i + h)))

section Retries

variable (clock : Nat → Timespec) (i : Nat) (t : Tracker) (h : Nat)

theorem length_retryLines : (retryLines h).length = h := by
  simp [retryLines]

theorem foldlM_retryLines :
    (entriesFrom clock i (retryLines h)).foldlM Tracker.step t =
      .ok (Tracker.afterRetries clock i t h) := by
  induction h with
  | zero => rfl
  | succ h ih =>
    rw [retryLines_succ]
    apply foldlM_entries_append ih
    rw [length_retryLines]
    exact foldlM_entries_singleton (step_retry _ _ _ _)

theorem afterRetries_counts :
    (Tracker.afterRetries clock i t h).observedEioCount = t.observedEioCount + h ∧
    (Tracker.afterRetries clock i t h).applicationRetryCount = t.applicationRetryCount + h ∧
    (Tracker.afterRetries clock i t h).activeRetryCount = t.activeRetryCount + h ∧
    (Tracker.afterRetries clock i t h).recoveries = t.recoveries := by
  induction h with
  | zero => exact ⟨rfl, rfl, rfl, rfl⟩
  | succ h ih =>
    obtain ⟨h1, h2, h3, h4⟩ := ih
    simp only [Tracker.afterRetries, Tracker.countRetry, h1, h2, h3, h4]
    exact ⟨by simp [Nat.add_assoc], by omega, by omega, trivial⟩

theorem afterRetries_first (hpos : h ≠ 0) (ht : t.firstErrorTimestampMs = none) :
    (Tracker.afterRetries clock i t h).firstErrorTimestampMs =
      some (monotonicMilliseconds (clock i) : Int) := by
  induction h with
  | zero => exact absurd rfl hpos
  | succ h ih =>
    simp only [Tracker.afterRetries, Tracker.countRetry]
    by_cases h0 : h = 0
    · subst h0
      rw [Tracker.afterRetries, ht]
      rfl
    · rw [ih h0]
      rfl

end Retries

/-- What the metrics say of `h` consumed occurrences out of `n`. -/
structure Measured (n h : Nat) (m : RecoveryMetrics) : Prop where
  eio : m.observedEioCount = min h 3
  retries : m.applicationRetryCount = min h 3
  windows : m.recoveries = [] ∨ h = n ∧ n ≤ 3 ∧ ∃ w, m.recoveries = [w] ∧
    w.observedRetries = n ∧ w.reportedRetries = n ∧ 0 ≤ w.recoveryLatencyMs

theorem monotonic_le {clock : Nat → Timespec} (hclock : ∀ i, (clock i).Le (clock (i + 1)))
    (i k : Nat) : monotonicMilliseconds (clock i) ≤ monotonicMilliseconds (clock (i + k)) := by
  induction k with
  | zero => exact le_rfl
  | succ k ih => exact ih.trans (hclock (i + k)).milliseconds

theorem Shape.measured {n h : Nat} {c : Client} (hs : Shape n h c) (hn : n ≠ 0)
    {clock : Nat → Timespec} (hclock : ∀ i, (clock i).Le (clock (i + 1))) :
    ∃ m, calculateRecoveryMetrics (entriesFrom clock 0 c.log) = .ok m ∧ Measured n h m ∧
      (m.recoveries ≠ [] ↔ .recovery n ∈ c.log) := by
  have hcalm : ∀ {ls : List LogLine}, (∀ l ∈ ls, l.Calm) → .recovery n ∉ ls :=
    fun hall hmem => hall _ hmem
  have hretry : ∀ k, .recovery n ∉ retryLines k := by
    intro k hmem
    obtain ⟨r, hr⟩ := retryLines_eq hmem
    cases hr
  cases hs with
  | @counting p hle heq hpre hl =>
    have hfold : (entriesFrom clock 0 c.log).foldlM Tracker.step {} =
        .ok (Tracker.afterRetries clock (0 + p.length) {} h) := by
      rw [hl]
      apply foldlM_entries_append (foldlM_neutral clock {} (fun l hl => (hpre l hl).neutral) 0)
      exact foldlM_retryLines clock _ {} h
    obtain ⟨h1, h2, -, h4⟩ := afterRetries_counts clock (0 + p.length) {} h
    refine ⟨_, by rw [calculateRecoveryMetrics, hfold]; rfl, ⟨?_, ?_, .inl h4⟩, ?_⟩
    · show (Tracker.afterRetries _ _ _ _).observedEioCount = _
      rw [h1]
      show 0 + h = _
      omega
    · show (Tracker.afterRetries _ _ _ _).applicationRetryCount = _
      rw [h2]
      show 0 + h = _
      omega
    · show (Tracker.afterRetries _ _ _ _).recoveries ≠ [] ↔ _
      rw [h4]
      simp [hl, hcalm hpre, hretry]
  | @gaveUp p heq _ hpre hl =>
    have hfold : (entriesFrom clock 0 c.log).foldlM Tracker.step {} =
        .ok (Tracker.afterRetries clock (0 + p.length) {} 3) := by
      rw [hl, List.append_assoc]
      apply foldlM_entries_append (foldlM_neutral clock {} (fun l hl => (hpre l hl).neutral) 0)
      apply foldlM_entries_append (foldlM_retryLines clock _ {} 3)
      have hneutral : (LogLine.errno .readFailed EIO).Neutral := trivial
      exact foldlM_entries_singleton (step_neutral _ hneutral _ _)
    obtain ⟨h1, h2, -, h4⟩ := afterRetries_counts clock (0 + p.length) {} 3
    refine ⟨_, by rw [calculateRecoveryMetrics, hfold]; rfl, ⟨?_, ?_, .inl h4⟩, ?_⟩
    · show (Tracker.afterRetries _ _ _ _).observedEioCount = _
      rw [h1, heq]
      rfl
    · show (Tracker.afterRetries _ _ _ _).applicationRetryCount = _
      rw [h2, heq]
      rfl
    · show (Tracker.afterRetries _ _ _ _).recoveries ≠ [] ↔ _
      rw [h4]
      simp [hl, hcalm hpre, hretry]
  | @recovered p q heq hle _ hpre hpost hl =>
    obtain ⟨h1, h2, h3, h4⟩ := afterRetries_counts clock (0 + p.length) {} n
    have hfirst := afterRetries_first clock (0 + p.length) {} n hn rfl
    have hfold : (entriesFrom clock 0 c.log).foldlM Tracker.step {} =
        .ok ((Tracker.afterRetries clock (0 + p.length) {} n).closeWindow
          (monotonicMilliseconds (clock (0 + p.length)))
          n (monotonicMilliseconds (clock (0 + p.length + n)))) := by
      rw [hl, List.append_assoc, ← List.singleton_append]
      apply foldlM_entries_append (foldlM_neutral clock {} (fun l hl => (hpre l hl).neutral) 0)
      apply foldlM_entries_append (foldlM_retryLines clock _ {} n)
      rw [length_retryLines]
      apply foldlM_entries_append (foldlM_entries_singleton (step_recovery hfirst _ _ _))
      exact foldlM_neutral clock _ (fun l hl => (hpost l hl).neutral) _
    have hle' := monotonic_le hclock (0 + p.length) n
    refine ⟨_, by rw [calculateRecoveryMetrics, hfold]; rfl, ⟨?_, ?_, .inr ⟨heq, hle, ?_⟩⟩, ?_⟩
    · show (Tracker.afterRetries _ _ _ _).observedEioCount = _
      rw [h1, heq]
      show 0 + n = _
      omega
    · show (Tracker.afterRetries _ _ _ _).applicationRetryCount = _
      rw [h2, heq]
      show 0 + n = _
      omega
    · refine ⟨{
          firstErrorTimestampMs := monotonicMilliseconds (clock (0 + p.length))
          recoveryTimestampMs := monotonicMilliseconds (clock (0 + p.length + n))
          recoveryLatencyMs := (monotonicMilliseconds (clock (0 + p.length + n)) : Int) -
            monotonicMilliseconds (clock (0 + p.length))
          observedRetries := (Tracker.afterRetries clock (0 + p.length) {} n).activeRetryCount
          reportedRetries := n }, ?_, ?_, rfl, ?_⟩
      · show (Tracker.afterRetries _ _ _ _).recoveries ++ _ = _
        rw [h4]
        rfl
      · show (Tracker.afterRetries _ _ _ _).activeRetryCount = _
        rw [h3]
        exact Nat.zero_add n
      · show (0 : Int) ≤ _ - _
        omega
    · simp [Tracker.metrics, Tracker.closeWindow, hl]

/-! ## Counting events -/

/-- The events of a log are counted as its lines. -/
theorem countP_entriesFrom (clock : Nat → Timespec) (i : Nat) (log : List LogLine)
    (p : PyStr → Bool) :
    (entriesFrom clock i log).countP (fun e => p e.event) = log.countP fun l => p l.event := by
  induction log generalizing i with
  | nil => rfl
  | cons l log ih =>
    rw [entriesFrom, List.countP_cons, List.countP_cons, ih]
    rfl

/-- The number of events of a name. -/
def eventCount (name : PyStr) (log : List LogLine) : Nat := log.countP fun l => l.event = name

theorem eventCount_append (name : PyStr) (ls ls' : List LogLine) :
    eventCount name (ls ++ ls') = eventCount name ls + eventCount name ls' :=
  List.countP_append

/-- The names that only errors have. -/
def errorNames : List PyStr := [py "READ_RETRY", py "RECOVERY_SUCCESS", py "READ_FAILED"]

theorem eventCount_calm {ls : List LogLine} (h : ∀ l ∈ ls, l.Calm) {name : PyStr}
    (hname : name ∈ errorNames) : eventCount name ls = 0 := by
  rw [eventCount, List.countP_eq_zero]
  intro l hl
  rw [decide_eq_true_eq]
  rintro rfl
  have hcalm := h l hl
  cases l with
  | simple event => cases event <;> revert hname <;> decide
  | errno => exact hcalm
  | retry => exact hcalm
  | recovery => exact hcalm
  | temperature value =>
    rw [LogLine.event, temperatureName] at hname
    split at hname <;> revert hname <;> decide

theorem eventCount_retryLines (name : PyStr) (h : Nat) :
    eventCount name (retryLines h) = if py "READ_RETRY" = name then h else 0 := by
  induction h with
  | zero => simp [retryLines, eventCount]
  | succ h ih =>
    rw [retryLines_succ, eventCount_append, ih]
    by_cases hname : py "READ_RETRY" = name <;> simp [eventCount, LogLine.event, hname]

theorem occurrences_entries (clock : Nat → Timespec) (log : List LogLine) (name : PyStr) :
    occurrences (entriesFrom clock 0 log) name none = eventCount name log := by
  have hcount := countP_entriesFrom clock 0 log fun event => event = name
  simpa [occurrences, eventCount] using hcount

section Counts

variable {n h : Nat} {c : Client}

theorem Shape.count_retry (hs : Shape n h c) : eventCount (py "READ_RETRY") c.log = min h 3 := by
  have hmem : py "READ_RETRY" ∈ errorNames := by decide
  cases hs with
  | @counting p hle _ hpre hl =>
    rw [hl, eventCount_append, eventCount_calm hpre hmem, eventCount_retryLines, if_pos rfl]
    omega
  | @gaveUp p heq _ hpre hl =>
    have hlast : eventCount (py "READ_RETRY") [.errno .readFailed EIO] = 0 := by decide
    rw [hl, eventCount_append, eventCount_append, eventCount_calm hpre hmem,
      eventCount_retryLines, if_pos rfl, hlast, heq]
    rfl
  | @recovered p q heq hle _ hpre hpost hl =>
    have hone : eventCount (py "READ_RETRY") [.recovery n] = 0 := rfl
    rw [hl, ← List.singleton_append, eventCount_append, eventCount_append, eventCount_append,
      eventCount_calm hpre hmem, eventCount_calm hpost hmem, eventCount_retryLines, if_pos rfl,
      hone, heq]
    omega

theorem Shape.count_failed (hs : Shape n h c) :
    eventCount (py "READ_FAILED") c.log = if h = 4 then 1 else 0 := by
  have hmem : py "READ_FAILED" ∈ errorNames := by decide
  have hne : py "READ_RETRY" ≠ py "READ_FAILED" := by decide
  cases hs with
  | @counting p hle _ hpre hl =>
    rw [hl, eventCount_append, eventCount_calm hpre hmem, eventCount_retryLines, if_neg hne,
      if_neg (by omega)]
  | @gaveUp p heq _ hpre hl =>
    have hlast : eventCount (py "READ_FAILED") [.errno .readFailed EIO] = 1 := by decide
    rw [hl, eventCount_append, eventCount_append, eventCount_calm hpre hmem,
      eventCount_retryLines, if_neg hne, hlast, if_pos heq]
  | @recovered p q heq hle _ hpre hpost hl =>
    have hone : eventCount (py "READ_FAILED") [.recovery n] = 0 := rfl
    rw [hl, ← List.singleton_append, eventCount_append, eventCount_append, eventCount_append,
      eventCount_calm hpre hmem, eventCount_calm hpost hmem, eventCount_retryLines, if_neg hne,
      hone, if_neg (by omega)]

open Classical in
theorem Shape.count_recovery (hs : Shape n h c) :
    eventCount (py "RECOVERY_SUCCESS") c.log = if .recovery n ∈ c.log then 1 else 0 := by
  have hmem : py "RECOVERY_SUCCESS" ∈ errorNames := by decide
  have hne : py "READ_RETRY" ≠ py "RECOVERY_SUCCESS" := by decide
  have hcalm : ∀ {ls : List LogLine}, (∀ l ∈ ls, l.Calm) → .recovery n ∉ ls :=
    fun hall hin => hall _ hin
  have hretry : ∀ k, .recovery n ∉ retryLines k := by
    intro k hin
    obtain ⟨r, hr⟩ := retryLines_eq hin
    cases hr
  cases hs with
  | @counting p hle _ hpre hl =>
    have hout : .recovery n ∉ c.log := by simp [hl, hcalm hpre, hretry]
    rw [if_neg hout, hl, eventCount_append, eventCount_calm hpre hmem, eventCount_retryLines,
      if_neg hne]
  | @gaveUp p heq _ hpre hl =>
    have hout : .recovery n ∉ c.log := by simp [hl, hcalm hpre, hretry]
    have hlast : eventCount (py "RECOVERY_SUCCESS") [.errno .readFailed EIO] = 0 := by decide
    rw [if_neg hout, hl, eventCount_append, eventCount_append, eventCount_calm hpre hmem,
      eventCount_retryLines, if_neg hne, hlast]
  | @recovered p q heq hle _ hpre hpost hl =>
    have hin : .recovery n ∈ c.log := by simp [hl]
    have hone : eventCount (py "RECOVERY_SUCCESS") [.recovery n] = 1 := rfl
    rw [if_pos hin, hl, ← List.singleton_append, eventCount_append, eventCount_append,
      eventCount_append, eventCount_calm hpre hmem, eventCount_calm hpost hmem,
      eventCount_retryLines, if_neg hne, hone]

end Counts

/-- The numbers in the log are no larger than the limit. -/
theorem Shape.small {n h : Nat} {c : Client} (hs : Shape n h c) : ∀ l ∈ c.log, l.Small := by
  have hcalm : ∀ {ls : List LogLine}, (∀ l ∈ ls, l.Calm) → ∀ l ∈ ls, l.Small := by
    intro ls hall l hl
    exact (hall l hl).neutral.small
  have hretry : ∀ {k}, k ≤ 3 → ∀ l ∈ retryLines k, l.Small := by
    intro k hk l hl
    obtain ⟨i, hi, rfl⟩ := List.mem_map.mp hl
    have hlt := List.mem_range.mp hi
    show i + 1 ≤ 3
    omega
  intro l hl
  cases hs with
  | counting hle _ hpre hlog =>
    rw [hlog, List.mem_append] at hl
    rcases hl with hl | hl
    · exact hcalm hpre l hl
    · exact hretry hle l hl
  | gaveUp _ _ hpre hlog =>
    rw [hlog, List.mem_append, List.mem_append, List.mem_singleton] at hl
    rcases hl with (hl | hl) | rfl
    · exact hcalm hpre l hl
    · exact hretry le_rfl l hl
    · trivial
  | recovered _ hle _ hpre hpost hlog =>
    rw [hlog, List.mem_append, List.mem_append, List.mem_cons] at hl
    rcases hl with (hl | hl) | rfl | hl
    · exact hcalm hpre l hl
    · exact hretry hle l hl
    · exact hle
    · exact hcalm hpost l hl

/-! ## When the recovery is logged -/

theorem ClientMove.log_begins {c c' : Client} {i : Input} (h : ClientMove c i c') :
    c.log <+: c'.log := by
  cases h with
  | quiet _ _ hlog => rw [hlog]
  | retry _ _ hlog => exact ⟨_, hlog.symm⟩
  | giveUp _ _ _ hlog => exact ⟨_, hlog.symm⟩
  | last _ _ _ _ _ hlog => exact ⟨_, hlog.symm⟩
  | data ls _ _ _ _ hlog => exact ⟨_, (hlog.trans (List.append_assoc _ _ _)).symm⟩

section Run

variable {o : Options} {n : UInt32} {tr : List (Move World WorldLabel)} {w : World}

theorem WorldMove.log_begins {w' : World} {l : WorldLabel} (h : w.step o n l = some w') :
    w.client.log <+: w'.client.log := by
  cases World.step_move h with
  | handle _ _ _ hs => exact (Client.step_move hs).1.log_begins
  | _ => exact List.prefix_rfl

/-- What was logged at some move stays logged. -/
theorem log_grows (h : (world o n).Run tr w) :
    ∀ m ∈ tr, m.post.client.log <+: w.client.log := by
  induction h with
  | start => simp
  | @snoc tr s l t _ hl ih =>
    intro m hm
    rcases List.mem_append.mp hm with hm | hm
    · exact (ih m hm).trans (WorldMove.log_begins hl)
    · cases List.mem_singleton.mp hm
      exact List.prefix_rfl

/-- Data arrived when all occurrences were consumed. -/
def DataAfterLast (n : Nat) (tr : List (Move World WorldLabel)) : Prop :=
  ∃ before m after, tr = before ++ m :: after ∧ (receives m).isSome = true ∧ consumed before = n

theorem recovery_mem_iff (hn : n ≠ 0) (h : (world o n).Run tr w) :
    .recovery n.toNat ∈ w.client.log ↔ n.toNat ≤ 3 ∧ DataAfterLast n.toNat tr := by
  have hi := inv_of_run hn h
  obtain ⟨k, -, hshape⟩ := hi.log
  constructor
  · intro hin
    have h3 : n.toNat ≤ 3 := by
      by_contra h4
      exact hshape.no_recovery (by omega) _ hin
    obtain ⟨m, hm, hr, hk⟩ := hi.recovery _ hin
    obtain ⟨before, after, hcut⟩ := List.append_of_mem hm
    exact ⟨h3, before, m, after, hcut, hr, (consumed_eq (h.at_move hcut).1).trans hk⟩
  · rintro ⟨h3, before, m, after, hcut, hr, hk⟩
    obtain ⟨hrun, hl⟩ := h.at_move hcut
    obtain ⟨bytes, hbytes⟩ := Option.isSome_iff_exists.mp hr
    obtain ⟨hpre, hpc, hpost⟩ := received_step (inv_of_run hn hrun) hl hbytes
    have hall : eioReturns m.pre.sys = n.toNat := (consumed_eq hrun).symm.trans hk
    rw [hall] at hpre
    have hin : .recovery n.toNat ∈ m.post.client.log := by
      rw [hpost]
      -- data was received behind the last error: only the third shape is left
      cases hpre.received hpc (.inr rfl) o bytes with
      | counting _ heq =>
        rw [Client.received_eioRetries] at heq
        exact absurd heq.symm (Kernel.toNat_ne_zero hn)
      | gaveUp h4 => omega
      | recovered _ _ _ _ _ hlog => simp [hlog]
    exact (log_grows h m (hcut ▸ by simp)).subset hin

/-- The verdicts of the assertions about errors, on the log of a monitor that
has taken up all results. -/
structure InjectionVerdict (n : Nat) (tr : List (Move World WorldLabel))
    (events : List ApplicationLogEvent) (m : RecoveryMetrics) : Prop where
  metrics : Measured n (consumed tr) m
  recovered : m.recoveries ≠ [] ↔ n ≤ 3 ∧ DataAfterLast n tr
  retries : ∀ result event count, event.1 = py "READ_RETRY" →
    (Holds result events (.eventCount event count none none nofun) ↔
      count.1 = min (consumed tr) 3)
  recovery : ∀ result event count, event.1 = py "RECOVERY_SUCCESS" →
    (Holds result events (.eventCount event count none none nofun) ↔
      count.1 = 1 ∧ n ≤ 3 ∧ DataAfterLast n tr)
  failure : ∀ result event count, event.1 = py "READ_FAILED" →
    (Holds result events (.eventCount event count none none nofun) ↔
      count.1 = 1 ∧ consumed tr = 4)

theorem holds_count_iff {result : Runner.ScenarioRunResult} {events : List ApplicationLogEvent}
    {event : { s : PyStr // s ∈ Scenario.logEvents }} {count : Range 1 1000000} {name : PyStr}
    {k : Nat} (hname : event.1 = name) (hk : occurrences events name none = k) :
    Holds result events (.eventCount event count none none nofun) ↔ count.1 = k := by
  simp [Holds, hname, hk, eq_comm]

/-- **What is injected is what the report measures**: the metrics and the
event assertions on the monitor's output follow from the occurrences that
were consumed on the device and from the data that came behind the last. -/
theorem injected_eio_measured (hn : n ≠ 0) (h : (world o n).Run tr w) (hh : w.Handled)
    (lim : IntLimit) (clock : Nat → Timespec) (hclock : ∀ i, (clock i).Le (clock (i + 1))) :
    ∃ events m, parseApplicationLog lim (stdout clock w.client.log) = .ok events ∧
      calculateRecoveryMetrics events = .ok m ∧ InjectionVerdict n.toNat tr events m := by
  have hshape := shape_of_handled hn h hh
  obtain ⟨m, hm, hmeasured, hrec⟩ := hshape.measured (Kernel.toNat_ne_zero hn) hclock
  refine ⟨_, m, parseApplicationLog_stdout lim hclock hshape.small, hm, hmeasured, ?_, ?_, ?_, ?_⟩
  · rw [hrec, recovery_mem_iff hn h]
  · intro result event count hname
    exact holds_count_iff hname ((occurrences_entries _ _ _).trans hshape.count_retry)
  · intro result event count hname
    have hcount := count.2.1
    rw [holds_count_iff hname ((occurrences_entries _ _ _).trans hshape.count_recovery),
      ← recovery_mem_iff hn h]
    by_cases hin : .recovery n.toNat ∈ w.client.log <;> simp [hin]
    omega
  · intro result event count hname
    have hcount := count.2.1
    rw [holds_count_iff hname ((occurrences_entries _ _ _).trans hshape.count_failed)]
    by_cases h4 : consumed tr = 4 <;> simp [h4]
    omega

end Run

theorem injected_eio_measured_once : ∃ tr w events m, (world oneOptions 1).Run tr w ∧
    consumed tr = 1 ∧ w.client.log = [.simple .monitorStarted, .retry 1, .recovery 1,
      .temperature oneDegree] ∧
    parseApplicationLog defaultIntLimit
      (stdout (fun _ => ⟨100, 0, by decide, by decide⟩) w.client.log) = .ok events ∧
    calculateRecoveryMetrics events = .ok m ∧ InjectionVerdict 1 tr events m := by
  have hrun : ((world oneOptions 1).replay ⟨Sys.fresh, .started false, none, none⟩
      oneErrorPhase).map (fun p => (consumed p.1, p.2.client.log, p.2.call))
        = some (1, [.simple .monitorStarted, .retry 1, .recovery 1, .temperature oneDegree],
          none) := by
    decide +kernel
  obtain ⟨tr, w, hr, heq⟩ := Lts.exists_run_of_replay (M := world oneOptions 1) rfl hrun
  simp only [Prod.mk.injEq] at heq
  have hhandled : w.Handled := by simp [World.Handled, World.inProgress, heq.2.2]
  obtain ⟨events, m, hparse, hm, hverdict⟩ := injected_eio_measured (by decide) hr hhandled
    defaultIntLimit (fun _ => ⟨100, 0, by decide, by decide⟩) (fun _ => .inr ⟨rfl, le_rfl⟩)
  exact ⟨tr, w, events, m, hr, heq.1, heq.2.1, hparse, hm, hverdict⟩

end VDevLab.Monitor
