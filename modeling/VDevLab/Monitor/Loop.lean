import VDevLab.Analysis.Segments
import VDevLab.Monitor.LogText

/-!
# The retry counter and the window tracker

The monitor counts EIO results in `eio_retries`; the analyser counts the
`READ_RETRY` events it finds in the log. Over any run the two stay in step,
so the log of a run is always accepted and its metrics say what the reads
did.
-/

namespace VDevLab.Monitor

open Analysis Check PyStr

/-! ## The reads of a run -/

def ReadOutcome.isEio (r : ReadOutcome) : Bool := r = .failed EIO

def ReadOutcome.isData : ReadOutcome → Bool
  | .returned bytes => !bytes.isEmpty
  | .failed _ => false

/-- The results of the reads that the moves made. -/
def readsOf (tr : List (Move Client Input)) : List ReadOutcome :=
  tr.filterMap fun m =>
    match m.label with
    | .read r => some r
    | _ => none

/-- The reads that failed with EIO. -/
def eioReads (reads : List ReadOutcome) : Nat := reads.countP (·.isEio)

/-- Those of them behind the last read that returned data. -/
def sinceData (reads : List ReadOutcome) : Nat :=
  (reads.reverse.takeWhile fun r => !r.isData).countP (·.isEio)

/-- The reads that returned data and had an EIO since the one before. -/
def recoveredReads (reads : List ReadOutcome) : Nat :=
  (List.range reads.length).countP fun j =>
    reads[j]?.any (·.isData) && sinceData (reads.take j) ≠ 0

theorem sinceData_concat (reads : List ReadOutcome) (r : ReadOutcome) :
    sinceData (reads ++ [r]) =
      if r.isData then 0 else sinceData reads + if r.isEio then 1 else 0 := by
  unfold sinceData
  cases hd : r.isData <;> cases he : r.isEio <;> simp [hd, he]

theorem eioReads_concat (reads : List ReadOutcome) (r : ReadOutcome) :
    eioReads (reads ++ [r]) = eioReads reads + if r.isEio then 1 else 0 := by
  simp [eioReads, List.countP_append, List.countP_singleton]

theorem recoveredReads_concat (reads : List ReadOutcome) (r : ReadOutcome) :
    recoveredReads (reads ++ [r]) =
      recoveredReads reads + if r.isData = true ∧ sinceData reads ≠ 0 then 1 else 0 := by
  unfold recoveredReads
  rw [List.length_append, List.length_singleton, List.range_succ, List.countP_append]
  congr 1
  · -- the earlier positions see the same reads
    apply List.countP_congr
    intro j hj
    have hlt : j < reads.length := List.mem_range.mp hj
    rw [List.getElem?_append_left hlt, List.take_append_of_le_length (by omega)]
  · simp [List.countP_singleton]

/-! ## What a step prints -/

/-- Neither a retry nor a recovery. -/
def LogLine.Neutral : LogLine → Prop
  | .retry _ => False
  | .recovery _ => False
  | _ => True

/-- A line about the input: a reading, or a line that is none. -/
def LogLine.OfInput : LogLine → Prop
  | .temperature _ => True
  | .simple event => event = .invalidInput ∨ event = .inputTooLong
  | _ => False

theorem LogLine.OfInput.neutral {l : LogLine} (h : l.OfInput) : l.Neutral := by
  cases l with
  | retry n => exact h.elim
  | recovery n => exact h.elim
  | _ => trivial

theorem processLine_ofInput (o : Options) (line : List UInt8) : (processLine o line).OfInput := by
  simp only [processLine]
  split
  · split
    · exact .inl rfl
    · split
      · exact .inl rfl
      · trivial
  · exact .inl rfl

theorem consumeInput_ofInput (o : Options) (input : InputBuffer) (count : UInt32)
    (data : List UInt8) : ∀ l ∈ (consumeInput o input count data).lines, l.OfInput := by
  induction data generalizing input count with
  | nil => simp [consumeInput]
  | cons b data ih =>
    simp only [consumeInput]
    split
    · split
      · intro l hl
        cases List.mem_singleton.mp hl
        exact processLine_ofInput o input.data
      · intro l hl
        rcases List.mem_cons.mp hl with rfl | hl
        · exact processLine_ofInput o input.data
        · exact ih _ _ l hl
    · split
      · exact ih _ _
      · intro l hl
        rcases List.mem_cons.mp hl with rfl | hl
        · exact .inr rfl
        · exact ih _ _ l hl

/-- A step of the client, as far as reads, retries and the log go. -/
inductive ClientMove (c : Client) : Input → Client → Prop
  | quiet {i c'} : (∀ r, i = .read r → r.isEio = false ∧ r.isData = false) →
      c'.eioRetries = c.eioRetries → c'.log = c.log → ClientMove c i c'
  | retry {c'} : c.eioRetries < maxEioRetries → c'.eioRetries = c.eioRetries + 1 →
      c'.log = c.log ++ [.retry (c.eioRetries + 1)] → ClientMove c (.read (.failed EIO)) c'
  | giveUp {c'} : maxEioRetries ≤ c.eioRetries → c'.eioRetries = c.eioRetries + 1 →
      c'.pc = .exited 1 → c'.log = c.log ++ [.errno .readFailed EIO] →
      ClientMove c (.read (.failed EIO)) c'
  | last {r l c' status} : r.isEio = false → r.isData = false → l.Neutral →
      c'.eioRetries = c.eioRetries → c'.pc = .exited status → c'.log = c.log ++ [l] →
      ClientMove c (.read r) c'
  | data {r c'} (ls : List LogLine) : r.isEio = false → r.isData = true → (∀ l ∈ ls, l.Neutral) →
      c'.eioRetries = 0 → c'.log = c.log ++ c.recoveryLines ++ ls → ClientMove c (.read r) c'

@[simp] theorem Client.loop_log (c : Client) : c.loop.log = c.log := rfl

@[simp] theorem Client.loop_eioRetries (c : Client) : c.loop.eioRetries = c.eioRetries := rfl

theorem Client.polled_move (c : Client) (p : PollOutcome) :
    ClientMove c (.poll p) (c.polled p) := by
  refine .quiet (by simp) ?_ ?_
  · cases p <;> simp only [Client.polled] <;> try split
    all_goals rfl
  · cases p <;> simp only [Client.polled] <;> try split
    all_goals rfl

theorem Client.readFailed_move (c : Client) (errno : Errno) :
    ClientMove c (.read (.failed errno)) (c.readFailed errno) := by
  have hdata : (ReadOutcome.failed errno).isData = false := rfl
  unfold Client.readFailed
  split
  · next h =>
    subst h
    refine .quiet ?_ rfl rfl
    intro r hr
    cases hr
    exact ⟨by decide, rfl⟩
  · next hagain =>
    split
    · next h =>
      subst h
      simp only
      split
      · next hlt => exact .giveUp (Nat.lt_succ_iff.mp hlt) rfl rfl rfl
      · next hlt => exact .retry (Nat.lt_of_succ_le (Nat.not_lt.mp hlt)) rfl rfl
    · next hne =>
      have heio : (ReadOutcome.failed errno).isEio = false := by simp [ReadOutcome.isEio, hne]
      split
      · exact .last (l := .errno .deviceDisconnected ENODEV) heio hdata trivial rfl rfl rfl
      · exact .last (l := .errno .readFailed errno) heio hdata trivial rfl rfl rfl

theorem Client.received_log (o : Options) (c : Client) (bytes : List UInt8) :
    (c.received o bytes).log =
      c.log ++ c.recoveryLines ++ (consumeInput o c.input c.eventCount bytes).lines := by
  simp only [Client.received]
  split <;> rfl

theorem Client.received_eioRetries (o : Options) (c : Client) (bytes : List UInt8) :
    (c.received o bytes).eioRetries = 0 := by
  simp only [Client.received]
  split <;> rfl

theorem Client.afterRead_move (o : Options) (c : Client) (r : ReadOutcome) :
    ClientMove c (.read r) (c.afterRead o r) := by
  cases r with
  | failed errno => exact c.readFailed_move errno
  | returned bytes =>
    have heio : (ReadOutcome.returned bytes).isEio = false := by simp [ReadOutcome.isEio]
    rw [Client.afterRead]
    split
    · next h =>
      subst h
      exact .last (l := .simple .deviceEof) heio rfl trivial rfl rfl rfl
    · next h =>
      have hdata : (ReadOutcome.returned bytes).isData = true := by simp [ReadOutcome.isData, h]
      refine .data _ heio hdata ?_ (c.received_eioRetries o bytes) (c.received_log o bytes)
      intro l hl
      exact (consumeInput_ofInput o c.input c.eventCount bytes l hl).neutral

/-- What a step of the client can do. -/
theorem Client.step_move {o : Options} {c c' : Client} {i : Input} (h : c.step o i = some c') :
    ClientMove c i c' ∧ ∀ status, c.pc ≠ .exited status := by
  cases i with
  | poll p =>
    simp only [Client.step] at h
    split at h
    · next hpc =>
      cases h
      exact ⟨c.polled_move p, by simp [hpc]⟩
    · cases h
  | read r =>
    simp only [Client.step] at h
    split at h
    · next hpc =>
      cases h
      exact ⟨c.afterRead_move o r, by simp [hpc]⟩
    · cases h
  | signal =>
    simp only [Client.step] at h
    split at h
    · cases h
    · next hpc =>
      cases h
      exact ⟨.quiet (by simp) rfl rfl, fun status => hpc status⟩

/-! ## The analyser on the log -/

theorem LogLine.Neutral.small {l : LogLine} (h : l.Neutral) : l.Small := by
  cases l with
  | retry n => exact h.elim
  | recovery n => exact h.elim
  | _ => trivial

theorem LogLine.Neutral.event_ne {l : LogLine} (h : l.Neutral) :
    l.event ≠ py "READ_RETRY" ∧ l.event ≠ py "RECOVERY_SUCCESS" := by
  cases l with
  | retry n => exact h.elim
  | recovery n => exact h.elim
  | simple event => cases event <;> decide
  | errno event error =>
    simp only [LogLine.event]
    cases event <;> decide
  | temperature value =>
    rw [LogLine.event, temperatureName]
    split <;> decide

theorem step_neutral (t : Tracker) {l : LogLine} (h : l.Neutral) (line : Nat) (now : Timespec) :
    t.step (entry line now l) = .ok t :=
  Tracker.step_eq_ok.mpr (.inr (.inr ⟨h.event_ne.1, h.event_ne.2, rfl⟩))

theorem foldlM_neutral (clock : Nat → Timespec) (t : Tracker) {ls : List LogLine}
    (h : ∀ l ∈ ls, l.Neutral) (i : Nat) :
    (entriesFrom clock i ls).foldlM Tracker.step t = .ok t := by
  induction ls generalizing i with
  | nil => rfl
  | cons l ls ih =>
    rw [entriesFrom, List.foldlM_cons, step_neutral t (h l List.mem_cons_self)]
    exact ih (fun l' hl' => h l' (List.mem_cons_of_mem l hl')) (i + 1)

theorem step_retry (t : Tracker) (n line : Nat) (now : Timespec) :
    t.step (entry line now (.retry n)) = .ok (t.countRetry 5 (monotonicMilliseconds now)) :=
  Tracker.step_eq_ok.mpr (.inl ⟨rfl, ⟨n, rfl⟩, 5, rfl, rfl⟩)

theorem step_recovery {t : Tracker} {first : Int} (h : t.firstErrorTimestampMs = some first)
    (n line : Nat) (now : Timespec) :
    t.step (entry line now (.recovery n)) =
      .ok (t.closeWindow first n (monotonicMilliseconds now)) :=
  Tracker.step_eq_ok.mpr (.inr (.inl ⟨rfl, n, first, rfl, h, rfl⟩))

/-- The tracker behind the log of a client, and what its variables say. -/
structure InStep (clock : Nat → Timespec) (reads : List ReadOutcome) (c : Client) (t : Tracker) :
    Prop where
  folds : (entriesFrom clock 0 c.log).foldlM Tracker.step {} = .ok t
  small : ∀ l ∈ c.log, l.Small
  retries : c.eioRetries = sinceData reads
  bound : c.eioRetries ≤ 4
  gaveUp : c.eioRetries = 4 → c.pc = .exited 1
  active : t.activeRetryCount = min c.eioRetries 3
  first : t.firstErrorTimestampMs = none ↔ c.eioRetries = 0
  eio : t.observedEioCount = t.applicationRetryCount
  counted : t.applicationRetryCount + (if c.eioRetries = 4 then 1 else 0) = eioReads reads
  windows : ∀ w ∈ t.recoveries, (w.observedRetries : Int) = w.reportedRetries ∧
    1 ≤ w.observedRetries ∧ w.observedRetries ≤ 3
  recovered : t.recoveries.length = recoveredReads reads

theorem InStep.start (clock : Nat → Timespec) (stop : Bool) :
    InStep clock [] (.started stop) {} where
  folds := by
    have hneutral : ∀ l ∈ [LogLine.simple .monitorStarted], l.Neutral := by
      simp [LogLine.Neutral]
    exact foldlM_neutral clock {} hneutral 0
  small := by simp [Client.started, LogLine.Small]
  retries := rfl
  bound := Nat.zero_le 4
  gaveUp := by simp [Client.started]
  active := rfl
  first := iff_of_true rfl rfl
  eio := rfl
  counted := rfl
  windows := by simp
  recovered := rfl

section Steps

variable {clock : Nat → Timespec} {reads : List ReadOutcome} {c c' : Client} {t : Tracker}

/-- More of the log folds from where the tracker stands. -/
theorem InStep.folds_append (h : InStep clock reads c t) {ls : List LogLine} {t' : Tracker}
    (hlog : c'.log = c.log ++ ls)
    (hls : (entriesFrom clock c.log.length ls).foldlM Tracker.step t = .ok t') :
    (entriesFrom clock 0 c'.log).foldlM Tracker.step {} = .ok t' := by
  rw [hlog, entriesFrom_append, List.foldlM_append, h.folds, Nat.zero_add]
  exact hls

/-- Nothing about the reads changes and only neutral lines are printed. -/
theorem InStep.neutral (h : InStep clock reads c t) (ls : List LogLine) {reads' : List ReadOutcome}
    (hreads : sinceData reads' = sinceData reads ∧ eioReads reads' = eioReads reads ∧
      recoveredReads reads' = recoveredReads reads)
    (hretries : c'.eioRetries = c.eioRetries) (hlog : c'.log = c.log ++ ls)
    (hls : ∀ l ∈ ls, l.Neutral) (hrun : c.eioRetries ≤ 3) : InStep clock reads' c' t where
  folds := h.folds_append hlog (foldlM_neutral clock t hls _)
  small := by
    intro l hl
    rw [hlog] at hl
    rcases List.mem_append.mp hl with hl | hl
    · exact h.small l hl
    · exact (hls l hl).small
  retries := by rw [hretries, h.retries, hreads.1]
  bound := by rw [hretries]; exact h.bound
  gaveUp := by
    intro h4
    rw [hretries] at h4
    omega
  active := by rw [hretries]; exact h.active
  first := by rw [hretries]; exact h.first
  eio := h.eio
  counted := by rw [hretries, hreads.2.1]; exact h.counted
  windows := h.windows
  recovered := by rw [hreads.2.2]; exact h.recovered

theorem InStep.retry (h : InStep clock reads c t) (hlt : c.eioRetries < 3)
    (hretries : c'.eioRetries = c.eioRetries + 1)
    (hlog : c'.log = c.log ++ [.retry (c.eioRetries + 1)]) :
    InStep clock (reads ++ [.failed EIO]) c'
      (t.countRetry 5 (monotonicMilliseconds (clock c.log.length))) where
  folds := by
    refine h.folds_append hlog ?_
    rw [entriesFrom, List.foldlM_cons, step_retry]
    rfl
  small := by
    intro l hl
    rw [hlog] at hl
    rcases List.mem_append.mp hl with hl | hl
    · exact h.small l hl
    · cases List.mem_singleton.mp hl
      exact hlt
  retries := by
    rw [hretries, h.retries, sinceData_concat]
    rfl
  bound := by omega
  gaveUp := by omega
  active := by
    have := h.active
    simp only [Tracker.countRetry]
    omega
  first := by
    simp only [Tracker.countRetry, hretries, Option.or_eq_none_iff]
    simp
  eio := by
    have := h.eio
    simp only [Tracker.countRetry, if_true]
    omega
  counted := by
    have := h.counted
    rw [if_neg (by omega)] at this
    rw [if_neg (by omega), eioReads_concat, ← this]
    rfl
  windows := h.windows
  recovered := by
    rw [recoveredReads_concat]
    exact h.recovered

theorem InStep.giveUp (h : InStep clock reads c t) (hge : c.eioRetries = 3)
    (hretries : c'.eioRetries = c.eioRetries + 1) (hpc : c'.pc = .exited 1)
    (hlog : c'.log = c.log ++ [.errno .readFailed EIO]) :
    InStep clock (reads ++ [.failed EIO]) c' t where
  folds := h.folds_append hlog (foldlM_neutral clock t (by simp [LogLine.Neutral]) _)
  small := by
    intro l hl
    rw [hlog] at hl
    rcases List.mem_append.mp hl with hl | hl
    · exact h.small l hl
    · cases List.mem_singleton.mp hl
      trivial
  retries := by
    rw [hretries, h.retries, sinceData_concat]
    rfl
  bound := by omega
  gaveUp := fun _ => hpc
  active := by
    have := h.active
    omega
  first := by
    have := h.first
    simp only [this]
    omega
  eio := h.eio
  counted := by
    have := h.counted
    rw [if_neg (by omega)] at this
    rw [if_pos (by omega), eioReads_concat, ← this]
    rfl
  windows := h.windows
  recovered := by
    rw [recoveredReads_concat]
    exact h.recovered

/-- A read that returned data closes the window, if one is open. -/
theorem InStep.data (h : InStep clock reads c t) (hrun : c.eioRetries ≤ 3) {r : ReadOutcome}
    (heio : r.isEio = false) (hdata : r.isData = true) {ls : List LogLine}
    (hls : ∀ l ∈ ls, l.Neutral) (hretries : c'.eioRetries = 0)
    (hlog : c'.log = c.log ++ c.recoveryLines ++ ls) :
    ∃ t', InStep clock (reads ++ [r]) c' t' := by
  have hsince : sinceData (reads ++ [r]) = 0 := by rw [sinceData_concat, if_pos hdata]
  have heios : eioReads (reads ++ [r]) = eioReads reads := by
    rw [eioReads_concat, heio]
    rfl
  have hcounted := h.counted
  rw [if_neg (by omega)] at hcounted
  -- without counted retries nothing is announced and no window is open
  by_cases h0 : c.eioRetries = 0
  · have hlines : c.recoveryLines = [] := by simp [Client.recoveryLines, h0]
    rw [hlines, List.append_nil] at hlog
    refine ⟨t, h.neutral ls ⟨?_, heios, ?_⟩ (by omega) hlog hls hrun⟩
    · rw [hsince, ← h.retries, h0]
    · rw [recoveredReads_concat, ← h.retries, h0]
      simp
  · have hlines : c.recoveryLines = [.recovery c.eioRetries] := by simp [Client.recoveryLines, h0]
    rw [hlines, List.append_assoc, List.singleton_append] at hlog
    -- otherwise a window is open, with as many retries as the client counted
    obtain ⟨first, hfirst⟩ : ∃ first, t.firstErrorTimestampMs = some first := by
      cases hf : t.firstErrorTimestampMs with
      | none => exact absurd (h.first.mp hf) h0
      | some first => exact ⟨first, rfl⟩
    have hactive : t.activeRetryCount = c.eioRetries := by
      have := h.active
      omega
    refine ⟨t.closeWindow first c.eioRetries (monotonicMilliseconds (clock c.log.length)), ?_⟩
    exact {
      folds := by
        refine h.folds_append hlog ?_
        rw [entriesFrom, List.foldlM_cons, step_recovery hfirst]
        exact foldlM_neutral clock _ hls _
      small := by
        intro l hl
        rw [hlog] at hl
        rcases List.mem_append.mp hl with hl | hl
        · exact h.small l hl
        · rcases List.mem_cons.mp hl with rfl | hl
          · exact hrun
          · exact (hls l hl).small
      retries := by rw [hretries, hsince]
      bound := by omega
      gaveUp := by omega
      active := by simp [Tracker.closeWindow, hretries]
      first := by simp [Tracker.closeWindow, hretries]
      eio := h.eio
      counted := by
        rw [if_neg (by omega), heios]
        exact hcounted
      windows := by
        intro w hw
        rcases List.mem_append.mp hw with hw | hw
        · exact h.windows w hw
        · cases List.mem_singleton.mp hw
          simp only [hactive]
          exact ⟨trivial, by omega, hrun⟩
      recovered := by
        rw [recoveredReads_concat, if_pos ⟨hdata, by rw [← h.retries]; exact h0⟩, ← h.recovered]
        simp [Tracker.closeWindow] }

end Steps

/-- One step keeps the analyser in step. -/
theorem InStep.step {o : Options} {clock : Nat → Timespec} {reads : List ReadOutcome}
    {c c' : Client} {t : Tracker} {i : Input} (h : InStep clock reads c t)
    (hstep : c.step o i = some c') :
    ∃ t', InStep clock (reads ++ readsOf [⟨c, i, c'⟩]) c' t' := by
  obtain ⟨hmove, hpc⟩ := Client.step_move hstep
  -- a client that gave up does not step any more
  have hrun : c.eioRetries ≤ 3 := by
    have hbound := h.bound
    by_contra hgt
    exact hpc 1 (h.gaveUp (by omega))
  cases hmove with
  | @quiet _ c' hread hretries hlog =>
    refine ⟨t, h.neutral [] ?_ hretries (by rw [hlog, List.append_nil]) (by simp) hrun⟩
    cases i with
    | read r =>
      obtain ⟨heio, hdata⟩ := hread r rfl
      simp [readsOf, sinceData_concat, eioReads_concat, recoveredReads_concat, heio, hdata]
    | poll p => simp [readsOf]
    | signal => simp [readsOf]
  | retry hlt hretries hlog => exact ⟨_, h.retry hlt hretries hlog⟩
  | giveUp hge hretries hexit hlog =>
    exact ⟨t, h.giveUp (Nat.le_antisymm hrun hge) hretries hexit hlog⟩
  | @last r l c' status heio hdata hl hretries hexit hlog =>
    refine ⟨t, h.neutral [l] ?_ hretries hlog ?_ hrun⟩
    · simp [readsOf, sinceData_concat, eioReads_concat, recoveredReads_concat, heio, hdata]
    · intro l' hl'
      cases List.mem_singleton.mp hl'
      exact hl
  | data ls heio hdata hls hretries hlog =>
    exact h.data hrun heio hdata hls hretries hlog

/-- Over every run the analyser is in step with the client. -/
theorem inStep_of_run {o : Options} (clock : Nat → Timespec) {tr : List (Move Client Input)}
    {c : Client} (h : (client o).Run tr c) : ∃ t, InStep clock (readsOf tr) c t := by
  refine h.induct (P := fun tr c => ∃ t, InStep clock (readsOf tr) c t) ?_ ?_
  · rintro c ⟨stop, rfl⟩
    exact ⟨{}, InStep.start clock stop⟩
  · rintro tr c i c' - ⟨t, ht⟩ hstep
    have hreads : readsOf (tr ++ [⟨c, i, c'⟩]) = readsOf tr ++ readsOf [⟨c, i, c'⟩] := by
      simp [readsOf, List.filterMap_append]
    rw [hreads]
    exact ht.step hstep

/-- **The reference client's log always satisfies the analyser.** Every
output is an application log with well-formed windows of one to three
retries; each EIO read is counted but for a fourth in a row, on which the
client gives up; and there is one recovery for each read that returned data
after an EIO. -/
theorem monitor_log_accepted (o : Options) (lim : IntLimit) (clock : Nat → Timespec)
    (hclock : ∀ i, (clock i).Le (clock (i + 1))) {tr : List (Move Client Input)} {c : Client}
    (h : (client o).Run tr c) :
    ∃ events m, parseApplicationLog lim (stdout clock c.log) = .ok events ∧
      calculateRecoveryMetrics events = .ok m ∧
      (∀ w ∈ m.recoveries, (w.observedRetries : Int) = w.reportedRetries ∧
        1 ≤ w.observedRetries ∧ w.observedRetries ≤ 3) ∧
      m.applicationRetryCount = m.observedEioCount ∧
      m.observedEioCount = eioReads (readsOf tr) - (if sinceData (readsOf tr) = 4 then 1 else 0) ∧
      (sinceData (readsOf tr) = 4 → c.pc = .exited 1) ∧
      m.recoveries.length = recoveredReads (readsOf tr) := by
  obtain ⟨t, ht⟩ := inStep_of_run clock h
  have hmetrics : calculateRecoveryMetrics (entriesFrom clock 0 c.log) = .ok t.metrics := by
    rw [calculateRecoveryMetrics, ht.folds]
    rfl
  refine ⟨_, t.metrics, parseApplicationLog_stdout lim hclock ht.small, hmetrics, ht.windows,
    ht.eio.symm, ?_, fun h4 => ht.gaveUp (ht.retries.trans h4), ht.recovered⟩
  have hcounted := ht.counted
  rw [ht.retries] at hcounted
  show t.observedEioCount = _
  rw [ht.eio]
  omega

/-- A client whose `strtod` knows the number in the input below. -/
def oneOptions : Options where
  maxEvents := 0
  strtod s := if s = [0x31] then ⟨.ofInt 1, 1, false⟩ else ⟨.ofInt 0, 0, false⟩

/-- One EIO, then a reading: the log has one recovery. -/
theorem monitor_log_accepted_once : ∃ tr c events m,
    (client oneOptions).Run tr c ∧
    parseApplicationLog defaultIntLimit (stdout (fun _ => ⟨100, 0, by decide, by decide⟩) c.log) =
      .ok events ∧
    calculateRecoveryMetrics events = .ok m ∧ m.observedEioCount = 1 ∧ m.recoveries.length = 1 := by
  have hreplay : (client oneOptions).replay (.started false)
      [.poll (.ready Kernel.EPOLLERR), .read (.failed EIO), .poll (.ready Kernel.EPOLLIN),
        .read (.returned [0x31, 0x0a])] = some (_, _) := rfl
  have hrun := Lts.run_of_replay (M := client oneOptions) ⟨false, rfl⟩ hreplay
  obtain ⟨events, m, hparse, hmetrics, -, -, hcount, -, hlength⟩ :=
    monitor_log_accepted oneOptions defaultIntLimit (fun _ => ⟨100, 0, by decide, by decide⟩)
      (fun _ => .inr ⟨rfl, le_rfl⟩) hrun
  exact ⟨_, _, events, m, hrun, hparse, hmetrics, hcount, hlength⟩

end VDevLab.Monitor
