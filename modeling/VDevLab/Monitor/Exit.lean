import VDevLab.Monitor.Loop

/-!
# How the client ends

The lines that end a log, the limit on the number of readings, and the exit
status, for every run of the poll loop. The counter of `main` is 32 bits
wide; under a limit it never gets far enough to wrap around.
-/

namespace VDevLab.Monitor

/-- The status that a line announces; most lines announce none. -/
def LogLine.final : LogLine → Option Nat
  | .errno .readFailed _ => some 1
  | .errno .deviceDisconnected _ => some 0
  | .simple .deviceEof => some 0
  | _ => none

def LogLine.isReading : LogLine → Bool
  | .temperature _ => true
  | _ => false

/-- The readings of a log. -/
def readings (log : List LogLine) : Nat := log.countP (·.isReading)

/-- A line between the first and the last. -/
def LogLine.Ongoing (l : LogLine) : Prop := l.final = none ∧ l ≠ .simple .monitorStarted

theorem readings_append (log ls : List LogLine) :
    readings (log ++ ls) = readings log + readings ls := List.countP_append

theorem LogLine.OfInput.ongoing {l : LogLine} (h : l.OfInput) : l.Ongoing := by
  cases l with
  | simple event =>
    rcases h with rfl | rfl
    · exact ⟨rfl, by decide⟩
    · exact ⟨rfl, by decide⟩
  | errno => exact h.elim
  | retry => exact h.elim
  | recovery => exact h.elim
  | temperature value => exact ⟨rfl, by simp⟩

/-! ## The limit -/

theorem countEvent_toNat (l : LogLine) {n : UInt32} (hn : n.toNat + 1 < 2 ^ 32) :
    (countEvent l n).toNat = n.toNat + readings [l] := by
  cases l with
  | temperature value =>
    show (n + 1).toNat = n.toNat + 1
    rw [UInt32.toNat_add, UInt32.toNat_one, Nat.mod_eq_of_lt hn]
  | _ => rfl

/-- `consume_input` stops at the limit and not before. -/
theorem consumeInput_count {o : Options} (ho : o.maxEvents ≠ 0) (input : InputBuffer) {n : UInt32}
    (hn : n < o.maxEvents) (data : List UInt8) :
    (consumeInput o input n data).eventCount.toNat =
        n.toNat + readings (consumeInput o input n data).lines ∧
      if (consumeInput o input n data).full then
        (consumeInput o input n data).eventCount = o.maxEvents
      else (consumeInput o input n data).eventCount < o.maxEvents := by
  induction data generalizing input n with
  | nil => exact ⟨rfl, hn⟩
  | cons b data ih =>
    have hmax := o.maxEvents.toNat_lt
    have hlt : n.toNat < o.maxEvents.toNat := UInt32.lt_iff_toNat_lt.mp hn
    simp only [consumeInput]
    split
    · have hcount := countEvent_toNat (processLine o input.data) (n := n) (by omega)
      have hone : readings [processLine o input.data] ≤ 1 := List.countP_le_length
      split
      · next hfull =>
        have hge := UInt32.le_iff_toNat_le.mp hfull.2
        refine ⟨hcount, ?_⟩
        show countEvent (processLine o input.data) n = o.maxEvents
        apply UInt32.toNat_inj.mp
        omega
      · next hfull =>
        have hbelow : countEvent (processLine o input.data) n < o.maxEvents := by
          apply UInt32.not_le.mp
          exact fun hle => hfull ⟨ho, hle⟩
        obtain ⟨hrest, hlimit⟩ := ih .empty hbelow
        refine ⟨?_, hlimit⟩
        rw [← List.singleton_append, readings_append, hrest, hcount]
        omega
    · split
      · exact ih _ hn
      · obtain ⟨hrest, hlimit⟩ := ih .empty hn
        refine ⟨?_, hlimit⟩
        rw [← List.singleton_append, readings_append, hrest]
        show _ = n.toNat + (0 + _)
        omega

theorem consumeInput_unlimited {o : Options} (ho : o.maxEvents = 0) (input : InputBuffer)
    (n : UInt32) (data : List UInt8) : (consumeInput o input n data).full = false := by
  induction data generalizing input n with
  | nil => rfl
  | cons b data ih =>
    simp only [consumeInput]
    split
    · rw [if_neg (fun h => h.1 ho)]
      exact ih _ _
    · split
      · exact ih _ _
      · exact ih _ _

/-! ## The courses of a run -/

/-- `poll` failed, and not because of a signal. -/
def PollFailed (tr : List (Move Client Input)) : Prop :=
  ∃ m ∈ tr, ∃ errno, m.label = .poll (.failed errno) ∧ errno ≠ EINTR

theorem pollFailed_concat {tr : List (Move Client Input)} {m : Move Client Input} :
    PollFailed (tr ++ [m]) ↔
      PollFailed tr ∨ ∃ errno, m.label = .poll (.failed errno) ∧ errno ≠ EINTR := by
  simp [PollFailed, or_and_right, exists_or]

/-- The first line, and lines that are neither the first nor a last one. -/
def Begins (log : List LogLine) : Prop :=
  ∃ rest, log = .simple .monitorStarted :: rest ∧ ∀ l ∈ rest, l.Ongoing

/-- There are fewer readings than the limit. -/
def Short (o : Options) (log : List LogLine) : Prop :=
  o.maxEvents ≠ 0 → readings log < o.maxEvents.toNat

/-- How far a run has come, with its log, and how it ended. -/
inductive Course (o : Options) (tr : List (Move Client Input)) (c : Client) : Prop
  | running (hlog : Begins c.log) (hcount : Short o c.log) (hpoll : ¬ PollFailed tr)
      (hpc : c.pc = .polling ∨ c.pc = .reading)
  | stopped (hlog : Begins c.log) (hcount : Short o c.log) (hpoll : ¬ PollFailed tr)
      (hstop : c.stopRequested = true) (hpc : c.pc = .exited 0)
  | full (hlog : Begins c.log) (hmax : o.maxEvents ≠ 0)
      (hcount : readings c.log = o.maxEvents.toNat) (hpoll : ¬ PollFailed tr)
      (hpc : c.pc = .exited 0)
  | final {log : List LogLine} {l : LogLine} {status : Nat} (hlog : Begins log)
      (hlast : c.log = log ++ [l]) (hfinal : l.final = some status) (hcount : Short o c.log)
      (hpoll : ¬ PollFailed tr) (hpc : c.pc = .exited status)
  | pollFailed (hlog : Begins c.log) (hcount : Short o c.log) (hpoll : PollFailed tr)
      (hpc : c.pc = .exited 1)

theorem Begins.append {log ls : List LogLine} (h : Begins log) (hls : ∀ l ∈ ls, l.Ongoing) :
    Begins (log ++ ls) := by
  obtain ⟨rest, rfl, hrest⟩ := h
  refine ⟨rest ++ ls, rfl, ?_⟩
  intro l hl
  rcases List.mem_append.mp hl with hl | hl
  · exact hrest l hl
  · exact hls l hl

theorem Short.append {o : Options} {log : List LogLine} {l : LogLine} (h : Short o log)
    (hl : l.isReading = false) : Short o (log ++ [l]) := by
  intro ho
  have hnone : readings [l] = 0 := by simp [readings, hl]
  rw [readings_append, hnone]
  exact h ho

/-! ## Every step -/

/-- A run that goes on, with its counter. -/
structure Going (o : Options) (tr : List (Move Client Input)) (c : Client) : Prop where
  log : Begins c.log
  count : Short o c.log
  poll : ¬ PollFailed tr
  counter : o.maxEvents ≠ 0 → c.eventCount.toNat = readings c.log

/-- The course, and the counter as long as the run goes on. -/
structure Kept (o : Options) (tr : List (Move Client Input)) (c : Client) : Prop where
  course : Course o tr c
  going : (c.pc = .polling ∨ c.pc = .reading) → Going o tr c

section Steps

variable {o : Options} {tr : List (Move Client Input)} {c : Client}

theorem Going.running (h : Going o tr c) (hpc : c.pc = .polling ∨ c.pc = .reading) :
    Kept o tr c :=
  ⟨.running h.log h.count h.poll hpc, fun _ => h⟩

/-- The run has ended. -/
theorem Kept.exited (h : Course o tr c) {status : Nat} (hpc : c.pc = .exited status) :
    Kept o tr c := by
  refine ⟨h, ?_⟩
  intro hrun
  rw [hpc] at hrun
  rcases hrun with hrun | hrun <;> cases hrun

/-- At the head of the loop. -/
theorem Going.loop (h : Going o tr c) : Kept o tr c.loop := by
  by_cases hstop : c.stopRequested = true
  · have hpc : c.loop.pc = .exited 0 := if_pos hstop
    exact Kept.exited (.stopped h.log h.count h.poll hstop hpc) hpc
  · have hpc : c.loop.pc = .polling := if_neg hstop
    have hloop : Going o tr c.loop := ⟨h.log, h.count, h.poll, h.counter⟩
    exact hloop.running (.inl hpc)

theorem Going.logged (h : Going o tr c) {l : LogLine} (hl : l.Ongoing)
    (hreading : l.isReading = false) : Going o tr (c.logged l) where
  log := h.log.append (by simpa using hl)
  count := h.count.append hreading
  poll := h.poll
  counter := by
    intro ho
    have hnone : readings [l] = 0 := by simp [readings, hreading]
    show c.eventCount.toNat = readings (c.log ++ [l])
    rw [readings_append, hnone, h.counter ho, Nat.add_zero]

theorem Going.leave (h : Going o tr c) {l : LogLine} {status : Nat} (hl : l.final = some status)
    (hreading : l.isReading = false) : Kept o tr (c.leave l status) := by
  have hpc : (c.leave l status).pc = .exited status := rfl
  exact Kept.exited (.final h.log rfl hl (h.count.append hreading) h.poll hpc) hpc

/-- A step that is no failure of `poll`. -/
theorem Going.concat (h : Going o tr c) {m : Move Client Input}
    (hm : ∀ errno, m.label = .poll (.failed errno) → errno = EINTR) : Going o (tr ++ [m]) c where
  log := h.log
  count := h.count
  poll := by
    rw [pollFailed_concat]
    rintro (hpoll | ⟨errno, hlabel, hne⟩)
    · exact h.poll hpoll
    · exact hne (hm errno hlabel)
  counter := h.counter

theorem Going.readFailed (h : Going o tr c) (errno : Errno) : Kept o tr (c.readFailed errno) := by
  unfold Client.readFailed
  split
  · exact h.loop
  · split
    · simp only
      have hretries : Going o tr { c with eioRetries := c.eioRetries + 1 } :=
        ⟨h.log, h.count, h.poll, h.counter⟩
      split
      · exact hretries.leave rfl rfl
      · exact (hretries.logged (l := .retry (c.eioRetries + 1)) ⟨rfl, by simp⟩ rfl).loop
    · split
      · exact h.leave rfl rfl
      · exact h.leave rfl rfl

theorem recoveryLines_ongoing (c : Client) :
    (∀ l ∈ c.recoveryLines, l.Ongoing) ∧ readings c.recoveryLines = 0 := by
  unfold Client.recoveryLines
  split
  · refine ⟨?_, rfl⟩
    intro l hl
    cases List.mem_singleton.mp hl
    exact ⟨rfl, by simp⟩
  · exact ⟨by simp, rfl⟩

theorem Going.received (h : Going o tr c) (bytes : List UInt8) : Kept o tr (c.received o bytes) := by
  obtain ⟨hongoing, hnone⟩ := recoveryLines_ongoing c
  have hlog : Begins (c.log ++ c.recoveryLines ++ (consumeInput o c.input c.eventCount bytes).lines) := by
    refine (h.log.append hongoing).append ?_
    intro l hl
    exact (consumeInput_ofInput o c.input c.eventCount bytes l hl).ongoing
  have hreadings : readings (c.log ++ c.recoveryLines ++
      (consumeInput o c.input c.eventCount bytes).lines) =
      readings c.log + readings (consumeInput o c.input c.eventCount bytes).lines := by
    rw [readings_append, readings_append, hnone, Nat.add_zero]
  have hcount : o.maxEvents ≠ 0 → _ := fun ho =>
    consumeInput_count ho c.input
      (UInt32.lt_iff_toNat_lt.mpr (by rw [h.counter ho]; exact h.count ho)) bytes
  unfold Client.received
  simp only
  by_cases hfull : (consumeInput o c.input c.eventCount bytes).full = true
  · rw [if_pos hfull]
    by_cases ho : o.maxEvents = 0
    · rw [consumeInput_unlimited ho] at hfull
      cases hfull
    · obtain ⟨hsum, hlimit⟩ := hcount ho
      rw [if_pos hfull] at hlimit
      refine Kept.exited (.full hlog ho ?_ h.poll rfl) rfl
      rw [hreadings, ← h.counter ho, ← hsum, hlimit]
  · rw [if_neg hfull]
    refine Going.loop ⟨hlog, ?_, h.poll, ?_⟩
    · intro ho
      obtain ⟨hsum, hlimit⟩ := hcount ho
      rw [if_neg hfull, UInt32.lt_iff_toNat_lt] at hlimit
      show readings (c.log ++ c.recoveryLines ++ _) < _
      rw [hreadings, ← h.counter ho, ← hsum]
      exact hlimit
    · intro ho
      obtain ⟨hsum, -⟩ := hcount ho
      show _ = readings (c.log ++ c.recoveryLines ++ _)
      rw [hreadings, ← h.counter ho, ← hsum]

theorem Going.polled (h : Going o tr c) (p : PollOutcome) :
    Kept o (tr ++ [⟨c, .poll p, c.polled p⟩]) (c.polled p) := by
  cases p with
  | failed errno =>
    by_cases hsignal : errno = EINTR
    · have hpolled : c.polled (.failed errno) = c.loop := if_pos hsignal
      rw [hpolled]
      refine (h.concat ?_).loop
      rintro errno' hlabel
      cases hlabel
      exact hsignal
    · have hpolled : c.polled (.failed errno) = { c with pc := .exited 1 } := if_neg hsignal
      rw [hpolled]
      refine Kept.exited (.pollFailed h.log h.count ?_ rfl) rfl
      exact pollFailed_concat.mpr (.inr ⟨errno, rfl, hsignal⟩)
  | timedOut => exact (h.concat (by simp)).loop
  | ready revents =>
    have hgoing := h.concat (m := ⟨c, .poll (.ready revents), c.polled (.ready revents)⟩) (by simp)
    by_cases hidle : revents &&& pollWanted = 0
    · have hpolled : c.polled (.ready revents) = c.loop := if_pos hidle
      rw [hpolled] at hgoing ⊢
      exact hgoing.loop
    · have hpolled : c.polled (.ready revents) = { c with pc := .reading } := if_neg hidle
      rw [hpolled] at hgoing ⊢
      have hreading : Going o _ { c with pc := .reading } :=
        ⟨hgoing.log, hgoing.count, hgoing.poll, hgoing.counter⟩
      exact hreading.running (.inr rfl)

theorem Going.read (h : Going o tr c) (r : ReadOutcome) :
    Kept o (tr ++ [⟨c, .read r, c.afterRead o r⟩]) (c.afterRead o r) := by
  have hgoing := h.concat (m := ⟨c, .read r, c.afterRead o r⟩) (by simp)
  cases r with
  | failed errno => exact hgoing.readFailed errno
  | returned bytes =>
    by_cases hempty : bytes = []
    · have heof : c.afterRead o (.returned bytes) = c.leave (.simple .deviceEof) 0 := if_pos hempty
      rw [heof] at hgoing ⊢
      exact hgoing.leave rfl rfl
    · have hdata : c.afterRead o (.returned bytes) = c.received o bytes := if_neg hempty
      rw [hdata] at hgoing ⊢
      exact hgoing.received bytes

end Steps

theorem Kept.step {o : Options} {tr : List (Move Client Input)} {c c' : Client} {i : Input}
    (h : Kept o tr c) (hs : c.step o i = some c') : Kept o (tr ++ [⟨c, i, c'⟩]) c' := by
  cases i with
  | poll p =>
    simp only [Client.step] at hs
    split at hs
    · next hpc =>
      cases hs
      exact (h.going (.inl hpc)).polled p
    · cases hs
  | read r =>
    simp only [Client.step] at hs
    split at hs
    · next hpc =>
      cases hs
      exact (h.going (.inr hpc)).read r
    · cases hs
  | signal =>
    simp only [Client.step] at hs
    split at hs
    · cases hs
    · next hpc =>
      cases hs
      have hrun : c.pc = .polling ∨ c.pc = .reading := by
        cases hc : c.pc with
        | polling => exact .inl rfl
        | reading => exact .inr rfl
        | exited status => exact absurd hc (hpc status)
      have hgoing := (h.going hrun).concat
        (m := ⟨c, .signal, { c with stopRequested := true }⟩) (by simp)
      have hsignal : Going o _ { c with stopRequested := true } :=
        ⟨hgoing.log, hgoing.count, hgoing.poll, hgoing.counter⟩
      exact hsignal.running hrun

theorem kept_of_run {o : Options} {tr : List (Move Client Input)} {c : Client}
    (h : (client o).Run tr c) : Kept o tr c := by
  induction h with
  | start hs =>
    obtain ⟨stop, rfl⟩ := hs
    have hlog : Begins [.simple .monitorStarted] := ⟨[], rfl, by simp⟩
    have hcount : Short o [.simple .monitorStarted] := by
      intro ho
      apply Nat.pos_of_ne_zero
      exact fun h0 => ho (UInt32.toNat_inj.mp h0)
    exact Going.loop (c := { stopRequested := stop, pc := .polling, log := _ })
      ⟨hlog, hcount, by simp [PollFailed], fun _ => rfl⟩
  | snoc _ hl ih => exact ih.step hl

/-- How a run of the client can stand: it goes on below its limit, or it was
stopped, reached the limit exactly, printed one last line that goes with its
status, or could not poll. -/
theorem client_course {o : Options} {tr : List (Move Client Input)} {c : Client}
    (h : (client o).Run tr c) : Course o tr c := (kept_of_run h).course

/-- A client with a limit of one reading, which is in the middle of a chunk. -/
def limitedOptions : Options := ⟨1, oneOptions.strtod⟩

theorem client_course_limited : ∃ tr c, (client limitedOptions).Run tr c ∧ c.pc = .exited 0 ∧
    readings c.log = 1 ∧ Course limitedOptions tr c := by
  have hreplay : (client limitedOptions).replay (.started false)
      [.poll (.ready Kernel.EPOLLIN), .read (.returned [0x31, 0x0a, 0x31, 0x0a])] =
      some (_, _) := rfl
  have hrun := Lts.run_of_replay (M := client limitedOptions) ⟨false, rfl⟩ hreplay
  exact ⟨_, _, hrun, rfl, rfl, client_course hrun⟩

end VDevLab.Monitor
