import VDevLab.Monitor.Loop

/-!
# The retries in the monitor's log

The log of a client whose reads failed with EIO for one phase only: input
lines, then the retries one after the other, then the failure that ends the
monitor, or the recovery and more input lines.
-/

namespace VDevLab.Monitor

/-! ## The shape of the log -/

/-- `READ_RETRY` 1 to `h`. -/
def retryLines (h : Nat) : List LogLine := (List.range h).map fun i => .retry (i + 1)

theorem retryLines_succ (h : Nat) : retryLines (h + 1) = retryLines h ++ [.retry (h + 1)] := by
  simp [retryLines, List.range_succ]

/-- A line that has nothing to do with errors: the start and the input. -/
def LogLine.Calm : LogLine → Prop
  | .simple _ => True
  | .temperature _ => True
  | _ => False

theorem LogLine.OfInput.calm {l : LogLine} (h : l.OfInput) : l.Calm := by
  cases l with
  | errno event error => exact h.elim
  | retry n => exact h.elim
  | recovery n => exact h.elim
  | _ => trivial

/-- The log of a client that took up `h` EIO results of `n`. -/
inductive Shape (n h : Nat) (c : Client) : Prop
  | counting {p} : h ≤ 3 → c.eioRetries = h → (∀ l ∈ p, l.Calm) →
      c.log = p ++ retryLines h → Shape n h c
  | gaveUp {p} : h = 4 → c.pc = .exited 1 → (∀ l ∈ p, l.Calm) →
      c.log = p ++ retryLines 3 ++ [.errno .readFailed EIO] → Shape n h c
  | recovered {p q} : h = n → n ≤ 3 → c.eioRetries = 0 → (∀ l ∈ p, l.Calm) →
      (∀ l ∈ q, l.Calm) → c.log = p ++ retryLines n ++ .recovery n :: q → Shape n h c

/-- Only the program counter changes. -/
theorem Shape.of_log_eq {n h : Nat} {c c' : Client} (hs : Shape n h c)
    (hpc : ∀ status, c.pc ≠ .exited status) (hretries : c'.eioRetries = c.eioRetries)
    (hlog : c'.log = c.log) : Shape n h c' := by
  cases hs with
  | counting hle heq hpre hl => exact .counting hle (hretries.trans heq) hpre (hlog.trans hl)
  | gaveUp _ hex => exact absurd hex (hpc 1)
  | recovered heq hle h0 hpre hpost hl =>
    exact .recovered heq hle (hretries.trans h0) hpre hpost (hlog.trans hl)

/-- An EIO result is taken up. -/
theorem Shape.failed {n h : Nat} {c c' : Client} (hs : Shape n h c)
    (hpc : ∀ status, c.pc ≠ .exited status) (hlt : h < n)
    (hm : ClientMove c (.read (.failed EIO)) c') : Shape n (h + 1) c' := by
  cases hs with
  | @counting pre hle heq hpre hl =>
    cases hm with
    | quiet hread => exact absurd (hread _ rfl).1 (by decide)
    | retry hmore hretries hlog =>
      have hmore : c.eioRetries < 3 := hmore
      refine .counting (by omega) (by omega) hpre ?_
      rw [hlog, hl, heq, retryLines_succ, List.append_assoc]
    | giveUp hlast hretries hexit hlog =>
      have hlast : 3 ≤ c.eioRetries := hlast
      -- `MAX_EIO_RETRIES` is exceeded by the fourth in a row
      have h3 : h = 3 := by omega
      subst h3
      exact .gaveUp rfl hexit hpre (by rw [hlog, hl])
    | last heio => cases heio
    | data ls heio => cases heio
  | gaveUp _ hex => exact absurd hex (hpc 1)
  | recovered heq => omega

/-- Data is taken up before the first EIO or after the last one. -/
theorem Shape.received {n h : Nat} {c : Client} (hs : Shape n h c)
    (hpc : ∀ status, c.pc ≠ .exited status) (hk : h = 0 ∨ h = n) (o : Options)
    (bytes : List UInt8) : Shape n h (c.received o bytes) := by
  have hlog := c.received_log o bytes
  have hretries := c.received_eioRetries o bytes
  have hcalm : ∀ l ∈ (consumeInput o c.input c.eventCount bytes).lines, l.Calm := by
    intro l hl
    exact (consumeInput_ofInput o c.input c.eventCount bytes l hl).calm
  cases hs with
  | @counting pre hle heq hpre hl =>
    by_cases h0 : h = 0
    · have hlines : c.recoveryLines = [] := by simp [Client.recoveryLines, heq, h0]
      subst h0
      refine .counting (p := pre ++ (consumeInput o c.input c.eventCount bytes).lines) (by omega)
        hretries ?_ ?_
      · intro l hl
        rcases List.mem_append.mp hl with hl | hl
        · exact hpre l hl
        · exact hcalm l hl
      · rw [hlog, hlines, hl]
        simp [retryLines]
    · -- the last error was taken up before: this is the recovery
      cases hk.resolve_left h0
      have hlines : c.recoveryLines = [.recovery n] := by simp [Client.recoveryLines, heq, h0]
      refine .recovered rfl hle hretries hpre hcalm ?_
      rw [hlog, hlines, hl]
      simp
  | gaveUp _ hex => exact absurd hex (hpc 1)
  | @recovered pre post heq hle h0 hpre hpost hl =>
    have hlines : c.recoveryLines = [] := by simp [Client.recoveryLines, h0]
    refine .recovered (q := post ++ (consumeInput o c.input c.eventCount bytes).lines) heq hle
      hretries hpre ?_ ?_
    · intro l hl
      rcases List.mem_append.mp hl with hl | hl
      · exact hpost l hl
      · exact hcalm l hl
    · rw [hlog, hlines, hl]
      simp

/-! ## What the client prints -/

/-- A recovery is announced only for retries that were counted, with data. -/
theorem ClientMove.recovery {c c' : Client} {i : Input} (hm : ClientMove c i c') {k : Nat}
    (h : .recovery k ∈ c'.log) :
    .recovery k ∈ c.log ∨ c.eioRetries ≠ 0 ∧ ∃ r, i = .read r ∧ r.isData = true := by
  cases hm with
  | quiet _ _ hlog => exact .inl (hlog ▸ h)
  | retry _ _ hlog => simp_all
  | giveUp _ _ _ hlog => simp_all
  | @last r l _ _ _ _ hneutral _ _ hlog =>
    rw [hlog, List.mem_append, List.mem_singleton] at h
    refine .inl (h.resolve_right ?_)
    rintro rfl
    exact hneutral
  | @data r _ ls _ hdata hls _ hlog =>
    rw [hlog, List.append_assoc, List.mem_append, List.mem_append] at h
    rcases h with h | h | h
    · exact .inl h
    · refine .inr ⟨fun h0 => ?_, r, rfl, hdata⟩
      simp [Client.recoveryLines, h0] at h
    · exact (hls _ h).elim

/-- Retries are counted only when errors were taken up. -/
theorem Shape.eioRetries_eq_zero {n : Nat} {cl : Client} (h : Shape n 0 cl) :
    cl.eioRetries = 0 := by
  cases h with
  | counting _ heq => exact heq
  | gaveUp h4 => cases h4
  | recovered _ _ h0 => exact h0

/-! ## What the log says -/

/-- A line that announces a recovery. -/
def LogLine.isRecovery : LogLine → Bool
  | .recovery _ => true
  | _ => false

theorem LogLine.Calm.ne_retry {l : LogLine} (h : l.Calm) (r : Nat) : l ≠ .retry r := by
  rintro rfl
  exact h

theorem retryLines_eq {h : Nat} {l : LogLine} (hl : l ∈ retryLines h) : ∃ r, l = .retry r := by
  obtain ⟨i, -, rfl⟩ := List.mem_map.mp hl
  exact ⟨i + 1, rfl⟩

section Shape

variable {n h : Nat} {c : Client}

theorem Shape.retries (hs : Shape n h c) :
    ∃ pre post, c.log = pre ++ retryLines (min h 3) ++ post ∧
      ∀ l ∈ pre ++ post, ∀ r, l ≠ .retry r := by
  cases hs with
  | @counting pre hle heq hpre hl =>
    refine ⟨pre, [], by rw [Nat.min_eq_left hle, List.append_nil, hl], ?_⟩
    intro l hmem
    rw [List.append_nil] at hmem
    exact (hpre l hmem).ne_retry
  | @gaveUp pre h4 _ hpre hl =>
    subst h4
    refine ⟨pre, [.errno .readFailed EIO], hl, ?_⟩
    intro l hmem r
    rcases List.mem_append.mp hmem with hmem | hmem
    · exact (hpre l hmem).ne_retry r
    · cases List.mem_singleton.mp hmem
      exact LogLine.noConfusion
  | @recovered pre post heq hle h0 hpre hpost hl =>
    subst heq
    refine ⟨pre, .recovery h :: post, by rw [Nat.min_eq_left hle, hl], ?_⟩
    intro l hmem r
    rcases List.mem_append.mp hmem with hmem | hmem
    · exact (hpre l hmem).ne_retry r
    · rcases List.mem_cons.mp hmem with rfl | hmem
      · exact LogLine.noConfusion
      · exact (hpost l hmem).ne_retry r

/-- Without a fourth error no failure is logged. -/
theorem Shape.no_failure (hs : Shape n h c) (h3 : h ≤ 3) (error : Errno) :
    .errno .readFailed error ∉ c.log := by
  have hcalm : ∀ {ls : List LogLine}, (∀ l ∈ ls, l.Calm) → .errno .readFailed error ∉ ls :=
    fun hall hmem => hall _ hmem
  have hretry : ∀ k, .errno .readFailed error ∉ retryLines k := by
    intro k hmem
    obtain ⟨r, hr⟩ := retryLines_eq hmem
    cases hr
  cases hs with
  | counting _ _ hpre hl => simp [hl, hcalm hpre, hretry]
  | gaveUp h4 => omega
  | recovered _ _ _ hpre hpost hl => simp [hl, hcalm hpre, hcalm hpost, hretry]

/-- The fourth error is the last one. -/
theorem Shape.gives_up (hs : Shape n h c) (h4 : 4 ≤ h) :
    h = 4 ∧ c.pc = .exited 1 ∧ ∃ pre, c.log = pre ++ retryLines 3 ++ [.errno .readFailed EIO] := by
  cases hs with
  | counting h3 => omega
  | @gaveUp pre heq hpc hpre hl => exact ⟨heq, hpc, pre, hl⟩
  | recovered heq h3 => omega

theorem Shape.no_recovery (hs : Shape n h c) (hn : 4 ≤ n) (r : Nat) : .recovery r ∉ c.log := by
  have hcalm : ∀ {ls : List LogLine}, (∀ l ∈ ls, l.Calm) → .recovery r ∉ ls :=
    fun hall hmem => hall _ hmem
  have hretry : ∀ k, .recovery r ∉ retryLines k := by
    intro k hmem
    obtain ⟨i, hi⟩ := retryLines_eq hmem
    cases hi
  cases hs with
  | counting _ _ hpre hl => simp [hl, hcalm hpre, hretry]
  | gaveUp _ _ hpre hl => simp [hl, hcalm hpre, hretry]
  | recovered _ hle => omega

/-- The recovery is announced at most once. -/
theorem Shape.recovery_once (hs : Shape n h c) : c.log.countP LogLine.isRecovery ≤ 1 := by
  have hcalm : ∀ {ls : List LogLine}, (∀ l ∈ ls, l.Calm) → ls.countP LogLine.isRecovery = 0 := by
    intro ls hall
    rw [List.countP_eq_zero]
    intro l hmem hl
    cases l with
    | recovery r => exact hall _ hmem
    | _ => cases hl
  have hretry : ∀ k, (retryLines k).countP LogLine.isRecovery = 0 := by
    intro k
    rw [List.countP_eq_zero]
    intro l hmem
    obtain ⟨r, rfl⟩ := retryLines_eq hmem
    exact Bool.noConfusion
  cases hs with
  | counting _ _ hpre hl => simp [hl, hcalm hpre, hretry]
  | gaveUp _ _ hpre hl => simp [hl, hcalm hpre, hretry, LogLine.isRecovery]
  | recovered _ _ _ hpre hpost hl =>
    simp [hl, hcalm hpre, hcalm hpost, hretry, List.countP_cons, LogLine.isRecovery]

end Shape

end VDevLab.Monitor
