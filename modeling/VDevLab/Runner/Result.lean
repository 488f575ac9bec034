import VDevLab.Runner.Termination

/-!
# What an `ApplicationResult` says

A call that returns a result has gone one of four ways: the timed `join` was
enough, the leader's exit was seen, the group ended in the grace period, or it
was killed. The flags of the result tell which, in every interleaving of the
caller with the collector thread and the processes of the group. The output is
what the collector read, the exit code is the leader's.
-/

namespace VDevLab.Runner

open PyStr

/-- The call has a timeout of its own. -/
def ProcessCall.timed : ProcessCall → Bool
  | .collectWithTimeout _ _ => true
  | .terminate _ => false

/-- What precedes `terminate` in the call. -/
def ProcessCall.expired (c : ProcessCall) : List CallerEvent :=
  if c.timed then [.expired true] else []

/-- The events of one call, from its start to a result with these flags. -/
inductive Ends (c : ProcessCall) : List CallerEvent → Bool → Bool → Prop
  | collected {rest} : c.timed = true → (rest = [] ∨ ∃ alive, rest = [.expired alive]) →
      Ends c rest false false
  | exitSeen : Ends c c.expired c.timed false
  | asked {rest} : (rest = [] ∨ ∃ alive, rest = [.expired alive]) →
      Ends c (c.expired ++ .killpg false :: rest) c.timed false
  | killed : Ends c (c.expired ++ [.killpg false, .expired true, .killpg true]) c.timed true

/-- The events of a call so far, by the place of the caller. A `join` that
returned has seen the collector end, one that expired perhaps not. -/
inductive Way (alive : Bool) (c : ProcessCall) : List CallerEvent → Pc → Prop
  | collectJoin {t g} : c.timed = true → Way alive c [] (.collectJoin t g)
  | collectReturned {t g} : c.timed = true → alive = false → Way alive c [] (.collectAlive t g)
  | collectExpired {t g b} : c.timed = true → (alive = true → b = true) →
      Way alive c [.expired b] (.collectAlive t g)
  | terminatePoll : Way alive c c.expired (.terminatePoll c.timed)
  | sendTerm : Way alive c c.expired (.sendTerm c.timed)
  | graceJoin : Way alive c (c.expired ++ [.killpg false]) (.graceJoin c.timed)
  | graceReturned : alive = false → Way alive c (c.expired ++ [.killpg false]) (.graceAlive c.timed)
  | graceExpired {b} : (alive = true → b = true) →
      Way alive c (c.expired ++ [.killpg false, .expired b]) (.graceAlive c.timed)
  | sendKill : Way alive c (c.expired ++ [.killpg false, .expired true]) (.sendKill c.timed)
  | join {after forced} : Ends c after c.timed forced → Way alive c after (.join c.timed forced)

/-- The collector ends once. -/
theorem Way.mono {alive alive' : Bool} {c : ProcessCall} {after : List CallerEvent} {pc : Pc}
    (h : Way alive c after pc) (ha : alive = false → alive' = false) : Way alive' c after pc := by
  have hb : ∀ {b : Bool}, (alive = true → b = true) → alive' = true → b = true := by
    intro b hb ha'
    apply hb
    by_contra hne
    rw [ha (by simpa using hne)] at ha'
    cases ha'
  cases h with
  | collectJoin ht => exact .collectJoin ht
  | collectReturned ht hd => exact .collectReturned ht (ha hd)
  | collectExpired ht hd => exact .collectExpired ht (hb hd)
  | terminatePoll => exact .terminatePoll
  | sendTerm => exact .sendTerm
  | graceJoin => exact .graceJoin
  | graceReturned hd => exact .graceReturned (ha hd)
  | graceExpired hd => exact .graceExpired (hb hd)
  | sendKill => exact .sendKill
  | join he => exact .join he

/-- The last call and the events since. -/
def Since (events : List CallerEvent) (c : ProcessCall) (after : List CallerEvent) : Prop :=
  ∃ before, events = before ++ .called c :: after

theorem Since.snoc {events more after : List CallerEvent} {c : ProcessCall}
    (h : Since events c after) : Since (events ++ more) c (after ++ more) := by
  obtain ⟨before, rfl⟩ := h
  exact ⟨before, by simp⟩

/-- How the caller got where it is, and what its last result says. -/
structure Told (events : List CallerEvent) (s : ProcessState) : Prop where
  way : s.pc ≠ .idle → ∃ c after, Since events c after ∧ Way s.isAlive c after s.pc
  told : s.pc = .idle → ∀ r, s.result = some (.ok r) →
    ∃ c after, Since events c after ∧ Ends c after r.timedOut r.forced

namespace Told

variable {s t : ProcessState} {l : ProcessAct} {events more : List CallerEvent}

/-- A step that is not the caller's. -/
theorem stays (h : Told events s) (hpc : t.pc = s.pc) (hresult : t.result = s.result)
    (halive : s.isAlive = false → t.isAlive = false) : Told events t where
  way hne := by
    rw [hpc] at hne ⊢
    obtain ⟨c, after, hsince, hway⟩ := h.way hne
    exact ⟨c, after, hsince, hway.mono halive⟩
  told hidle r hr := h.told (hpc ▸ hidle) r (hresult ▸ hr)

/-- The caller goes on. -/
theorem goes (pc : Pc) (hpc : t.pc = pc) (hne : pc ≠ .idle)
    (hway : ∃ c after, Since events c after ∧ Way t.isAlive c after pc) : Told events t where
  way _ := by
    rw [hpc]
    exact hway
  told hidle := absurd (hpc.symm.trans hidle) hne

/-- The call ends. -/
theorem ends {result : Except ProcessError ApplicationResult} (hpc : t.pc = .idle)
    (hresult : t.result = some result)
    (hok : ∀ r, result = .ok r → ∃ c after, Since events c after ∧
      Ends c after r.timedOut r.forced) : Told events t where
  way hne := absurd hpc hne
  told _ r hr := hok r (Option.some.inj (hresult.symm.trans hr))

theorem raises {e : ProcessError} (hpc : t.pc = .idle) (hresult : t.result = some (.error e)) :
    Told events t :=
  ends hpc hresult fun _ hr => by cases hr

end Told

theorem applicationResult_flags {s : ProcessState} {timedOut forced : Bool} {r : ApplicationResult}
    (h : s.applicationResult timedOut forced = .ok r) :
    r.timedOut = timedOut ∧ r.forced = forced := by
  unfold ProcessState.applicationResult at h
  split at h
  · cases h
  · cases h
    exact ⟨rfl, rfl⟩
  · cases h

namespace ProcessState

variable {s t : ProcessState} {l : ProcessAct} {events : List CallerEvent}

theorem enterTerminate_told {timedOut : Bool} {graceMs : Int}
    (hway : ∃ c after, Since events c after ∧ Way s.isAlive c after (.terminatePoll timedOut)) :
    Told events (s.enterTerminate timedOut graceMs) := by
  unfold enterTerminate
  split
  · exact .raises rfl rfl
  · exact .goes (.terminatePoll timedOut) rfl (by simp) hway

theorem call_told (c : ProcessCall) : Told (events ++ [.called c]) (s.enter c) := by
  have hsince : Since (events ++ [.called c]) c [] := ⟨events, rfl⟩
  cases c with
  | collectWithTimeout timeoutMs graceMs =>
    simp only [enter]
    split
    · exact .raises rfl rfl
    · exact .goes _ rfl (by simp) ⟨_, _, hsince, .collectJoin rfl⟩
  | terminate graceMs =>
    exact enterTerminate_told ⟨.terminate graceMs, [], hsince, .terminatePoll⟩

/-- Where the caller is and how it got there. -/
theorem way_of {pc : Pc} (h : Told events s) (hpc : s.pc = pc) (hne : pc ≠ .idle) :
    ∃ c after, Since events c after ∧ Way s.isAlive c after pc := by
  rw [← hpc]
  exact h.way (hpc ▸ hne)

/-- A `join` is over. -/
theorem joined_told (h : Told events s) (hj : s.joined = some t) (expired : Bool)
    (hreturned : expired = false → s.isAlive = false) :
    Told (events ++ if expired then [.expired s.isAlive] else []) t := by
  unfold joined at hj
  split at hj
  · next timeoutMs graceMs hpc =>
    cases hj
    obtain ⟨c, after, hsince, hway⟩ := way_of h hpc (by simp)
    refine .goes (.collectAlive timeoutMs graceMs) rfl (by simp) ⟨c, _, hsince.snoc, ?_⟩
    cases hway with
    | collectJoin ht =>
      cases expired with
      | true => exact .collectExpired ht id
      | false => exact .collectReturned ht (hreturned rfl)
  · next timedOut hpc =>
    cases hj
    obtain ⟨c, after, hsince, hway⟩ := way_of h hpc (by simp)
    refine .goes (.graceAlive timedOut) rfl (by simp) ⟨c, _, hsince.snoc, ?_⟩
    cases hway with
    | graceJoin =>
      cases expired with
      | true =>
        simp only [if_true, List.append_assoc, List.singleton_append]
        exact .graceExpired id
      | false =>
        simp only [Bool.false_eq_true, if_false, List.append_nil]
        exact .graceReturned (hreturned rfl)
  · cases hj

/-- The call returns what `_result` makes of the flags. -/
theorem ended_told {timedOut forced : Bool} {c : ProcessCall} {after : List CallerEvent}
    (hsince : Since events c after) (hends : Ends c after timedOut forced) :
    Told events (s.ended (s.applicationResult timedOut forced)) := by
  refine .ends rfl rfl fun r hr => ⟨c, after, hsince, ?_⟩
  obtain ⟨rfl, rfl⟩ := applicationResult_flags hr
  exact hends

theorem checkAlive_told (h : Told events s) (hc : s.checkAlive = some t) : Told events t := by
  unfold checkAlive at hc
  split at hc
  · next timeoutMs graceMs hpc =>
    cases hc
    obtain ⟨c, after, hsince, hway⟩ := way_of h hpc (by simp)
    cases hway with
    | collectReturned ht hdead =>
      rw [hdead, if_neg Bool.false_ne_true]
      exact ended_told hsince (.collected ht (.inl rfl))
    | @collectExpired _ _ b ht hb =>
      by_cases halive : s.isAlive = true
      · rw [if_pos halive]
        refine enterTerminate_told ⟨c, _, hsince, ?_⟩
        have hexpired : c.expired = [.expired b] := by
          rw [ProcessCall.expired, if_pos ht, hb halive]
        rw [← hexpired, ← ht]
        exact .terminatePoll
      · rw [if_neg halive]
        exact ended_told hsince (.collected ht (.inr ⟨b, rfl⟩))
  · next timedOut hpc =>
    cases hc
    obtain ⟨c, after, hsince, hway⟩ := way_of h hpc (by simp)
    refine .goes _ rfl (by split <;> simp) ⟨c, after, hsince, ?_⟩
    cases hway with
    | graceReturned hdead =>
      rw [hdead, if_neg Bool.false_ne_true]
      exact .join (.asked (.inl rfl))
    | @graceExpired b hb =>
      show Way s.isAlive c _ _
      by_cases halive : s.isAlive = true
      · rw [if_pos halive, hb halive]
        exact .sendKill
      · rw [if_neg halive]
        exact .join (.asked (.inr ⟨b, rfl⟩))
  · cases hc

theorem pollLeader_told {busy : Bool} (h : Told events s) (hp : s.pollLeader busy = some t) :
    Told events t := by
  unfold pollLeader at hp
  split at hp
  · cases hp
    split
    · refine h.stays (by simp) (by simp) fun hdead => ?_
      rw [isAlive_eq s.reapLeader_collector, hdead]
    · exact h
  · next timedOut hpc =>
    cases hp
    obtain ⟨c, after, hsince, hway⟩ := way_of h hpc (by simp)
    cases hway with
    | terminatePoll =>
      split
      · exact .goes _ rfl (by simp) ⟨c, _, hsince, .join .exitSeen⟩
      · exact .goes _ rfl (by simp) ⟨c, _, hsince, .sendTerm⟩
  · cases hp

theorem signalGroup_told (h : Told events s) (hs : s.signalGroup = some t) :
    Told (events ++ callerEvents ⟨s, .signal, t⟩) t := by
  unfold signalGroup at hs
  split at hs
  · next timedOut hpc =>
    cases hs
    obtain ⟨c, after, hsince, hway⟩ := way_of h hpc (by simp)
    simp only [callerEvents, hpc]
    cases hway with
    | sendTerm => exact .goes _ rfl (by simp) ⟨c, _, hsince.snoc, .graceJoin⟩
  · next timedOut hpc =>
    cases hs
    obtain ⟨c, after, hsince, hway⟩ := way_of h hpc (by simp)
    simp only [callerEvents, hpc]
    cases hway with
    | sendKill =>
      refine .goes _ rfl (by simp) ⟨c, _, hsince.snoc, .join ?_⟩
      rw [List.append_assoc]
      exact .killed
  · cases hs

end ProcessState

theorem Told.step {s t : ProcessState} {l : ProcessAct} {events : List CallerEvent}
    (h : Told events s) (hl : s.step l = some t) : Told (events ++ callerEvents ⟨s, l, t⟩) t := by
  have hgroup : s.groupStep l = some t → Told events t := fun hg => by
    obtain ⟨hpc, hcollector, -, hresult⟩ := ProcessState.groupStep_frame hg
    refine h.stays hpc hresult fun hdead => ?_
    rw [ProcessState.isAlive_eq hcollector, hdead]
  have hcollector : s.collectorStep l = some t → Told events t := fun hc => by
    obtain ⟨hpc, -, hresult, halive⟩ := ProcessState.collectorStep_frame hc
    refine h.stays hpc hresult fun hdead => ?_
    rw [halive] at hdead
    cases hdead
  cases l with
  | call c =>
    simp only [ProcessState.step] at hl
    split at hl
    · cases hl
      exact ProcessState.call_told c
    · cases hl
  | joinReturns =>
    simp only [ProcessState.step] at hl
    split at hl
    · cases hl
    · next hdead =>
      have hdead : s.isAlive = false := by simpa using hdead
      split at hl
      · next timedOut forced hpc =>
        cases hl
        obtain ⟨c, after, hsince, hway⟩ := ProcessState.way_of h hpc (by simp)
        simp only [callerEvents, List.append_nil]
        cases hway with
        | join he => exact ProcessState.ended_told hsince he
      · exact ProcessState.joined_told h hl false fun _ => hdead
  | joinExpires => exact ProcessState.joined_told h hl true (by simp)
  | checkAlive =>
    simp only [callerEvents, List.append_nil]
    exact ProcessState.checkAlive_told h hl
  | poll busy =>
    simp only [callerEvents, List.append_nil]
    simp only [ProcessState.step] at hl
    split at hl
    · exact ProcessState.pollLeader_told h hl
    · cases hl
  | signal => exact ProcessState.signalGroup_told h hl
  | interrupt =>
    simp only [ProcessState.step] at hl
    split at hl
    · cases hl
    · cases hl
      exact .raises rfl rfl
  | exits => simpa [callerEvents] using hgroup hl
  | closes => simpa [callerEvents] using hgroup hl
  | forks => simpa [callerEvents] using hgroup hl
  | reaps => simpa [callerEvents] using hgroup hl
  | readEnd => simpa [callerEvents] using hcollector hl
  | waitEnd => simpa [callerEvents] using hcollector hl
  | threadEnd => simpa [callerEvents] using hcollector hl
  | communicateRaises => simpa [callerEvents] using hcollector hl

theorem applicationProcess_told {tr s} (h : applicationProcess.Run tr s) :
    Told (history tr) s := by
  induction h with
  | start hs =>
    obtain ⟨command, rfl⟩ := hs
    exact ⟨fun hne => absurd rfl hne, fun _ r hr => by cases hr⟩
  | snoc hr hl ih =>
    rw [history_concat]
    exact ih.step hl

/-! ## Output and exit code -/

def Proc.status? : Proc → Option Int
  | .running _ => none
  | .exited status => some status
  | .reaped status => some status

/-- The output that `communicate()` has read. -/
def Collector.output? : Collector → Option (List UInt8 × List UInt8)
  | .reading => none
  | .waiting output => some output
  | .returning output => some output
  | .finished output => output

/-- What the state keeps of the steps taken, and the last result of the state. -/
structure Heard (acts : List ProcessAct) (s : ProcessState) : Prop where
  exited : ∀ status, .exits none status ∈ acts ↔ s.leader.status? = some status
  unread : s.collector = .reading → ∀ output, .readEnd output ∉ acts
  read : ∀ output, s.collector.output? = some output →
    ∀ output', .readEnd output' ∈ acts ↔ output' = output
  printed : ∀ r, s.result = some (.ok r) → s.leader.status? = some r.exitCode ∧
    ∃ output, s.collector = .finished (some output) ∧
      r.stdout = decodeReplace output.1 ∧ r.stderr = decodeReplace output.2

namespace ProcessState

variable {s t : ProcessState} {l : ProcessAct}

theorem reapLeader_status (s : ProcessState) : s.reapLeader.leader.status? = s.leader.status? := by
  unfold reapLeader
  split
  · next status h => rw [h]; rfl
  · rfl

/-- The leader exits when it runs, and else its status stays. -/
theorem groupStep_status (h : s.groupStep l = some t) :
    (∃ status, l = .exits none status ∧ s.leader.status? = none ∧
      t.leader.status? = some status) ∨
    ((∀ status, l ≠ .exits none status) ∧ t.leader.status? = s.leader.status?) := by
  cases l <;> simp only [groupStep] at h
  case exits who status =>
    split at h
    · next pipe hp =>
      cases h
      cases who with
      | none =>
        have hleader : s.leader = .running pipe := Option.some.inj hp
        exact .inl ⟨status, rfl, by rw [hleader]; rfl, rfl⟩
      | some i => exact .inr ⟨by simp, rfl⟩
    · cases h
  case closes who =>
    split at h
    · next pipe hp =>
      cases h
      refine .inr ⟨by simp, ?_⟩
      cases who with
      | none =>
        have hleader : s.leader = .running pipe := Option.some.inj hp
        rw [hleader]
        rfl
      | some i => rfl
    · cases h
  case forks who =>
    split at h
    · cases h
      exact .inr ⟨by simp, rfl⟩
    · cases h
  case reaps i =>
    split at h
    · cases h
      exact .inr ⟨by simp, rfl⟩
    · cases h
  all_goals cases h

/-- A call that ends has raised, or returns what `_result` has. -/
theorem step_result (h : s.step l = some t) :
    t.result = s.result ∨ (∃ e, t.result = some (.error e)) ∨
      ∃ timedOut forced, t.result = some (s.applicationResult timedOut forced) := by
  have hterminate : ∀ timedOut graceMs,
      (s.enterTerminate timedOut graceMs).result = s.result ∨
        ∃ e, (s.enterTerminate timedOut graceMs).result = some (.error e) := by
    intro timedOut graceMs
    unfold enterTerminate
    split
    · exact .inr ⟨_, rfl⟩
    · exact .inl rfl
  have hjoined : s.joined = some t → t.result = s.result := by
    intro h
    unfold joined at h
    split at h
    · cases h
      rfl
    · cases h
      rfl
    · cases h
  cases l <;> simp only [step] at h
  case call c =>
    split at h
    · cases h
      cases c with
      | collectWithTimeout timeoutMs graceMs =>
        simp only [enter]
        split
        · exact .inr (.inl ⟨_, rfl⟩)
        · exact .inl rfl
      | terminate graceMs => exact (hterminate false graceMs).imp_right .inl
    · cases h
  case joinReturns =>
    split at h
    · cases h
    · split at h
      · cases h
        exact .inr (.inr ⟨_, _, rfl⟩)
      · exact .inl (hjoined h)
  case joinExpires => exact .inl (hjoined h)
  case checkAlive =>
    unfold ProcessState.checkAlive at h
    split at h
    · cases h
      split
      · exact (hterminate true _).imp_right .inl
      · exact .inr (.inr ⟨_, _, rfl⟩)
    · cases h
      exact .inl rfl
    · cases h
  case poll busy =>
    split at h
    · unfold pollLeader at h
      split at h
      · cases h
        split <;> simp
      · cases h
        split <;> simp
      · cases h
    · cases h
  case signal =>
    unfold signalGroup at h
    split at h
    · cases h
      exact .inl rfl
    · cases h
      exact .inl rfl
    · cases h
  case interrupt =>
    split at h
    · cases h
    · cases h
      exact .inr (.inl ⟨_, rfl⟩)
  case exits => exact .inl (groupStep_frame h).2.2.2
  case closes => exact .inl (groupStep_frame h).2.2.2
  case forks => exact .inl (groupStep_frame h).2.2.2
  case reaps => exact .inl (groupStep_frame h).2.2.2
  case readEnd => exact .inl (collectorStep_frame h).2.2.1
  case waitEnd => exact .inl (collectorStep_frame h).2.2.1
  case threadEnd => exact .inl (collectorStep_frame h).2.2.1
  case communicateRaises => exact .inl (collectorStep_frame h).2.2.1

/-- A result has the leader's status and the collector's output. -/
theorem applicationResult_ok {timedOut forced : Bool} {r : ApplicationResult}
    (h : s.applicationResult timedOut forced = .ok r) : s.leader.status? = some r.exitCode ∧
      ∃ output, s.collector = .finished (some output) ∧
        r.stdout = decodeReplace output.1 ∧ r.stderr = decodeReplace output.2 := by
  unfold applicationResult at h
  split at h
  · cases h
  · next stdout stderr status hcollector hleader =>
    cases h
    exact ⟨by rw [hleader]; rfl, (stdout, stderr), hcollector, rfl, rfl⟩
  · cases h

end ProcessState

namespace Heard

variable {s t : ProcessState} {l : ProcessAct} {acts : List ProcessAct}

/-- The result after a step that leaves status and collector. -/
theorem printed_step (h : Heard acts s) (hl : s.step l = some t)
    (hleader : t.leader.status? = s.leader.status?) (hcollector : t.collector = s.collector)
    (r : ApplicationResult) (hr : t.result = some (.ok r)) :
    t.leader.status? = some r.exitCode ∧ ∃ output, t.collector = .finished (some output) ∧
      r.stdout = decodeReplace output.1 ∧ r.stderr = decodeReplace output.2 := by
  rw [hleader, hcollector]
  rcases ProcessState.step_result hl with heq | ⟨e, heq⟩ | ⟨timedOut, forced, heq⟩
  · exact h.printed r (heq ▸ hr)
  · rw [heq] at hr
    cases hr
  · rw [heq] at hr
    exact ProcessState.applicationResult_ok (Option.some.inj hr)

/-- A step that is no exit of the leader and no end of the reading. -/
theorem other (h : Heard acts s) (hl : s.step l = some t) (hexit : ∀ status, l ≠ .exits none status)
    (hread : ∀ output, l ≠ .readEnd output) (hleader : t.leader.status? = s.leader.status?)
    (hcollector : t.collector = s.collector) : Heard (acts ++ [l]) t where
  exited status := by simp [hleader, h.exited, (hexit status).symm]
  unread hc output := by simp [h.unread (hcollector ▸ hc), (hread output).symm]
  read output ho output' := by
    simp [h.read output (hcollector ▸ ho), (hread output').symm]
  printed := h.printed_step hl hleader hcollector

/-- What was printed was printed by a collector that has ended. -/
theorem unprinted (h : Heard acts s) (halive : s.isAlive = true) (r : ApplicationResult) :
    s.result ≠ some (.ok r) := by
  intro hr
  obtain ⟨-, output, hc, -⟩ := h.printed r hr
  simp [ProcessState.isAlive, hc] at halive

theorem group (h : Heard acts s) (hl : s.step l = some t) (hg : s.groupStep l = some t)
    (hread : ∀ output, l ≠ .readEnd output) : Heard (acts ++ [l]) t := by
  obtain ⟨-, hcollector, -, hresult⟩ := ProcessState.groupStep_frame hg
  rcases ProcessState.groupStep_status hg with ⟨status, rfl, hrunning, hstatus⟩ | ⟨hexit, hsame⟩
  · refine ⟨fun status' => ?_, fun hc output => ?_, fun output ho output' => ?_, fun r hr => ?_⟩
    · simp [h.exited, hrunning, hstatus, eq_comm]
    · simp [h.unread (hcollector ▸ hc)]
    · simp [h.read output (hcollector ▸ ho)]
    · have hold := (h.printed r (hresult ▸ hr)).1
      rw [hrunning] at hold
      cases hold
  · exact h.other hl hexit hread hsame hcollector

/-- A step of the collector that reads nothing more. -/
theorem collected (h : Heard acts s) (hc : s.collectorStep l = some t)
    (hexit : ∀ status, l ≠ .exits none status) (hread : ∀ output, l ≠ .readEnd output)
    (hleader : t.leader.status? = s.leader.status?) (hopen : t.collector ≠ .reading)
    (hkeep : ∀ output, t.collector.output? = some output → s.collector.output? = some output) :
    Heard (acts ++ [l]) t where
  exited status := by simp [hleader, h.exited, (hexit status).symm]
  unread hc' := absurd hc' hopen
  read output ho output' := by simp [h.read output (hkeep output ho), (hread output').symm]
  printed r hr := by
    obtain ⟨-, -, hresult, halive⟩ := ProcessState.collectorStep_frame hc
    exact absurd (hresult ▸ hr) (h.unprinted halive r)

theorem collector (h : Heard acts s) (hc : s.collectorStep l = some t) : Heard (acts ++ [l]) t := by
  have hkept := hc
  cases l <;> simp only [ProcessState.collectorStep] at hc
  case readEnd output =>
    split at hc
    · next hreading hpipe =>
      cases hc
      have hnone := h.unread hreading
      refine ⟨fun status => ?_, fun hc => ?_, fun o ho o' => ?_, fun r hr => ?_⟩
      · simp [h.exited]
      · cases hc
      · cases ho
        simp [hnone]
      · exact absurd hr (h.unprinted (ProcessState.collectorStep_frame hkept).2.2.2 r)
    · cases hc
  case waitEnd =>
    split at hc
    · next o status hwaiting hleader =>
      cases hc
      exact h.collected hkept (by simp) (by simp) s.reapLeader_status (by simp)
        fun o' ho => by rw [hwaiting]; exact ho
    · next o status hwaiting hleader =>
      cases hc
      exact h.collected hkept (by simp) (by simp) rfl (by simp)
        fun o' ho => by rw [hwaiting]; exact ho
    · cases hc
  case threadEnd =>
    split at hc
    · next o hreturning =>
      cases hc
      exact h.collected hkept (by simp) (by simp) rfl (by simp)
        fun o' ho => by rw [hreturning]; exact ho
    · cases hc
  case communicateRaises =>
    split at hc
    · cases hc
      exact h.collected hkept (by simp) (by simp) rfl (by simp) fun o' ho => by cases ho
    · cases hc
  all_goals cases hc

theorem caller (h : Heard acts s) (hl : s.step l = some t) (hr : OnlyReaps s t)
    (hexit : ∀ status, l ≠ .exits none status) (hread : ∀ output, l ≠ .readEnd output) :
    Heard (acts ++ [l]) t := by
  refine h.other hl hexit hread ?_ hr.collector
  rcases hr.leader with heq | heq
  · rw [heq]
  · rw [heq, ProcessState.reapLeader_status]

theorem step (h : Heard acts s) (hl : s.step l = some t) : Heard (acts ++ [l]) t := by
  cases l with
  | exits => exact h.group hl hl (by simp)
  | closes => exact h.group hl hl (by simp)
  | forks => exact h.group hl hl (by simp)
  | reaps => exact h.group hl hl (by simp)
  | readEnd => exact h.collector hl
  | waitEnd => exact h.collector hl
  | threadEnd => exact h.collector hl
  | communicateRaises => exact h.collector hl
  | _ =>
    rcases ProcessState.step_cases hl with hg | hc | hr
    · cases hg
    · cases hc
    · exact h.caller hl hr (by simp) (by simp)

end Heard

theorem applicationProcess_heard {tr s} (h : applicationProcess.Run tr s) :
    Heard (tr.map Move.label) s := by
  induction h with
  | start hs =>
    obtain ⟨command, rfl⟩ := hs
    refine ⟨fun status => ?_, fun _ output => ?_, fun output ho => ?_, fun r hr => ?_⟩
    · simp [Proc.status?]
    · simp
    · cases ho
    · cases hr
  | snoc hr hl ih =>
    rw [List.map_append]
    exact ih.step hl

/-- The application outlives the timeout and ignores SIGTERM. -/
def stubbornRun : List ProcessAct :=
  [.call (.collectWithTimeout 500 1000), .joinExpires, .checkAlive, .poll false, .signal,
    .joinExpires, .checkAlive, .signal, .exits none (-9), .readEnd ([104, 105], []), .waitEnd,
    .threadEnd, .joinReturns]

end VDevLab.Runner
