import VDevLab.Runner.Process

/-!
# How a call of `ApplicationProcess` ends

`terminate` asks the group to end, waits, and kills it. The `join` without a
timeout at its end is harmless once the collector has ended or the group was
killed; the one way around this is the shortcut for a leader that has exited,
which says nothing about the processes it leaves behind.
-/

namespace VDevLab.Runner

open PyStr

/-! ## The caller's way -/

/-- The steps that the caller's history records. -/
inductive CallerEvent
  | called (c : ProcessCall)
  | expired (alive : Bool)
  | killpg (force : Bool)
  deriving DecidableEq

/-- What a step adds to it: a `join` that expires, with `is_alive()` at that
moment, and a signal to the group. -/
def callerEvents (m : Move ProcessState ProcessAct) : List CallerEvent :=
  match m.label, m.pre.pc with
  | .call c, _ => [.called c]
  | .joinExpires, _ => [.expired m.pre.isAlive]
  | .signal, .sendTerm _ => [.killpg false]
  | .signal, .sendKill _ => [.killpg true]
  | _, _ => []

def history (tr : List (Move ProcessState ProcessAct)) : List CallerEvent :=
  tr.flatMap callerEvents

namespace ProcessState

/-- How a step moves the caller on the way from the grace `join` to the one
without a timeout. -/
inductive Turn (s t : ProcessState) : ProcessAct → Prop
  | stays {l} : t.pc = s.pc → (s.isAlive = false → t.isAlive = false) →
      t.sigkilled = s.sigkilled → callerEvents ⟨s, l, t⟩ = [] → Turn s t l
  | elsewhere {l} : (∀ b, t.pc ≠ .graceJoin b ∧ t.pc ≠ .graceAlive b ∧ t.pc ≠ .sendKill b) →
      (∀ b f, t.pc ≠ .join b f) → Turn s t l
  | overtakes {b busy} : s.pc = .terminatePoll b → s.exitSeen busy = true → t.pc = .join b false →
      t.collector = s.collector → t.sigkilled = s.sigkilled → Turn s t (.poll busy)
  | terms {b} : s.pc = .sendTerm b → t.pc = .graceJoin b → Turn s t .signal
  | expires {b} : s.pc = .graceJoin b → t.pc = .graceAlive b → t.collector = s.collector →
      Turn s t .joinExpires
  | returns {b} : s.pc = .graceJoin b → t.pc = .graceAlive b → t.isAlive = false →
      Turn s t .joinReturns
  | forces {b} : s.pc = .graceAlive b → t.pc = .sendKill b → s.isAlive = true →
      Turn s t .checkAlive
  | collects {b} : s.pc = .graceAlive b → t.pc = .join b false → t.isAlive = false →
      Turn s t .checkAlive
  | kills {b} : s.pc = .sendKill b → t.pc = .join b true → t.sigkilled = true → Turn s t .signal

variable {s t : ProcessState} {l : ProcessAct}

theorem Turn.group (h : s.groupStep l = some t) (hl : callerEvents ⟨s, l, t⟩ = []) :
    Turn s t l := by
  obtain ⟨hpc, hcollector, hkilled, -⟩ := groupStep_frame h
  exact .stays hpc (fun ha => (isAlive_eq hcollector).trans ha) hkilled hl

theorem Turn.collector (h : s.collectorStep l = some t) (hl : callerEvents ⟨s, l, t⟩ = []) :
    Turn s t l := by
  obtain ⟨hpc, hkilled, -, halive⟩ := collectorStep_frame h
  exact .stays hpc (fun ha => absurd halive (by simp [ha])) hkilled hl

theorem Turn.idle (h : t.pc = .idle) : Turn s t l :=
  .elsewhere (by simp [h]) (by simp [h])

theorem Turn.enterTerminate {b : Bool} {graceMs : Int} : Turn s (s.enterTerminate b graceMs) l := by
  unfold ProcessState.enterTerminate
  split
  · exact .idle rfl
  · exact .elsewhere (by simp) (by simp)

theorem step_turn (h : s.step l = some t) : Turn s t l := by
  cases l <;> simp only [step] at h
  case call c =>
    split at h
    · cases h
      cases c with
      | collectWithTimeout timeoutMs graceMs =>
        simp only [enter]
        split
        · exact .idle rfl
        · exact .elsewhere (by simp) (by simp)
      | terminate graceMs => exact .enterTerminate
    · cases h
  case joinReturns =>
    by_cases ha : s.isAlive = true
    · rw [if_pos ha] at h
      cases h
    · rw [if_neg ha] at h
      split at h
      · cases h
        exact .idle rfl
      · unfold joined at h
        split at h
        · cases h
          exact .elsewhere (by simp) (by simp)
        · cases h
          exact .returns (by assumption) rfl ((isAlive_eq (s := s) rfl).trans (by simpa using ha))
        · cases h
  case joinExpires =>
    unfold joined at h
    split at h
    · cases h
      exact .elsewhere (by simp) (by simp)
    · cases h
      exact .expires (by assumption) rfl rfl
    · cases h
  case checkAlive =>
    unfold ProcessState.checkAlive at h
    split at h
    · cases h
      split
      · exact .enterTerminate
      · exact .idle rfl
    · cases h
      by_cases ha : s.isAlive = true
      · exact .forces (by assumption) (by simp [ha]) ha
      · exact .collects (by assumption) (by simp [ha]) ((isAlive_eq (s := s) rfl).trans (by simpa using ha))
    · cases h
  case poll busy =>
    split at h
    · unfold pollLeader at h
      split at h
      · rename_i hpc
        cases h
        split
        · exact .idle (by simpa using hpc)
        · exact .idle hpc
      · rename_i hpc
        cases h
        split
        · exact .overtakes hpc (by assumption) rfl (by simp) (by simp)
        · exact .elsewhere (by simp) (by simp)
      · cases h
    · cases h
  case signal =>
    unfold signalGroup at h
    split at h
    · cases h
      exact .terms (by assumption) rfl
    · cases h
      exact .kills (by assumption) rfl rfl
    · cases h
  case interrupt =>
    split at h
    · cases h
    · cases h
      exact .idle rfl
  case exits => exact .group h rfl
  case closes => exact .group h rfl
  case forks => exact .group h rfl
  case reaps => exact .group h rfl
  case readEnd => exact .collector h rfl
  case waitEnd => exact .collector h rfl
  case threadEnd => exact .collector h rfl
  case communicateRaises => exact .collector h rfl

end ProcessState

/-! ## SIGKILL comes last -/

/-- The end of the history when the group may be killed. -/
def graceExpired : List CallerEvent := [.killpg false, .expired true]

/-- What the caller's place says about its history. -/
def Place (s : ProcessState) (events : List CallerEvent) : Prop :=
  match s.pc with
  | .graceJoin _ => [.killpg false] <:+ events
  | .graceAlive _ => s.isAlive = true → graceExpired <:+ events
  | .sendKill _ => graceExpired <:+ events
  | _ => True

/-- SIGKILL follows directly on SIGTERM and a grace `join` that expired with
the collector alive. -/
def KillsLast (events : List CallerEvent) : Prop :=
  ∀ before after, events = before ++ .killpg true :: after → graceExpired <:+ before

theorem history_concat (tr : List (Move ProcessState ProcessAct)) (m : Move ProcessState ProcessAct) :
    history (tr ++ [m]) = history tr ++ callerEvents m := by
  simp [history]

theorem Place.elsewhere {s : ProcessState} {events : List CallerEvent}
    (h : ∀ b, s.pc ≠ .graceJoin b ∧ s.pc ≠ .graceAlive b ∧ s.pc ≠ .sendKill b) :
    Place s events := by
  unfold Place
  split
  · rename_i b hpc
    exact absurd hpc (h b).1
  · rename_i b hpc
    exact absurd hpc (h b).2.1
  · rename_i b hpc
    exact absurd hpc (h b).2.2
  · trivial

theorem Place.step {s t : ProcessState} {l : ProcessAct} {events : List CallerEvent}
    (hs : Place s events) (h : s.Turn t l) : Place t (events ++ callerEvents ⟨s, l, t⟩) := by
  cases h with
  | stays hpc halive hkilled hevents =>
    rw [hevents, List.append_nil]
    unfold Place at hs ⊢
    rw [hpc]
    revert hs
    cases s.pc <;> try exact id
    case graceAlive b =>
      intro hs ha
      apply hs
      by_contra hne
      rw [halive (by simpa using hne)] at ha
      cases ha
  | elsewhere hpc hjoin => exact .elsewhere hpc
  | overtakes hpc hseen hpc' hcollector hkilled => exact .elsewhere (by simp [hpc'])
  | terms hpc hpc' =>
    simp only [Place, hpc', callerEvents, hpc]
    exact List.suffix_append _ _
  | expires hpc hpc' hcollector =>
    simp only [Place, hpc', callerEvents]
    intro ha
    rw [ProcessState.isAlive_eq hcollector] at ha
    rw [ha]
    simp only [Place, hpc] at hs
    obtain ⟨before, rfl⟩ := hs
    exact ⟨before, by simp [graceExpired]⟩
  | returns hpc hpc' halive =>
    simp only [Place, hpc']
    intro ha
    rw [halive] at ha
    cases ha
  | forces hpc hpc' halive =>
    simp only [Place, hpc] at hs
    simp only [Place, hpc', callerEvents, List.append_nil]
    exact hs halive
  | collects hpc hpc' halive => exact .elsewhere (by simp [hpc'])
  | kills hpc hpc' hkilled => exact .elsewhere (by simp [hpc'])

theorem KillsLast.step {s t : ProcessState} {l : ProcessAct} {events : List CallerEvent}
    (h : KillsLast events) (hs : Place s events) :
    KillsLast (events ++ callerEvents ⟨s, l, t⟩) := by
  unfold callerEvents
  split
  case h_4 b hlabel hpc =>
    -- the one step that adds SIGKILL
    intro before after heq
    rcases Lts.concat_eq_cut.mp heq with ⟨-, rfl, -⟩ | ⟨after', -, heq'⟩
    · have hpc' : s.pc = .sendKill b := hpc
      simpa only [Place, hpc'] using hs
    · exact h before after' heq'
  case h_5 => simpa using h
  all_goals
    intro before after heq
    rcases Lts.concat_eq_cut.mp heq with ⟨-, -, hne⟩ | ⟨after', -, heq'⟩
    · cases hne
    · exact h before after' heq'

theorem applicationProcess_history {tr s} (h : applicationProcess.Run tr s) :
    KillsLast (history tr) ∧ Place s (history tr) := by
  induction h with
  | start hs =>
    obtain ⟨command, rfl⟩ := hs
    refine ⟨?_, trivial⟩
    intro before after heq
    simp [history] at heq
  | snoc hr hl ih =>
    rw [history_concat]
    exact ⟨ih.1.step ih.2, ih.2.step (ProcessState.step_turn hl)⟩

/-! ## The `join` without a timeout -/

/-- Whoever is at it need not wait for ever: the collector has ended, or the
group was killed. -/
def JoinGuarded (s : ProcessState) : Prop :=
  ∀ timedOut forced, s.pc = .join timedOut forced → s.isAlive = false ∨ s.sigkilled = true

/-- A `terminate` that takes its shortcut while the collector is alive: the
leader's exit is seen, and the pipes or the thread outlive it. -/
def overtaken (m : Move ProcessState ProcessAct) : Bool :=
  match m.label, m.pre.pc with
  | .poll busy, .terminatePoll _ => m.pre.exitSeen busy && m.pre.isAlive && !m.pre.sigkilled
  | _, _ => false

theorem JoinGuarded.step {s t : ProcessState} {l : ProcessAct} (hs : JoinGuarded s)
    (h : s.Turn t l) (hl : overtaken ⟨s, l, t⟩ = false) : JoinGuarded t := by
  intro timedOut forced hjoin
  cases h with
  | stays hpc halive hkilled hevents =>
    rcases hs timedOut forced (hpc ▸ hjoin) with ha | hk
    · exact .inl (halive ha)
    · exact .inr (hkilled.trans hk)
  | elsewhere hpc hne => exact absurd hjoin (hne timedOut forced)
  | @overtakes b busy hpc hseen hpc' hcollector hkilled =>
    rw [ProcessState.isAlive_eq hcollector, hkilled]
    simp only [overtaken, hpc, hseen, Bool.true_and] at hl
    by_cases ha : s.isAlive = true
    · right
      simpa [ha] using hl
    · left
      simpa using ha
  | terms hpc hpc' => simp [hpc'] at hjoin
  | expires hpc hpc' hcollector => simp [hpc'] at hjoin
  | returns hpc hpc' halive => simp [hpc'] at hjoin
  | forces hpc hpc' halive => simp [hpc'] at hjoin
  | collects hpc hpc' halive => exact .inl halive
  | kills hpc hpc' hkilled => exact .inr hkilled

/-- The shortcut leads to an unguarded `join`. -/
theorem not_joinGuarded_of_overtaken {m : Move ProcessState ProcessAct} (h : overtaken m = true)
    (hm : m.pre.step m.label = some m.post) : ¬ JoinGuarded m.post := by
  obtain ⟨s, l, t⟩ := m
  intro hguarded
  unfold overtaken at h
  split at h
  · rename_i busy b hlabel hpc
    obtain rfl : l = .poll busy := hlabel
    replace hpc : s.pc = .terminatePoll b := hpc
    simp only [Bool.and_eq_true, Bool.not_eq_true'] at h
    obtain ⟨⟨hseen, halive⟩, hkilled⟩ := h
    simp only [ProcessState.step] at hm
    split at hm
    · simp only [ProcessState.pollLeader, hpc, hseen, if_true, Option.some.injEq] at hm
      subst hm
      have hjoin := hguarded b false rfl
      simp only [ProcessState.reapLeader_sigkilled, hkilled, Bool.false_eq_true, or_false] at hjoin
      rw [ProcessState.isAlive_eq (s := s) (by simp), halive] at hjoin
      cases hjoin
    · cases hm
  · cases h

theorem applicationProcess_guarded {tr s} (h : applicationProcess.Run tr s)
    (hno : ∀ m ∈ tr, overtaken m = false) : JoinGuarded s := by
  induction h with
  | start hs =>
    obtain ⟨command, rfl⟩ := hs
    intro timedOut forced hjoin
    cases hjoin
  | snoc hr hl ih =>
    have hs := ih (fun m hm => hno m (by simp [hm]))
    exact hs.step (ProcessState.step_turn hl) (hno _ (by simp))

/-- **The timeout is kept** in exactly the runs in which no `terminate` takes
its shortcut while the collector is alive: there every state at the `join`
without a timeout is guarded. That SIGKILL comes only after SIGTERM and an
expired grace period holds of every run. -/
theorem unbounded_join_guarded_iff {tr s} (h : applicationProcess.Run tr s) :
    (JoinGuarded s ∧ (∀ m ∈ tr, JoinGuarded m.pre ∧ JoinGuarded m.post) ∧
      KillsLast (history tr)) ↔
    ∀ m ∈ tr, overtaken m = false := by
  constructor
  · intro hall m hm
    by_contra hover
    exact not_joinGuarded_of_overtaken (by simpa using hover) (h.move_step hm).1 (hall.2.1 m hm).2
  · intro hno
    refine ⟨applicationProcess_guarded h hno, ?_, (applicationProcess_history h).1⟩
    intro m hm
    obtain ⟨before, after, rfl⟩ := List.append_of_mem hm
    obtain ⟨hpre, hstep⟩ := h.at_move rfl
    have hguarded := applicationProcess_guarded hpre (fun k hk => hno k (by simp [hk]))
    exact ⟨hguarded, hguarded.step (ProcessState.step_turn hstep) (hno _ (by simp))⟩

/-- A descendant that ignores SIGTERM: the grace period expires, the group is
killed, and the caller comes back from the `join`. -/
theorem unbounded_join_guarded_stubborn :
    ∃ tr s, applicationProcess.Run tr s ∧ JoinGuarded s ∧ KillsLast (history tr) ∧
      history tr = [.called (.collectWithTimeout 25 1000), .expired true, .killpg false,
        .expired true, .killpg true] ∧
      s.pc = .idle := by
  have hreplay : (applicationProcess.replay { command := [py "app"] }
      [.forks none, .call (.collectWithTimeout 25 1000), .joinExpires, .checkAlive,
        .poll false, .signal, .exits none (-15), .joinExpires, .checkAlive, .signal,
        .exits (some 0) (-9), .readEnd ([], []), .waitEnd, .threadEnd, .joinReturns]).map
      (fun p => (p.1.all (fun m => !overtaken m), history p.1, p.2.pc)) =
      some (true, [.called (.collectWithTimeout 25 1000), .expired true, .killpg false,
        .expired true, .killpg true], .idle) := by
    decide +kernel
  have hinit : applicationProcess.init { command := [py "app"] } := ⟨_, rfl⟩
  obtain ⟨tr, s, hrun, h⟩ := Lts.exists_run_of_replay hinit hreplay
  simp only [Prod.mk.injEq, List.all_eq_true, Bool.not_eq_true'] at h
  have hall := (unbounded_join_guarded_iff hrun).mpr h.1
  exact ⟨tr, s, hrun, hall.1, hall.2.2, h.2.1, h.2.2⟩

/-! ## An unguarded `join` hangs -/

/-- The caller is at the `join` without a timeout, and descendant `i` keeps a
pipe of the reading collector open. -/
structure Hung (i : Nat) (s : ProcessState) : Prop where
  joining : ∃ timedOut forced, s.pc = .join timedOut forced
  reading : s.collector = .reading
  held : s.descendants[i]? = some (.running true)

/-- The steps that can end it: the descendant lets go, `communicate()` raises,
or the caller is interrupted. -/
def ProcessAct.frees (i : Nat) : ProcessAct → Bool
  | .exits (some j) _ => i == j
  | .closes (some j) => i == j
  | .communicateRaises => true
  | .interrupt => true
  | _ => false

namespace Hung

variable {i : Nat} {s t : ProcessState} {l : ProcessAct}

theorem isAlive (h : Hung i s) : s.isAlive = true := by
  simp [ProcessState.isAlive, h.reading]

theorem pipeHeld (h : Hung i s) : s.pipeHeld = true := by
  have hmem : Proc.running true ∈ s.descendants := List.mem_of_getElem? h.held
  have hany : s.descendants.any Proc.holdsPipe = true := List.any_eq_true.mpr ⟨_, hmem, rfl⟩
  simp [ProcessState.pipeHeld, hany]

/-- Another process changes. -/
theorem setProc (h : Hung i s) {p : Proc} {who : Option Nat} (hne : who ≠ some i) :
    Hung i (s.setProc p who) := by
  cases who with
  | none => exact ⟨h.joining, h.reading, h.held⟩
  | some j =>
    have hij : j ≠ i := by
      intro heq
      exact hne (by rw [heq])
    refine ⟨h.joining, h.reading, ?_⟩
    show (s.descendants.set j p)[i]? = some (.running true)
    rw [List.getElem?_set_ne hij]
    exact h.held

theorem groupStep (h : Hung i s) (hl : l.frees i = false) (hstep : s.groupStep l = some t) :
    Hung i t := by
  have hne : ∀ {j : Option Nat}, (∀ k, j = some k → (i == k) = false) → j ≠ some i := by
    intro j hj heq
    simpa using hj i heq
  cases l <;> simp only [ProcessState.groupStep] at hstep
  case exits who status =>
    split at hstep
    · cases hstep
      exact h.setProc (hne (by rintro k rfl; exact hl))
    · cases hstep
  case closes who =>
    split at hstep
    · cases hstep
      exact h.setProc (hne (by rintro k rfl; exact hl))
    · cases hstep
  case forks who =>
    split at hstep
    · cases hstep
      refine ⟨h.joining, h.reading, ?_⟩
      have hlt := (List.getElem?_eq_some_iff.mp h.held).1
      show (s.descendants ++ _)[i]? = _
      rw [List.getElem?_append_left hlt]
      exact h.held
    · cases hstep
  case reaps j =>
    split at hstep
    · rename_i status hj
      cases hstep
      apply h.setProc
      intro heq
      cases heq
      rw [h.held] at hj
      cases hj
    · cases hstep
  all_goals cases hstep

/-- No other step ends it. -/
theorem step (h : Hung i s) (hl : l.frees i = false) (hstep : s.step l = some t) : Hung i t := by
  obtain ⟨b, f, hpc⟩ := h.joining
  have halive := h.isAlive
  have hheld := h.pipeHeld
  have hreading := h.reading
  cases l <;> simp only [ProcessState.step] at hstep
  case exits => exact h.groupStep hl hstep
  case closes => exact h.groupStep hl hstep
  case forks => exact h.groupStep hl hstep
  case reaps => exact h.groupStep hl hstep
  case communicateRaises => cases hl
  case interrupt => cases hl
  -- the caller waits for a thread that is alive, the thread for a pipe that is held
  all_goals simp [ProcessState.joined, ProcessState.checkAlive, ProcessState.pollLeader,
    ProcessState.signalGroup, ProcessState.collectorStep, hpc, halive, hheld, hreading] at hstep

end Hung

/-- As long as the descendant keeps the pipe, no run gets past the `join`. -/
theorem hung_for_ever {i : Nat} {s : ProcessState} (hs : Hung i s) {tr t}
    (h : (applicationProcess.startingAt s).Run tr t) (hfrees : ∀ m ∈ tr, m.label.frees i = false) :
    Hung i t := by
  induction h with
  | start heq =>
    cases heq
    exact hs
  | @snoc tr u l t hr hl ih =>
    have hu : Hung i u := ih (fun m hm => hfrees m (by simp [hm]))
    exact hu.step (hfrees ⟨u, l, t⟩ (by simp)) hl

/-- The leader exits at once and leaves a descendant that holds the pipes: the
timeout expires, `terminate` sees the exit and joins without a timeout. No
signal was sent, and the caller hangs as long as the descendant lives. -/
theorem daemon_defeats_timeout :
    ∃ tr s, applicationProcess.Run tr s ∧ ¬ JoinGuarded s ∧
      history tr = [.called (.collectWithTimeout 25 1000), .expired true] ∧
      ∀ tr' t, (applicationProcess.startingAt s).Run tr' t →
        (∀ m ∈ tr', m.label.frees 0 = false) → Hung 0 t := by
  have hreplay : (applicationProcess.replay { command := [py "app"] }
      [.forks none, .exits none 0, .call (.collectWithTimeout 25 1000), .joinExpires,
        .checkAlive, .poll false]).map
      (fun p => (history p.1, p.2.pc, p.2.collector, p.2.descendants, p.2.sigkilled)) =
      some ([.called (.collectWithTimeout 25 1000), .expired true], .join true false, .reading,
        [.running true], false) := by
    decide +kernel
  have hinit : applicationProcess.init { command := [py "app"] } := ⟨_, rfl⟩
  obtain ⟨tr, s, hrun, h⟩ := Lts.exists_run_of_replay hinit hreplay
  simp only [Prod.mk.injEq] at h
  obtain ⟨hhistory, hpc, hreading, hdescendants, hkilled⟩ := h
  have hhung : Hung 0 s := ⟨⟨true, false, hpc⟩, hreading, by rw [hdescendants]; rfl⟩
  refine ⟨tr, s, hrun, ?_, hhistory, fun tr' t h' hfrees => hung_for_ever hhung h' hfrees⟩
  intro hguarded
  rcases hguarded true false hpc with ha | hk
  · rw [hhung.isAlive] at ha
    cases ha
  · rw [hkilled] at hk
    cases hk

end VDevLab.Runner
