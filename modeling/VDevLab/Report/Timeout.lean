import Mathlib.Data.Rat.Floor
import VDevLab.Lib.Timed
import VDevLab.Runner.Backend
import VDevLab.Runner.Cleanup
import VDevLab.Runner.Process
import VDevLab.Runner.Scheduler
import VDevLab.Report.Cli

/-!
# When a run is a TIMEOUT

`ScenarioRunner.run` in exact time: the scheduler dispatches the events while
the application runs, then the clock is read once. If no time is left the
application is terminated and the run is a TIMEOUT; otherwise the rest of the
time goes to `collect_with_timeout`.

The clock is read after the last dispatch, whatever the application has done
by then. So an application that ended in time is reported as timed out exactly
when the dispatches did not end in time.
-/

namespace VDevLab.Report

open PyStr Runner

/-! ## The application in exact time -/

/-- The `join` of `collect(timeout_ms)` expires only after its timeout, which
counts from the call. -/
def joinRipe (s : ProcessState) (a : ProcessAct) (elapsed : ℚ) : Bool :=
  match s.pc, a with
  | .collectJoin timeoutMs _, .joinExpires => decide ((timeoutMs : ℚ) / 1000 ≤ elapsed)
  | _, _ => true

def startsTimer : ProcessAct → Bool
  | .call _ => true
  | _ => false

def timedProcess (origin : ℚ) : Lts (Timed ProcessState) (ProcessAct ⊕ ℚ≥0) :=
  applicationProcess.timed startsTimer joinRipe origin

/-! ## The runner in exact time -/

/-- `int((now - started) * 1000)`. -/
def elapsedMs (started now : ℚ) : Int := truncate ((now - started) * 1000)

/-- The runner's call on the application. -/
def runnerCall (sd : ScenarioDefinition) (graceMs : Int) (started now : ℚ) : ProcessCall :=
  let remainingMs := sd.timeoutMs - elapsedMs started now
  if remainingMs ≤ 0 then .terminate graceMs else .collectWithTimeout remainingMs graceMs

/-- An execution of the body of `run` in exact time in which every call
returns. The application is started at `started + startup`, runs beside the
scheduler until `waiting`, and beside the runner's call from `called` on. -/
structure TimedRun (β ε : Type) (sd : ScenarioDefinition) where
  started : ℚ
  startup : ℚ≥0
  graceMs : Int
  backend : TimedBackend β ε
  device : β
  str : PyValue → PyStr
  isException : ε → Bool
  scheduled : SchedulerState β ε
  dispatches : List DispatchRecord
  dispatched : schedule backend str isException sd.events
    { now := started + startup, backend := device } = (scheduled, .ok dispatches)
  before : List (Move (Timed ProcessState) (ProcessAct ⊕ ℚ≥0))
  waiting : Timed ProcessState
  runs : (timedProcess (started + startup)).Run before waiting
  waits : waiting.now = scheduled.now
  called : Timed ProcessState
  calls : (timedProcess (started + startup)).step waiting
    (.inl (.call (runnerCall sd graceMs started waiting.now))) = some called
  after : List (Move (Timed ProcessState) (ProcessAct ⊕ ℚ≥0))
  final : Timed ProcessState
  ends : ((timedProcess (started + startup)).startingAt called).Run after final
  no_call : ∀ m ∈ after, ∀ c, m.label ≠ .inl (.call c)
  idle : final.state.pc = .idle
  application : ApplicationResult
  returned : final.state.result = some (.ok application)

namespace TimedRun

variable {β ε : Type} {sd : ScenarioDefinition}

/-- All moves of the application. -/
def moves (x : TimedRun β ε sd) : List (Move (Timed ProcessState) (ProcessAct ⊕ ℚ≥0)) :=
  x.before ++ [⟨x.waiting, .inl (.call (runnerCall sd x.graceMs x.started x.waiting.now)),
    x.called⟩] ++ x.after

/-- The moment at which the scenario's time is up. -/
def deadline (x : TimedRun β ε sd) : ℚ := x.started + sd.timeoutMs / 1000

/-- The application has exited and its output was collected before the moment
`d`. -/
def CollectedBefore (x : TimedRun β ε sd) (d : ℚ) : Prop :=
  ∃ s output, Lts.Visited x.moves x.final s ∧ s.state.collector = .finished (some output) ∧
    s.now < d

/-- The calls of `run` come out as in this execution. -/
structure Matches {ε' : Type} (x : TimedRun β ε sd) (o : Outcomes ε' ℚ) : Prop where
  started : o.started = .ok x.started
  applicationFactory : o.applicationFactory = .ok ()
  scheduler : o.scheduler = .ok x.dispatches
  now : o.now = .ok x.waiting.now
  elapsedMs : ∀ started now, o.elapsedMs started now = .ok (elapsedMs started now)
  terminate : runnerCall sd x.graceMs x.started x.waiting.now = .terminate x.graceMs →
    o.terminate = .ok x.application
  collectWithTimeout : ∀ ms, runnerCall sd x.graceMs x.started x.waiting.now =
    .collectWithTimeout ms x.graceMs → o.collectWithTimeout ms = .ok x.application

theorem run_moves (x : TimedRun β ε sd) :
    (timedProcess (x.started + x.startup)).Run x.moves x.final :=
  (x.runs.snoc x.calls).append x.ends

end TimedRun

/-! ## The time that is left -/

theorem truncate_eq_floor {x : ℚ} (h : 0 ≤ x) : truncate x = ⌊x⌋ := by
  rw [truncate, Rat.floor_def', Int.tdiv_eq_ediv_of_nonneg (Rat.num_nonneg.mpr h)]

/-- Whole milliseconds have passed only when they have. -/
theorem elapsedMs_le {started now : ℚ} (h : started ≤ now) :
    (elapsedMs started now : ℚ) ≤ (now - started) * 1000 := by
  rw [elapsedMs, truncate_eq_floor (by linarith)]
  exact Int.floor_le _

theorem remaining_nonpos_iff {started now : ℚ} (h : started ≤ now) (timeoutMs : Nat) :
    (timeoutMs : Int) - elapsedMs started now ≤ 0 ↔ started + timeoutMs / 1000 ≤ now := by
  rw [elapsedMs, truncate_eq_floor (by linarith), sub_nonpos, Int.le_floor]
  constructor
  · intro hle
    have hcast : (timeoutMs : ℚ) ≤ (now - started) * 1000 := by exact_mod_cast hle
    linarith
  · intro hle
    have hcast : (timeoutMs : ℚ) ≤ (now - started) * 1000 := by linarith
    exact_mod_cast hcast

/-! ## A collector that ended in time -/

/-- `collect_with_timeout` on the way to a result that is not timed out, for a
`join` that began at `since` and a collector that ends before `d`. -/
def Collecting (d since : ℚ) (remainingMs : Int) (s : Timed ProcessState) : Prop :=
  match s.state.pc with
  | .collectJoin timeoutMs _ => timeoutMs = remainingMs ∧ s.since = since
  | .collectAlive _ _ => s.state.isAlive = false ∨ d ≤ s.now
  | .idle => ∀ a, s.state.result = some (.ok a) → a.timedOut = false
  | _ => False

theorem ended_not_alive (s : ProcessState) (a : ProcessAct) (t : ProcessState)
    (hs : s.isAlive = false) (h : applicationProcess.step s a = some t) : t.isAlive = false := by
  rcases ProcessState.step_cases h with h | h | h
  · rw [ProcessState.isAlive_eq (ProcessState.groupStep_frame h).2.1, hs]
  · rw [(ProcessState.collectorStep_frame h).2.2.2] at hs
    cases hs
  · rw [ProcessState.isAlive_eq h.collector, hs]

section Collecting

variable {d since : ℚ} {remainingMs : Int} {s t : Timed ProcessState}

/-- Time passes, a process or the collector moves. -/
theorem Collecting.of_same (hs : Collecting d since remainingMs s)
    (hpc : t.state.pc = s.state.pc) (hresult : t.state.result = s.state.result)
    (halive : s.state.isAlive = false → t.state.isAlive = false)
    (hnow : s.now ≤ t.now) (hsince : t.since = s.since) : Collecting d since remainingMs t := by
  unfold Collecting at hs ⊢
  rw [hpc, hresult]
  split at hs
  · exact ⟨hs.1, hsince.trans hs.2⟩
  · rcases hs with ha | hd
    · exact .inl (halive ha)
    · exact .inr (hd.trans hnow)
  · exact hs
  · exact hs

/-- A step keeps it on the way, when the `join` cannot expire before `d` and
the collector has ended by then. -/
theorem Collecting.step {a : ProcessAct} (hs : Collecting d since remainingMs s)
    (hjoin : d ≤ since + remainingMs / 1000) (hsettled : s.state.isAlive = false ∨ s.now < d)
    (ha : ∀ c, a ≠ .call c) (hripe : joinRipe s.state a (s.now - s.since) = true)
    (hstep : s.state.step a = some t.state) (hnow : t.now = s.now) (hsince : t.since = s.since) :
    Collecting d since remainingMs t := by
  have hgroup : ∀ {a}, s.state.groupStep a = some t.state → Collecting d since remainingMs t := by
    intro a h
    obtain ⟨hpc, hcollector, -, hresult⟩ := ProcessState.groupStep_frame h
    exact hs.of_same hpc hresult (ProcessState.isAlive_eq hcollector).trans hnow.ge hsince
  have hcollector : ∀ {a}, s.state.collectorStep a = some t.state →
      Collecting d since remainingMs t := by
    intro a h
    obtain ⟨hpc, -, hresult, halive⟩ := ProcessState.collectorStep_frame h
    exact hs.of_same hpc hresult (by simp [halive]) hnow.ge hsince
  cases a <;> simp only [ProcessState.step] at hstep
  case call c => exact absurd rfl (ha c)
  case exits => exact hgroup hstep
  case closes => exact hgroup hstep
  case forks => exact hgroup hstep
  case reaps => exact hgroup hstep
  case readEnd => exact hcollector hstep
  case waitEnd => exact hcollector hstep
  case threadEnd => exact hcollector hstep
  case communicateRaises => exact hcollector hstep
  case joinReturns =>
    split at hstep
    · cases hstep
    · rename_i halive
      cases hpc : s.state.pc <;> simp only [Collecting, hpc] at hs
      case collectJoin timeoutMs graceMs =>
        simp only [hpc, ProcessState.joined, Option.some.injEq] at hstep
        simp only [Collecting, ← hstep]
        exact .inl (by simpa [ProcessState.isAlive] using halive)
      all_goals simp [hpc, ProcessState.joined] at hstep
  case joinExpires =>
    cases hpc : s.state.pc <;> simp only [Collecting, hpc] at hs
    case collectJoin timeoutMs graceMs =>
      simp only [hpc, ProcessState.joined, Option.some.injEq] at hstep
      simp only [Collecting, ← hstep]
      -- the timer has run for the whole of the remaining time
      simp only [joinRipe, hpc, decide_eq_true_eq] at hripe
      rw [hs.1, hs.2] at hripe
      exact .inr (by linarith)
    all_goals simp [hpc, ProcessState.joined] at hstep
  case checkAlive =>
    cases hpc : s.state.pc <;> simp only [Collecting, hpc] at hs
    case collectAlive timeoutMs graceMs =>
      have halive : s.state.isAlive = false := by
        rcases hs with h | h
        · exact h
        · exact hsettled.resolve_right (by linarith)
      simp only [ProcessState.checkAlive, hpc, halive, Bool.false_eq_true, if_false,
        Option.some.injEq] at hstep
      simp only [Collecting, ← hstep, ProcessState.ended]
      intro a hresult
      unfold ProcessState.applicationResult at hresult
      split at hresult <;> cases hresult
      rfl
    all_goals simp [hpc, ProcessState.checkAlive] at hstep
  case poll busy =>
    split at hstep
    · cases hpc : s.state.pc <;> simp only [Collecting, hpc] at hs
      case idle =>
        simp only [ProcessState.pollLeader, hpc, Option.some.injEq] at hstep
        have hsame : t.state.pc = .idle ∧ t.state.result = s.state.result := by
          rw [← hstep]
          split <;> simp [hpc]
        simp only [Collecting, hsame.1, hsame.2]
        exact hs
      all_goals simp [hpc, ProcessState.pollLeader] at hstep
    · cases hstep
  case signal =>
    cases hpc : s.state.pc <;> simp only [Collecting, hpc] at hs
    all_goals simp [hpc, ProcessState.signalGroup] at hstep
  case interrupt =>
    split at hstep
    · cases hstep
    · simp only [Option.some.injEq] at hstep
      simp [Collecting, ← hstep, ProcessState.ended]

end Collecting

namespace TimedRun

variable {β ε : Type} {sd : ScenarioDefinition}

theorem started_le (x : TimedRun β ε sd) : x.started ≤ x.waiting.now := by
  have horigin : x.started + x.startup ≤ x.waiting.now := x.runs.origin_le
  have hstartup : (0 : ℚ) ≤ x.startup := x.startup.2
  linarith

/-- In time for the deadline, the collector has ended in every later state. -/
theorem settled (x : TimedRun β ε sd) (h : x.CollectedBefore x.deadline) {m}
    (hm : m ∈ x.after) : m.pre.state.isAlive = false ∨ m.pre.now < x.deadline := by
  obtain ⟨s, output, hs, hcollector, hlt⟩ := h
  refine x.run_moves.settled (P := fun s => s.isAlive = false) ended_not_alive hs ?_ hlt ?_
  · simp [ProcessState.isAlive, hcollector]
  · exact .inr ⟨m, by simp [moves, hm], rfl⟩

/-- The milliseconds left when the clock is read. -/
def remainingMs (x : TimedRun β ε sd) : Int := sd.timeoutMs - elapsedMs x.started x.waiting.now

/-- A `join` for the remaining time reaches the deadline. -/
theorem deadline_le (x : TimedRun β ε sd) :
    x.deadline ≤ x.waiting.now + (x.remainingMs : ℚ) / 1000 := by
  have hfloor := elapsedMs_le x.started_le
  simp only [deadline, remainingMs, Int.cast_sub, Int.cast_natCast]
  linarith

theorem collecting_called (x : TimedRun β ε sd) (hleft : 0 < x.remainingMs) :
    Collecting x.deadline x.waiting.now x.remainingMs x.called := by
  obtain ⟨-, hstep, -, hsince⟩ := Lts.timed_step_inl.mp x.calls
  have hcall : runnerCall sd x.graceMs x.started x.waiting.now =
      .collectWithTimeout x.remainingMs x.graceMs := if_neg (not_le.mpr hleft)
  rw [hcall] at hstep
  simp only [applicationProcess, ProcessState.step] at hstep
  split at hstep
  · simp only [ProcessState.enter, if_neg (not_le.mpr hleft), Option.some.injEq] at hstep
    simp only [Collecting, ← hstep, true_and]
    exact hsince
  · cases hstep

/-- The call stays on the way to its result. -/
theorem collecting (x : TimedRun β ε sd) (h : x.CollectedBefore x.deadline)
    (hleft : 0 < x.remainingMs) {tr s}
    (hrun : ((timedProcess (x.started + x.startup)).startingAt x.called).Run tr s) :
    (∀ m ∈ tr, m ∈ x.after) → Collecting x.deadline x.waiting.now x.remainingMs s := by
  induction hrun with
  | start heq =>
    intro _
    cases heq
    exact x.collecting_called hleft
  | @snoc tr s l t hr hl ih =>
    intro hmem
    have hs := ih (fun m hm => hmem m (by simp [hm]))
    have hm : ⟨s, l, t⟩ ∈ x.after := hmem _ (by simp)
    replace hl : (timedProcess (x.started + x.startup)).step s l = some t := hl
    cases l with
    | inl a =>
      obtain ⟨hripe, hstep, hnow, hsince⟩ := Lts.timed_step_inl.mp hl
      have hcall : ∀ c, a ≠ .call c := by
        intro c heq
        exact x.no_call _ hm c (by rw [heq])
      refine hs.step x.deadline_le (x.settled h hm) hcall hripe hstep hnow ?_
      rw [hsince]
      cases a <;> first | rfl | exact absurd rfl (hcall _)
    | inr d =>
      obtain rfl : { s with now := s.now + (d : ℚ) } = t := Option.some.inj hl
      have hd : (0 : ℚ) ≤ d := d.2
      refine hs.of_same rfl rfl id ?_ rfl
      show s.now ≤ s.now + (d : ℚ)
      linarith

/-- A call that waits for the rest of the time finds the result. -/
theorem application_timedOut (x : TimedRun β ε sd) (h : x.CollectedBefore x.deadline)
    (hleft : 0 < x.remainingMs) : x.application.timedOut = false := by
  have hend := x.collecting h hleft x.ends (fun _ hm => hm)
  simp only [Collecting, x.idle] at hend
  exact hend _ x.returned

end TimedRun

/-! ## The result of the run -/

theorem run_ok_backend {ε τ : Type} {o : Outcomes ε τ} {sd : ScenarioDefinition}
    {res : ScenarioRunResult} (h : (run o sd).result = .ok res) :
    ∃ snapshot, (runWithBackend o sd snapshot).result = .ok res := by
  unfold run at h
  dsimp only at h
  split at h
  · obtain ⟨snapshot, -, h⟩ := Traced.of_bind_ok h
    obtain ⟨-, -, h⟩ := Traced.of_bind_ok h
    exact ⟨snapshot, h⟩
  · obtain ⟨snapshot, -, h⟩ := Traced.of_bind_ok h
    obtain ⟨-, -, h⟩ := Traced.of_bind_ok h
    exact ⟨snapshot, h⟩

/-- A run that returns has the application's result from its body. -/
theorem run_ok_body {ε τ : Type} {o : Outcomes ε τ} {sd : ScenarioDefinition} {started : τ}
    {res : ScenarioRunResult} (hstart : o.started = .ok started)
    (h : (run o sd).result = .ok res) :
    ∃ body, (tryBody o sd started).result = .ok body ∧ res.application = body.application := by
  obtain ⟨snapshot, h⟩ := run_ok_backend h
  obtain ⟨started', hstart', h⟩ := Traced.of_bind_ok h
  rw [make_ok .clock hstart] at hstart'
  cases hstart'
  obtain ⟨body, hbody, h⟩ := Traced.of_bind_ok h
  obtain ⟨-, -, h⟩ := Traced.of_bind_ok h
  refine ⟨body, ?_, ?_⟩
  · cases htry : (tryBody o sd started).result with
    | ok body' =>
      rw [(Traced.handle_ok htry _).2] at hbody
      exact hbody
    | error e =>
      -- the handler passes the exception on
      rw [(Traced.handle_error htry _).2] at hbody
      obtain ⟨-, -, hbody⟩ := Traced.of_bind_ok hbody
      obtain ⟨-, -, hbody⟩ := Traced.of_bind_ok hbody
      cases hbody
  · cases snapshot with
    | none =>
      cases h
      rfl
    | some snapshot =>
      obtain ⟨observation, -, h⟩ := Traced.of_bind_ok h
      cases h
      rfl

/-- What the run makes of the application's result. -/
theorem TimedRun.run_application {β ε ε' : Type} {sd : ScenarioDefinition} (x : TimedRun β ε sd)
    {o : Outcomes ε' ℚ} (hm : x.Matches o) {res : ScenarioRunResult}
    (h : (run o sd).result = .ok res) :
    res.application =
      if x.remainingMs ≤ 0 then { x.application with timedOut := true } else x.application := by
  obtain ⟨body, hbody, happlication⟩ := run_ok_body hm.started h
  rw [happlication]
  unfold tryBody at hbody
  obtain ⟨-, -, hbody⟩ := Traced.of_bind_ok hbody
  obtain ⟨dispatches, -, hbody⟩ := Traced.of_bind_ok hbody
  obtain ⟨now, hnow, hbody⟩ := Traced.of_bind_ok hbody
  rw [make_ok .clock hm.now] at hnow
  cases hnow
  obtain ⟨ms, hms, hbody⟩ := Traced.of_bind_ok hbody
  rw [hm.elapsedMs] at hms
  cases hms
  dsimp only at hbody
  split at hbody
  · rename_i hleft
    rw [if_pos (show x.remainingMs ≤ 0 from hleft)]
    obtain ⟨result, hresult, hbody⟩ := Traced.of_bind_ok hbody
    rw [make_ok .terminate (hm.terminate (if_pos hleft))] at hresult
    cases hresult
    cases hbody
    rfl
  · rename_i hleft
    rw [if_neg (show ¬ x.remainingMs ≤ 0 from hleft)]
    obtain ⟨result, hresult, hbody⟩ := Traced.of_bind_ok hbody
    rw [make_ok _ (hm.collectWithTimeout _ (if_neg hleft))] at hresult
    cases hresult
    cases hbody
    rfl

/-- A result that is not timed out makes no report a TIMEOUT. -/
theorem report_ne_timeout {lim : IntLimit} {sd : ScenarioDefinition} {res : ScenarioRunResult}
    {report : ScenarioReport} (h : buildScenarioReport lim sd res = .ok report)
    (hres : res.application.timedOut = false) : report.status ≠ .timeout := by
  intro htimeout
  rcases buildScenarioReport_cases h with ⟨hs, -⟩ | ⟨-, htimedOut⟩ | ⟨hs, -⟩ | ⟨hs, -⟩
  · cases htimeout.symm.trans hs
  · rw [hres] at htimedOut
    cases htimedOut
  · cases htimeout.symm.trans hs
  · cases htimeout.symm.trans hs

/-- **No false TIMEOUT**, exactly when the dispatches end in time. For every
accepted scenario and every execution in exact time whose application was
collected before the scenario's time was up, the result is not timed out iff
the last dispatch ended before that moment as well. -/
theorem no_false_timeout_iff {β ε ε' : Type}
    {safeLoad : PyStr → Except Scenario.LoadError PyValue} {lim : IntLimit} {text source : PyStr}
    {sd : ScenarioDefinition} (h : Scenario.parseScenario safeLoad lim text source = .ok sd)
    (x : TimedRun β ε sd) (hcollected : x.CollectedBefore (x.started + sd.timeoutMs / 1000))
    {o : Outcomes ε' ℚ} (hm : x.Matches o) {res : ScenarioRunResult}
    (hres : (run o sd).result = .ok res) :
    ∃ sc : Scenario, sd = sc.definition source ∧
      ((res.application.timedOut = false ∧
        ∀ lim report, buildScenarioReport lim sd res = .ok report → report.status ≠ .timeout) ↔
      dispatchesEnd (x.started + x.startup) (x.started + x.startup) sc.events
        (x.scheduled.calls.map (·.duration)) < x.started + sd.timeoutMs / 1000) := by
  obtain ⟨sc, rfl⟩ := Scenario.parseScenario_definition h
  refine ⟨sc, rfl, ?_⟩
  -- the clock is read when the last dispatch ends
  have hend : dispatchesEnd (x.started + x.startup) (x.started + x.startup) sc.events
      (x.scheduled.calls.map (·.duration)) = x.waiting.now := by
    have hcalls := runEvents_ok_calls x.dispatched
    obtain ⟨ds, r, t, hfollows, hrun, htcalls, hnow⟩ := runEvents_follows x.backend x.str
      x.isException (x.started + x.startup) hcalls 0 []
      { now := x.started + x.startup, backend := x.device }
    have heq : x.scheduled = t := congrArg Prod.fst (x.dispatched.symm.trans hrun)
    rw [x.waits, heq, hnow, htcalls]
    exact hfollows.lastEnd_eq.symm
  have hleft := remaining_nonpos_iff x.started_le (sc.definition source).timeoutMs
  rw [hend, x.run_application hm hres]
  by_cases hnone : x.remainingMs ≤ 0
  · rw [if_pos hnone]
    have hlate := hleft.mp hnone
    constructor
    · intro hfalse
      cases hfalse.1
    · intro hlt
      exact absurd hlate (not_le.mpr hlt)
  · have htimedOut := x.application_timedOut hcollected (not_le.mp hnone)
    rw [if_neg hnone]
    constructor
    · intro _
      exact not_le.mp (fun hle => hnone (hleft.mpr hle))
    · intro _
      refine ⟨htimedOut, ?_⟩
      intro lim report hreport
      apply report_ne_timeout hreport
      rw [x.run_application hm hres, if_neg hnone]
      exact htimedOut

/-! ## An application that exits at once -/

/-- The outcomes of an execution in which nothing else goes wrong. -/
def TimedRun.outcomes {β ε : Type} {sd : ScenarioDefinition} (x : TimedRun β ε sd) :
    Outcomes Empty ℚ where
  snapshot := .ok { lines := [] }
  backendFactory := .ok ()
  started := .ok x.started
  applicationFactory := .ok ()
  scheduler := .ok x.dispatches
  now := .ok x.waiting.now
  elapsedMs started now := .ok (elapsedMs started now)
  terminate := .ok x.application
  collectWithTimeout _ := .ok x.application
  poll := .ok none
  handlerTerminate := .ok x.application
  reset := .ok ()
  close := none
  observe := .ok { available := true, warnings := [] }

theorem TimedRun.matches_outcomes {β ε : Type} {sd : ScenarioDefinition} (x : TimedRun β ε sd) :
    x.Matches x.outcomes where
  started := rfl
  applicationFactory := rfl
  scheduler := rfl
  now := rfl
  elapsedMs _ _ := rfl
  terminate _ := rfl
  collectWithTimeout _ _ := rfl

/-- Such an execution returns. -/
theorem TimedRun.run_outcomes {β ε : Type} {sd : ScenarioDefinition} (x : TimedRun β ε sd) :
    ∃ res, (run x.outcomes sd).result = .ok res := by
  obtain ⟨body, hbody⟩ : ∃ body, (tryBody x.outcomes sd x.started).result = .ok body := by
    by_cases hleft : (sd.timeoutMs : Int) - elapsedMs x.started x.waiting.now ≤ 0
    · simp [tryBody, make, bind, Traced.bind, Traced.call, Traced.lift, Except.mapError, outcomes,
        hleft, -tsub_le_iff_right]
    · simp [tryBody, make, bind, Traced.bind, Traced.call, Traced.lift, Except.mapError, outcomes,
        hleft, -tsub_le_iff_right]
  have hsnapshot : kernelLogRequired sd = true → ∃ s, x.outcomes.snapshot = .ok s :=
    fun _ => ⟨_, rfl⟩
  obtain ⟨-, snapshot, -, -, hresult⟩ := run_split hsnapshot rfl
  have hclock : (make .clock x.outcomes.started).result = .ok x.started := rfl
  rw [hresult, runWithBackend, (Traced.bind_ok hclock _).2,
    (Traced.bind_ok (Traced.handle_ok hbody (handler x.outcomes)).2 _).2]
  cases snapshot with
  | none => exact ⟨body, rfl⟩
  | some snapshot => exact ⟨_, rfl⟩

/-- An application that has exited without output. -/
def exited (command : List PyStr) : ProcessState where
  command
  leader := .reaped 0
  collector := .finished (some ([], []))

theorem exited_run (command : List PyStr) (origin : ℚ) :
    ∃ tr, (timedProcess origin).Run tr ⟨exited command, origin, origin⟩ := by
  have hinit : (timedProcess origin).init ⟨{ command }, origin, origin⟩ :=
    ⟨⟨command, rfl⟩, rfl, rfl⟩
  obtain ⟨tr, htr⟩ : ∃ tr, (timedProcess origin).replay ⟨{ command }, origin, origin⟩
      [.inl (.exits none 0), .inl (.readEnd ([], [])), .inl .waitEnd, .inl .threadEnd] =
      some (tr, ⟨exited command, origin, origin⟩) := ⟨_, rfl⟩
  exact ⟨tr, Lts.run_of_replay hinit htr⟩

/-- It has its result at once, whatever the runner calls. -/
theorem exited_call (command : List PyStr) (origin now since : ℚ) {c : ProcessCall}
    (hc : (∃ graceMs, 0 < graceMs ∧ c = .terminate graceMs) ∨
      ∃ timeoutMs graceMs, 0 < timeoutMs ∧ c = .collectWithTimeout timeoutMs graceMs) :
    ∃ called after final application,
      (timedProcess origin).step ⟨exited command, now, since⟩ (.inl (.call c)) = some called ∧
      ((timedProcess origin).startingAt called).Run after final ∧
      (∀ m ∈ after, ∀ c, m.label ≠ .inl (.call c)) ∧ final.state.pc = .idle ∧
      final.state.result = some (.ok application) := by
  rcases hc with ⟨graceMs, hpos, rfl⟩ | ⟨timeoutMs, graceMs, hpos, rfl⟩
  · have hstep : (timedProcess origin).step ⟨exited command, now, since⟩
        (.inl (.call (.terminate graceMs))) =
        some ⟨{ exited command with pc := .terminatePoll false }, now, now⟩ := by
      refine Lts.timed_step_inl.mpr ⟨rfl, ?_, rfl, rfl⟩
      simp [applicationProcess, ProcessState.step, exited, ProcessState.enter,
        ProcessState.enterTerminate, not_le.mpr hpos]
    have hrun := ((Lts.Run.start rfl : ((timedProcess origin).startingAt
      ⟨{ exited command with pc := .terminatePoll false }, now, now⟩).Run [] _).snoc
      (l := .inl (.poll false)) rfl).snoc (l := .inl .joinReturns) rfl
    exact ⟨_, _, _, _, hstep, hrun, by simp, rfl, rfl⟩
  · have hstep : (timedProcess origin).step ⟨exited command, now, since⟩
        (.inl (.call (.collectWithTimeout timeoutMs graceMs))) =
        some ⟨{ exited command with pc := .collectJoin timeoutMs graceMs }, now, now⟩ := by
      refine Lts.timed_step_inl.mpr ⟨rfl, ?_, rfl, rfl⟩
      simp [applicationProcess, ProcessState.step, exited, ProcessState.enter, not_le.mpr hpos]
    have hrun := ((Lts.Run.start rfl : ((timedProcess origin).startingAt
      ⟨{ exited command with pc := .collectJoin timeoutMs graceMs }, now, now⟩).Run [] _).snoc
      (l := .inl .joinReturns) rfl).snoc (l := .inl .checkAlive) rfl
    exact ⟨_, _, _, _, hstep, hrun, by simp, rfl, rfl⟩

/-- An execution from the moment 0 whose application exits at once, for every
scheduler that returns. -/
theorem exists_early_exit {sd : ScenarioDefinition} {b : TimedBackend Unit Empty}
    {t : SchedulerState Unit Empty} {dispatches : List DispatchRecord}
    (h : schedule b (fun _ => []) (fun _ => true) sd.events { now := 0, backend := () } =
      (t, .ok dispatches)) (ht : 0 ≤ t.now) :
    ∃ x : TimedRun Unit Empty sd, x.started = 0 ∧ x.startup = 0 ∧ x.scheduled = t ∧
      ∀ d, 0 < d → x.CollectedBefore d := by
  have horigin : (0 : ℚ) + ((0 : ℚ≥0) : ℚ) = 0 := by simp
  have hcall : (∃ graceMs, 0 < graceMs ∧ runnerCall sd 1000 0 t.now = .terminate graceMs) ∨
      ∃ timeoutMs graceMs, 0 < timeoutMs ∧
        runnerCall sd 1000 0 t.now = .collectWithTimeout timeoutMs graceMs := by
    unfold runnerCall
    dsimp only
    split
    · exact .inl ⟨1000, by decide, rfl⟩
    · exact .inr ⟨_, _, not_le.mp (by assumption), rfl⟩
  obtain ⟨before, hbefore⟩ := exited_run sd.command 0
  obtain ⟨called, after, final, application, hstep, hafter, hnoCall, hidle, hreturned⟩ :=
    exited_call sd.command 0 t.now 0 hcall
  obtain ⟨wait, hnow⟩ : ∃ wait : ℚ≥0, (wait : ℚ) = t.now := ⟨⟨t.now, ht⟩, rfl⟩
  have hwait : (timedProcess 0).step ⟨exited sd.command, 0, 0⟩ (.inr wait) =
      some ⟨exited sd.command, t.now, 0⟩ := by
    rw [timedProcess, Lts.timed_step_inr]
    simp [hnow]
  let x : TimedRun Unit Empty sd := {
    started := 0, startup := 0, graceMs := 1000, backend := b, device := ()
    str := fun _ => [], isException := fun _ => true, scheduled := t, dispatches
    dispatched := by rw [horigin]; exact h
    before := _, waiting := _
    runs := by rw [horigin]; exact hbefore.snoc hwait
    waits := rfl, called
    calls := by rw [horigin]; exact hstep
    after, final
    ends := by rw [horigin]; exact hafter
    no_call := hnoCall, idle := hidle, application, returned := hreturned }
  refine ⟨x, rfl, rfl, rfl, ?_⟩
  intro d hd
  refine ⟨⟨exited sd.command, 0, 0⟩, ([], []), .inr ?_, rfl, hd⟩
  exact ⟨⟨⟨exited sd.command, 0, 0⟩, .inr wait, ⟨exited sd.command, t.now, 0⟩⟩,
    by simp [x, TimedRun.moves], rfl⟩

/-- The number of milliseconds is in the normalized event. -/
theorem atMs_of_dict {e e' : Event} (h : e.dict = e'.dict) : e.atMs.1 = e'.atMs.1 := by
  have hms := scheduledMs_dict e 0
  rw [h, scheduledMs_dict] at hms
  simpa using hms.symm

/-- A call of two seconds in a scenario of 60: the result of the application
that exited at once is not timed out. -/
theorem no_false_timeout_prompt :
    ∃ (x : TimedRun Unit Empty (faultDefinition .disconnect)) (res : ScenarioRunResult),
      x.CollectedBefore (x.started + 60) ∧ x.waiting.now = x.started + 2 ∧
      (run x.outcomes (faultDefinition .disconnect)).result = .ok res ∧
      res.application.timedOut = false := by
  have haccept : Scenario.parseScenario
      (fun _ => .ok (faultDocument [("type", .str (py "disconnect"))]))
      defaultIntLimit [] (py "<memory>") = .ok (faultDefinition .disconnect) := rfl
  obtain ⟨dispatches, hdispatches⟩ : ∃ dispatches,
      (schedule (steadyBackend 2 (.ok ())) (fun _ => []) (fun _ : Empty => true)
        (faultDefinition .disconnect).events { now := 0, backend := () }).2 = .ok dispatches :=
    ⟨_, rfl⟩
  have hnow : (schedule (steadyBackend 2 (.ok ())) (fun _ => []) (fun _ : Empty => true)
      (faultDefinition .disconnect).events { now := 0, backend := () }).1.now = 2 := by
    decide +kernel
  have hdurations : (schedule (steadyBackend 2 (.ok ())) (fun _ => []) (fun _ : Empty => true)
      (faultDefinition .disconnect).events { now := 0, backend := () }).1.calls.map
        (·.duration) = [2] := by
    decide +kernel
  obtain ⟨x, hstarted, hstartup, hscheduled, hcollected⟩ :=
    exists_early_exit (Prod.ext rfl hdispatches) (by rw [hnow]; decide +kernel)
  have hbefore : x.CollectedBefore (x.started + (faultDefinition .disconnect).timeoutMs / 1000) :=
    hcollected _ (by rw [hstarted]; decide +kernel)
  obtain ⟨res, hres⟩ : ∃ res, (run x.outcomes (faultDefinition .disconnect)).result = .ok res :=
    x.run_outcomes
  obtain ⟨sc, hsc, hiff⟩ := no_false_timeout_iff haccept x hbefore x.matches_outcomes hres
  refine ⟨x, res, hcollected _ (by rw [hstarted]; decide +kernel), ?_, hres, (hiff.mpr ?_).1⟩
  · rw [x.waits, hscheduled, hnow, hstarted]
    decide +kernel
  · have hevents : sc.events.map (·.dict) = [Event.dict ⟨.zero, .fault .disconnect⟩] :=
      (congrArg ScenarioDefinition.events hsc).symm
    obtain ⟨e, es, heq, he, hes⟩ := List.map_eq_cons_iff.mp hevents
    cases List.map_eq_nil_iff.mp hes
    rw [heq, hscheduled, hdurations, hstarted, hstartup]
    simp only [dispatchesEnd, atMs_of_dict he]
    decide +kernel

/-- An event at the timeout itself is accepted. The application exits at once
and is collected a second before the clock is read; dispatching takes no time
at all, and yet the result is timed out. -/
theorem event_at_timeout_times_out :
    ∃ (x : TimedRun Unit Empty lastMoment) (res : ScenarioRunResult),
      Scenario.parseScenario (fun _ => .ok lastMomentDocument) defaultIntLimit []
        (py "<memory>") = .ok lastMoment ∧
      x.CollectedBefore (x.started + lastMoment.timeoutMs / 1000) ∧ x.Matches x.outcomes ∧
      x.scheduled.calls.map (·.duration) = [0, 0] ∧
      (run x.outcomes lastMoment).result = .ok res ∧ res.application.timedOut = true := by
  obtain ⟨dispatches, hdispatches⟩ : ∃ dispatches,
      (schedule (steadyBackend 0 (.ok ())) (fun _ => []) (fun _ : Empty => true)
        lastMoment.events { now := 0, backend := () }).2 = .ok dispatches :=
    ⟨_, rfl⟩
  have hnow : (schedule (steadyBackend 0 (.ok ())) (fun _ => []) (fun _ : Empty => true)
      lastMoment.events { now := 0, backend := () }).1.now = 1 := by
    decide +kernel
  obtain ⟨x, hstarted, -, hscheduled, hcollected⟩ :=
    exists_early_exit (Prod.ext rfl hdispatches) (by rw [hnow]; decide +kernel)
  obtain ⟨res, hres⟩ := x.run_outcomes
  refine ⟨x, res, lastMoment_accepted, hcollected _ (by rw [hstarted]; decide +kernel),
    x.matches_outcomes, ?_, hres, ?_⟩
  · rw [hscheduled]
    decide +kernel
  · have hleft : x.remainingMs ≤ 0 := by
      refine (remaining_nonpos_iff x.started_le _).mpr ?_
      rw [x.waits, hscheduled, hnow, hstarted]
      decide +kernel
    rw [x.run_application x.matches_outcomes hres, if_pos hleft]

end VDevLab.Report
