import Mathlib.Data.NNRat.Defs
import VDevLab.Scenario.Accept
import VDevLab.Runner.Dispatch
import VDevLab.Runner.Run

/-!
# `ScenarioScheduler.run`

The scheduler in exact time: the clock reads a rational number of seconds, a
sleep lasts exactly as long as it was asked to, and time passes otherwise only
in the calls on the backend. A backend is a state and a function that says how
long a call made at a given moment takes and how it ends.

Deadlines are counted from one origin, so an event starts at its own deadline
or when the call before it has returned, whichever is later.
-/

namespace VDevLab.Runner

open PyStr

/-! ## The scheduler -/

/-- A backend in exact time. `ε` are the exceptions that its calls raise. -/
structure TimedBackend (β ε : Type) where
  call : β → ℚ → BackendCall → β × ℚ≥0 × Except ε Unit

/-- A call that was made. -/
structure Dispatched (ε : Type) where
  call : BackendCall
  started : ℚ
  finished : ℚ
  outcome : Except ε Unit

structure SchedulerState (β ε : Type) where
  now : ℚ
  backend : β
  calls : List (Dispatched ε) := []

/-- Why a dispatch raised: in the scheduler itself, or in the backend's call. -/
inductive Cause (ε : Type)
  | dispatch (failure : DispatchFailure)
  | backend (e : ε)

/-- What leaves the scheduler. `escaped` is an exception of the backend that is
no `Exception`, which `except Exception` lets through. -/
inductive SchedulerError (ε : Type)
  | runnerError (message : PyStr)
  | eventDispatchError (index : Nat) (action : PyStr) (cause : Cause ε)
  | escaped (e : ε)

/-- `_scheduled_ms`. -/
def scheduledMs (event : PyDict) (index : Nat) : Except PyStr Int :=
  let invalid := py "event " ++ decimal index ++ py " has an invalid at_ms value"
  match event.get? (py "at_ms") with
  | some (.int value) => if value < 0 then .error invalid else .ok value
  | _ => .error invalid

/-- `self._sleeper(seconds)`. -/
def SchedulerState.sleep {β ε : Type} (s : SchedulerState β ε) (seconds : ℚ) :
    SchedulerState β ε :=
  { s with now := s.now + seconds }

section Scheduler

variable {β ε : Type} (b : TimedBackend β ε) (str : PyValue → PyStr) (isException : ε → Bool)

/-- A call on the backend, and how it ended. -/
def SchedulerState.make (s : SchedulerState β ε) (c : BackendCall) :
    SchedulerState β ε × Except ε Unit :=
  let (backend, duration, outcome) := b.call s.backend s.now c
  let finished := s.now + duration
  ({ now := finished, backend, calls := s.calls ++ [⟨c, s.now, finished, outcome⟩] }, outcome)

/-- `str(event.get("action", "<missing>"))`; `str` is that of the values that
are no strings. -/
def actionText (event : PyDict) : PyStr :=
  match event.get? (py "action") with
  | none => py "<missing>"
  | some (.str action) => action
  | some value => str value

/-- The handler around `_dispatch`. -/
def dispatchError (index : Nat) (action : PyStr) (e : ε) : SchedulerError ε :=
  if isException e then .eventDispatchError index action (.backend e) else .escaped e

/-- The loop over the events, from `index` on. -/
def runEvents (origin : ℚ) : Nat → List PyDict → List DispatchRecord → SchedulerState β ε →
    SchedulerState β ε × Except (SchedulerError ε) (List DispatchRecord)
  | _, [], records, s => (s, .ok records)
  | index, event :: events, records, s =>
      match scheduledMs event index with
      | .error message => (s, .error (.runnerError message))
      | .ok scheduled =>
          let deadline := origin + scheduled / 1000
          let remaining := deadline - s.now
          let s := if remaining > 0 then s.sleep remaining else s
          let started := s.now
          let action := actionText str event
          match dispatch event with
          | .error failure => (s, .error (.eventDispatchError index action (.dispatch failure)))
          | .ok c =>
              match s.make b c with
              | (s, .error e) => (s, .error (dispatchError isException index action e))
              | (s, .ok _) =>
                  let finished := s.now
                  runEvents origin (index + 1) events (records ++ [{
                    index, action, scheduledMs := scheduled
                    startedMs := (started - origin) * 1000
                    finishedMs := (finished - origin) * 1000
                    monotonicStartedMs := started * 1000
                    monotonicFinishedMs := finished * 1000 }]) s

/-- `ScenarioScheduler.run`. -/
def schedule (events : List PyDict) (s : SchedulerState β ε) :
    SchedulerState β ε × Except (SchedulerError ε) (List DispatchRecord) :=
  runEvents b str isException s.now 0 events [] s

end Scheduler

end VDevLab.Runner

namespace VDevLab

open PyStr Runner

/-! ## The events of a scenario -/

/-- The backend call of an action; a text that UTF-8 cannot encode has none. -/
def Action.call? : Action → Option BackendCall
  | .write data => (encodeUtf8 data.1).map .write
  | .fault f => some (.setFault f.configuration)
  | .clear => some .clearFault
  | .reset => some .reset

def Action.text : Action → PyStr
  | .write _ => py "write"
  | .fault _ => py "fault"
  | .clear => py "clear"
  | .reset => py "reset"

theorem dispatch_write (atMs : Duration) (data : Text) :
    dispatch (Event.dict ⟨atMs, .write data⟩) =
      ((Action.write data).call?).elim (.error .encodeError) .ok := by
  have haction : (Event.dict ⟨atMs, .write data⟩).get? (py "action") = some (.str (py "write")) := rfl
  have hdata : (Event.dict ⟨atMs, .write data⟩).get? (py "data") = some (.str data.1) := rfl
  simp only [dispatch, haction, hdata, Option.getD_some, PyValue.eqStr, Action.call?]
  rw [if_neg (by decide), if_neg (by decide), if_pos (by decide)]
  cases encodeUtf8 data.1 <;> rfl

/-- The keys of a normalized event are those that `_dispatch` asks for: it
raises only on a text that UTF-8 cannot encode. -/
theorem dispatch_eq (e : Event) :
    dispatch e.dict = e.action.call?.elim (.error .encodeError) .ok := by
  obtain ⟨atMs, action⟩ := e
  cases action with
  | write data => exact dispatch_write atMs data
  | fault f =>
    have hdispatch : dispatch (Event.dict ⟨atMs, .fault f⟩) =
        (faultConfiguration (Event.dict ⟨atMs, .fault f⟩)).map .setFault := rfl
    rw [hdispatch, faultConfiguration_dict]
    rfl
  | clear => rfl
  | reset => rfl

theorem dispatch_dict {e : Event} {c : BackendCall} (h : e.action.call? = some c) :
    dispatch e.dict = .ok c := by
  rw [dispatch_eq, h]
  rfl

theorem scheduledMs_dict (e : Event) (index : Nat) :
    scheduledMs e.dict index = .ok (e.atMs.1 : Int) := by
  have hget : e.dict.get? (py "at_ms") = some (.int e.atMs.1) := by
    obtain ⟨atMs, action⟩ := e
    cases action with
    | fault f => cases f <;> rfl
    | write data => rfl
    | clear => rfl
    | reset => rfl
  simp only [scheduledMs, hget]
  exact if_neg (by omega)

theorem actionText_dict (str : PyValue → PyStr) (e : Event) :
    actionText str e.dict = e.action.text := by
  obtain ⟨atMs, action⟩ := e
  cases action <;> rfl

end VDevLab

namespace VDevLab.Runner

open PyStr

/-! ## One event after another -/

section Follows

variable {ε : Type} (isException : ε → Bool) (origin : ℚ)

/-- The record of an event and its call. -/
def Dispatched.record (d : Dispatched ε) (index : Nat) (e : Event) : DispatchRecord where
  index := index
  action := e.action.text
  scheduledMs := e.atMs.1
  startedMs := (d.started - origin) * 1000
  finishedMs := (d.finished - origin) * 1000
  monotonicStartedMs := d.started * 1000
  monotonicFinishedMs := d.finished * 1000

/-- `d` is the call of event `e`, begun at its deadline or at `free`, when the
scheduler is free for it. -/
structure CallOf (free : ℚ) (e : Event) (d : Dispatched ε) : Prop where
  translates : e.action.call? = some d.call
  starts : d.started = max (origin + e.atMs.1 / 1000) free
  lasts : d.started ≤ d.finished

/-- The calls made for a list of events, from `index` and the moment `free` on,
and how this ends. -/
inductive Follows : Nat → ℚ → List Event → List (Dispatched ε) →
    Except (SchedulerError ε) (List DispatchRecord) → Prop
  | nil {index free} : Follows index free [] [] (.ok [])
  | raises {index free e es d x} : CallOf origin free e d → d.outcome = .error x →
      Follows index free (e :: es) [d] (.error (dispatchError isException index e.action.text x))
  | cons {index free e es d ds r} : CallOf origin free e d → d.outcome = .ok () →
      Follows (index + 1) d.finished es ds r →
      Follows index free (e :: es) (d :: ds) (r.map (d.record origin index e :: ·))

end Follows

section Law

variable {β ε : Type} (b : TimedBackend β ε) (str : PyValue → PyStr) (isException : ε → Bool)

/-- Sleeping until the deadline, if it is not past. -/
theorem sleep_until (s : SchedulerState β ε) (deadline : ℚ) :
    (if deadline - s.now > 0 then s.sleep (deadline - s.now) else s) =
      { s with now := max deadline s.now } := by
  by_cases h : deadline - s.now > 0
  · have hlt : s.now ≤ deadline := by linarith
    rw [if_pos h, max_eq_left hlt]
    simp [SchedulerState.sleep]
  · have hle : deadline ≤ s.now := by linarith
    rw [if_neg h, max_eq_right hle]

/-- The end of the last call, or `free` when there is none. -/
def lastEnd (free : ℚ) (ds : List (Dispatched ε)) : ℚ := ds.foldl (fun _ d => d.finished) free

theorem make_spec (s : SchedulerState β ε) (c : BackendCall) :
    ∃ d, d.call = c ∧ d.started = s.now ∧ d.started ≤ d.finished ∧
      (s.make b c).1.calls = s.calls ++ [d] ∧ (s.make b c).1.now = d.finished ∧
      (s.make b c).2 = d.outcome := by
  refine ⟨⟨c, s.now, s.now + (b.call s.backend s.now c).2.1, (b.call s.backend s.now c).2.2⟩,
    rfl, rfl, ?_, rfl, rfl, rfl⟩
  have hnonneg : (0 : ℚ) ≤ (b.call s.backend s.now c).2.1 := (b.call s.backend s.now c).2.1.2
  show s.now ≤ s.now + ((b.call s.backend s.now c).2.1 : ℚ)
  linarith

/-- The loop makes the calls of its events, and time is then the end of the
last of them. -/
theorem runEvents_follows (origin : ℚ) {es : List Event}
    (henc : ∀ e ∈ es, ∃ c, e.action.call? = some c) :
    ∀ (index : Nat) (records : List DispatchRecord) (s : SchedulerState β ε),
    ∃ ds r t, Follows isException origin index s.now es ds r ∧
      runEvents b str isException origin index (es.map (·.dict)) records s =
        (t, r.map (records ++ ·)) ∧
      t.calls = s.calls ++ ds ∧ t.now = lastEnd s.now ds := by
  induction es with
  | nil =>
    intro index records s
    exact ⟨[], .ok [], s, .nil, by simp [runEvents, Except.map], by simp, rfl⟩
  | cons e es ih =>
    intro index records s
    obtain ⟨c, hc⟩ := henc e List.mem_cons_self
    have hrest : ∀ e ∈ es, ∃ c, e.action.call? = some c :=
      fun e he => henc e (List.mem_cons_of_mem _ he)
    simp only [List.map_cons, runEvents, scheduledMs_dict, sleep_until, dispatch_dict hc,
      actionText_dict, Int.cast_natCast]
    obtain ⟨d, hcall, hstarted, hlasts, hcalls, hnow, houtcome⟩ :=
      make_spec b { s with now := max (origin + e.atMs.1 / 1000) s.now } c
    generalize SchedulerState.make b _ c = p at hcalls hnow houtcome
    obtain ⟨t, outcome⟩ := p
    have hof : CallOf origin s.now e d := ⟨hcall ▸ hc, hstarted, hlasts⟩
    cases outcome with
    | error x => exact ⟨[d], _, t, .raises hof houtcome.symm, rfl, hcalls, hnow⟩
    | ok u =>
      -- the rest of the loop starts where this call ended
      obtain ⟨ds, r, t', hfollows, hrun, hcalls', hnow'⟩ := ih hrest (index + 1)
        (records ++ [d.record origin index e]) t
      replace hnow : t.now = d.finished := hnow
      rw [hnow] at hfollows hnow'
      refine ⟨d :: ds, _, t', .cons hof houtcome.symm hfollows, ?_, ?_, hnow'⟩
      · simp only [Dispatched.record, hstarted] at hrun
        dsimp only
        rw [hnow, hrun]
        cases r <;> simp [Except.map, Dispatched.record, hstarted]
      · rw [hcalls', hcalls]
        simp

end Law

section End

variable {β ε : Type} {b : TimedBackend β ε} {str : PyValue → PyStr} {isException : ε → Bool}
  {origin : ℚ}

/-- A scheduler that returned has made the call of every event. -/
theorem runEvents_ok_calls {es : List Event} : ∀ {index : Nat} {records : List DispatchRecord}
    {s t : SchedulerState β ε} {r : List DispatchRecord},
    runEvents b str isException origin index (es.map (·.dict)) records s = (t, .ok r) →
    ∀ e ∈ es, ∃ c, e.action.call? = some c := by
  induction es with
  | nil =>
    intro index records s t r h e he
    cases he
  | cons e es ih =>
    intro index records s t r h
    simp only [List.map_cons, runEvents, scheduledMs_dict] at h
    cases hc : e.action.call? with
    | none =>
      rw [dispatch_eq, hc] at h
      cases congrArg Prod.snd h
    | some c =>
      rw [dispatch_dict hc] at h
      dsimp only at h
      intro e' he'
      rcases List.mem_cons.mp he' with rfl | he'
      · exact ⟨c, hc⟩
      · split at h
        · cases congrArg Prod.snd h
        · exact ih h e' he'

/-- When the last of the calls ends, for calls of the given durations. -/
def dispatchesEnd (origin : ℚ) : ℚ → List Event → List ℚ → ℚ
  | free, e :: es, duration :: durations =>
      dispatchesEnd origin (max (origin + e.atMs.1 / 1000) free + duration) es durations
  | free, _, _ => free

def Dispatched.duration (d : Dispatched ε) : ℚ := d.finished - d.started

theorem Follows.lastEnd_eq {index : Nat} {free : ℚ} {es : List Event} {ds : List (Dispatched ε)}
    {r : Except (SchedulerError ε) (List DispatchRecord)}
    (h : Follows isException origin index free es ds r) :
    lastEnd free ds = dispatchesEnd origin free es (ds.map (·.duration)) := by
  have hend : ∀ {free : ℚ} {e : Event} {d : Dispatched ε}, CallOf origin free e d →
      max (origin + e.atMs.1 / 1000) free + d.duration = d.finished := by
    intro free e d hd
    rw [← hd.starts, Dispatched.duration]
    ring
  induction h with
  | nil => rfl
  | raises hd hx =>
    simp only [lastEnd, List.foldl_cons, List.foldl_nil, List.map_cons, List.map_nil,
      dispatchesEnd, hend hd]
  | cons hd hok hrest ih =>
    simp only [lastEnd, List.foldl_cons, List.map_cons, dispatchesEnd, hend hd]
    exact ih

end End

/-! ## The law of the scheduler -/

section Law

variable {ε : Type} (isException : ε → Bool) (origin : ℚ)

/-- The law for the events `es`, the first of which has the number `index` and
finds the scheduler free at `free`: the calls are those of the first events, in
order, and each starts at its deadline, counted from the origin, or at the end
of the call before it. -/
structure SchedulerLaw (index : Nat) (free : ℚ) (es : List Event) (calls : List (Dispatched ε))
    (result : Except (SchedulerError ε) (List DispatchRecord)) : Prop where
  translates : calls.map (fun d => some d.call) <+: es.map fun e => e.action.call?
  starts : ∀ (i : Nat) (e : Event) (d : Dispatched ε) (previous : ℚ), es[i]? = some e →
    calls[i]? = some d → (free :: calls.map (·.finished))[i]? = some previous →
    d.started = max (origin + e.atMs.1 / 1000) previous
  /-- All calls succeed: every event was called, and has its record. -/
  succeeds : (∀ d ∈ calls, d.outcome = .ok ()) →
    calls.length = es.length ∧ ∃ records, result = .ok records ∧ records.length = es.length ∧
      ∀ (i : Nat) (e : Event) (d : Dispatched ε), es[i]? = some e → calls[i]? = some d →
        records[i]? = some (d.record origin (index + i) e)
  /-- Call `k` raises: it is the last one, and the only one that does. -/
  raises : ∀ (k : Nat) (e : Event) (d : Dispatched ε) (x : ε), es[k]? = some e →
    calls[k]? = some d → d.outcome = .error x →
    calls.length = k + 1 ∧ (∀ i d', i < k → calls[i]? = some d' → d'.outcome = .ok ()) ∧
      result = .error (dispatchError isException (index + k) e.action.text x)

theorem SchedulerLaw.nil {index : Nat} {free : ℚ} :
    SchedulerLaw isException origin index free [] [] (.ok []) where
  translates := by simp
  starts := by
    intro i e d previous he
    simp at he
  succeeds := by
    intro _
    refine ⟨rfl, [], rfl, rfl, ?_⟩
    intro i e d he
    simp at he
  raises := by
    intro k e d x he
    simp at he

variable {isException origin} {index : Nat} {free : ℚ} {e : Event} {es : List Event}
  {d : Dispatched ε} {ds : List (Dispatched ε)} {x : ε}

theorem SchedulerLaw.raised (hd : CallOf origin free e d) (hx : d.outcome = .error x) :
    SchedulerLaw isException origin index free (e :: es) [d]
      (.error (dispatchError isException index e.action.text x)) where
  translates := by simp [hd.translates]
  starts := by
    intro i e' d' previous he hd' hprevious
    cases i with
    | zero =>
      cases he
      cases hd'
      cases hprevious
      exact hd.starts
    | succ i => simp at hd'
  succeeds := by
    intro hall
    rw [hall d List.mem_cons_self] at hx
    cases hx
  raises := by
    intro k e' d' y he hd' hy
    cases k with
    | zero =>
      cases he
      cases hd'
      rw [hx] at hy
      cases hy
      refine ⟨rfl, ?_, rfl⟩
      intro i d' hi
      omega
    | succ k => simp at hd'

theorem SchedulerLaw.cons {r : Except (SchedulerError ε) (List DispatchRecord)}
    (hd : CallOf origin free e d) (hok : d.outcome = .ok ())
    (h : SchedulerLaw isException origin (index + 1) d.finished es ds r) :
    SchedulerLaw isException origin index free (e :: es) (d :: ds)
      (r.map (d.record origin index e :: ·)) where
  translates := by
    simp only [List.map_cons, hd.translates]
    exact List.cons_prefix_cons.mpr ⟨rfl, h.translates⟩
  starts := by
    intro i e' d' previous he hd' hprevious
    cases i with
    | zero =>
      cases he
      cases hd'
      cases hprevious
      exact hd.starts
    | succ i => exact h.starts i e' d' previous he hd' hprevious
  succeeds := by
    intro hall
    obtain ⟨hlength, records, rfl, hrecords, hget⟩ :=
      h.succeeds (fun d' hd' => hall d' (List.mem_cons_of_mem _ hd'))
    refine ⟨by simp [hlength], _, rfl, by simp [hrecords], ?_⟩
    intro i e' d' he hd'
    cases i with
    | zero =>
      cases he
      cases hd'
      rfl
    | succ i =>
      have hi := hget i e' d' he hd'
      rw [Nat.add_right_comm] at hi
      exact hi
  raises := by
    intro k e' d' y he hd' hy
    cases k with
    | zero =>
      cases hd'
      rw [hok] at hy
      cases hy
    | succ k =>
      obtain ⟨hlength, hbefore, rfl⟩ := h.raises k e' d' y he hd' hy
      refine ⟨by simp [hlength], ?_, ?_⟩
      · intro i d'' hi hget
        cases i with
        | zero =>
          cases hget
          exact hok
        | succ i => exact hbefore i d'' (by omega) hget
      · rw [Nat.add_right_comm]
        rfl

theorem Follows.law {r : Except (SchedulerError ε) (List DispatchRecord)}
    (h : Follows isException origin index free es ds r) :
    SchedulerLaw isException origin index free es ds r := by
  induction h with
  | nil => exact .nil _ _
  | raises hd hx => exact .raised hd hx
  | cons hd hok hrest ih => exact .cons hd hok ih

end Law

/-! ## Parsed scenarios -/

/-- The text that an event writes can be encoded. -/
def Encodable (event : PyDict) : Prop :=
  ∀ data, event.get? (py "data") = some (.str data) → (encodeUtf8 data).isSome = true

theorem Encodable.call? {e : Event} (h : Encodable e.dict) : ∃ c, e.action.call? = some c := by
  obtain ⟨atMs, action⟩ := e
  cases action with
  | write data =>
    obtain ⟨bytes, hbytes⟩ := Option.isSome_iff_exists.mp (h data.1 rfl)
    exact ⟨.write bytes, by simp [Action.call?, hbytes]⟩
  | fault f => exact ⟨_, rfl⟩
  | clear => exact ⟨_, rfl⟩
  | reset => exact ⟨_, rfl⟩

/-- **The scheduler's law**, for the events of every accepted scenario, every
backend and every moment to start at: the calls are the translations of the
events, in order and each once, and event `i` starts at its own deadline or at
the end of call `i - 1`. No event is refused before its call; an `Exception` of
call `k` comes back as the `EventDispatchError` of event `k`, any other
exception unchanged. -/
theorem scheduler_law {β ε : Type} {safeLoad : PyStr → Except Scenario.LoadError PyValue}
    {lim : IntLimit} {text source : PyStr} {sd : ScenarioDefinition}
    (h : Scenario.parseScenario safeLoad lim text source = .ok sd)
    (henc : ∀ event ∈ sd.events, Encodable event) (b : TimedBackend β ε)
    (str : PyValue → PyStr) (isException : ε → Bool) (origin : ℚ) (backend : β) :
    ∃ sc : Scenario, sd = sc.definition source ∧
      SchedulerLaw isException origin 0 origin sc.events
        (schedule b str isException sd.events { now := origin, backend }).1.calls
        (schedule b str isException sd.events { now := origin, backend }).2 ∧
      ∀ event ∈ sd.events, (∃ c, dispatch event = .ok c) ∧
        ∀ index, ∃ ms, scheduledMs event index = .ok ms := by
  obtain ⟨sc, rfl⟩ := Scenario.parseScenario_definition h
  have hcall : ∀ e ∈ sc.events, ∃ c, e.action.call? = some c :=
    fun e he => (henc e.dict (List.mem_map_of_mem he)).call?
  refine ⟨sc, rfl, ?_, ?_⟩
  · obtain ⟨ds, r, t, hfollows, hrun, hcalls, -⟩ :=
      runEvents_follows b str isException origin hcall 0 [] { now := origin, backend }
    have hschedule : schedule b str isException (sc.definition source).events
        { now := origin, backend } = (t, r.map ([] ++ ·)) := hrun
    rw [hschedule, hcalls]
    have hr : r.map ([] ++ ·) = r := by
      cases r <;> simp [Except.map]
    rw [hr]
    exact hfollows.law
  · intro event hevent
    obtain ⟨e, he, rfl⟩ := List.mem_map.mp hevent
    obtain ⟨c, hc⟩ := hcall e he
    exact ⟨⟨c, dispatch_dict hc⟩, fun index => ⟨_, scheduledMs_dict e index⟩⟩

/-- A reset at the start and a clear at the timeout of one second. -/
def lastMomentDocument : PyValue :=
  .dict (PyDict.ofList [("schema_version", .int 1),
    ("device", .dict (PyDict.ofList [("path", .str (py "/dev/vdevlab0"))])),
    ("application", .dict (PyDict.ofList [("command", .list [.str (py "./vtemp-monitor")])])),
    ("scenario", .dict (PyDict.ofList [("name", .str (py "last-moment")),
      ("timeout", .str (py "1s")),
      ("events", .list [
        .dict (PyDict.ofList [("at", .str (py "0ms")), ("action", .str (py "reset"))]),
        .dict (PyDict.ofList [("at", .str (py "1s")), ("action", .str (py "clear"))])])])),
    ("assertions", .list [.dict (PyDict.ofList
      [("event", .str (py "MONITOR_STARTED")), ("count", .int 1)])])])

/-- Its normal form. -/
def lastMoment : ScenarioDefinition where
  source := py "<memory>"
  schemaVersion := 1
  devicePath := py "/dev/vdevlab0"
  command := [py "./vtemp-monitor"]
  startupTimeoutMs := 2000
  name := py "last-moment"
  timeoutMs := 1000
  events := [Event.dict ⟨.zero, .reset⟩, Event.dict ⟨⟨1000, by decide⟩, .clear⟩]
  assertions := [PyDict.ofList [("type", .str (py "event_count")),
    ("event", .str (py "MONITOR_STARTED")), ("count", .int 1)]]

theorem lastMoment_accepted : Scenario.parseScenario (fun _ => .ok lastMomentDocument)
    defaultIntLimit [] (py "<memory>") = .ok lastMoment := rfl

theorem lastMoment_encodable : ∀ event ∈ lastMoment.events, Encodable event := by
  intro event hevent data hdata
  simp only [lastMoment, List.mem_cons, List.not_mem_nil, or_false] at hevent
  rcases hevent with rfl | rfl <;> cases hdata

/-- A backend whose calls take `duration` and end as given. -/
def steadyBackend {ε : Type} (duration : ℚ≥0) (outcome : Except ε Unit) : TimedBackend Unit ε where
  call _ _ _ := ((), duration, outcome)

/-- Calls of two seconds: the second event is due after one and starts when
the first call has ended. -/
theorem scheduler_law_overrun :
    (schedule (steadyBackend 2 (.ok ())) (fun _ => []) (fun _ : Empty => true) lastMoment.events
      { now := 100, backend := () }).1.calls.map (fun d => (d.call, d.started)) =
        [(.reset, 100), (.clearFault, 102)] ∧
    ∃ records, (schedule (steadyBackend 2 (.ok ())) (fun _ => []) (fun _ : Empty => true)
      lastMoment.events { now := 100, backend := () }).2 = .ok records ∧ records.length = 2 := by
  obtain ⟨sc, hsc, hlaw, -⟩ := scheduler_law lastMoment_accepted lastMoment_encodable
    (steadyBackend 2 (.ok ())) (fun _ => []) (fun _ : Empty => true) 100 ()
  refine ⟨by decide +kernel, ?_⟩
  obtain ⟨-, records, hrecords, hlength, -⟩ := hlaw.succeeds (by
    intro d hd
    cases houtcome : d.outcome with
    | error x => exact x.elim
    | ok u => rfl)
  have hevents : sc.events.length = 2 := by
    rw [← List.length_map (f := Event.dict)]
    exact (congrArg (fun sd => sd.events.length) hsc).symm
  exact ⟨records, hrecords, hlength.trans hevents⟩

/-- The exceptions of the next example. -/
inductive Interruption
  | osError
  | keyboardInterrupt
  deriving DecidableEq

/-- Ctrl+C in the first call: it raises, no other call is made, and what leaves
the scheduler is no `EventDispatchError`. -/
theorem interrupt_is_not_wrapped :
    let run := schedule (steadyBackend 0 (.error .keyboardInterrupt)) (fun _ => [])
      (fun e => decide (e = Interruption.osError)) lastMoment.events { now := 0, backend := () }
    Scenario.parseScenario (fun _ => .ok lastMomentDocument) defaultIntLimit [] (py "<memory>") =
      .ok lastMoment ∧
    (∀ event ∈ lastMoment.events, Encodable event) ∧
    run.1.calls.map (fun d => d.outcome) = [.error .keyboardInterrupt] ∧
    run.2 = .error (.escaped .keyboardInterrupt) ∧
    ¬ ∃ index action cause, run.2 = .error (.eventDispatchError index action cause) := by
  intro run
  have hrun : run.2 = .error (.escaped .keyboardInterrupt) := rfl
  refine ⟨lastMoment_accepted, lastMoment_encodable, by decide +kernel, hrun, ?_⟩
  intro h
  obtain ⟨index, action, cause, h⟩ := h
  rw [hrun] at h
  cases h

end VDevLab.Runner
