import VDevLab.Runner.Run

/-!
# Which exits of `run` clean up

Once the backend is there, every exit should pass `reset` and then `close`,
and an exception of the body should be the one that leaves. It does so
exactly when the clock can be read once before the `try`, and the handler's
own `poll` and `terminate` do not raise on top of a failed body.
-/

namespace VDevLab.Runner

open PyStr

section Cleanup

variable {ε τ : Type} {o : Outcomes ε τ} {sd : ScenarioDefinition}

/-- `reset`, then `close`, have been called, and the body's exception is
passed on. -/
structure CleansUp (o : Outcomes ε τ) (sd : ScenarioDefinition) : Prop where
  cleaned : cleanupCalls o <:+: (run o sd).calls
  propagates : ∀ started e, o.started = .ok started →
    (tryBody o sd started).result = .error e → (run o sd).result = .error e

/-- One of the calls that the body makes after the application was started
raises. -/
def RaisesAfterStart (o : Outcomes ε τ) (sd : ScenarioDefinition) (started : τ) : Prop :=
  (∃ e, o.scheduler = .error e) ∨ (∃ e, o.now = .error e) ∨
  ∃ now, o.now = .ok now ∧ ((∃ e, o.elapsedMs started now = .error e) ∨
    ∃ ms, o.elapsedMs started now = .ok ms ∧
      ((sd.timeoutMs ≤ ms ∧ ∃ e, o.terminate = .error e) ∨
       (ms < sd.timeoutMs ∧ ∃ e, o.collectWithTimeout (sd.timeoutMs - ms) = .error e)))

/-- The handler gets past the application. -/
def HandlerReturns (o : Outcomes ε τ) : Prop :=
  ∃ status, o.poll = .ok status ∧ (status = none → ∃ r, o.handlerTerminate = .ok r)

/-- The clock is read before the `try`, and the handler returns when it has
an application to look after. -/
def Contained (o : Outcomes ε τ) (sd : ScenarioDefinition) : Prop :=
  ∃ started, o.started = .ok started ∧
    (o.applicationFactory = .ok () → RaisesAfterStart o sd started → HandlerReturns o)

/-! ## The parts of a run -/

/-- The body ends with the application's result, or with the exception of
its first call that raised. -/
theorem tryBody_spec (o : Outcomes ε τ) (sd : ScenarioDefinition) (started : τ) :
    .reset ∉ (tryBody o sd started).calls ∧
    ((∃ e, (tryBody o sd started).result = .error e) ↔
      (∃ e, o.applicationFactory = .error e) ∨ RaisesAfterStart o sd started) := by
  -- one case per call, in the order the body makes them
  unfold RaisesAfterStart
  cases hf : o.applicationFactory with
  | error e => simp [tryBody, make, bind, Traced.bind, Traced.call, Except.mapError, hf]
  | ok u =>
    cases hs : o.scheduler with
    | error e => simp [tryBody, make, bind, Traced.bind, Traced.call, Except.mapError, hf, hs]
    | ok dispatches =>
      cases hn : o.now with
      | error e => simp [tryBody, make, bind, Traced.bind, Traced.call, Except.mapError, hf, hs, hn]
      | ok now =>
        cases he : o.elapsedMs started now with
        | error e =>
          simp [tryBody, make, bind, Traced.bind, Traced.call, Traced.lift, Except.mapError,
            hf, hs, hn, he]
        | ok ms =>
          by_cases hrem : (sd.timeoutMs : Int) ≤ ms
          · have hpos : ¬ ms < sd.timeoutMs := by omega
            cases ht : o.terminate <;>
              simp [tryBody, make, bind, Traced.bind, Traced.call, Traced.lift, Except.mapError,
                hf, hs, hn, he, hrem, hpos, ht]
          · have hpos : ms < sd.timeoutMs := by omega
            cases hc : o.collectWithTimeout (sd.timeoutMs - ms) <;>
              simp [tryBody, make, bind, Traced.bind, Traced.call, Traced.lift, Except.mapError,
                hf, hs, hn, he, hrem, hpos, hc]

/-- The first half of the handler returns iff it has no application, or
`poll` and `terminate` return. -/
theorem stopApplication_spec (o : Outcomes ε τ) :
    .reset ∉ (stopApplication o).calls ∧
    ((stopApplication o).result = .ok () ↔
      ((∃ e, o.applicationFactory = .error e) ∨ HandlerReturns o)) := by
  unfold HandlerReturns
  cases hf : o.applicationFactory with
  | error e => simp [stopApplication, hf]
  | ok u =>
    cases hp : o.poll with
    | error e => simp [stopApplication, make, bind, Traced.bind, Traced.call, Except.mapError, hf, hp]
    | ok status =>
      cases status with
      | some code =>
        simp [stopApplication, make, bind, Traced.bind, Traced.call, Except.mapError, hf, hp]
      | none =>
        cases ht : o.handlerTerminate <;>
          simp [stopApplication, make, bind, Traced.bind, Traced.call, Except.mapError, hf, hp, ht]

/-- With a backend, the run is its last part after calls that do not clean
up. -/
theorem run_split (hsnap : kernelLogRequired sd = true → ∃ s, o.snapshot = .ok s)
    (hback : o.backendFactory = .ok ()) :
    ∃ before snapshot, .reset ∉ before ∧
      (run o sd).calls = before ++ (runWithBackend o sd snapshot).calls ∧
      (run o sd).result = (runWithBackend o sd snapshot).result := by
  cases hreq : kernelLogRequired sd with
  | false =>
    refine ⟨[.backendFactory], none, by simp, ?_⟩
    simp [run, hreq, make, bind, Traced.bind, Traced.call, Except.mapError, hback]
  | true =>
    obtain ⟨s, hs⟩ := hsnap hreq
    refine ⟨[.snapshot, .backendFactory], some s, by simp, ?_⟩
    simp [run, hreq, make, bind, Traced.bind, Traced.call, Except.mapError, hback, hs, Functor.map]

theorem make_ok {α : Type} (c : Called) {x : Except ε α} {a : α} (h : x = .ok a) :
    (make c x).result = .ok a := by
  rw [h]
  rfl

theorem make_error {α : Type} (c : Called) {x : Except ε α} {e : ε} (h : x = .error e) :
    (make c x).result = .error (.raised e) := by
  rw [h]
  rfl

section Parts

variable {started : τ} (snapshot : Option KernelLogSnapshot) (hstart : o.started = .ok started)

include hstart

/-- The body returned: the cleanup follows. -/
theorem runWithBackend_ok {result : ScenarioRunResult}
    (hbody : (tryBody o sd started).result = .ok result) :
    ∃ after, (runWithBackend o sd snapshot).calls =
      [.clock] ++ ((tryBody o sd started).calls ++ (cleanupCalls o ++ after)) := by
  unfold runWithBackend
  rw [(Traced.bind_ok (make_ok .clock hstart) _).1,
    (Traced.bind_ok (Traced.handle_ok hbody (handler o)).2 _).1,
    (Traced.handle_ok hbody (handler o)).1]
  obtain ⟨after, hafter⟩ := Traced.bind_calls (cleanupBackend o false) _
  exact ⟨after, by rw [hafter]; rfl⟩

/-- The body raised: the run ends as the handler does. -/
theorem runWithBackend_raised {e : RunError ε}
    (hbody : (tryBody o sd started).result = .error e) :
    ∀ e', (handler o e).result = .error e' →
      (runWithBackend o sd snapshot).calls =
        [.clock] ++ ((tryBody o sd started).calls ++ (handler o e).calls) ∧
      (runWithBackend o sd snapshot).result = .error e' := by
  intro e' he'
  obtain ⟨hcalls, hresult⟩ := Traced.handle_error hbody (handler o)
  rw [he'] at hresult
  unfold runWithBackend
  rw [(Traced.bind_ok (make_ok .clock hstart) _).1, (Traced.bind_ok (make_ok .clock hstart) _).2,
    (Traced.bind_error hresult _).1, (Traced.bind_error hresult _).2, hcalls]
  exact ⟨rfl, rfl⟩

end Parts

/-- The handler that gets past the application cleans up and raises again. -/
theorem handler_ok (hstop : (stopApplication o).result = .ok ()) (e : RunError ε) :
    (handler o e).calls = (stopApplication o).calls ++ cleanupCalls o ∧
      (handler o e).result = .error e := by
  have hclean : (cleanupBackend o true).result = .ok () := by
    unfold cleanupBackend
    cases cleanupErrors o <;> rfl
  unfold handler
  rw [(Traced.bind_ok hstop _).1, (Traced.bind_ok hstop _).2, (Traced.bind_ok hclean _).1,
    (Traced.bind_ok hclean _).2]
  exact ⟨by simp [cleanupBackend], rfl⟩

/-- The handler that does not get past the application ends there. -/
theorem handler_error {e' : RunError ε} (hstop : (stopApplication o).result = .error e')
    (e : RunError ε) :
    (handler o e).calls = (stopApplication o).calls ∧ (handler o e).result = .error e' :=
  Traced.bind_error hstop _

/-! ## The exits that clean up -/

theorem not_cleaned {calls : List Called} (h : .reset ∉ calls) : ¬ cleanupCalls o <:+: calls := by
  intro hin
  exact h (hin.subset List.mem_cons_self)

section Exits

variable (hsnap : kernelLogRequired sd = true → ∃ s, o.snapshot = .ok s)
  (hback : o.backendFactory = .ok ())

include hsnap hback

/-- The clock raises outside the `try`. -/
theorem not_cleansUp_of_clock {e : ε} (hstart : o.started = .error e) : ¬ CleansUp o sd := by
  obtain ⟨before, snapshot, hbefore, hcalls, -⟩ := run_split hsnap hback
  have hend : (runWithBackend o sd snapshot).calls = [.clock] :=
    (Traced.bind_error (make_error .clock hstart) _).1
  intro h
  refine absurd h.cleaned (not_cleaned ?_)
  rw [hcalls, hend]
  simp [hbefore]

variable {started : τ} (hstart : o.started = .ok started)

include hstart

/-- The body returns. -/
theorem cleansUp_of_body {result : ScenarioRunResult}
    (hbody : (tryBody o sd started).result = .ok result) : CleansUp o sd := by
  obtain ⟨before, snapshot, -, hcalls, -⟩ := run_split hsnap hback
  obtain ⟨after, hafter⟩ := runWithBackend_ok snapshot hstart hbody
  refine ⟨⟨before ++ [.clock] ++ (tryBody o sd started).calls, after, ?_⟩, ?_⟩
  · rw [hcalls, hafter]
    simp
  · intro started' e hs he
    cases hstart.symm.trans hs
    cases hbody.symm.trans he

/-- The body raises and the handler gets past the application. -/
theorem cleansUp_of_handler {e : RunError ε} (hbody : (tryBody o sd started).result = .error e)
    (hstop : (stopApplication o).result = .ok ()) : CleansUp o sd := by
  obtain ⟨before, snapshot, -, hcalls, hresult⟩ := run_split hsnap hback
  obtain ⟨hhc, hhr⟩ := handler_ok hstop e
  obtain ⟨hec, her⟩ := runWithBackend_raised snapshot hstart hbody e hhr
  refine ⟨⟨before ++ [.clock] ++ (tryBody o sd started).calls ++ (stopApplication o).calls,
    [], ?_⟩, ?_⟩
  · rw [hcalls, hec, hhc]
    simp
  · intro started' e' hs he'
    cases hstart.symm.trans hs
    cases hbody.symm.trans he'
    rw [hresult, her]

/-- The body raises and the handler raises on top of it. -/
theorem not_cleansUp_of_handler {e e' : RunError ε}
    (hbody : (tryBody o sd started).result = .error e)
    (hstop : (stopApplication o).result = .error e') : ¬ CleansUp o sd := by
  obtain ⟨before, snapshot, hbefore, hcalls, -⟩ := run_split hsnap hback
  obtain ⟨hhc, hhr⟩ := handler_error hstop e
  -- the run ends with the handler's own exception, before the cleanup
  obtain ⟨hec, -⟩ := runWithBackend_raised snapshot hstart hbody e' hhr
  intro h
  refine absurd h.cleaned (not_cleaned ?_)
  rw [hcalls, hec, hhc]
  simp [hbefore, (tryBody_spec o sd started).1, (stopApplication_spec o).1]

end Exits

/-- The condition in terms of the parts: a body that raises leaves a handler
that gets past the application. -/
theorem contained_iff {started : τ} (hstart : o.started = .ok started) :
    Contained o sd ↔ ((∃ e, (tryBody o sd started).result = .error e) →
      (stopApplication o).result = .ok ()) := by
  rw [(tryBody_spec o sd started).2, (stopApplication_spec o).2]
  constructor
  · rintro ⟨started', hs, hcont⟩ hraised
    cases hstart.symm.trans hs
    rcases hraised with he | hr
    · exact .inl he
    · cases happ : o.applicationFactory with
      | error e => exact .inl ⟨e, rfl⟩
      | ok u => exact .inr (hcont happ hr)
  · intro h
    refine ⟨started, hstart, fun happ hr => ?_⟩
    rcases h (.inr hr) with ⟨e, he⟩ | hret
    · cases happ.symm.trans he
    · exact hret

/-- **Which runs clean up**: exactly those that read the clock before the
`try` and whose handler, if it runs with an application, gets past it. -/
theorem run_cleans_up_iff (o : Outcomes ε τ) (sd : ScenarioDefinition)
    (hsnap : kernelLogRequired sd = true → ∃ s, o.snapshot = .ok s)
    (hback : o.backendFactory = .ok ()) : CleansUp o sd ↔ Contained o sd := by
  cases hstart : o.started with
  | error e =>
    refine iff_of_false (not_cleansUp_of_clock hsnap hback hstart) ?_
    intro h
    obtain ⟨started, hok, -⟩ := h
    cases hstart.symm.trans hok
  | ok started =>
    rw [contained_iff hstart]
    cases hbody : (tryBody o sd started).result with
    | ok result =>
      refine iff_of_true (cleansUp_of_body hsnap hback hstart hbody) ?_
      intro h
      obtain ⟨e, he⟩ := h
      cases he
    | error e =>
      cases hstop : (stopApplication o).result with
      | ok u =>
        exact iff_of_true (cleansUp_of_handler hsnap hback hstart hbody hstop) (fun _ => rfl)
      | error e' =>
        refine iff_of_false (not_cleansUp_of_handler hsnap hback hstart hbody hstop) ?_
        intro h
        cases h ⟨e, rfl⟩

end Cleanup

/-! ## An interrupted dispatch -/

/-- A scenario with one reset and five seconds. -/
def trialDefinition : ScenarioDefinition where
  source := py "<memory>"
  schemaVersion := 1
  devicePath := py "/dev/vdevlab0"
  command := [py "./vtemp-monitor"]
  startupTimeoutMs := 2000
  name := py "trial"
  timeoutMs := 5000
  events := [Event.dict ⟨.zero, .reset⟩]
  assertions := [Assertion.dict (.disconnect false)]

/-- The scheduler raises while the application runs; the handler terminates
the application with the given outcome. -/
def dispatchFails (handlerTerminate : Except String ApplicationResult) : Outcomes String Nat where
  snapshot := .ok ⟨[], none⟩
  backendFactory := .ok ()
  started := .ok 0
  applicationFactory := .ok ()
  scheduler := .error "EventDispatchError"
  now := .ok 1
  elapsedMs started now := .ok ((now - started) * 1000)
  terminate := .ok ⟨[], 0, [], [], false, false⟩
  collectWithTimeout _ := .ok ⟨[], 0, [], [], false, false⟩
  poll := .ok none
  handlerTerminate := handlerTerminate
  reset := .ok ()
  close := some (.ok ())
  observe := .ok ⟨true, [], none⟩

/-- When `terminate` returns, the device is reset and closed and the
scheduler's exception leaves. -/
theorem run_cleans_up_iff_terminated :
    CleansUp (dispatchFails (.ok ⟨[], -15, [], [], false, false⟩)) trialDefinition := by
  refine (run_cleans_up_iff _ _ (fun _ => ⟨_, rfl⟩) rfl).mpr ⟨0, rfl, fun _ _ => ?_⟩
  exact ⟨none, rfl, fun _ => ⟨_, rfl⟩⟩

/-- When `terminate` raises too, `run` ends with the backend neither reset
nor closed, and with the wrong exception. -/
theorem run_cleanup_skipped_when_terminate_raises :
    let o := dispatchFails (.error "PermissionError")
    ¬ CleansUp o trialDefinition ∧ .reset ∉ (run o trialDefinition).calls ∧
      .close ∉ (run o trialDefinition).calls ∧
      (run o trialDefinition).result = .error (.raised "PermissionError") := by
  have hcalls : (run (dispatchFails (.error "PermissionError")) trialDefinition).calls =
      [.backendFactory, .clock, .applicationFactory, .scheduler, .poll, .terminate] := rfl
  refine ⟨fun h => absurd h.cleaned (not_cleaned ?_), ?_, ?_, rfl⟩ <;>
    · rw [hcalls]
      decide

end VDevLab.Runner
