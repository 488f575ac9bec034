import VDevLab.Lib.Traced
import VDevLab.Scenario.Schema

/-!
# `ScenarioRunner.run`

The runner makes each of its calls at most once, so an environment is one
outcome per call site: a value or an exception. What a run does is the list
of the calls it makes and the way it ends.

`_cleanup_backend` is reached from the normal exit and from the handler of
the `try`. The handler first looks after the application, and what `poll` or
`terminate` raise there leaves `run` before the cleanup.
-/

namespace VDevLab.Runner

open PyStr

/-! ## Results -/

structure DispatchRecord where
  index : Nat
  action : PyStr
  scheduledMs : Int
  startedMs : ℚ
  finishedMs : ℚ
  monotonicStartedMs : ℚ
  monotonicFinishedMs : ℚ

structure ApplicationResult where
  command : List PyStr
  exitCode : Int
  stdout : PyStr
  stderr : PyStr
  timedOut : Bool := false
  forced : Bool := false

structure ScenarioRunResult where
  scenarioName : PyStr
  dispatches : List DispatchRecord
  application : ApplicationResult
  kernelWarnings : List PyStr := []
  kernelLogAvailable : Bool := false
  kernelLogError : Option PyStr := none

structure KernelLogSnapshot where
  lines : List PyStr
  error : Option PyStr := none

structure KernelLogObservation where
  available : Bool
  warnings : List PyStr
  error : Option PyStr := none

/-! ## Calls and outcomes -/

/-- The calls `run` makes, by call site where one is made twice. -/
inductive Called
  | snapshot
  | backendFactory
  | clock
  | applicationFactory
  | scheduler
  | collectWithTimeout (remainingMs : Int)
  | poll
  | terminate
  | reset
  | close
  | observe
  deriving DecidableEq

/-- An outcome for every call site; `ε` are the exceptions and `τ` the
readings of the clock. `close` is absent when the backend has no such
attribute. -/
structure Outcomes (ε τ : Type) where
  snapshot : Except ε KernelLogSnapshot
  backendFactory : Except ε Unit
  started : Except ε τ
  applicationFactory : Except ε Unit
  scheduler : Except ε (List DispatchRecord)
  now : Except ε τ
  /-- `int((now - started) * 1000)`. -/
  elapsedMs : τ → τ → Except ε Int
  terminate : Except ε ApplicationResult
  collectWithTimeout : Int → Except ε ApplicationResult
  poll : Except ε (Option Int)
  handlerTerminate : Except ε ApplicationResult
  reset : Except ε Unit
  close : Option (Except ε Unit)
  observe : Except ε KernelLogObservation

/-- What leaves `run`: an exception of a call, or the `RunnerError` of a
failed cleanup with its cause. -/
inductive RunError (ε : Type)
  | raised (e : ε)
  | cleanupFailed (cause : ε)

section Run

variable {ε τ : Type} (o : Outcomes ε τ) (sd : ScenarioDefinition)

abbrev RunM (ε : Type) := Traced Called (RunError ε)

/-- A call whose exception is passed on. -/
def make {α : Type} (c : Called) (outcome : Except ε α) : RunM ε α :=
  .call c (outcome.mapError .raised)

/-- The errors collected by `_cleanup_backend`. -/
def cleanupErrors : List ε :=
  (match o.reset with
    | .ok _ => []
    | .error e => [e]) ++
  (match o.close with
    | some (.error e) => [e]
    | _ => [])

/-- The calls of `_cleanup_backend`: both are made whatever they raise. -/
def cleanupCalls : List Called :=
  .reset :: (match o.close with
    | some _ => [.close]
    | none => [])

/-- `_cleanup_backend`. -/
def cleanupBackend (suppressErrors : Bool) : RunM ε Unit where
  calls := cleanupCalls o
  result :=
    match cleanupErrors o with
    | cause :: _ => if suppressErrors then .ok () else .error (.cleanupFailed cause)
    | [] => .ok ()

/-- The body of the `try`. -/
def tryBody (started : τ) : RunM ε ScenarioRunResult := do
  make .applicationFactory o.applicationFactory
  let dispatches ← make .scheduler o.scheduler
  let now ← make .clock o.now
  let elapsedMs ← .lift ((o.elapsedMs started now).mapError .raised)
  let remainingMs := sd.timeoutMs - elapsedMs
  let application ←
    if remainingMs ≤ 0 then do
      let result ← make .terminate o.terminate
      pure { result with timedOut := true }
    else make (.collectWithTimeout remainingMs) (o.collectWithTimeout remainingMs)
  return { scenarioName := sd.name, dispatches, application }

/-- The first half of the handler: `application` is not `None` exactly when
its factory returned. -/
def stopApplication : RunM ε Unit :=
  match o.applicationFactory with
  | .error _ => pure ()
  | .ok _ => do
      let status ← make .poll o.poll
      if status.isNone then
        let _ ← make .terminate o.handlerTerminate
        pure ()
      else pure ()

/-- The `except BaseException` handler. -/
def handler (e : RunError ε) : RunM ε ScenarioRunResult := do
  stopApplication o
  cleanupBackend o true
  .lift (.error e)

/-- `kernel_log_required`. -/
def kernelLogRequired : Bool :=
  sd.assertions.any fun a => ((a.get? (py "type")).getD .none).eqStr (py "kernel_warnings")

/-- `run` from the point where the backend is there. -/
def runWithBackend (snapshot : Option KernelLogSnapshot) : RunM ε ScenarioRunResult := do
  let started ← make .clock o.started
  let result ← (tryBody o sd started).handle (handler o)
  cleanupBackend o false
  match snapshot with
  | none => pure result
  | some _ => do
      let observation ← make .observe o.observe
      pure { result with
        kernelWarnings := observation.warnings
        kernelLogAvailable := observation.available
        kernelLogError := observation.error }

/-- `ScenarioRunner.run`. -/
def run : RunM ε ScenarioRunResult := do
  let snapshot ←
    if kernelLogRequired sd then (some <$> make .snapshot o.snapshot) else pure none
  make .backendFactory o.backendFactory
  runWithBackend o sd snapshot

end Run

end VDevLab.Runner
