import VDevLab.Runner.Backend

/-!
# A run on a used device

The runner opens the device, starts the application, and then lets the
scheduler dispatch; from its start on the application can read and poll at
any time. This is that composition: the interleaving machine of the module,
the runner's sequence of backend calls, and an application that makes any
reads and polls.

Nothing resets the device before the application starts. Whatever an earlier
user left in the FIFO is there for the application's first read, so no
scenario is isolated from it; one whose first operation on the device is a
reset would be.
-/

namespace VDevLab.Kernel

/-- The device states that use of the module can leave behind. -/
def Device.LeftBehind (d : Device) : Prop := ∃ callers, machine.Reachable ⟨d, callers⟩

end VDevLab.Kernel

namespace VDevLab.Runner

open PyStr Kernel

/-! ## The composed system -/

/-- The system call behind a backend call; a `write` offers what is left. -/
def backendOp (order : Words.Order) : BackendCall → Except DispatchFailure Op
  | .reset => .ok (.ioctl (ioctlCommand order iocReset []))
  | .clearFault => .ok (.ioctl (ioctlCommand order iocClearFault []))
  | .write remaining => .ok (.write ⟨remaining, false⟩)
  | .setFault c => do
      let (request, payload) ← setFault order c
      return .ioctl (ioctlCommand order request payload)

/-- Where the scheduler is: between events, inside the backend call of one,
or stopped by an exception. -/
inductive Scheduler
  | ready (events : List PyDict)
  | waiting (caller : Nat) (call : BackendCall) (events : List PyDict)
  | raised

structure RunState where
  sys : Sys
  scheduler : Scheduler

inductive RunLabel
  | dispatch
  | resume
  | application (op : Op)
  | step (i : Nat) (ch : Choice)

/-- Make the next system call of a backend call. `LinuxDeviceBackend.write`
makes none when nothing is left to write. -/
def issue (order : Words.Order) (sys : Sys) (call : BackendCall) (events : List PyDict) :
    RunState :=
  if call = .write [] then ⟨sys, .ready events⟩
  else
    match backendOp order call with
    | .error _ => ⟨sys, .raised⟩
    | .ok op => ⟨sys.invoked op, .waiting sys.callers.length call events⟩

/-- What the backend does with the result of its system call. -/
def resumed (order : Words.Order) (sys : Sys) (call : BackendCall) (events : List PyDict) :
    Call → Option RunState
  | .ioctl _ (.returned res) =>
      some ⟨sys, if res.ret < 0 then .raised else .ready events⟩
  | .write a (.returned ret) =>
      -- `InterruptedError` tries again; 0 is `device write made no progress`
      if ret = -EINTR ∨ ret = -ERESTARTSYS then some (issue order sys call events)
      else if ret ≤ 0 then some ⟨sys, .raised⟩
      else some (issue order sys (.write (a.data.drop ret.toNat)) events)
  | _ => none

def RunState.step (order : Words.Order) (s : RunState) : RunLabel → Option RunState
  | .dispatch =>
      match s.scheduler with
      | .ready (event :: events) =>
          match dispatch event with
          | .error _ => some { s with scheduler := .raised }
          | .ok call => some (issue order s.sys call events)
      | _ => none
  | .resume =>
      match s.scheduler with
      | .waiting i call events =>
          (s.sys.callers[i]?).bind fun c => resumed order s.sys call events c.call
      | _ => none
  | .application op =>
      match op with
      | .read _ => some { s with sys := s.sys.invoked op }
      | .poll _ => some { s with sys := s.sys.invoked op }
      | _ => none
  | .step i ch => (s.sys.step (.step i ch)).map fun sys => { s with sys }

/-- The run of a scenario on the device `d`: the application has been
started and no event has been dispatched. -/
def runOn (sd : ScenarioDefinition) (d : Device) : RunState := ⟨⟨d, []⟩, .ready sd.events⟩

/-- The runs of a scenario, on any device left behind by earlier use. -/
def scenarioSystem (order : Words.Order) (sd : ScenarioDefinition) : Lts RunState RunLabel where
  init s := ∃ d : Device, d.LeftBehind ∧ s = runOn sd d
  step := RunState.step order

/-- The results of the application's calls and of the dispatches, in the
order in which the calls were made. -/
def observations (s : RunState) : List (Option Result) := s.sys.callers.map (·.call.result)

/-- Two runs under the same schedule give the same observations, whatever
the device was left in. -/
def Isolated (order : Words.Order) (sd : ScenarioDefinition) : Prop :=
  ∀ d₁ d₂ : Device, d₁.LeftBehind → d₂.LeftBehind → ∀ labels tr₁ tr₂ s₁ s₂,
    (scenarioSystem order sd).replay (runOn sd d₁) labels = some (tr₁, s₁) →
    (scenarioSystem order sd).replay (runOn sd d₂) labels = some (tr₂, s₂) →
    observations s₁ = observations s₂

/-! ## After a reset -/

/-- A schedule whose first operation on the device is a dispatched reset
leads to the same state from every device. -/
theorem reset_first_isolated (order : Words.Order) {sd : ScenarioDefinition} {atMs : Duration}
    {events : List PyDict} (hreset : sd.events = Event.dict ⟨atMs, .reset⟩ :: events)
    (d₁ d₂ : Device) (ch : Choice) (labels : List RunLabel) :
    ((scenarioSystem order sd).replay (runOn sd d₁) (.dispatch :: .step 0 ch :: labels)).map
        (observations ·.2) =
      ((scenarioSystem order sd).replay (runOn sd d₂) (.dispatch :: .step 0 ch :: labels)).map
        (observations ·.2) := by
  -- both runs are in this state once the reset has taken the locks
  have hstate : ∀ d : Device, ∃ s, (scenarioSystem order sd).step (runOn sd d) .dispatch = some s ∧
      (scenarioSystem order sd).step s (.step 0 ch) =
        some ⟨⟨⟨[], clearFaultLocked⟩, [⟨.ioctl .reset (.run .wakeRead), false⟩]⟩,
          .waiting 0 .reset events⟩ := by
    intro d
    refine ⟨⟨⟨d, [⟨.ioctl .reset (.run .start), false⟩]⟩, .waiting 0 .reset events⟩, ?_, rfl⟩
    simp only [scenarioSystem, RunState.step, runOn, hreset]
    rfl
  obtain ⟨s₁, h₁, h₁'⟩ := hstate d₁
  obtain ⟨s₂, h₂, h₂'⟩ := hstate d₂
  simp only [Lts.replay, h₁, h₁', h₂, h₂', Option.map_map]
  cases (scenarioSystem order sd).replay _ labels <;> rfl

/-! ## Before one -/

/-- Non-blocking write of one byte, up to its return. -/
def writeByte (b : UInt8) : List Label :=
  [.invoke (.write ⟨[b], true⟩), .step 0 {}, .step 0 {}, .step 0 {}, .step 0 { reach := 1 },
    .step 0 {}, .step 0 {}]

/-- Any single byte can be left in the FIFO. -/
theorem leftBehind_byte (b : UInt8) : Device.LeftBehind ⟨[b], clearFaultLocked⟩ := by
  have hrun : (machine.replay Sys.fresh (writeByte b)).map (·.2) =
      some ⟨⟨[b], clearFaultLocked⟩, [⟨.write ⟨[b], true⟩ (.returned 1), false⟩]⟩ := rfl
  obtain ⟨tr, s, hr, rfl⟩ := Lts.exists_run_of_replay (M := machine) rfl hrun
  exact ⟨_, tr, hr⟩

/-- A read of the application before the first dispatch, up to its return. -/
def earlyRead : List RunLabel :=
  [.application (.read ⟨512, true⟩), .step 0 {}, .step 0 {}, .step 0 { reach := 512 }, .step 0 {},
    .step 0 {}]

/-- It returns the byte that was left. -/
theorem earlyRead_returns (order : Words.Order) (sd : ScenarioDefinition) (b : UInt8) :
    ∃ tr s, (scenarioSystem order sd).replay (runOn sd ⟨[b], clearFaultLocked⟩) earlyRead =
        some (tr, s) ∧ observations s = [some (.read ⟨1, [b]⟩)] :=
  ⟨_, _, rfl, rfl⟩

/-- **No scenario is isolated** from what earlier use left on the device: the
application can read it before the first event is dispatched. -/
theorem scenario_not_isolated (order : Words.Order) (sd : ScenarioDefinition) :
    ¬ Isolated order sd := by
  intro h
  obtain ⟨tr₁, s₁, h₁, ho₁⟩ := earlyRead_returns order sd 49
  obtain ⟨tr₂, s₂, h₂, ho₂⟩ := earlyRead_returns order sd 50
  -- one schedule, two devices, two different first reads
  have heq := h _ _ (leftBehind_byte 49) (leftBehind_byte 50) _ _ _ _ _ h₁ h₂
  rw [ho₁, ho₂] at heq
  exact absurd heq (by decide)

/-- A document whose only event is a reset at time zero. -/
def resetDocument : PyValue :=
  .dict (PyDict.ofList [("schema_version", .int 1),
    ("device", .dict (PyDict.ofList [("path", .str (py "/dev/vdevlab0"))])),
    ("application", .dict (PyDict.ofList [("command", .list [.str (py "./vtemp-monitor")])])),
    ("scenario", .dict (PyDict.ofList [("name", .str (py "reset")), ("timeout", .str (py "5s")),
      ("events", .list [.dict (PyDict.ofList
        [("at", .str (py "0ms")), ("action", .str (py "reset"))])])])),
    ("assertions", .list [.dict (PyDict.ofList
      [("event", .str (py "MONITOR_STARTED")), ("count", .int 1)])])])

/-- Even a scenario that begins with a reset at time zero: the byte `1` or
`2` left in the FIFO is what the application reads first. -/
theorem reset_scenario_not_isolated : ∃ sd,
    Scenario.parseScenario (fun _ => .ok resetDocument) defaultIntLimit [] (py "<memory>") = .ok sd ∧
    sd.events = [Event.dict ⟨.zero, .reset⟩] ∧
    ∃ tr₁ tr₂ s₁ s₂,
      (scenarioSystem .little sd).replay (runOn sd ⟨[49], clearFaultLocked⟩) earlyRead =
        some (tr₁, s₁) ∧
      (scenarioSystem .little sd).replay (runOn sd ⟨[50], clearFaultLocked⟩) earlyRead =
        some (tr₂, s₂) ∧
      observations s₁ = [some (.read ⟨1, [49]⟩)] ∧ observations s₂ = [some (.read ⟨1, [50]⟩)] ∧
      ¬ Isolated .little sd := by
  have haccept : Scenario.parseScenario (fun _ => .ok resetDocument) defaultIntLimit []
      (py "<memory>") = .ok _ := rfl
  refine ⟨_, haccept, rfl, ?_⟩
  obtain ⟨tr₁, s₁, h₁, ho₁⟩ := earlyRead_returns .little _ 49
  obtain ⟨tr₂, s₂, h₂, ho₂⟩ := earlyRead_returns .little _ 50
  refine ⟨tr₁, tr₂, s₁, s₂, h₁, h₂, ho₁, ho₂, fun h => ?_⟩
  have heq := h _ _ (leftBehind_byte 49) (leftBehind_byte 50) _ _ _ _ _ h₁ h₂
  rw [ho₁, ho₂] at heq
  exact absurd heq (by decide)

end VDevLab.Runner
