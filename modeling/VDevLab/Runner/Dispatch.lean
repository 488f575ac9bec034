import VDevLab.Scenario.Schema

/-!
# From events to backend calls

`ScenarioScheduler._dispatch` and `_fault_configuration` of
`src/vdevlab/runner.py`: what a normalized event makes the scheduler call on
the device backend, and the errors it raises instead.
-/

namespace VDevLab.Runner

open PyStr

/-- Exceptions of the dispatch and of the backend's own checks. -/
inductive DispatchFailure
  | writeDataNotString
  | unsupportedAction (action : Option PyValue)
  | unsupportedFaultType (faultType : Option PyValue)
  | keyError (key : PyStr)
  | typeError
  | encodeError
  | structError
  deriving Inhabited

structure FaultConfiguration where
  faultType : PyStr
  repeats : Int := 0
  delayMs : Int := 0
  partialReadBytes : Int := 0
  deriving DecidableEq

/-- The calls on a `DeviceBackend`. -/
inductive BackendCall
  | reset
  | clearFault
  | write (data : List UInt8)
  | setFault (configuration : FaultConfiguration)
  deriving DecidableEq

/-- `int(event[key])`, on the integers that a normalized event holds there. -/
def intItem (event : PyDict) (key : PyStr) : Except DispatchFailure Int :=
  match event.get? key with
  | none => .error (.keyError key)
  | some (.int n) => .ok n
  | some (.bool b) => .ok (if b then 1 else 0)
  | some _ => .error .typeError

/-- `_fault_configuration`. -/
def faultConfiguration (event : PyDict) : Except DispatchFailure FaultConfiguration :=
  let faultType := event.get? (py "type")
  if (faultType.getD .none).eqStr (py "eio") then do
    return { faultType := py "eio", repeats := ← intItem event (py "repeat") }
  else if (faultType.getD .none).eqStr (py "delay") then do
    return { faultType := py "delay", delayMs := ← intItem event (py "duration_ms") }
  else if (faultType.getD .none).eqStr (py "partial-read") then do
    return { faultType := py "partial-read", partialReadBytes := ← intItem event (py "bytes") }
  else if (faultType.getD .none).eqStr (py "disconnect") then
    .ok { faultType := py "disconnect" }
  else .error (.unsupportedFaultType faultType)

/-- The UTF-8 bytes of one code point; `none` for a surrogate. -/
def encodeCodePoint (c : CodePoint) : Option (List UInt8) :=
  let n := c.val
  if n < 0x80 then some [UInt8.ofNat n]
  else if n < 0x800 then some [UInt8.ofNat (0xC0 + n / 64), UInt8.ofNat (0x80 + n % 64)]
  else if 0xD800 ≤ n ∧ n ≤ 0xDFFF then none
  else if n < 0x10000 then
    some [UInt8.ofNat (0xE0 + n / 4096), UInt8.ofNat (0x80 + n / 64 % 64),
      UInt8.ofNat (0x80 + n % 64)]
  else
    some [UInt8.ofNat (0xF0 + n / 262144), UInt8.ofNat (0x80 + n / 4096 % 64),
      UInt8.ofNat (0x80 + n / 64 % 64), UInt8.ofNat (0x80 + n % 64)]

/-- `s.encode("utf-8")`. -/
def encodeUtf8 : PyStr → Option (List UInt8)
  | [] => some []
  | c :: s => do
      let bytes ← encodeCodePoint c
      let rest ← encodeUtf8 s
      return bytes ++ rest

/-- `_dispatch`: the backend call of an event. -/
def dispatch (event : PyDict) : Except DispatchFailure BackendCall :=
  let action := event.get? (py "action")
  if (action.getD .none).eqStr (py "reset") then .ok .reset
  else if (action.getD .none).eqStr (py "clear") then .ok .clearFault
  else if (action.getD .none).eqStr (py "write") then
    match event.get? (py "data") with
    | some (.str data) =>
        match encodeUtf8 data with
        | some bytes => .ok (.write bytes)
        | none => .error .encodeError
    | _ => .error .writeDataNotString
  else if (action.getD .none).eqStr (py "fault") then do
    return .setFault (← faultConfiguration event)
  else .error (.unsupportedAction action)

end VDevLab.Runner

namespace VDevLab

open PyStr Runner

/-! ## The calls of a scenario's events -/

/-- The configuration of an abstract fault. -/
def Fault.configuration : Fault → FaultConfiguration
  | .eio repeats => { faultType := py "eio", repeats := repeats.1 }
  | .delay duration => { faultType := py "delay", delayMs := duration.1 }
  | .partialRead bytes => { faultType := py "partial-read", partialReadBytes := bytes.1 }
  | .disconnect => { faultType := py "disconnect" }

theorem faultConfiguration_dict (atMs : Duration) (f : Fault) :
    faultConfiguration (Event.dict ⟨atMs, .fault f⟩) = .ok f.configuration := by
  cases f <;> rfl

end VDevLab
