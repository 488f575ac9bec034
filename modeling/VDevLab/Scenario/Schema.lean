import VDevLab.Scenario.Parse

/-!
# Schema version 1

What a scenario is, apart from any document: a value of `Scenario` carries
every range, bound and order the format demands, so an invalid one cannot be
built. `Scenario.Describes` says which documents describe it, field by field
and without reference to the parser, and `Scenario.definition` is the normal
form that the rest of the program works with.
-/

namespace VDevLab

open PyStr

/-! ## The abstract scenario -/

/-- A number within the bounds of its field. -/
abbrev Range (lo hi : Nat) := { n : Nat // lo ≤ n ∧ n ≤ hi }

/-- A duration of at most 24 hours, in milliseconds. -/
abbrev Duration := { n : Nat // n ≤ Scenario.maxDurationMs }

def Duration.zero : Duration := ⟨0, Nat.zero_le _⟩

/-- A non-empty string. -/
abbrev Text := { s : PyStr // s ≠ [] }

inductive Fault
  | eio (repeats : Range 1 Scenario.maxEioRepeat)
  | delay (duration : Duration)
  | partialRead (bytes : Range 1 Scenario.maxPartialReadBytes)
  | disconnect

inductive Action
  | write (data : Text)
  | fault (f : Fault)
  | clear
  | reset

structure Event where
  atMs : Duration
  action : Action

inductive Assertion
  | eventCount (event : { s : PyStr // s ∈ Scenario.logEvents }) (count : Range 1 1000000)
      (within maxLatency : Option Duration)
      (recovery : maxLatency.isSome = true → event.1 = py "RECOVERY_SUCCESS")
  | stdout (contains notContains : Option Text)
      (given : contains.isSome = true ∨ notContains.isSome = true)
  | disconnect (expected : Bool)
  | kernelWarnings (count : Range 0 1000000)

/-- The durations of an assertion are within the scenario's timeout. -/
def Assertion.Within (timeout : Duration) : Assertion → Prop
  | .eventCount _ _ within maxLatency _ =>
      (∀ ms ∈ within, ms.1 ≤ timeout.1) ∧ ∀ ms ∈ maxLatency, ms.1 ≤ timeout.1
  | _ => True

/-- A scenario of schema version 1. -/
structure Scenario where
  devicePath : { s : PyStr // py "/dev/" <+: s }
  command : List Text
  command_ne : command ≠ []
  startupTimeout : Duration
  name : Text
  timeout : Duration
  events : List Event
  events_ne : events ≠ []
  events_ordered : events.Pairwise fun e e' => e.atMs.1 ≤ e'.atMs.1
  events_within : ∀ e ∈ events, e.atMs.1 ≤ timeout.1
  assertions : List Assertion
  assertions_ne : assertions ≠ []
  assertions_within : ∀ a ∈ assertions, a.Within timeout

/-! ## The normal form -/

/-- The type and parameter entries of a normalized fault event. -/
def Fault.entries : Fault → PyDict
  | .eio repeats => PyDict.ofList [("type", .str (py "eio")), ("repeat", .int repeats.1)]
  | .delay duration => PyDict.ofList [("type", .str (py "delay")), ("duration_ms", .int duration.1)]
  | .partialRead bytes => PyDict.ofList [("type", .str (py "partial-read")), ("bytes", .int bytes.1)]
  | .disconnect => PyDict.ofList [("type", .str (py "disconnect"))]

def Action.entries : Action → PyDict
  | .write data => PyDict.ofList [("action", .str (py "write")), ("data", .str data.1)]
  | .fault f => PyDict.ofList [("action", .str (py "fault"))] ++ f.entries
  | .clear => PyDict.ofList [("action", .str (py "clear"))]
  | .reset => PyDict.ofList [("action", .str (py "reset"))]

/-- The normalized event. -/
def Event.dict (e : Event) : PyDict :=
  e.action.entries ++ PyDict.ofList [("at_ms", .int e.atMs.1)]

/-- An entry that is there only when the field is. -/
def optionalEntry {α : Type} (key : String) (f : α → PyValue) : Option α → PyDict
  | none => []
  | some a => PyDict.ofList [(key, f a)]

/-- The normalized assertion. -/
def Assertion.dict : Assertion → PyDict
  | .eventCount event count within maxLatency _ =>
      PyDict.ofList [("type", .str (py "event_count")), ("event", .str event.1),
          ("count", .int count.1)]
        ++ optionalEntry "within_ms" (fun ms : Duration => .int ms.1) within
        ++ optionalEntry "max_latency_ms" (fun ms : Duration => .int ms.1) maxLatency
  | .stdout contains notContains _ =>
      PyDict.ofList [("type", .str (py "stdout"))]
        ++ optionalEntry "contains" (fun t : Text => .str t.1) contains
        ++ optionalEntry "not_contains" (fun t : Text => .str t.1) notContains
  | .disconnect expected =>
      PyDict.ofList [("type", .str (py "disconnect")), ("expected", .bool expected)]
  | .kernelWarnings count =>
      PyDict.ofList [("type", .str (py "kernel_warnings")), ("count", .int count.1)]

namespace Scenario

def definition (sc : Scenario) (source : PyStr) : ScenarioDefinition where
  source := source
  schemaVersion := 1
  devicePath := sc.devicePath.1
  command := sc.command.map (·.1)
  startupTimeoutMs := sc.startupTimeout.1
  name := sc.name.1
  timeoutMs := sc.timeout.1
  events := sc.events.map (·.dict)
  assertions := sc.assertions.map (·.dict)

/-! ## Documents -/

/-- A mapping with string keys only: all required fields, and no field
besides the required and the optional ones. -/
def Fields (d : PyDict) (required optional : List String) : Prop :=
  (∀ kv ∈ d, ∃ k ∈ required ++ optional, kv.1 = .str (py k)) ∧
  ∀ k ∈ required, ∃ v, d.get? (py k) = some v

/-- An ASCII decimal numeral without superfluous leading zeros, followed by
`ms` or `s`, for at most 24 hours. -/
def IsDuration (v : PyValue) (ms : Nat) : Prop :=
  ms ≤ maxDurationMs ∧ ∃ n, (v = .str (decimal n ++ py "ms") ∧ ms = n) ∨
    (v = .str (decimal n ++ py "s") ∧ ms = n * 1000)

/-- An optional field: absent, or present with a value that fits. -/
def Optionally {α : Type} (d : PyDict) (key : String) (P : PyValue → α → Prop) : Option α → Prop
  | none => d.get? (py key) = none
  | some a => ∃ v, d.get? (py key) = some v ∧ P v a

inductive DescribesFault (d : PyDict) : Fault → Prop
  | eio {repeats} : Fields d ["at", "action", "type", "repeat"] [] →
      d.get? (py "type") = some (.str (py "eio")) →
      d.get? (py "repeat") = some (.int repeats.1) → DescribesFault d (.eio repeats)
  | delay {duration v} : Fields d ["at", "action", "type", "duration"] [] →
      d.get? (py "type") = some (.str (py "delay")) →
      d.get? (py "duration") = some v → IsDuration v duration.1 →
      DescribesFault d (.delay duration)
  | partialRead {bytes} : Fields d ["at", "action", "type", "bytes"] [] →
      d.get? (py "type") = some (.str (py "partial-read")) →
      d.get? (py "bytes") = some (.int bytes.1) → DescribesFault d (.partialRead bytes)
  | disconnect : Fields d ["at", "action", "type"] [] →
      d.get? (py "type") = some (.str (py "disconnect")) → DescribesFault d .disconnect

inductive DescribesAction (d : PyDict) : Action → Prop
  | write {data} : Fields d ["at", "action", "data"] [] →
      d.get? (py "action") = some (.str (py "write")) →
      d.get? (py "data") = some (.str data.1) → DescribesAction d (.write data)
  | fault {f} : d.get? (py "action") = some (.str (py "fault")) →
      DescribesFault d f → DescribesAction d (.fault f)
  | clear : Fields d ["at", "action"] [] →
      d.get? (py "action") = some (.str (py "clear")) → DescribesAction d .clear
  | reset : Fields d ["at", "action"] [] →
      d.get? (py "action") = some (.str (py "reset")) → DescribesAction d .reset

def DescribesEvent (v : PyValue) (e : Event) : Prop :=
  ∃ d : PyDict, v = .dict d ∧ DescribesAction d e.action ∧
    ∃ w, d.get? (py "at") = some w ∧ IsDuration w e.atMs.1

inductive DescribesAssertion : PyValue → Assertion → Prop
  | eventCount {d : PyDict} {event count within maxLatency recovery} :
      Fields d ["event", "count"] ["type", "within", "max_latency"] →
      (d.get? (py "type") = none ∨ d.get? (py "type") = some (.str (py "event_count"))) →
      d.get? (py "event") = some (.str event.1) →
      d.get? (py "count") = some (.int count.1) →
      Optionally d "within" (fun v ms => IsDuration v ms.1) within →
      Optionally d "max_latency" (fun v ms => IsDuration v ms.1) maxLatency →
      DescribesAssertion (.dict d) (.eventCount event count within maxLatency recovery)
  | stdout {d : PyDict} {contains notContains given} :
      Fields d ["type"] ["contains", "not_contains"] →
      d.get? (py "type") = some (.str (py "stdout")) →
      Optionally d "contains" (fun v t => v = .str t.1) contains →
      Optionally d "not_contains" (fun v t => v = .str t.1) notContains →
      DescribesAssertion (.dict d) (.stdout contains notContains given)
  | disconnect {d : PyDict} {expected} : Fields d ["type", "expected"] [] →
      d.get? (py "type") = some (.str (py "disconnect")) →
      d.get? (py "expected") = some (.bool expected) →
      DescribesAssertion (.dict d) (.disconnect expected)
  | kernelWarnings {d : PyDict} {count} : Fields d ["type", "count"] [] →
      d.get? (py "type") = some (.str (py "kernel_warnings")) →
      d.get? (py "count") = some (.int count.1) →
      DescribesAssertion (.dict d) (.kernelWarnings count)

/-- `device: {path}`. -/
def DescribesDevice (v : PyValue) (path : PyStr) : Prop :=
  ∃ d : PyDict, v = .dict d ∧ Fields d ["path"] [] ∧ d.get? (py "path") = some (.str path)

/-- `application: {command, startup_timeout?}`; two seconds when omitted. -/
def DescribesApplication (v : PyValue) (command : List Text) (startup : Duration) : Prop :=
  ∃ d : PyDict, v = .dict d ∧ Fields d ["command"] ["startup_timeout"] ∧
    d.get? (py "command") = some (.list (command.map fun t => .str t.1)) ∧
    ((d.get? (py "startup_timeout") = none ∧ startup.1 = 2000) ∨
      ∃ w, d.get? (py "startup_timeout") = some w ∧ IsDuration w startup.1)

/-- `scenario: {name, timeout, events}`. -/
def DescribesBody (v : PyValue) (name : Text) (timeout : Duration) (events : List Event) : Prop :=
  ∃ d : PyDict, v = .dict d ∧ Fields d ["name", "timeout", "events"] [] ∧
    d.get? (py "name") = some (.str name.1) ∧
    (∃ w, d.get? (py "timeout") = some w ∧ IsDuration w timeout.1) ∧
    ∃ items, d.get? (py "events") = some (.list items) ∧
      List.Forall₂ DescribesEvent items events

/-- The document describes the scenario. -/
def Describes (doc : PyValue) (sc : Scenario) : Prop :=
  ∃ d : PyDict, doc = .dict d ∧
    Fields d ["schema_version", "device", "application", "scenario", "assertions"] [] ∧
    d.get? (py "schema_version") = some (.int 1) ∧
    (∃ v, d.get? (py "device") = some v ∧ DescribesDevice v sc.devicePath.1) ∧
    (∃ v, d.get? (py "application") = some v ∧
      DescribesApplication v sc.command sc.startupTimeout) ∧
    (∃ v, d.get? (py "scenario") = some v ∧ DescribesBody v sc.name sc.timeout sc.events) ∧
    ∃ items, d.get? (py "assertions") = some (.list items) ∧
      List.Forall₂ DescribesAssertion items sc.assertions

end Scenario

end VDevLab
