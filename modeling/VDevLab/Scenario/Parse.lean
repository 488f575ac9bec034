import VDevLab.Lib.Check
import VDevLab.Lib.PyValue

/-!
# `scenario.py`: the scenario parser

The checkers of `src/vdevlab/scenario.py` with their messages and field
paths, over the value that `yaml.safe_load` returned. Every exception the
module can raise is an error of `Parse`: a `ScenarioError` with its path and
message, the plain `ValueError` of `int` on an over-long numeral, and the
`KeyError` of a subscript.
-/

namespace VDevLab

open Check PyStr

/-- What can leave the parser instead of a definition. -/
inductive ParseFailure
  | scenarioError (path message : PyStr)
  | valueError
  | keyError (key : PyStr)
  deriving DecidableEq

abbrev Parse := Except ParseFailure

structure ScenarioDefinition where
  source : PyStr
  schemaVersion : Int
  devicePath : PyStr
  command : List PyStr
  startupTimeoutMs : Nat
  name : PyStr
  timeoutMs : Nat
  events : List PyDict
  assertions : List PyDict

namespace Scenario

abbrev schemaVersion : Int := 1
abbrev maxDurationMs : Nat := 86400000
abbrev maxEioRepeat : Nat := 1000000
abbrev maxPartialReadBytes : Nat := 4096

/-- A set of field names. -/
def names (l : List String) : List PyStr := l.map py

/-- `_ROOT_FIELDS`. -/
def rootFields : List String :=
  ["schema_version", "device", "application", "scenario", "assertions"]

/-- `_LOG_EVENTS`. -/
def logEvents : List PyStr :=
  [py "MONITOR_STARTED", py "TEMPERATURE", py "THERMAL_WARNING", py "READ_RETRY",
    py "RECOVERY_SUCCESS", py "DEVICE_DISCONNECTED", py "READ_FAILED", py "INVALID_INPUT",
    py "INPUT_TOO_LONG"]

/-! ## Checkers -/

/-- `_mapping`. -/
def mapping (value : PyValue) (path : PyStr) : Parse PyDict :=
  match value with
  | .dict entries => do
      refuse (entries.any fun kv => !kv.1.isStr)
        (.scenarioError path (py "field names must be strings"))
      return entries
  | _ => .error (.scenarioError path (py "must be a mapping"))

/-- `_required`. -/
def required (m : PyDict) (fields : List PyStr) (path : PyStr) : Parse Unit :=
  let missing := sorted (fields.filter fun f => f ∉ m.strKeys)
  refuse (missing ≠ [])
    (.scenarioError path (py "missing required field(s): " ++ join (py ", ") missing))

/-- `_allowed`. -/
def allowed (m : PyDict) (fields : List PyStr) (path : PyStr) : Parse Unit :=
  let unexpected := sorted (m.strKeys.filter fun f => f ∉ fields)
  refuse (unexpected ≠ [])
    (.scenarioError path (py "unexpected field(s): " ++ join (py ", ") unexpected))

/-- The subscript `m[key]`. -/
def item (m : PyDict) (key : PyStr) : Parse PyValue :=
  match m.get? key with
  | some v => .ok v
  | none => .error (.keyError key)

/-- `_non_empty_string`. -/
def nonEmptyString (value : PyValue) (path : PyStr) : Parse PyStr :=
  match value with
  | .str s =>
      if s = [] then .error (.scenarioError path (py "must be a non-empty string")) else .ok s
  | _ => .error (.scenarioError path (py "must be a non-empty string"))

/-- `_bounded_integer`; a Python `bool` is not a `.int` here, as the source's
first test demands. -/
def boundedInteger (value : PyValue) (path : PyStr) (minimum maximum : Nat) : Parse Int :=
  match value with
  | .int n =>
      if n < minimum ∨ maximum < n then
        .error (.scenarioError path
          (py "must be between " ++ decimal minimum ++ py " and " ++ decimal maximum))
      else .ok n
  | _ => .error (.scenarioError path (py "must be an integer"))

/-- `_DURATION_PATTERN.fullmatch`: the numeral and the unit. The unit has no
digit, so the numeral is the longest run of digits. -/
def matchDuration (s : PyStr) : Option (PyStr × PyStr) :=
  let magnitude := s.takeWhile isDigit
  let unit := s.dropWhile isDigit
  if IsNumeral magnitude ∧ (unit = py "ms" ∨ unit = py "s") then some (magnitude, unit) else none

/-- `parse_duration`. -/
def parseDuration (lim : IntLimit) (value : PyValue) (path : PyStr) : Parse Nat :=
  match value with
  | .str s =>
      match matchDuration s with
      | none =>
          .error (.scenarioError path (py "must be an integer duration such as 250ms or 2s"))
      | some (digits, unit) =>
          match toInt lim digits with
          | none => .error .valueError
          | some magnitude =>
              let milliseconds := if unit = py "ms" then magnitude else magnitude * 1000
              if maxDurationMs < milliseconds then
                .error (.scenarioError path (py "must not exceed 24h"))
              else .ok milliseconds
  | _ => .error (.scenarioError path (py "must use an ms or s suffix"))

/-! ## Device and application -/

/-- `_parse_device`. -/
def parseDevice (value : PyValue) : Parse PyStr := do
  let device ← mapping value (py "device")
  required device (names ["path"]) (py "device")
  allowed device (names ["path"]) (py "device")
  let path ← nonEmptyString (← item device (py "path")) (py "device.path")
  refuse (¬ (py "/dev/").isPrefixOf path)
    (.scenarioError (py "device.path") (py "must be an absolute /dev path"))
  return path

/-- A value that has to be a non-empty list. -/
def nonEmptyList (value : PyValue) (path : PyStr) : Parse (List PyValue) :=
  match value with
  | .list (v :: vs) => .ok (v :: vs)
  | _ => .error (.scenarioError path (py "must be a non-empty list"))

/-- `f"{path}[{index}]"`. -/
def indexed (path : PyStr) (index : Nat) : PyStr := path ++ py "[" ++ decimal index ++ py "]"

/-- `_parse_application`. -/
def parseApplication (lim : IntLimit) (value : PyValue) : Parse (List PyStr × Nat) := do
  let application ← mapping value (py "application")
  required application (names ["command"]) (py "application")
  allowed application (names ["command", "startup_timeout"]) (py "application")
  let command ← nonEmptyList (← item application (py "command")) (py "application.command")
  let parsedCommand ← eachFrom
    (fun index argument => nonEmptyString argument (indexed (py "application.command") index))
    0 command
  let startupTimeoutMs ← parseDuration lim
    ((application.get? (py "startup_timeout")).getD (.str (py "2s")))
    (py "application.startup_timeout")
  return (parsedCommand, startupTimeoutMs)

/-! ## Events -/

/-- `_required` and `_allowed` with the same set of fields. -/
def exactFields (m : PyDict) (fields : List PyStr) (path : PyStr) : Parse Unit := do
  required m fields path
  allowed m fields path

/-- `_parse_fault_event`. -/
def parseFaultEvent (lim : IntLimit) (event : PyDict) (path : PyStr) : Parse PyDict := do
  required event (names ["type"]) path
  let faultType ← nonEmptyString (← item event (py "type")) (path ++ py ".type")
  let normalized := PyDict.ofList [("action", .str (py "fault")), ("type", .str faultType)]
  if faultType = py "eio" then
    exactFields event (names ["at", "action", "type", "repeat"]) path
    let repeats ← boundedInteger (← item event (py "repeat")) (path ++ py ".repeat")
      1 maxEioRepeat
    return normalized ++ PyDict.ofList [("repeat", .int repeats)]
  else if faultType = py "delay" then
    exactFields event (names ["at", "action", "type", "duration"]) path
    let durationMs ← parseDuration lim (← item event (py "duration")) (path ++ py ".duration")
    return normalized ++ PyDict.ofList [("duration_ms", .int durationMs)]
  else if faultType = py "partial-read" then
    exactFields event (names ["at", "action", "type", "bytes"]) path
    let bytes ← boundedInteger (← item event (py "bytes")) (path ++ py ".bytes")
      1 maxPartialReadBytes
    return normalized ++ PyDict.ofList [("bytes", .int bytes)]
  else if faultType = py "disconnect" then
    exactFields event (names ["at", "action", "type"]) path
    return normalized
  else
    .error (.scenarioError (path ++ py ".type")
      (py "must be one of: delay, disconnect, eio, partial-read"))

/-- The forms of `_parse_event` by action, before `at_ms` is added. -/
def parseAction (lim : IntLimit) (event : PyDict) (action path : PyStr) : Parse PyDict :=
  if action = py "write" then do
    exactFields event (names ["at", "action", "data"]) path
    let data ← nonEmptyString (← item event (py "data")) (path ++ py ".data")
    return PyDict.ofList [("action", .str action), ("data", .str data)]
  else if action = py "fault" then
    parseFaultEvent lim event path
  else if action = py "clear" ∨ action = py "reset" then do
    allowed event (names ["at", "action"]) path
    return PyDict.ofList [("action", .str action)]
  else
    .error (.scenarioError (path ++ py ".action") (py "must be one of: clear, fault, reset, write"))

/-- `_parse_event`: the time and the normalized event. -/
def parseEvent (lim : IntLimit) (timeoutMs : Nat) (index : Nat) (value : PyValue) :
    Parse (Nat × PyDict) := do
  let path := indexed (py "scenario.events") index
  let event ← mapping value path
  required event (names ["at", "action"]) path
  let atMs ← parseDuration lim (← item event (py "at")) (path ++ py ".at")
  refuse (timeoutMs < atMs)
    (.scenarioError (path ++ py ".at") (py "must not exceed scenario.timeout"))
  let action ← nonEmptyString (← item event (py "action")) (path ++ py ".action")
  let normalized ← parseAction lim event action path
  return (atMs, normalized ++ PyDict.ofList [("at_ms", .int atMs)])

/-- The loop of `_parse_scenario` that compares neighbours; `index` is the
position of the second of them. -/
def checkOrder : Nat → List Nat → Parse Unit
  | index, a :: b :: rest => do
      refuse (b < a) (.scenarioError (indexed (py "scenario.events") index ++ py ".at")
        (py "must not be earlier than the previous event"))
      checkOrder (index + 1) (b :: rest)
  | _, _ => .ok ()

/-- `_parse_scenario`. -/
def parseScenarioBody (lim : IntLimit) (value : PyValue) : Parse (PyStr × Nat × List PyDict) := do
  let scenario ← mapping value (py "scenario")
  exactFields scenario (names ["name", "timeout", "events"]) (py "scenario")
  let name ← nonEmptyString (← item scenario (py "name")) (py "scenario.name")
  let timeoutMs ← parseDuration lim (← item scenario (py "timeout")) (py "scenario.timeout")
  let events ← nonEmptyList (← item scenario (py "events")) (py "scenario.events")
  let parsed ← eachFrom (parseEvent lim timeoutMs) 0 events
  checkOrder 1 (parsed.map (·.1))
  return (name, timeoutMs, parsed.map (·.2))

/-! ## Assertions -/

/-- A duration field of an assertion, bounded by the scenario timeout. -/
def boundedDuration (lim : IntLimit) (value : PyValue) (path : PyStr) (timeoutMs : Nat) :
    Parse Nat := do
  let ms ← parseDuration lim value path
  refuse (timeoutMs < ms) (.scenarioError path (py "must not exceed scenario.timeout"))
  return ms

/-- `if key in m: ...`, for the entries that the body adds. -/
def optionally (m : PyDict) (key : String) (body : PyValue → Parse PyDict) : Parse PyDict :=
  match m.get? (py key) with
  | none => pure []
  | some v => body v

/-- The `within` branch of `_parse_event_assertion`. -/
def parseWithin (lim : IntLimit) (path : PyStr) (timeoutMs : Nat) (value : PyValue) :
    Parse PyDict := do
  let withinMs ← boundedDuration lim value (path ++ py ".within") timeoutMs
  return PyDict.ofList [("within_ms", .int withinMs)]

/-- The `max_latency` branch of `_parse_event_assertion`. -/
def parseMaxLatency (lim : IntLimit) (path : PyStr) (timeoutMs : Nat) (event : PyStr)
    (value : PyValue) : Parse PyDict := do
  refuse (event ≠ py "RECOVERY_SUCCESS")
    (.scenarioError (path ++ py ".max_latency") (py "is only valid for RECOVERY_SUCCESS"))
  let maximumLatencyMs ← boundedDuration lim value (path ++ py ".max_latency") timeoutMs
  return PyDict.ofList [("max_latency_ms", .int maximumLatencyMs)]

/-- `_parse_event_assertion`. -/
def parseEventAssertion (lim : IntLimit) (assertion : PyDict) (path : PyStr) (timeoutMs : Nat) :
    Parse PyDict := do
  required assertion (names ["event", "count"]) path
  allowed assertion (names ["type", "event", "count", "within", "max_latency"]) path
  let event ← nonEmptyString (← item assertion (py "event")) (path ++ py ".event")
  refuse (event ∉ logEvents)
    (.scenarioError (path ++ py ".event") (py "is not a supported log event"))
  let count ← boundedInteger (← item assertion (py "count")) (path ++ py ".count") 1 1000000
  let normalized := PyDict.ofList
    [("type", .str (py "event_count")), ("event", .str event), ("count", .int count)]
  let within ← optionally assertion "within" (parseWithin lim path timeoutMs)
  let maxLatency ← optionally assertion "max_latency" (parseMaxLatency lim path timeoutMs event)
  return normalized ++ within ++ maxLatency

/-- An optional non-empty string field, kept under its own name. -/
def optionalText (assertion : PyDict) (key : String) (path : PyStr) : Parse PyDict :=
  optionally assertion key fun v => do
    let text ← nonEmptyString v (path ++ py "." ++ py key)
    return PyDict.ofList [(key, .str text)]

/-- `_parse_stdout_assertion`. -/
def parseStdoutAssertion (assertion : PyDict) (path : PyStr) : Parse PyDict := do
  allowed assertion (names ["type", "contains", "not_contains"]) path
  refuse (py "contains" ∉ assertion.strKeys ∧ py "not_contains" ∉ assertion.strKeys)
    (.scenarioError path (py "stdout assertion requires contains or not_contains"))
  let contains ← optionalText assertion "contains" path
  let notContains ← optionalText assertion "not_contains" path
  return PyDict.ofList [("type", .str (py "stdout"))] ++ contains ++ notContains

/-- The `disconnect` form of `_parse_assertions`. -/
def parseDisconnectAssertion (assertion : PyDict) (path : PyStr) : Parse PyDict := do
  exactFields assertion (names ["type", "expected"]) path
  match ← item assertion (py "expected") with
  | .bool expected =>
      pure (PyDict.ofList [("type", .str (py "disconnect")), ("expected", .bool expected)])
  | _ => .error (.scenarioError (path ++ py ".expected") (py "must be a boolean"))

/-- The `kernel_warnings` form of `_parse_assertions`. -/
def parseKernelWarningsAssertion (assertion : PyDict) (path : PyStr) : Parse PyDict := do
  exactFields assertion (names ["type", "count"]) path
  let count ← boundedInteger (← item assertion (py "count")) (path ++ py ".count") 0 1000000
  return PyDict.ofList [("type", .str (py "kernel_warnings")), ("count", .int count)]

/-- The body of the loop of `_parse_assertions`. -/
def parseAssertion (lim : IntLimit) (timeoutMs : Nat) (index : Nat) (value : PyValue) :
    Parse PyDict := do
  let path := indexed (py "assertions") index
  let assertion ← mapping value path
  let assertionType := (assertion.get? (py "type")).getD (.str (py "event_count"))
  if assertionType.eqStr (py "event_count") then
    parseEventAssertion lim assertion path timeoutMs
  else if assertionType.eqStr (py "stdout") then
    parseStdoutAssertion assertion path
  else if assertionType.eqStr (py "disconnect") then
    parseDisconnectAssertion assertion path
  else if assertionType.eqStr (py "kernel_warnings") then
    parseKernelWarningsAssertion assertion path
  else
    .error (.scenarioError (path ++ py ".type")
      (py "must be one of: disconnect, event_count, kernel_warnings, stdout"))

/-- `_parse_assertions`. -/
def parseAssertions (lim : IntLimit) (value : PyValue) (timeoutMs : Nat) :
    Parse (List PyDict) := do
  let items ← nonEmptyList value (py "assertions")
  eachFrom (parseAssertion lim timeoutMs) 0 items

/-! ## `parse_scenario` -/

/-- The test of `schema_version`. -/
def parseSchemaVersion (value : PyValue) : Parse Int :=
  match value with
  | .int n =>
      if n ≠ schemaVersion then
        .error (.scenarioError (py "schema_version") (py "must equal 1"))
      else .ok n
  | _ => .error (.scenarioError (py "schema_version") (py "must be an integer"))

/-- `parse_scenario` behind `yaml.safe_load`. -/
def parseDocument (lim : IntLimit) (document : PyValue) (source : PyStr) :
    Parse ScenarioDefinition := do
  let root ← mapping document (py "$")
  exactFields root (names rootFields) (py "$")
  let version ← parseSchemaVersion (← item root (py "schema_version"))
  let devicePath ← parseDevice (← item root (py "device"))
  let (command, startupTimeoutMs) ← parseApplication lim (← item root (py "application"))
  let (name, timeoutMs, events) ← parseScenarioBody lim (← item root (py "scenario"))
  let assertions ← parseAssertions lim (← item root (py "assertions")) timeoutMs
  return {
    source, schemaVersion := version, devicePath, command, startupTimeoutMs, name, timeoutMs,
    events, assertions }

/-- What `yaml.safe_load` raises: `yaml.YAMLError`, or a plain `ValueError`
of a scalar it cannot construct. -/
inductive LoadError
  | yamlError
  | valueError
  deriving DecidableEq

/-- `parse_scenario`, over the YAML loader. -/
def parseScenario (safeLoad : PyStr → Except LoadError PyValue) (lim : IntLimit)
    (text source : PyStr) : Parse ScenarioDefinition :=
  match safeLoad text with
  | .error .yamlError => .error (.scenarioError (py "$") (py "invalid YAML"))
  | .error .valueError => .error .valueError
  | .ok document => parseDocument lim document source

end Scenario

end VDevLab
