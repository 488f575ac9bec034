import VDevLab.Kernel.Machine
import VDevLab.Lib.Binary64

/-!
# `vtemp_monitor.c`: the reference client

The poll loop of `examples/vtemp_monitor.c` as a step function: the label of
a step is what `poll` or `read` returned, or a signal. The state keeps the
variables of `main`, the input buffer and the lines printed so far; the time
stamps are filled in when the log is printed, one reading of the clock for
each line.

`strtod` is a parameter: what it returns for a C string, how many bytes it
took and whether it set `errno`.
-/

namespace VDevLab.Monitor

open PyStr

/-! ## The log -/

/-- `struct timespec` from `CLOCK_MONOTONIC`, which the kernel keeps as a
signed 64-bit number of nanoseconds. -/
structure Timespec where
  sec : Nat
  nsec : Nat
  sec_le : sec ≤ 9223372036
  nsec_lt : nsec < 1000000000

/-- `monotonic_milliseconds`; within the bounds nothing overflows. -/
def monotonicMilliseconds (now : Timespec) : Nat := now.sec * 1000 + now.nsec / 1000000

/-- `errno` after a failed call: a positive `int`. -/
abbrev Errno := Fin (2 ^ 31)

instance instNeZeroErrnos : NeZero (2 ^ 31) := ⟨by decide⟩

abbrev EINTR : Errno := 4
abbrev EIO : Errno := 5
abbrev EAGAIN : Errno := 11
abbrev ENODEV : Errno := 19

/-- `MAX_EIO_RETRIES`. -/
abbrev maxEioRetries : Nat := 3

/-- A finite double: the argument of `log_temperature`. -/
abbrev Celsius := { x : Binary64 // x.isFinite = true }

/-- The events printed without further fields. -/
inductive SimpleEvent
  | monitorStarted
  | invalidInput
  | inputTooLong
  | deviceEof
  deriving DecidableEq

/-- The events printed with an errno. -/
inductive ErrnoEvent
  | readFailed
  | deviceDisconnected
  deriving DecidableEq

/-- A call of one of the `log_` functions. -/
inductive LogLine
  | simple (event : SimpleEvent)
  | errno (event : ErrnoEvent) (error : Errno)
  | retry (n : Nat)
  | recovery (retries : Nat)
  | temperature (value : Celsius)
  deriving DecidableEq

def SimpleEvent.name : SimpleEvent → PyStr
  | .monitorStarted => py "MONITOR_STARTED"
  | .invalidInput => py "INVALID_INPUT"
  | .inputTooLong => py "INPUT_TOO_LONG"
  | .deviceEof => py "DEVICE_EOF"

def ErrnoEvent.name : ErrnoEvent → PyStr
  | .readFailed => py "READ_FAILED"
  | .deviceDisconnected => py "DEVICE_DISCONNECTED"

/-- The event of `log_temperature`, with `THERMAL_WARNING_C` at 80. -/
def temperatureName (value : Celsius) : PyStr :=
  if value.1.geNat 80 then py "THERMAL_WARNING" else py "TEMPERATURE"

/-- `%.3f`. -/
def printFixed : Celsius → PyStr
  | ⟨.finite neg mant exp _, _⟩ => Binary64.fixed neg mant exp 3

/-- The formats of the `log_` functions, without the line feed. -/
def LogLine.print (timestampMs : Nat) : LogLine → PyStr
  | .simple event =>
      py "\x7b\"timestamp_ms\":" ++ decimal timestampMs ++ py ",\"event\":\"" ++ event.name
        ++ py "\"\x7d"
  | .errno event error =>
      py "\x7b\"timestamp_ms\":" ++ decimal timestampMs ++ py ",\"event\":\"" ++ event.name
        ++ py "\",\"errno\":" ++ decimal error.val ++ py "\x7d"
  | .retry n =>
      py "\x7b\"timestamp_ms\":" ++ decimal timestampMs ++ py ",\"event\":\"READ_RETRY\","
        ++ py "\"retry\":" ++ decimal n ++ py ",\"max_retries\":" ++ decimal maxEioRetries
        ++ py ",\"errno\":" ++ decimal EIO.val ++ py "\x7d"
  | .recovery retries =>
      py "\x7b\"timestamp_ms\":" ++ decimal timestampMs ++ py ",\"event\":\"RECOVERY_SUCCESS\","
        ++ py "\"retries\":" ++ decimal retries ++ py "\x7d"
  | .temperature value =>
      py "\x7b\"timestamp_ms\":" ++ decimal timestampMs ++ py ",\"event\":\"" ++ temperatureName value
        ++ py "\"," ++ py "\"temperature_c\":" ++ printFixed value ++ py "\x7d"

/-- What the calls print, from the given reading of the clock on. -/
def printFrom (clock : Nat → Timespec) : Nat → List LogLine → PyStr
  | _, [] => []
  | i, l :: ls =>
      l.print (monotonicMilliseconds (clock i)) ++ ch '\n' :: printFrom clock (i + 1) ls

/-- The standard output with these lines. -/
def stdout (clock : Nat → Timespec) (log : List LogLine) : PyStr := printFrom clock 0 log

/-! ## Input -/

/-- What `strtod` reports for a C string. -/
structure Strtod where
  value : Binary64
  consumed : Nat
  errnoSet : Bool

/-- The command line, as far as the loop uses it, and the C library. -/
structure Options where
  /-- Zero for no limit. -/
  maxEvents : UInt32
  strtod : List UInt8 → Strtod

/-- The blanks that `process_line` skips. -/
def isBlankByte (b : UInt8) : Bool := b = 0x20 || b = 0x09 || b = 0x0d

/-- `process_line` on the bytes of a line: the call it makes. An embedded
NUL ends the C string. -/
def processLine (o : Options) (line : List UInt8) : LogLine :=
  let start := (line.takeWhile (· ≠ 0)).dropWhile isBlankByte
  let r := o.strtod start
  if h : r.value.isFinite = true then
    if r.errnoSet || r.consumed = 0 then .simple .invalidInput
    else if (start.drop r.consumed).dropWhile isBlankByte ≠ [] then .simple .invalidInput
    else .temperature ⟨r.value, h⟩
  else .simple .invalidInput

/-- `MAX_PENDING_BYTES`. -/
abbrev maxPendingBytes : Nat := 4096

/-- `struct input_buffer`: the first `length` bytes; one place is always left
for the terminating NUL. -/
structure InputBuffer where
  data : List UInt8
  bounded : data.length < maxPendingBytes

def InputBuffer.empty : InputBuffer := ⟨[], by decide⟩

/-- What `consume_input` leaves: the calls it made, the buffer, the counter,
and whether it returned 1. -/
structure Consumed where
  lines : List LogLine
  input : InputBuffer
  eventCount : UInt32
  full : Bool

/-- `(*event_count)++` for a temperature. -/
def countEvent (line : LogLine) (eventCount : UInt32) : UInt32 :=
  match line with
  | .temperature _ => eventCount + 1
  | _ => eventCount

/-- `consume_input`. -/
def consumeInput (o : Options) : InputBuffer → UInt32 → List UInt8 → Consumed
  | input, eventCount, [] => ⟨[], input, eventCount, false⟩
  | input, eventCount, b :: data =>
      if b = 0x0a then
        let line := processLine o input.data
        let eventCount := countEvent line eventCount
        -- the rest of the buffer is not looked at any more
        if o.maxEvents ≠ 0 ∧ o.maxEvents ≤ eventCount then ⟨[line], .empty, eventCount, true⟩
        else
          let rest := consumeInput o .empty eventCount data
          { rest with lines := line :: rest.lines }
      else if h : input.data.length + 1 < maxPendingBytes then
        consumeInput o ⟨input.data ++ [b], by simpa using h⟩ eventCount data
      else
        let rest := consumeInput o .empty eventCount data
        { rest with lines := .simple .inputTooLong :: rest.lines }

/-! ## The poll loop -/

/-- What `poll` returned; `revents` when it returned 1. -/
inductive PollOutcome
  | failed (errno : Errno)
  | timedOut
  | ready (revents : Kernel.PollMask)
  deriving DecidableEq

/-- What `read` returned: the bytes it delivered, none at the end of the
file, or an error. -/
inductive ReadOutcome
  | returned (bytes : List UInt8)
  | failed (errno : Errno)
  deriving DecidableEq

inductive Pc
  | polling
  | reading
  | exited (status : Nat)
  deriving DecidableEq

/-- The variables of `main` and the lines printed. -/
structure Client where
  input : InputBuffer := .empty
  eventCount : UInt32 := 0
  eioRetries : Nat := 0
  stopRequested : Bool := false
  pc : Pc
  log : List LogLine

/-- The test at the head of the loop. -/
def Client.loop (c : Client) : Client :=
  { c with pc := if c.stopRequested then .exited 0 else .polling }

/-- Print a line and go on with the loop. -/
def Client.logged (c : Client) (l : LogLine) : Client := { c with log := c.log ++ [l] }

/-- Print a line and leave with the given status. -/
def Client.leave (c : Client) (l : LogLine) (status : Nat) : Client :=
  { c with log := c.log ++ [l], pc := .exited status }

/-- `POLLIN | POLLERR | POLLHUP`. -/
abbrev pollWanted : Kernel.PollMask := Kernel.EPOLLIN ||| Kernel.EPOLLERR ||| Kernel.EPOLLHUP

/-- From the return of `poll` on. -/
def Client.polled (c : Client) : PollOutcome → Client
  | .failed errno => if errno = EINTR then c.loop else { c with pc := .exited 1 }
  | .timedOut => c.loop
  | .ready revents => if revents &&& pollWanted = 0 then c.loop else { c with pc := .reading }

/-- A read that failed. -/
def Client.readFailed (c : Client) (errno : Errno) : Client :=
  if errno = EAGAIN then c.loop
  else if errno = EIO then
    let c := { c with eioRetries := c.eioRetries + 1 }
    if maxEioRetries < c.eioRetries then c.leave (.errno .readFailed EIO) 1
    else (c.logged (.retry c.eioRetries)).loop
  else if errno = ENODEV then c.leave (.errno .deviceDisconnected ENODEV) 0
  else c.leave (.errno .readFailed errno) 1

/-- The lines of a successful read that announce the recovery. -/
def Client.recoveryLines (c : Client) : List LogLine :=
  if c.eioRetries ≠ 0 then [.recovery c.eioRetries] else []

/-- A read that delivered bytes. -/
def Client.received (o : Options) (c : Client) (bytes : List UInt8) : Client :=
  let r := consumeInput o c.input c.eventCount bytes
  let c := { c with
    log := c.log ++ c.recoveryLines ++ r.lines
    eioRetries := 0
    input := r.input
    eventCount := r.eventCount }
  if r.full then { c with pc := .exited 0 } else c.loop

/-- From the return of `read` on. -/
def Client.afterRead (o : Options) (c : Client) : ReadOutcome → Client
  | .failed errno => c.readFailed errno
  | .returned bytes =>
      if bytes = [] then c.leave (.simple .deviceEof) 0 else c.received o bytes

/-- What happens to the client. -/
inductive Input
  | poll (outcome : PollOutcome)
  | read (outcome : ReadOutcome)
  | signal
  deriving DecidableEq

def Client.step (o : Options) (c : Client) : Input → Option Client
  | .poll outcome => if c.pc = .polling then some (c.polled outcome) else none
  | .read outcome => if c.pc = .reading then some (c.afterRead o outcome) else none
  -- `handle_signal`
  | .signal =>
      match c.pc with
      | .exited _ => none
      | _ => some { c with stopRequested := true }

/-- The client when it enters the loop; a signal may have come before. -/
def Client.started (stopRequested : Bool) : Client :=
  Client.loop { stopRequested, pc := .polling, log := [.simple .monitorStarted] }

/-- `main`, from the opened device on. -/
def client (o : Options) : Lts Client Input :=
  ⟨fun c => ∃ stopRequested, c = .started stopRequested, Client.step o⟩

end VDevLab.Monitor
