import Mathlib.Data.BitVec
import VDevLab.Lib.Lts
import VDevLab.Kernel.Fault

/-!
# The kernel module as an interleaving machine

`kernel/vdevlab_core.c` with any number of calls in flight. Every section
under a mutex is one step, every lock-free read of shared state is a step
of its own, and so are the wake-ups that follow a section. A call keeps its
program counter and the locals that live across steps; the device keeps
the FIFO bytes and the fault record.

What the code does not decide is in the label of a step: whether a signal
is pending, how many bytes of the user's buffer a copy reaches before it
faults, whether a `poll` timeout has expired.
-/

namespace VDevLab.Kernel

/-! ## Device and kfifo -/

/-- `VDEVLAB_FIFO_SIZE`. -/
abbrev fifoSize : Nat := 4096

structure Device where
  fifo : List UInt8
  fault : FaultConfig
  deriving DecidableEq, Repr

/-- The state `vdevlab_init` leaves. -/
def Device.fresh : Device := ⟨[], clearFaultLocked⟩

def kfifoIsEmpty (d : Device) : Bool := d.fifo.isEmpty

def kfifoIsFull (d : Device) : Bool := fifoSize ≤ d.fifo.length

def kfifoAvail (d : Device) : Nat := fifoSize - d.fifo.length

/-- `kfifo_to_user` and `kfifo_from_user` move the prefix the user buffer
allows and report its length in `copied`; they fail iff it is not all. -/
structure UserCopy where
  copied : Nat
  ret : Int
  deriving DecidableEq, Repr

def userCopy (len reach : Nat) : UserCopy :=
  ⟨min len reach, if reach < len then -EFAULT else 0⟩

/-- `if (ret) return copied ? copied : ret; return copied;` as a `ssize_t`.
`copied` is `unsigned int` and `ret` is `int`, so the conditional expression
is `unsigned int`: a negative `ret` reaches the caller reduced modulo 2^32. -/
def copyResult (c : UserCopy) : Int :=
  if c.ret ≠ 0 then (if c.copied ≠ 0 then (c.copied : Int) else c.ret % 2 ^ 32)
  else c.copied

/-! ## Program counters -/

/-- What the environment decides in one step of one call. -/
structure Choice where
  signal : Bool := false
  reach : Nat := 0
  timeout : Bool := false
  deriving DecidableEq, Repr

/-- The two wait queues. -/
inductive Queue
  | readq
  | writeq
  deriving DecidableEq, Repr

/-- A call is at a program counter, about to return, or has returned. -/
inductive Ctl (π ρ : Type)
  | run (pc : π)
  | exit (res : ρ)
  | returned (res : ρ)
  deriving DecidableEq, Repr

/-- The result a call is committed to. -/
def Ctl.committed {π ρ : Type} : Ctl π ρ → Option ρ
  | .run _ => none
  | .exit res => some res
  | .returned res => some res

/-- The outcome of one step of one call. -/
structure Effect (κ : Type) where
  dev : Device
  wake : Option Queue
  woken : Bool
  ctl : κ
  deriving DecidableEq, Repr

/-- A step without a wake-up: the device it leaves and where the call goes. -/
def goto {κ : Type} (d : Device) (woken : Bool) (ctl : κ) : Option (Effect κ) :=
  some ⟨d, none, woken, ctl⟩

@[simp] theorem goto_eq_some {κ : Type} {d : Device} {woken : Bool} {ctl : κ} {e : Effect κ} :
    goto d woken ctl = some e ↔ e = ⟨d, none, woken, ctl⟩ := by
  rw [goto, Option.some.injEq, eq_comm]

/-! ## `vdevlab_read` -/

structure ReadArgs where
  count : Nat
  nonblock : Bool
  deriving DecidableEq, Repr

/-- The return value and the bytes placed in the caller's buffer. -/
structure ReadResult where
  ret : Int
  bytes : List UInt8
  deriving DecidableEq, Repr

inductive ReadPc
  | start
  | fault (l : ReadLocals)
  | delay (ms : UInt32) (ret : Int) (l : ReadLocals)
  | lock (l : ReadLocals)
  | enqueue (l : ReadLocals)
  | checkFifo (sig : Bool) (l : ReadLocals)
  | checkFault (sig : Bool) (l : ReadLocals)
  | sleep (l : ReadLocals)
  | wake (res : ReadResult)
  deriving DecidableEq, Repr

def ReadResult.error (e : Int) : ReadResult := ⟨-e, []⟩

/-- `to_copy` of `vdevlab_read`. -/
def readToCopy (a : ReadArgs) (d : Device) (l : ReadLocals) : Nat :=
  if l.partialReadBytes ≠ 0 then min (min a.count d.fifo.length) l.partialReadBytes.toNat
  else min a.count d.fifo.length

/-- The FIFO after a read moved `copied` bytes out of it, and what the read
has to report. -/
def readDequeue (d : Device) (c : UserCopy) : Device × ReadResult :=
  ({ d with fifo := d.fifo.drop c.copied }, ⟨copyResult c, d.fifo.take c.copied⟩)

/-- One step of `vdevlab_read`. -/
def readStep (a : ReadArgs) (d : Device) (ch : Choice) (woken : Bool) :
    ReadPc → Option (Effect (Ctl ReadPc ReadResult))
  | .start =>
      if a.count = 0 then goto d woken (.exit ⟨0, []⟩)
      else goto d woken (.run (.fault ⟨false, 0⟩))
  | .fault l =>
      let s := applyReadFault d.fault l
      let d' := { d with fault := s.fault }
      if s.delayMs ≠ 0 then goto d' woken (.run (.delay s.delayMs s.ret s.locals))
      else if s.ret ≠ 0 then goto d' woken (.exit ⟨s.ret, []⟩)
      else goto d' woken (.run (.lock s.locals))
  | .delay _ ret l =>
      -- msleep_interruptible returns early exactly when a signal arrives
      if ch.signal then goto d woken (.exit (.error ERESTARTSYS))
      else if ret ≠ 0 then goto d woken (.exit ⟨ret, []⟩)
      else goto d woken (.run (.lock l))
  | .lock l =>
      if ch.signal then goto d woken (.exit (.error EINTR))
      else if kfifoIsEmpty d then
        if a.nonblock then goto d woken (.exit (.error EAGAIN))
        else goto d woken (.run (.enqueue l))
      else
        let c := userCopy (readToCopy a d l) ch.reach
        let (d', res) := readDequeue d c
        if c.copied ≠ 0 then goto d' woken (.run (.wake res))
        else goto d' woken (.exit res)
  -- wait_event_interruptible(vdevlab_readq, ...): enqueue, test the two
  -- halves of the condition, sleep, and start over when woken
  | .enqueue l => goto d false (.run (.checkFifo ch.signal l))
  | .checkFifo sig l =>
      if kfifoIsEmpty d then goto d woken (.run (.checkFault sig l))
      else goto d woken (.run (.fault l))
  | .checkFault sig l =>
      if faultInterruptsRead d.fault then goto d woken (.run (.fault l))
      else if sig then goto d woken (.exit (.error ERESTARTSYS))
      else goto d woken (.run (.sleep l))
  | .sleep l =>
      if woken || ch.signal then goto d woken (.run (.enqueue l)) else none
  | .wake res => some ⟨d, some .writeq, woken, .exit res⟩

/-! ## `vdevlab_write` -/

structure WriteArgs where
  data : List UInt8
  nonblock : Bool
  deriving DecidableEq, Repr

inductive WritePc
  | start
  | top
  | fullCheck
  | enqueue
  | checkFifo (sig : Bool)
  | checkDisconnect (sig : Bool)
  | sleep
  | recheck
  | lock
  | wake (ret : Int)
  deriving DecidableEq, Repr

/-- `to_copy` of `vdevlab_write`. -/
def writeToCopy (a : WriteArgs) (d : Device) : Nat := min a.data.length (kfifoAvail d)

/-- The FIFO after a write moved `copied` bytes into it. -/
def writeEnqueue (a : WriteArgs) (d : Device) (c : UserCopy) : Device :=
  { d with fifo := d.fifo ++ a.data.take c.copied }

/-- One step of `vdevlab_write`. -/
def writeStep (a : WriteArgs) (d : Device) (ch : Choice) (woken : Bool) :
    WritePc → Option (Effect (Ctl WritePc Int))
  | .start =>
      if a.data.length = 0 then goto d woken (.exit 0) else goto d woken (.run .top)
  | .top =>
      if isDisconnected d.fault then goto d woken (.exit (-ENODEV))
      else if a.nonblock then goto d woken (.run .fullCheck)
      else goto d woken (.run .enqueue)
  | .fullCheck =>
      if kfifoIsFull d then goto d woken (.exit (-EAGAIN)) else goto d woken (.run .lock)
  -- wait_event_interruptible(vdevlab_writeq, ...)
  | .enqueue => goto d false (.run (.checkFifo ch.signal))
  | .checkFifo sig =>
      if kfifoIsFull d then goto d woken (.run (.checkDisconnect sig))
      else goto d woken (.run .recheck)
  | .checkDisconnect sig =>
      if isDisconnected d.fault then goto d woken (.run .recheck)
      else if sig then goto d woken (.exit (-ERESTARTSYS))
      else goto d woken (.run .sleep)
  | .sleep =>
      if woken || ch.signal then goto d woken (.run .enqueue) else none
  -- the loop starts over when the device went away while waiting
  | .recheck =>
      if isDisconnected d.fault then goto d woken (.run .top) else goto d woken (.run .lock)
  | .lock =>
      if ch.signal then goto d woken (.exit (-EINTR))
      else if kfifoIsFull d then
        if a.nonblock then goto d woken (.exit (-EAGAIN)) else goto d woken (.run .top)
      else
        let c := userCopy (writeToCopy a d) ch.reach
        let d' := writeEnqueue a d c
        if c.copied ≠ 0 then goto d' woken (.run (.wake (copyResult c)))
        else goto d' woken (.exit (copyResult c))
  | .wake ret => some ⟨d, some .readq, woken, .exit ret⟩

/-! ## `vdevlab_poll` under `poll(2)` -/

abbrev PollMask := BitVec 32

abbrev EPOLLIN : PollMask := 0x001
abbrev EPOLLOUT : PollMask := 0x004
abbrev EPOLLERR : PollMask := 0x008
abbrev EPOLLHUP : PollMask := 0x010
abbrev EPOLLRDNORM : PollMask := 0x040
abbrev EPOLLWRNORM : PollMask := 0x100

/-- The early returns of `vdevlab_poll` on the sampled fault type. -/
def pollFaultMask (fault : FaultConfig) : Option PollMask :=
  if fault.type = faultDisconnect then some (EPOLLERR ||| EPOLLHUP)
  else if fault.type = faultEio then some EPOLLERR
  else none

/-- The section of `vdevlab_poll` under `vdevlab_fifo_lock`. -/
def pollFifoMask (d : Device) : PollMask :=
  (if kfifoIsEmpty d then 0 else EPOLLIN ||| EPOLLRDNORM) |||
    (if kfifoIsFull d then 0 else EPOLLOUT ||| EPOLLWRNORM)

/-- The mask `vdevlab_poll` returns when nothing changes while it runs. -/
def pollMask (d : Device) : PollMask :=
  (pollFaultMask d.fault).getD (pollFifoMask d)

/-- The requested events and the two that are always reported. -/
def pollFilter (events : PollMask) : PollMask := events ||| EPOLLERR ||| EPOLLHUP

/-- The count `poll(2)` returns and the `revents` it stores. -/
structure PollResult where
  ret : Int
  revents : PollMask
  deriving DecidableEq, Repr

inductive PollPc
  | registerRead
  | registerWrite
  | sampleFault (timedOut : Bool)
  | sampleFifo (timedOut : Bool)
  | decide (timedOut : Bool) (mask : PollMask)
  | sleep
  deriving DecidableEq, Repr

/-- One step of `poll(2)` on the device: registration on both queues, the
two samples of `vdevlab_poll`, and the decision of the system call, which
asks again after every wake-up and once more after its timeout. -/
def pollStep (events : PollMask) (d : Device) (ch : Choice) (woken : Bool) :
    PollPc → Option (Effect (Ctl PollPc PollResult))
  | .registerRead => goto d false (.run .registerWrite)
  | .registerWrite => goto d woken (.run (.sampleFault false))
  | .sampleFault timedOut =>
      match pollFaultMask d.fault with
      | some mask => goto d woken (.run (.decide timedOut mask))
      | none => goto d woken (.run (.sampleFifo timedOut))
  | .sampleFifo timedOut => goto d woken (.run (.decide timedOut (pollFifoMask d)))
  | .decide timedOut mask =>
      if mask &&& pollFilter events ≠ 0 then
        goto d woken (.exit ⟨1, mask &&& pollFilter events⟩)
      else if timedOut || ch.timeout then goto d woken (.exit ⟨0, 0⟩)
      else if ch.signal then goto d woken (.exit ⟨-EINTR, 0⟩)
      else goto d woken (.run .sleep)
  | .sleep =>
      if woken || ch.signal || ch.timeout then
        goto d false (.run (.sampleFault ch.timeout))
      else none

/-! ## `vdevlab_ioctl` -/

/-- The commands; `setFault` carries the words behind the user pointer. -/
inductive IoctlCmd
  | setFault (config : FaultConfig)
  | getFault
  | clearFault
  | reset
  | other
  deriving DecidableEq, Repr

/-- The return value and what `GET_FAULT` copied out. -/
structure IoctlResult where
  ret : Int
  config : Option FaultConfig
  deriving DecidableEq, Repr

inductive IoctlPc
  | start
  | store (config : FaultConfig)
  | copyOut (config : FaultConfig)
  | wakeRead
  | wakeWrite
  deriving DecidableEq, Repr

/-- `sizeof(struct vdevlab_fault_config)`. -/
abbrev faultConfigSize : Nat := 16

def IoctlResult.error (e : Int) : IoctlResult := ⟨-e, none⟩

/-- One step of `vdevlab_ioctl`. -/
def ioctlStep (cmd : IoctlCmd) (d : Device) (ch : Choice) (woken : Bool) :
    IoctlPc → Option (Effect (Ctl IoctlPc IoctlResult))
  | .start =>
      match cmd with
      | .setFault config =>
          if ch.reach < faultConfigSize then goto d woken (.exit (.error EFAULT))
          else
            match validateFault config with
            | .error e => goto d woken (.exit ⟨e, none⟩)
            | .ok stored => goto d woken (.run (.store stored))
      | .getFault => goto d woken (.run (.copyOut d.fault))
      | .clearFault => goto { d with fault := clearFaultLocked } woken (.run .wakeRead)
      -- both locks are held while the FIFO and the record are cleared
      | .reset => goto { fifo := [], fault := clearFaultLocked } woken (.run .wakeRead)
      | .other => goto d woken (.exit (.error ENOTTY))
  | .store config => goto { d with fault := config } woken (.run .wakeRead)
  | .copyOut config =>
      if ch.reach < faultConfigSize then goto d woken (.exit (.error EFAULT))
      else goto d woken (.exit ⟨0, some config⟩)
  | .wakeRead => some ⟨d, some .readq, woken, .run .wakeWrite⟩
  | .wakeWrite => some ⟨d, some .writeq, woken, .exit ⟨0, none⟩⟩

/-! ## Calls and the system -/

/-- A call with its arguments and its control state. -/
inductive Call
  | read (a : ReadArgs) (ctl : Ctl ReadPc ReadResult)
  | write (a : WriteArgs) (ctl : Ctl WritePc Int)
  | poll (events : PollMask) (ctl : Ctl PollPc PollResult)
  | ioctl (cmd : IoctlCmd) (ctl : Ctl IoctlPc IoctlResult)
  deriving DecidableEq, Repr

/-- What a caller asks for. -/
inductive Op
  | read (a : ReadArgs)
  | write (a : WriteArgs)
  | poll (events : PollMask)
  | ioctl (cmd : IoctlCmd)
  deriving DecidableEq, Repr

def Op.call : Op → Call
  | .read a => .read a (.run .start)
  | .write a => .write a (.run .start)
  | .poll events => .poll events (.run .registerRead)
  | .ioctl cmd => .ioctl cmd (.run .start)

/-- The step of one control state; `exit` becomes `returned`. -/
def Ctl.step {π ρ : Type} (f : π → Option (Effect (Ctl π ρ))) (d : Device) (woken : Bool) :
    Ctl π ρ → Option (Effect (Ctl π ρ))
  | .run pc => f pc
  | .exit res => goto d woken (.returned res)
  | .returned _ => none

def Effect.map {κ κ' : Type} (g : κ → κ') (e : Effect κ) : Effect κ' :=
  ⟨e.dev, e.wake, e.woken, g e.ctl⟩

def Call.step (d : Device) (ch : Choice) (woken : Bool) : Call → Option (Effect Call)
  | .read a ctl => (ctl.step (readStep a d ch woken) d woken).map (.map (.read a))
  | .write a ctl => (ctl.step (writeStep a d ch woken) d woken).map (.map (.write a))
  | .poll events ctl => (ctl.step (pollStep events d ch woken) d woken).map (.map (.poll events))
  | .ioctl cmd ctl => (ctl.step (ioctlStep cmd d ch woken) d woken).map (.map (.ioctl cmd))

/-- Which wait queue a call stands on. A waiter that saw its signal has left
the queue; a poller stays on both until it returns. -/
def Call.queuedOn : Call → Queue → Bool
  | .read _ (.run (.checkFifo sig _)), .readq => !sig
  | .read _ (.run (.checkFault sig _)), .readq => !sig
  | .read _ (.run (.sleep _)), .readq => true
  | .write _ (.run (.checkFifo sig)), .writeq => !sig
  | .write _ (.run (.checkDisconnect sig)), .writeq => !sig
  | .write _ (.run .sleep), .writeq => true
  | .poll _ (.run .registerRead), _ => false
  | .poll _ (.run .registerWrite), .writeq => false
  | .poll _ (.run _), _ => true
  | _, _ => false

/-- A call in flight and whether it was woken since it last queued. -/
structure Caller where
  call : Call
  woken : Bool
  deriving DecidableEq, Repr

/-- `wake_up_interruptible`: every caller on the queue is woken. -/
def Caller.wakeUp (wake : Option Queue) (c : Caller) : Caller :=
  match wake with
  | none => c
  | some q => if c.call.queuedOn q then { c with woken := true } else c

/-- The device and every call ever made on it, in the order of invocation. -/
structure Sys where
  dev : Device
  callers : List Caller
  deriving DecidableEq, Repr

inductive Label
  | invoke (op : Op)
  | step (i : Nat) (ch : Choice)
  deriving DecidableEq, Repr

def Sys.step (s : Sys) : Label → Option Sys
  | .invoke op => some { s with callers := s.callers ++ [⟨op.call, false⟩] }
  | .step i ch =>
      match s.callers[i]? with
      | none => none
      | some c =>
          (c.call.step s.dev ch c.woken).map fun e =>
            { dev := e.dev,
              callers := (s.callers.set i ⟨e.ctl, e.woken⟩).map (Caller.wakeUp e.wake) }

def Sys.fresh : Sys := ⟨.fresh, []⟩

/-- The loaded module: a fresh device and no calls yet. -/
def machine : Lts Sys Label := ⟨(· = Sys.fresh), Sys.step⟩

end VDevLab.Kernel
