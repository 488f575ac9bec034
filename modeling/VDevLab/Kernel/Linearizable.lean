import VDevLab.Lib.Linear
import VDevLab.Kernel.Wakeup

/-!
# The device is linearizable

A call of the module runs in several sections, and other calls run between
them. What the callers see is nevertheless a sequence of whole operations:
every call takes effect in one of its sections. A read does when it fails on
the sampled fault or moves bytes, a write when it moves bytes, an ioctl when
it replaces the record.

A `poll` and a `GET_FAULT` change nothing and answer with what they saw last.
Their place in the sequence moves to that section each time they look.

The read's sample and its dequeue are two sections, and so are the two
samples of a poll. So bytes can be returned, or the FIFO reported, under a
fault that was installed in between. Without EIO and DISCONNECT the device
is a plain bounded queue.
-/

namespace VDevLab.Kernel

open Linear

/-! ## The device without concurrency -/

inductive ReadAtomically (a : ReadArgs) (d : Device) : ReadResult → Device → Prop
  | zero : a.count = 0 → ReadAtomically a d ⟨0, []⟩ d
  | again : a.nonblock = true → d.fifo = [] → ReadAtomically a d (.error EAGAIN) d
  | failed : d.fault.type = faultEio →
      ReadAtomically a d (.error EIO) { d with fault := takeOccurrence d.fault }
  | gone : d.fault.type = faultDisconnect → ReadAtomically a d (.error ENODEV) d
  | interrupted {e} : e = EINTR ∨ e = ERESTARTSYS → ReadAtomically a d (.error e) d
  | moved {n : Nat} : n ≠ 0 → n ≤ a.count → n ≤ d.fifo.length →
      ReadAtomically a d ⟨n, d.fifo.take n⟩ { d with fifo := d.fifo.drop n }
  | unmoved : a.count ≠ 0 → d.fifo ≠ [] → ReadAtomically a d ⟨2 ^ 32 - EFAULT, []⟩ d

inductive WriteAtomically (a : WriteArgs) (d : Device) : Int → Device → Prop
  | zero : a.data = [] → WriteAtomically a d 0 d
  | again : a.nonblock = true → d.fifo.length ≥ fifoSize → WriteAtomically a d (-EAGAIN) d
  | gone : d.fault.type = faultDisconnect → WriteAtomically a d (-ENODEV) d
  | interrupted {e} : e = EINTR ∨ e = ERESTARTSYS → WriteAtomically a d (-e) d
  | moved {n : Nat} : n ≠ 0 → n ≤ a.data.length → d.fifo.length + n ≤ fifoSize →
      WriteAtomically a d n { d with fifo := d.fifo ++ a.data.take n }
  | unmoved : a.data ≠ [] → d.fifo.length < fifoSize →
      WriteAtomically a d (2 ^ 32 - EFAULT) d

/-- What `poll(2)` decides from a mask. -/
def pollDecision (events mask : PollMask) : PollResult :=
  if mask &&& pollFilter events ≠ 0 then ⟨1, mask &&& pollFilter events⟩ else ⟨0, 0⟩

inductive PollAtomically (events : PollMask) (d : Device) : PollResult → Prop
  | fault {mask} : pollFaultMask d.fault = some mask →
      PollAtomically events d (pollDecision events mask)
  | fifo : PollAtomically events d (pollDecision events (pollFifoMask d))
  | interrupted : PollAtomically events d ⟨-EINTR, 0⟩

inductive IoctlAtomically (d : Device) : IoctlCmd → IoctlResult → Device → Prop
  | set {config stored} : validateFault config = .ok stored →
      IoctlAtomically d (.setFault config) ⟨0, none⟩ { d with fault := stored }
  | refused {config e} : validateFault config = .error e →
      IoctlAtomically d (.setFault config) ⟨e, none⟩ d
  | unreadable {config} : IoctlAtomically d (.setFault config) (.error EFAULT) d
  | get : IoctlAtomically d .getFault ⟨0, some d.fault⟩ d
  | unwritable : IoctlAtomically d .getFault (.error EFAULT) d
  | clear : IoctlAtomically d .clearFault ⟨0, none⟩ { d with fault := clearFaultLocked }
  | reset : IoctlAtomically d .reset ⟨0, none⟩ .fresh
  | other : IoctlAtomically d .other (.error ENOTTY) d

/-- The whole operation, its result and the device after it. -/
inductive Atomically (d : Device) : Op → Result → Device → Prop
  | read {a res d'} : ReadAtomically a d res d' → Atomically d (.read a) (.read res) d'
  | write {a ret d'} : WriteAtomically a d ret d' → Atomically d (.write a) (.write ret) d'
  | poll {events res} : PollAtomically events d res → Atomically d (.poll events) (.poll res) d
  | ioctl {cmd res d'} : IoctlAtomically d cmd res d' →
      Atomically d (.ioctl cmd) (.ioctl res) d'

def sequentialDevice : Object Device Op Result := ⟨Atomically⟩

/-- The operations that never change the device. -/
def Op.observes : Op → Bool
  | .poll _ => true
  | .ioctl .getFault => true
  | _ => false

theorem Atomically.observes {d d' : Device} {op : Op} {r : Result} (h : Atomically d op r d')
    (ho : op.observes = true) : d' = d := by
  cases h with
  | read => exact absurd ho Bool.false_ne_true
  | write => exact absurd ho Bool.false_ne_true
  | poll => rfl
  | ioctl hc =>
    cases hc with
    | get => rfl
    | unwritable => rfl
    | _ => exact absurd ho Bool.false_ne_true

theorem silent_of_observes {p : Device → Prop} {e : Entry Nat Op Result}
    (h : e.op.observes = true) : (sequentialDevice.within p).Silent e :=
  fun _ _ hs => Atomically.observes hs.2 h

/-! ## The device without EIO and DISCONNECT -/

/-- A bounded queue of bytes. The control calls other than `RESET` are not
its operations and leave it. -/
inductive QueueStep (q : List UInt8) : Op → Result → List UInt8 → Prop
  | readZero {a} : a.count = 0 → QueueStep q (.read a) (.read ⟨0, []⟩) q
  | readAgain {a} : a.nonblock = true → q = [] → QueueStep q (.read a) (.read (.error EAGAIN)) q
  | readInterrupted {a e} : e = EINTR ∨ e = ERESTARTSYS →
      QueueStep q (.read a) (.read (.error e)) q
  | take {a} {n : Nat} : n ≠ 0 → n ≤ a.count → n ≤ q.length →
      QueueStep q (.read a) (.read ⟨n, q.take n⟩) (q.drop n)
  | takeUnmoved {a} : a.count ≠ 0 → q ≠ [] →
      QueueStep q (.read a) (.read ⟨2 ^ 32 - EFAULT, []⟩) q
  | writeZero {a} : a.data = [] → QueueStep q (.write a) (.write 0) q
  | writeAgain {a} : a.nonblock = true → q.length ≥ fifoSize →
      QueueStep q (.write a) (.write (-EAGAIN)) q
  | writeInterrupted {a e} : e = EINTR ∨ e = ERESTARTSYS → QueueStep q (.write a) (.write (-e)) q
  | put {a} {n : Nat} : n ≠ 0 → n ≤ a.data.length → q.length + n ≤ fifoSize →
      QueueStep q (.write a) (.write n) (q ++ a.data.take n)
  | putUnmoved {a} : a.data ≠ [] → q.length < fifoSize →
      QueueStep q (.write a) (.write (2 ^ 32 - EFAULT)) q
  | look {events} :
      QueueStep q (.poll events) (.poll (pollDecision events (pollFifoMask ⟨q, clearFaultLocked⟩))) q
  | lookInterrupted {events} : QueueStep q (.poll events) (.poll ⟨-EINTR, 0⟩) q
  | clear : QueueStep q (.ioctl .reset) (.ioctl ⟨0, none⟩) []
  | control {cmd res} : cmd ≠ .reset → QueueStep q (.ioctl cmd) (.ioctl res) q

def byteQueue : Object (List UInt8) Op Result := ⟨QueueStep⟩

theorem Atomically.queueStep {d d' : Device} {op : Op} {r : Result} (h : Atomically d op r d')
    (hd : faultInterruptsRead d.fault = false) : QueueStep d.fifo op r d'.fifo := by
  have hquiet : d.fault.type ≠ faultEio ∧ d.fault.type ≠ faultDisconnect := by
    simpa [faultInterruptsRead] using hd
  cases h with
  | read h =>
    cases h with
    | zero h0 => exact .readZero h0
    | again hn hempty => exact .readAgain hn hempty
    | failed ht => exact absurd ht hquiet.1
    | gone ht => exact absurd ht hquiet.2
    | interrupted he => exact .readInterrupted he
    | moved h0 hcount hlen => exact .take h0 hcount hlen
    | unmoved h0 hempty => exact .takeUnmoved h0 hempty
  | write h =>
    cases h with
    | zero h0 => exact .writeZero h0
    | again hn hfull => exact .writeAgain hn hfull
    | gone ht => exact absurd ht hquiet.2
    | interrupted he => exact .writeInterrupted he
    | moved h0 hlen hroom => exact .put h0 hlen hroom
    | unmoved h0 hroom => exact .putUnmoved h0 hroom
  | poll h =>
    cases h with
    | fault hm =>
      rw [pollFaultMask, if_neg hquiet.2, if_neg hquiet.1] at hm
      cases hm
    | fifo => exact .look
    | interrupted => exact .lookInterrupted
  | ioctl h =>
    cases h with
    | reset => exact .clear
    | _ => exact .control (by simp)

/-! ## Histories -/

def Call.op : Call → Op
  | .read a _ => .read a
  | .write a _ => .write a
  | .poll events _ => .poll events
  | .ioctl cmd _ => .ioctl cmd

@[simp] theorem Op.op_call (op : Op) : op.call.op = op := by
  cases op <;> rfl

/-- The result that the next step of the call hands to its caller. -/
def Call.exiting : Call → Option Result
  | .read _ (.exit res) => some (.read res)
  | .write _ (.exit ret) => some (.write ret)
  | .poll _ (.exit res) => some (.poll res)
  | .ioctl _ (.exit res) => some (.ioctl res)
  | _ => none

/-- What a move shows to the callers. A call is known by its number. -/
def moveEvents (m : Move Sys Label) : List (Event Nat Op Result) :=
  match m.label with
  | .invoke op => [.invoke m.pre.callers.length op]
  | .step i _ => (((m.pre.callAt i).bind Call.exiting).map (Event.respond i)).toList

def history (tr : List (Move Sys Label)) : List (Event Nat Op Result) := tr.flatMap moveEvents

/-- The result a call has after the section in which it last took effect. A
poll and a `GET_FAULT` can still take effect again. -/
def Call.answer : Call → Option Result
  | .read _ (.run (.wake res)) => some (.read res)
  | .write _ (.run (.wake ret)) => some (.write ret)
  | .poll events (.run (.decide _ mask)) => some (.poll (pollDecision events mask))
  | .ioctl _ (.run (.copyOut config)) => some (.ioctl ⟨0, some config⟩)
  | .ioctl _ (.run .wakeRead) => some (.ioctl ⟨0, none⟩)
  | .ioctl _ (.run .wakeWrite) => some (.ioctl ⟨0, none⟩)
  | c => c.result

theorem Op.answer_call (op : Op) : op.call.answer = none := by
  cases op <;> rfl

theorem Op.returned_call (op : Op) : op.call.returned = false := by
  cases op <;> rfl

/-! ## One step of a call -/

/-- A step keeps what the call has answered, takes effect, or returns. -/
inductive AtomicStep (d : Device) (c : Call) (e : Effect Call) : Prop
  | quiet : c.exiting = none → e.dev = d →
      (e.ctl.answer = c.answer ∨ e.ctl.answer = none ∧ c.op.observes = true) → AtomicStep d c e
  | effect {r} : c.exiting = none → (c.answer = none ∨ c.op.observes = true) →
      e.ctl.answer = some r → Atomically d c.op r e.dev → AtomicStep d c e
  | ret {r} : c.exiting = some r → c.answer = some r → e.ctl.answer = some r → e.dev = d →
      e.ctl.returned = true → AtomicStep d c e

/-- The sample of a read that fails is an operation of its own. -/
theorem readAtomically_sample {a : ReadArgs} {d : Device} {l : ReadLocals}
    (hd : Canonical d.fault) (hdelay : (applyReadFault d.fault l).delayMs = 0)
    (hret : (applyReadFault d.fault l).ret ≠ 0) :
    ReadAtomically a d ⟨(applyReadFault d.fault l).ret, []⟩ (d.sampled l) := by
  rcases applyReadFault_cases hd l with ⟨ht, -, heq⟩ | ⟨hne, hsame, -⟩
  · rw [Device.sampled, heq]
    exact .failed ht
  · have hdev : d.sampled l = d := by rw [Device.sampled, hsame]
    rw [hdev]
    obtain ⟨fifo, fault⟩ := d
    cases hd with
    | none => exact absurd rfl hret
    | eio => exact absurd rfl hne
    | delay => cases hl : l.delayApplied <;> simp +decide [applyReadFault, hl] at hret
    | disconnect => exact .gone rfl
    | partialRead => exact absurd rfl hret

/-- A sample that lets the read go on leaves the device. -/
theorem sampled_pass {d : Device} {l : ReadLocals} (hd : Canonical d.fault)
    (hret : (applyReadFault d.fault l).ret = 0) : d.sampled l = d := by
  rcases applyReadFault_cases hd l with ⟨-, -, heq⟩ | ⟨-, hsame, -⟩
  · rw [heq] at hret
    cases hret
  · rw [Device.sampled, hsame]

theorem ReadMove.atomic {a : ReadArgs} {d : Device} {ch : Choice} {woken : Bool} {pc : ReadPc}
    {e : Effect (Ctl ReadPc ReadResult)} (h : ReadMove a d ch woken pc e)
    (hd : Canonical d.fault) (hc : a.Wf (.run pc)) :
    AtomicStep d (.read a (.run pc)) (e.map (.read a)) := by
  cases h with
  | zero h0 => exact .effect rfl (.inl rfl) rfl (.read (.zero h0))
  | @sampleDelay l s hs hdelay =>
    subst hs
    exact .quiet rfl (sampled_pass hd ((applyReadFault_ret _ _).2 hdelay)) (.inl rfl)
  | @sampleFail l s hs hdelay hret =>
    subst hs
    exact .effect rfl (.inl rfl) rfl (.read (readAtomically_sample hd hdelay hret))
  | @samplePass l s hs _ hret =>
    subst hs
    exact .quiet rfl (sampled_pass hd hret) (.inl rfl)
  | delayInterrupted => exact .effect rfl (.inl rfl) rfl (.read (.interrupted (.inr rfl)))
  | delayFail hr => exact absurd hc.2 hr
  | lockInterrupted => exact .effect rfl (.inl rfl) rfl (.read (.interrupted (.inl rfl)))
  | again _ hempty hn =>
    exact .effect rfl (.inl rfl) rfl (.read (.again hn (List.isEmpty_iff.mp hempty)))
  | @dequeue l c _ _ hcopy hmoved =>
    subst hcopy
    have hle := userCopy_copied_le (readToCopy a d l) ch.reach
    have hcount := hle.trans (readToCopy_le_count a d l)
    have hlen := hle.trans (readToCopy_le_length a d l)
    refine .effect rfl (.inl rfl) rfl (.read ?_)
    rw [readDequeue, copyResult_moved hmoved]
    exact .moved hmoved hcount hlen
  | @copyFault l c _ hready hcopy hmoved =>
    subst hcopy
    have hone := copyResult_unmoved (readToCopy_ne_zero l hc hready) hmoved
    refine .effect rfl (.inl rfl) rfl (.read ?_)
    rw [readDequeue, hone, hmoved]
    exact .unmoved hc (kfifoIsEmpty_false.mp hready)
  | waitInterrupted => exact .effect rfl (.inl rfl) rfl (.read (.interrupted (.inr rfl)))
  | _ => exact .quiet rfl rfl (.inl rfl)

/-- Only a nonblocking write looks for room before it takes the lock. -/
def Call.Tries : Call → Prop
  | .write a (.run .fullCheck) => a.nonblock = true
  | _ => True

theorem CallMove.tries {d : Device} {ch : Choice} {woken : Bool} {c : Call} {e : Effect Call}
    (h : CallMove d ch woken c e) : e.ctl.Tries := by
  cases h with
  | write hm =>
    cases hm with
    | tryNow _ hn => exact hn
    | _ => trivial
  | _ => trivial

theorem Sys.tries_step {s t : Sys} {l : Label} (h : ∀ c ∈ s.callers, c.call.Tries)
    (hl : s.step l = some t) : ∀ c ∈ t.callers, c.call.Tries := by
  intro c hc
  rcases Sys.step_cases hl with ⟨op, -, rfl⟩ | ⟨i, ch, b, e, -, hb, hm, rfl⟩
  · rcases List.mem_append.mp hc with hc | hc
    · exact h c hc
    · cases List.mem_singleton.mp hc
      cases op <;> trivial
  · rcases Sys.mem_after hc with heq | ⟨c', hc', heq⟩ <;> rw [heq]
    · exact hm.tries
    · exact h c' hc'

theorem machine_tries {tr : List (Move Sys Label)} {s : Sys} (h : machine.Run tr s) :
    ∀ c ∈ s.callers, c.call.Tries := by
  apply h.invariant (I := fun s => ∀ c ∈ s.callers, c.call.Tries)
  · intro s hs c hc
    cases hs
    cases hc
  · intro s l t hi hl
    exact Sys.tries_step hi hl

theorem WriteMove.atomic {a : WriteArgs} {d : Device} {ch : Choice} {woken : Bool} {pc : WritePc}
    {e : Effect (Ctl WritePc Int)} (h : WriteMove a d ch woken pc e) (hc : a.Wf (.run pc))
    (htries : (Call.write a (.run pc)).Tries) :
    AtomicStep d (.write a (.run pc)) (e.map (.write a)) := by
  cases h with
  | zero h0 => exact .effect rfl (.inl rfl) rfl (.write (.zero h0))
  | gone hg => exact .effect rfl (.inl rfl) rfl (.write (.gone (of_decide_eq_true hg)))
  | again hfull =>
    exact .effect rfl (.inl rfl) rfl (.write (.again htries (of_decide_eq_true hfull)))
  | waitInterrupted => exact .effect rfl (.inl rfl) rfl (.write (.interrupted (.inr rfl)))
  | lockInterrupted => exact .effect rfl (.inl rfl) rfl (.write (.interrupted (.inl rfl)))
  | lockedAgain _ hfull hn =>
    exact .effect rfl (.inl rfl) rfl (.write (.again hn (of_decide_eq_true hfull)))
  | @enqueue c _ hroom hcopy hmoved =>
    subst hcopy
    have hle : (userCopy (writeToCopy a d) ch.reach).copied ≤ min a.data.length (kfifoAvail d) :=
      userCopy_copied_le _ _
    have hfree := kfifoIsFull_false.mp hroom
    simp only [kfifoAvail] at hle
    refine .effect rfl (.inl rfl) rfl (.write ?_)
    rw [copyResult_moved hmoved]
    exact .moved hmoved (by omega) (by omega)
  | @copyFault c _ hroom hcopy hmoved =>
    subst hcopy
    have hone := copyResult_unmoved (writeToCopy_ne_zero hc hroom) hmoved
    refine .effect rfl (.inl rfl) rfl (.write ?_)
    rw [writeEnqueue, hone, hmoved, List.take_zero, List.append_nil]
    exact .unmoved hc (kfifoIsFull_false.mp hroom)
  | _ => exact .quiet rfl rfl (.inl rfl)

/-- A poll that finds nothing when its time is over has seen exactly that. -/
theorem pollStep_atomic {events : PollMask} {d : Device} {ch : Choice} {woken : Bool}
    {pc : PollPc} {e : Effect (Ctl PollPc PollResult)}
    (h : pollStep events d ch woken pc = some e) :
    AtomicStep d (.poll events (.run pc)) (e.map (.poll events)) := by
  cases pc with
  | registerRead =>
    rw [pollStep, goto_eq_some] at h
    subst h
    exact .quiet rfl rfl (.inl rfl)
  | registerWrite =>
    rw [pollStep, goto_eq_some] at h
    subst h
    exact .quiet rfl rfl (.inl rfl)
  | sampleFault t =>
    simp only [pollStep] at h
    split at h <;> rw [goto_eq_some] at h <;> subst h
    · next hm => exact .effect rfl (.inl rfl) rfl (.poll (.fault hm))
    · exact .quiet rfl rfl (.inl rfl)
  | sampleFifo t =>
    rw [pollStep, goto_eq_some] at h
    subst h
    exact .effect rfl (.inl rfl) rfl (.poll .fifo)
  | decide t mask =>
    simp only [pollStep] at h
    by_cases hm : mask &&& pollFilter events ≠ 0
    · rw [if_pos hm, goto_eq_some] at h
      subst h
      have hdecided : pollDecision events mask = ⟨1, mask &&& pollFilter events⟩ := if_pos hm
      exact .quiet rfl rfl (.inl (by rw [Call.answer, hdecided]; rfl))
    · rw [if_neg hm] at h
      split at h
      · rw [goto_eq_some] at h
        subst h
        have hdecided : pollDecision events mask = ⟨0, 0⟩ := if_neg hm
        exact .quiet rfl rfl (.inl (by rw [Call.answer, hdecided]; rfl))
      · split at h <;> rw [goto_eq_some] at h <;> subst h
        · exact .effect rfl (.inr rfl) rfl (.poll .interrupted)
        · exact .quiet rfl rfl (.inr ⟨rfl, rfl⟩)
  | sleep =>
    simp only [pollStep] at h
    split at h
    · rw [goto_eq_some] at h
      subst h
      exact .quiet rfl rfl (.inl rfl)
    · cases h

theorem IoctlMove.atomic {cmd : IoctlCmd} {d : Device} {woken : Bool} {pc : IoctlPc}
    {e : Effect (Ctl IoctlPc IoctlResult)} (h : IoctlMove cmd d woken pc e)
    (hc : cmd.Wf (.run pc)) : AtomicStep d (.ioctl cmd (.run pc)) (e.map (.ioctl cmd)) := by
  cases h with
  | setUnreadable hcmd =>
    subst hcmd
    exact .effect rfl (.inl rfl) rfl (.ioctl .unreadable)
  | setRefused hcmd hv =>
    subst hcmd
    exact .effect rfl (.inl rfl) rfl (.ioctl (.refused hv))
  | setAccepted => exact .quiet rfl rfl (.inl rfl)
  | get hcmd =>
    subst hcmd
    exact .effect rfl (.inl rfl) rfl (.ioctl .get)
  | clear hcmd =>
    subst hcmd
    exact .effect rfl (.inl rfl) rfl (.ioctl .clear)
  | reset hcmd =>
    subst hcmd
    exact .effect rfl (.inl rfl) rfl (.ioctl .reset)
  | other hcmd =>
    subst hcmd
    exact .effect rfl (.inl rfl) rfl (.ioctl .other)
  | store =>
    obtain ⟨config, hcmd, hv⟩ := hc
    subst hcmd
    exact .effect rfl (.inl rfl) rfl (.ioctl (.set hv))
  | outUnwritable =>
    obtain ⟨hcmd, -⟩ := hc
    subst hcmd
    exact .effect rfl (.inr rfl) rfl (.ioctl .unwritable)
  | out => exact .quiet rfl rfl (.inl rfl)
  | wakeRead => exact .quiet rfl rfl (.inl rfl)
  | wakeWrite => exact .quiet rfl rfl (.inl rfl)

theorem Call.step_atomic {d : Device} {ch : Choice} {woken : Bool} {c : Call} {e : Effect Call}
    (h : c.step d ch woken = some e) (hd : Canonical d.fault) (hc : c.Wf) (htries : c.Tries) :
    AtomicStep d c e := by
  cases c with
  | read a ctl =>
    obtain ⟨f, hf, rfl⟩ := Option.map_eq_some_iff.mp h
    cases ctl with
    | run pc => exact (readStep_move hf).atomic hd hc
    | exit res => cases goto_eq_some.mp hf; exact .ret rfl rfl rfl rfl rfl
    | returned res => cases hf
  | write a ctl =>
    obtain ⟨f, hf, rfl⟩ := Option.map_eq_some_iff.mp h
    cases ctl with
    | run pc => exact (writeStep_move hf).atomic hc htries
    | exit res => cases goto_eq_some.mp hf; exact .ret rfl rfl rfl rfl rfl
    | returned res => cases hf
  | poll events ctl =>
    obtain ⟨f, hf, rfl⟩ := Option.map_eq_some_iff.mp h
    cases ctl with
    | run pc => exact pollStep_atomic hf
    | exit res => cases goto_eq_some.mp hf; exact .ret rfl rfl rfl rfl rfl
    | returned res => cases hf
  | ioctl cmd ctl =>
    obtain ⟨f, hf, rfl⟩ := Option.map_eq_some_iff.mp h
    cases ctl with
    | run pc => exact (ioctlStep_move hf).atomic hc
    | exit res => cases goto_eq_some.mp hf; exact .ret rfl rfl rfl rfl rfl
    | returned res => cases hf

/-- A step belongs to one operation, and a call that returned makes none. -/
theorem Call.step_op {d : Device} {ch : Choice} {woken : Bool} {c : Call} {e : Effect Call}
    (h : c.step d ch woken = some e) : e.ctl.op = c.op ∧ c.returned = false := by
  cases c with
  | _ a ctl =>
    obtain ⟨f, hf, rfl⟩ := Option.map_eq_some_iff.mp h
    cases ctl with
    | returned res => cases hf
    | _ => exact ⟨rfl, rfl⟩

/-! ## Every run is linearizable -/

/-- What is kept along a run: the sequence so far ends in the device, it has
the results that were given, and a call whose entry may still move only
observes. -/
structure Linearized (p : Device → Prop) (H : List (Event Nat Op Result))
    (L : List (Entry Nat Op Result)) (s : Sys) : Prop where
  linear : Linearization (sequentialDevice.within p) .fresh H L s.dev
  invoked : ∀ i op, .invoke i op ∈ H ↔ ∃ c, s.callAt i = some c ∧ c.op = op
  returned : ∀ i r, .respond i r ∈ H → ∃ c, s.callAt i = some c ∧ c.returned = true
  answered : ∀ i c r, s.callAt i = some c → c.answer = some r → ⟨i, c.op, r⟩ ∈ L
  settled : ∀ e ∈ L, ∀ c, s.callAt e.id = some c →
    c.answer.isSome = true ∨ c.op.observes = true

variable {p : Device → Prop} {H : List (Event Nat Op Result)} {L : List (Entry Nat Op Result)}
  {s : Sys}

theorem Linearized.fresh : Linearized p [] [] Sys.fresh where
  linear := .nil
  invoked := by simp [Sys.callAt, Sys.fresh]
  returned := by simp
  answered := by simp [Sys.callAt, Sys.fresh]
  settled := by simp

theorem Linearized.invoke (h : Linearized p H L s) (op : Op) :
    Linearized p (H ++ [.invoke s.callers.length op]) L (s.invoked op) where
  linear := by
    apply h.linear.invoke
    intro op' hin
    obtain ⟨c, hc, -⟩ := (h.invoked _ _).mp hin
    simp [Sys.callAt] at hc
  invoked := by
    intro i op'
    rw [Sys.callAt_invoked]
    by_cases hi : i = s.callers.length
    · subst hi
      have hold : Event.invoke s.callers.length op' ∉ H := by
        intro hin
        obtain ⟨c, hc, -⟩ := (h.invoked _ _).mp hin
        simp [Sys.callAt] at hc
      simp [hold, eq_comm]
    · simp [hi, h.invoked]
  returned := by
    intro i r hin
    obtain ⟨c, hc, hr⟩ := h.returned i r (by simpa using hin)
    refine ⟨c, ?_, hr⟩
    rw [Sys.callAt_invoked, if_neg ?_, hc]
    rintro rfl
    simp [Sys.callAt] at hc
  answered := by
    intro i c r hc hr
    rw [Sys.callAt_invoked] at hc
    split at hc
    · cases hc
      rw [op.answer_call] at hr
      cases hr
    · exact h.answered i c r hc hr
  settled := by
    intro e he c hc
    rw [Sys.callAt_invoked] at hc
    split at hc
    · next hi =>
      obtain ⟨c', hc', -⟩ := (h.invoked _ _).mp (h.linear.invoked e he)
      rw [hi] at hc'
      simp [Sys.callAt] at hc'
    · exact h.settled e he c hc

section Step

variable {i : Nat} {b : Caller} {e : Effect Call} {ch : Choice}

/-- The calls that were invoked are those of the system, also after a step. -/
theorem Linearized.invoked_after (h : Linearized p H L s) (hb : s.callers[i]? = some b)
    (hop : e.ctl.op = b.call.op) (j : Nat) (op : Op) :
    .invoke j op ∈ H ↔ ∃ c, (s.after i e).callAt j = some c ∧ c.op = op := by
  rw [h.invoked, Sys.callAt_after hb]
  by_cases hij : i = j
  · subst hij
    simp [Sys.callAt_of hb, hop]
  · simp [hij]

theorem Linearized.returned_after (h : Linearized p H L s) (hb : s.callers[i]? = some b)
    (hlive : b.call.returned = false) {j : Nat} {r : Result} (hin : .respond j r ∈ H) :
    i ≠ j ∧ ∃ c, (s.after i e).callAt j = some c ∧ c.returned = true := by
  obtain ⟨c, hc, hr⟩ := h.returned j r hin
  have hij : i ≠ j := by
    rintro rfl
    rw [Sys.callAt_of hb] at hc
    cases hc
    rw [hlive] at hr
    cases hr
  refine ⟨hij, c, ?_, hr⟩
  rw [Sys.callAt_after hb, if_neg hij, hc]

/-- A step that takes no effect. -/
theorem Linearized.quiet (h : Linearized p H L s) (hb : s.callers[i]? = some b)
    (hop : e.ctl.op = b.call.op) (hlive : b.call.returned = false) (hdev : e.dev = s.dev)
    (hans : e.ctl.answer = b.call.answer ∨
      e.ctl.answer = none ∧ b.call.op.observes = true) : Linearized p H L (s.after i e) where
  linear := by
    show Linearization _ _ _ _ e.dev
    rw [hdev]
    exact h.linear
  invoked := h.invoked_after hb hop
  returned := fun j r hin => (h.returned_after hb hlive hin).2
  answered := by
    intro j c r hc hr
    rw [Sys.callAt_after hb] at hc
    by_cases hij : i = j
    · subst hij
      rw [if_pos rfl] at hc
      cases hc
      rcases hans with hans | ⟨hnone, -⟩
      · rw [hop]
        exact h.answered i b.call r (Sys.callAt_of hb) (hans ▸ hr)
      · rw [hnone] at hr
        cases hr
    · rw [if_neg hij] at hc
      exact h.answered j c r hc hr
  settled := by
    intro x hx c hc
    rw [Sys.callAt_after hb] at hc
    by_cases hij : i = x.id
    · rw [if_pos hij] at hc
      cases hc
      rw [hop]
      rcases hans with hans | ⟨-, hobs⟩
      · rw [hans]
        exact h.settled x hx b.call (hij ▸ Sys.callAt_of hb)
      · exact .inr hobs
    · rw [if_neg hij] at hc
      exact h.settled x hx c hc

/-- A step in which the call takes effect, for the first time or again. -/
theorem Linearized.effect (h : Linearized p H L s) (hb : s.callers[i]? = some b)
    (hop : e.ctl.op = b.call.op) (hlive : b.call.returned = false)
    (hfree : b.call.answer = none ∨ b.call.op.observes = true) {r : Result}
    (hans : e.ctl.answer = some r) (hp : p s.dev)
    (hstep : Atomically s.dev b.call.op r e.dev) :
    Linearized p H (without i L ++ [⟨i, b.call.op, r⟩]) (s.after i e) where
  linear := by
    apply h.linear.commit
    · exact (h.invoked i _).mpr ⟨b.call, Sys.callAt_of hb, rfl⟩
    · intro r' hin
      exact (h.returned_after hb (e := e) hlive hin).1 rfl
    · -- an entry that is already there belongs to a call that only observes
      intro x hx hid
      obtain ⟨c, hc, hcop⟩ := (h.invoked _ _).mp (h.linear.invoked x hx)
      rw [hid, Sys.callAt_of hb] at hc
      cases hc
      apply silent_of_observes
      rw [← hcop]
      rcases h.settled x hx b.call (hid ▸ Sys.callAt_of hb) with hsome | hobs
      · rcases hfree with hnone | hobs
        · rw [hnone] at hsome
          cases hsome
        · exact hobs
      · exact hobs
    · exact ⟨hp, hstep⟩
  invoked := h.invoked_after hb hop
  returned := fun j r' hin => (h.returned_after hb hlive hin).2
  answered := by
    intro j c r' hc hr
    rw [Sys.callAt_after hb] at hc
    by_cases hij : i = j
    · subst hij
      rw [if_pos rfl] at hc
      cases hc
      rw [hans] at hr
      cases hr
      simp [hop]
    · rw [if_neg hij] at hc
      apply List.mem_append_left
      exact mem_without.mpr ⟨h.answered j c r' hc hr, Ne.symm hij⟩
  settled := by
    intro x hx c hc
    rw [Sys.callAt_after hb] at hc
    by_cases hij : i = x.id
    · rw [if_pos hij] at hc
      cases hc
      exact .inl (by rw [hans]; rfl)
    · rw [if_neg hij] at hc
      rcases List.mem_append.mp hx with hx | hx
      · exact h.settled x (mem_without.mp hx).1 c hc
      · cases List.mem_singleton.mp hx
        exact absurd rfl hij

/-- The step in which the call returns. -/
theorem Linearized.respond (h : Linearized p H L s) (hb : s.callers[i]? = some b)
    (hop : e.ctl.op = b.call.op) (hlive : b.call.returned = false) (hdev : e.dev = s.dev)
    {r : Result} (hans : b.call.answer = some r) (hans' : e.ctl.answer = some r)
    (hret : e.ctl.returned = true) : Linearized p (H ++ [.respond i r]) L (s.after i e) := by
  have hquiet := h.quiet hb hop hlive hdev (.inl (hans'.trans hans.symm))
  refine ⟨?_, ?_, ?_, hquiet.answered, hquiet.settled⟩
  · apply hquiet.linear.respond
    exact h.answered i b.call r (Sys.callAt_of hb) hans
  · intro j op
    rw [← hquiet.invoked]
    simp
  · intro j r' hin
    rcases List.mem_append.mp hin with hin | hin
    · exact hquiet.returned j r' hin
    · cases List.mem_singleton.mp hin
      refine ⟨e.ctl, ?_, hret⟩
      rw [Sys.callAt_after hb, if_pos rfl]

/-- A step that is quiet, takes effect or returns. -/
theorem Linearized.atomic (h : Linearized p H L s) (hb : s.callers[i]? = some b)
    (hop : e.ctl.op = b.call.op) (hlive : b.call.returned = false) (hp : p s.dev)
    (ha : AtomicStep s.dev b.call e) :
    ∃ L', Linearized p (H ++ (b.call.exiting.map (Event.respond i)).toList) L' (s.after i e) := by
  cases ha with
  | quiet hexit hdev hans =>
    refine ⟨L, ?_⟩
    rw [hexit]
    simpa using h.quiet hb hop hlive hdev hans
  | @effect r hexit hfree hans hstep =>
    refine ⟨without i L ++ [⟨i, b.call.op, r⟩], ?_⟩
    rw [hexit]
    simpa using h.effect hb hop hlive hfree hans hp hstep
  | ret hexit hans hans' hdev hret =>
    refine ⟨L, ?_⟩
    rw [hexit]
    exact h.respond hb hop hlive hdev hans hans' hret

end Step

theorem moveEvents_step {i : Nat} {b : Caller} (hb : s.callers[i]? = some b) (ch : Choice)
    (t : Sys) :
    moveEvents ⟨s, .step i ch, t⟩ = (b.call.exiting.map (Event.respond i)).toList := by
  simp [moveEvents, Sys.callAt_of hb]

theorem Linearized.step (h : Linearized p H L s) (hi : s.Inv)
    (htries : ∀ c ∈ s.callers, c.call.Tries) (hp : p s.dev) {l : Label} {t : Sys}
    (hl : s.step l = some t) : ∃ L', Linearized p (H ++ moveEvents ⟨s, l, t⟩) L' t := by
  rcases Sys.step_effect hl with ⟨op, rfl, rfl⟩ | ⟨i, ch, b, e, rfl, hb, he, rfl⟩
  · exact ⟨L, h.invoke op⟩
  · have hmem := List.mem_of_getElem? hb
    obtain ⟨hop, hlive⟩ := Call.step_op he
    rw [moveEvents_step hb]
    exact h.atomic hb hop hlive hp
      (Call.step_atomic he hi.fault (hi.calls b hmem) (htries b hmem))

theorem machine_linearized {tr : List (Move Sys Label)} (h : machine.Run tr s)
    (hp : ∀ m ∈ tr, p m.pre.dev) : ∃ L, Linearized p (history tr) L s := by
  induction h with
  | start hs =>
    cases hs
    exact ⟨[], .fresh⟩
  | @snoc tr s l t hr hl ih =>
    obtain ⟨L, hL⟩ := ih fun m hm => hp m (List.mem_append_left _ hm)
    have hlast : p s.dev := hp ⟨s, l, t⟩ (by simp)
    have hhist : history (tr ++ [⟨s, l, t⟩]) = history tr ++ moveEvents ⟨s, l, t⟩ := by
      simp [history]
    rw [hhist]
    exact hL.step (machine_inv hr) (machine_tries hr) hlast hl

theorem Linearized.linearization (h : Linearized p H L s) :
    Linearization sequentialDevice .fresh H L s.dev := by
  have hany : ∀ d op r d', (sequentialDevice.within p).step d op r d' →
      sequentialDevice.step (id d) op r (id d') := fun _ _ _ _ hs => hs.2
  exact h.linear.map hany

/-- In every interleaving of any calls, what the callers see is a sequence of
whole operations that ends in the state of the device. -/
theorem history_linearizable {tr : List (Move Sys Label)} (h : machine.Run tr s) :
    ∃ L, Linearization sequentialDevice .fresh (history tr) L s.dev := by
  obtain ⟨L, hL⟩ := machine_linearized (p := fun _ => True) h (by simp)
  exact ⟨L, hL.linearization⟩

/-- A write and a read overlap: the write takes effect between the read's
sample and its dequeue. -/
def overlapping : List Label :=
  [.invoke (.read ⟨2, true⟩), .invoke (.write ⟨[7], true⟩), .step 0 {}, .step 0 {}, .step 1 {},
    .step 1 {}, .step 1 {}, .step 1 { reach := 1 }, .step 0 { reach := 2 }, .step 0 {}, .step 0 {},
    .step 1 {}, .step 1 {}]

theorem history_linearizable_overlapping : ∃ tr s, machine.Run tr s ∧
    history tr = [.invoke 0 (.read ⟨2, true⟩), .invoke 1 (.write ⟨[7], true⟩),
      .respond 0 (.read ⟨1, [7]⟩), .respond 1 (.write 1)] ∧
    ∃ L, Linearization sequentialDevice .fresh (history tr) L s.dev := by
  have hrun : (machine.replay .fresh overlapping).map (fun p => history p.1) =
      some [.invoke 0 (.read ⟨2, true⟩), .invoke 1 (.write ⟨[7], true⟩),
        .respond 0 (.read ⟨1, [7]⟩), .respond 1 (.write 1)] := rfl
  obtain ⟨tr, s, hr, heq⟩ := Lts.exists_run_of_replay (M := machine) rfl hrun
  exact ⟨tr, s, hr, heq, history_linearizable hr⟩

/-- In a run in which no EIO and no DISCONNECT is ever active, the callers
see a bounded queue of bytes. -/
theorem history_linearizable_queue {tr : List (Move Sys Label)} (h : machine.Run tr s)
    (hquiet : ∀ m ∈ tr, faultInterruptsRead m.pre.dev.fault = false) :
    ∃ L, Linearization byteQueue [] (history tr) L s.dev.fifo := by
  obtain ⟨L, hL⟩ := machine_linearized (p := fun d => faultInterruptsRead d.fault = false) h hquiet
  have hqueue : ∀ d op r d',
      (sequentialDevice.within fun d => faultInterruptsRead d.fault = false).step d op r d' →
      byteQueue.step d.fifo op r d'.fifo := fun _ _ _ _ hs => hs.2.queueStep hs.1
  exact ⟨L, hL.linear.map hqueue⟩

theorem history_linearizable_queue_overlapping : ∃ tr s, machine.Run tr s ∧
    (history tr).length = 4 ∧ ∃ L, Linearization byteQueue [] (history tr) L s.dev.fifo := by
  have hrun : (machine.replay .fresh overlapping).map (fun p =>
      ((history p.1).length, p.1.all fun m => !faultInterruptsRead m.pre.dev.fault)) =
        some (4, true) := rfl
  obtain ⟨tr, s, hr, heq⟩ := Lts.exists_run_of_replay (M := machine) rfl hrun
  simp only [Prod.mk.injEq, List.all_eq_true, Bool.not_eq_true'] at heq
  exact ⟨tr, s, hr, heq.1, history_linearizable_queue hr heq.2⟩

end VDevLab.Kernel
