import VDevLab.Kernel.Machine

/-!
# What one step of a call can do

One inductive family per operation lists the moves of its step function,
each with the guard under which the code takes it. The invariants of the
later modules split on these families and never unfold a step function.
-/

namespace VDevLab.Kernel

/-! ## Read -/

/-- The device after a read sampled the fault. -/
def Device.sampled (d : Device) (l : ReadLocals) : Device :=
  { d with fault := (applyReadFault d.fault l).fault }

section Read

variable (a : ReadArgs) (d : Device) (ch : Choice) (woken : Bool)

inductive ReadMove : ReadPc → Effect (Ctl ReadPc ReadResult) → Prop
  | zero : a.count = 0 → ReadMove .start ⟨d, none, woken, .exit ⟨0, []⟩⟩
  | enter : a.count ≠ 0 → ReadMove .start ⟨d, none, woken, .run (.fault ⟨false, 0⟩)⟩
  | sampleDelay {l s} : applyReadFault d.fault l = s → s.delayMs ≠ 0 →
      ReadMove (.fault l)
        ⟨d.sampled l, none, woken, .run (.delay s.delayMs s.ret s.locals)⟩
  | sampleFail {l s} : applyReadFault d.fault l = s → s.delayMs = 0 → s.ret ≠ 0 →
      ReadMove (.fault l) ⟨d.sampled l, none, woken, .exit ⟨s.ret, []⟩⟩
  | samplePass {l s} : applyReadFault d.fault l = s → s.delayMs = 0 → s.ret = 0 →
      ReadMove (.fault l) ⟨d.sampled l, none, woken, .run (.lock s.locals)⟩
  | delayInterrupted {ms ret l} : ch.signal = true →
      ReadMove (.delay ms ret l) ⟨d, none, woken, .exit (.error ERESTARTSYS)⟩
  | delayFail {ms ret l} : ret ≠ 0 →
      ReadMove (.delay ms ret l) ⟨d, none, woken, .exit ⟨ret, []⟩⟩
  | delayPass {ms l} : ReadMove (.delay ms 0 l) ⟨d, none, woken, .run (.lock l)⟩
  | lockInterrupted {l} : ch.signal = true →
      ReadMove (.lock l) ⟨d, none, woken, .exit (.error EINTR)⟩
  | again {l} : ch.signal = false → kfifoIsEmpty d = true → a.nonblock = true →
      ReadMove (.lock l) ⟨d, none, woken, .exit (.error EAGAIN)⟩
  | block {l} : ch.signal = false → kfifoIsEmpty d = true → a.nonblock = false →
      ReadMove (.lock l) ⟨d, none, woken, .run (.enqueue l)⟩
  | dequeue {l c} : ch.signal = false → kfifoIsEmpty d = false →
      userCopy (readToCopy a d l) ch.reach = c → c.copied ≠ 0 →
      ReadMove (.lock l) ⟨(readDequeue d c).1, none, woken, .run (.wake (readDequeue d c).2)⟩
  | copyFault {l c} : ch.signal = false → kfifoIsEmpty d = false →
      userCopy (readToCopy a d l) ch.reach = c → c.copied = 0 →
      ReadMove (.lock l) ⟨(readDequeue d c).1, none, woken, .exit (readDequeue d c).2⟩
  | queue {l} : ReadMove (.enqueue l) ⟨d, none, false, .run (.checkFifo ch.signal l)⟩
  | fifoEmpty {sig l} : kfifoIsEmpty d = true →
      ReadMove (.checkFifo sig l) ⟨d, none, woken, .run (.checkFault sig l)⟩
  | fifoReady {sig l} : kfifoIsEmpty d = false →
      ReadMove (.checkFifo sig l) ⟨d, none, woken, .run (.fault l)⟩
  | faultReady {sig l} : faultInterruptsRead d.fault = true →
      ReadMove (.checkFault sig l) ⟨d, none, woken, .run (.fault l)⟩
  | waitInterrupted {l} : faultInterruptsRead d.fault = false →
      ReadMove (.checkFault true l) ⟨d, none, woken, .exit (.error ERESTARTSYS)⟩
  | sleep {l} : faultInterruptsRead d.fault = false →
      ReadMove (.checkFault false l) ⟨d, none, woken, .run (.sleep l)⟩
  | resume {l} : ReadMove (.sleep l) ⟨d, none, woken, .run (.enqueue l)⟩
  | wake {res} : ReadMove (.wake res) ⟨d, some .writeq, woken, .exit res⟩

variable {a d ch woken}

theorem readStep_move {pc e} (h : readStep a d ch woken pc = some e) :
    ReadMove a d ch woken pc e := by
  cases pc with
  | start =>
    simp only [readStep] at h
    split at h <;> rw [goto_eq_some] at h <;> subst h
    · next h0 => exact .zero h0
    · next h0 => exact .enter h0
  | fault l =>
    simp only [readStep] at h
    split at h
    · next hd => rw [goto_eq_some] at h; subst h; exact .sampleDelay rfl hd
    · next hd =>
      rw [ne_eq, not_not] at hd
      split at h <;> rw [goto_eq_some] at h <;> subst h
      · next hr => exact .sampleFail rfl hd hr
      · next hr => exact .samplePass rfl hd (not_not.mp hr)
  -- the sampled return value is carried through the sleep
  | delay ms ret l =>
    simp only [readStep] at h
    split at h
    · next hs => rw [goto_eq_some] at h; subst h; exact .delayInterrupted hs
    · split at h <;> rw [goto_eq_some] at h <;> subst h
      · next hr => exact .delayFail hr
      · next hr => cases not_not.mp hr; exact .delayPass
  | lock l =>
    simp only [readStep] at h
    split at h
    · next hs => rw [goto_eq_some] at h; subst h; exact .lockInterrupted hs
    · next hs =>
      have hs := Bool.eq_false_iff.mpr hs
      split at h
      · next he =>
        split at h <;> rw [goto_eq_some] at h <;> subst h
        · next hn => exact .again hs he hn
        · next hn => exact .block hs he (Bool.eq_false_iff.mpr hn)
      · next he =>
        have he := Bool.eq_false_iff.mpr he
        split at h <;> rw [goto_eq_some] at h <;> subst h
        · next hc => exact .dequeue hs he rfl hc
        · next hc => exact .copyFault hs he rfl (not_not.mp hc)
  | enqueue l =>
    rw [readStep, goto_eq_some] at h
    subst h
    exact .queue
  | checkFifo sig l =>
    simp only [readStep] at h
    split at h <;> rw [goto_eq_some] at h <;> subst h
    · next he => exact .fifoEmpty he
    · next he => exact .fifoReady (Bool.eq_false_iff.mpr he)
  | checkFault sig l =>
    simp only [readStep] at h
    split at h
    · next hf => rw [goto_eq_some] at h; subst h; exact .faultReady hf
    · next hf =>
      have hf := Bool.eq_false_iff.mpr hf
      cases sig <;> simp only [if_true, Bool.false_eq_true, if_false] at h <;>
        rw [goto_eq_some] at h <;> subst h
      · exact .sleep hf
      · exact .waitInterrupted hf
  | sleep l =>
    simp only [readStep] at h
    split at h
    · rw [goto_eq_some] at h; subst h; exact .resume
    · cases h
  | wake res =>
    simp only [readStep, Option.some.injEq] at h
    subst h
    exact .wake

end Read

/-! ## Write -/

section Write

variable (a : WriteArgs) (d : Device) (ch : Choice) (woken : Bool)

inductive WriteMove : WritePc → Effect (Ctl WritePc Int) → Prop
  | zero : a.data = [] → WriteMove .start ⟨d, none, woken, .exit 0⟩
  | enter : a.data ≠ [] → WriteMove .start ⟨d, none, woken, .run .top⟩
  | gone : isDisconnected d.fault = true → WriteMove .top ⟨d, none, woken, .exit (-ENODEV)⟩
  | tryNow : isDisconnected d.fault = false → a.nonblock = true →
      WriteMove .top ⟨d, none, woken, .run .fullCheck⟩
  | wait : isDisconnected d.fault = false → a.nonblock = false →
      WriteMove .top ⟨d, none, woken, .run .enqueue⟩
  | again : kfifoIsFull d = true → WriteMove .fullCheck ⟨d, none, woken, .exit (-EAGAIN)⟩
  | room : kfifoIsFull d = false → WriteMove .fullCheck ⟨d, none, woken, .run .lock⟩
  | queue : WriteMove .enqueue ⟨d, none, false, .run (.checkFifo ch.signal)⟩
  | fifoFull {sig} : kfifoIsFull d = true →
      WriteMove (.checkFifo sig) ⟨d, none, woken, .run (.checkDisconnect sig)⟩
  | fifoReady {sig} : kfifoIsFull d = false →
      WriteMove (.checkFifo sig) ⟨d, none, woken, .run .recheck⟩
  | faultReady {sig} : isDisconnected d.fault = true →
      WriteMove (.checkDisconnect sig) ⟨d, none, woken, .run .recheck⟩
  | waitInterrupted : isDisconnected d.fault = false →
      WriteMove (.checkDisconnect true) ⟨d, none, woken, .exit (-ERESTARTSYS)⟩
  | sleep : isDisconnected d.fault = false →
      WriteMove (.checkDisconnect false) ⟨d, none, woken, .run .sleep⟩
  | resume : WriteMove .sleep ⟨d, none, woken, .run .enqueue⟩
  | restart : isDisconnected d.fault = true → WriteMove .recheck ⟨d, none, woken, .run .top⟩
  | toLock : isDisconnected d.fault = false → WriteMove .recheck ⟨d, none, woken, .run .lock⟩
  | lockInterrupted : ch.signal = true → WriteMove .lock ⟨d, none, woken, .exit (-EINTR)⟩
  | lockedAgain : ch.signal = false → kfifoIsFull d = true → a.nonblock = true →
      WriteMove .lock ⟨d, none, woken, .exit (-EAGAIN)⟩
  | lockedRestart : ch.signal = false → kfifoIsFull d = true → a.nonblock = false →
      WriteMove .lock ⟨d, none, woken, .run .top⟩
  | enqueue {c} : ch.signal = false → kfifoIsFull d = false →
      userCopy (writeToCopy a d) ch.reach = c → c.copied ≠ 0 →
      WriteMove .lock ⟨writeEnqueue a d c, none, woken, .run (.wake (copyResult c))⟩
  | copyFault {c} : ch.signal = false → kfifoIsFull d = false →
      userCopy (writeToCopy a d) ch.reach = c → c.copied = 0 →
      WriteMove .lock ⟨writeEnqueue a d c, none, woken, .exit (copyResult c)⟩
  | wake {ret} : WriteMove (.wake ret) ⟨d, some .readq, woken, .exit ret⟩

variable {a d ch woken}

theorem writeStep_move {pc e} (h : writeStep a d ch woken pc = some e) :
    WriteMove a d ch woken pc e := by
  cases pc with
  | start =>
    simp only [writeStep, List.length_eq_zero_iff] at h
    split at h <;> rw [goto_eq_some] at h <;> subst h
    · next h0 => exact .zero h0
    · next h0 => exact .enter h0
  | top =>
    simp only [writeStep] at h
    split at h
    · next hd => rw [goto_eq_some] at h; subst h; exact .gone hd
    · next hd =>
      have hd := Bool.eq_false_iff.mpr hd
      split at h <;> rw [goto_eq_some] at h <;> subst h
      · next hn => exact .tryNow hd hn
      · next hn => exact .wait hd (Bool.eq_false_iff.mpr hn)
  | fullCheck =>
    simp only [writeStep] at h
    split at h <;> rw [goto_eq_some] at h <;> subst h
    · next hf => exact .again hf
    · next hf => exact .room (Bool.eq_false_iff.mpr hf)
  | enqueue =>
    rw [writeStep, goto_eq_some] at h
    subst h
    exact .queue
  | checkFifo sig =>
    simp only [writeStep] at h
    split at h <;> rw [goto_eq_some] at h <;> subst h
    · next hf => exact .fifoFull hf
    · next hf => exact .fifoReady (Bool.eq_false_iff.mpr hf)
  | checkDisconnect sig =>
    simp only [writeStep] at h
    split at h
    · next hd => rw [goto_eq_some] at h; subst h; exact .faultReady hd
    · next hd =>
      have hd := Bool.eq_false_iff.mpr hd
      cases sig <;> simp only [if_true, Bool.false_eq_true, if_false] at h <;>
        rw [goto_eq_some] at h <;> subst h
      · exact .sleep hd
      · exact .waitInterrupted hd
  | sleep =>
    simp only [writeStep] at h
    split at h
    · rw [goto_eq_some] at h; subst h; exact .resume
    · cases h
  | recheck =>
    simp only [writeStep] at h
    split at h <;> rw [goto_eq_some] at h <;> subst h
    · next hd => exact .restart hd
    · next hd => exact .toLock (Bool.eq_false_iff.mpr hd)
  | lock =>
    simp only [writeStep] at h
    split at h
    · next hs => rw [goto_eq_some] at h; subst h; exact .lockInterrupted hs
    · next hs =>
      have hs := Bool.eq_false_iff.mpr hs
      split at h
      · next hf =>
        split at h <;> rw [goto_eq_some] at h <;> subst h
        · next hn => exact .lockedAgain hs hf hn
        · next hn => exact .lockedRestart hs hf (Bool.eq_false_iff.mpr hn)
      · next hf =>
        have hf := Bool.eq_false_iff.mpr hf
        split at h <;> rw [goto_eq_some] at h <;> subst h
        · next hc => exact .enqueue hs hf rfl hc
        · next hc => exact .copyFault hs hf rfl (not_not.mp hc)
  | wake ret =>
    simp only [writeStep, Option.some.injEq] at h
    subst h
    exact .wake

end Write

/-! ## Poll -/

section Poll

variable (events : PollMask) (d : Device) (ch : Choice) (woken : Bool)

inductive PollMove : PollPc → Effect (Ctl PollPc PollResult) → Prop
  | registerRead : PollMove .registerRead ⟨d, none, false, .run .registerWrite⟩
  | registerWrite : PollMove .registerWrite ⟨d, none, woken, .run (.sampleFault false)⟩
  | faultMask {t mask} : pollFaultMask d.fault = some mask →
      PollMove (.sampleFault t) ⟨d, none, woken, .run (.decide t mask)⟩
  | noFaultMask {t} : pollFaultMask d.fault = none →
      PollMove (.sampleFault t) ⟨d, none, woken, .run (.sampleFifo t)⟩
  | fifoMask {t} : PollMove (.sampleFifo t) ⟨d, none, woken, .run (.decide t (pollFifoMask d))⟩
  | hit {t mask} : mask &&& pollFilter events ≠ 0 →
      PollMove (.decide t mask) ⟨d, none, woken, .exit ⟨1, mask &&& pollFilter events⟩⟩
  | timeout {t mask} : PollMove (.decide t mask) ⟨d, none, woken, .exit ⟨0, 0⟩⟩
  | interrupted {t mask} : ch.signal = true →
      PollMove (.decide t mask) ⟨d, none, woken, .exit ⟨-EINTR, 0⟩⟩
  | sleep {t mask} : mask &&& pollFilter events = 0 →
      PollMove (.decide t mask) ⟨d, none, woken, .run .sleep⟩
  | resume : PollMove .sleep ⟨d, none, false, .run (.sampleFault ch.timeout)⟩

variable {events d ch woken}

theorem pollStep_move {pc e} (h : pollStep events d ch woken pc = some e) :
    PollMove events d ch woken pc e := by
  cases pc with
  | registerRead =>
    rw [pollStep, goto_eq_some] at h
    subst h
    exact .registerRead
  | registerWrite =>
    rw [pollStep, goto_eq_some] at h
    subst h
    exact .registerWrite
  | sampleFault t =>
    simp only [pollStep] at h
    split at h <;> rw [goto_eq_some] at h <;> subst h
    · next hm => exact .faultMask hm
    · next hm => exact .noFaultMask hm
  | sampleFifo t =>
    rw [pollStep, goto_eq_some] at h
    subst h
    exact .fifoMask
  | decide t mask =>
    simp only [pollStep] at h
    split at h
    · next hm => rw [goto_eq_some] at h; subst h; exact .hit hm
    · next hm =>
      split at h
      · rw [goto_eq_some] at h; subst h; exact .timeout
      · split at h <;> rw [goto_eq_some] at h <;> subst h
        · next hs => exact .interrupted hs
        · exact .sleep (not_not.mp hm)
  | sleep =>
    simp only [pollStep] at h
    split at h
    · rw [goto_eq_some] at h; subst h; exact .resume
    · cases h

end Poll

/-! ## Ioctl -/

section Ioctl

variable (cmd : IoctlCmd) (d : Device) (ch : Choice) (woken : Bool)

inductive IoctlMove : IoctlPc → Effect (Ctl IoctlPc IoctlResult) → Prop
  | setUnreadable {config} : cmd = .setFault config →
      IoctlMove .start ⟨d, none, woken, .exit (.error EFAULT)⟩
  | setRefused {config e} : cmd = .setFault config → validateFault config = .error e →
      IoctlMove .start ⟨d, none, woken, .exit ⟨e, none⟩⟩
  | setAccepted {config stored} : cmd = .setFault config → validateFault config = .ok stored →
      IoctlMove .start ⟨d, none, woken, .run (.store stored)⟩
  | get : cmd = .getFault → IoctlMove .start ⟨d, none, woken, .run (.copyOut d.fault)⟩
  | clear : cmd = .clearFault →
      IoctlMove .start ⟨{ d with fault := clearFaultLocked }, none, woken, .run .wakeRead⟩
  | reset : cmd = .reset →
      IoctlMove .start ⟨⟨[], clearFaultLocked⟩, none, woken, .run .wakeRead⟩
  | other : cmd = .other → IoctlMove .start ⟨d, none, woken, .exit (.error ENOTTY)⟩
  | store {config} :
      IoctlMove (.store config) ⟨{ d with fault := config }, none, woken, .run .wakeRead⟩
  | outUnwritable {config} :
      IoctlMove (.copyOut config) ⟨d, none, woken, .exit (.error EFAULT)⟩
  | out {config} : IoctlMove (.copyOut config) ⟨d, none, woken, .exit ⟨0, some config⟩⟩
  | wakeRead : IoctlMove .wakeRead ⟨d, some .readq, woken, .run .wakeWrite⟩
  | wakeWrite : IoctlMove .wakeWrite ⟨d, some .writeq, woken, .exit ⟨0, none⟩⟩

variable {cmd d ch woken}

theorem ioctlStep_move {pc e} (h : ioctlStep cmd d ch woken pc = some e) :
    IoctlMove cmd d woken pc e := by
  cases pc with
  | start =>
    simp only [ioctlStep] at h
    split at h
    · split at h
      · rw [goto_eq_some] at h; subst h; exact .setUnreadable rfl
      · split at h <;> rw [goto_eq_some] at h <;> subst h
        · next hv => exact .setRefused rfl hv
        · next hv => exact .setAccepted rfl hv
    · rw [goto_eq_some] at h; subst h; exact .get rfl
    · rw [goto_eq_some] at h; subst h; exact .clear rfl
    · rw [goto_eq_some] at h; subst h; exact .reset rfl
    · rw [goto_eq_some] at h; subst h; exact .other rfl
  | store config =>
    rw [ioctlStep, goto_eq_some] at h
    subst h
    exact .store
  | copyOut config =>
    simp only [ioctlStep] at h
    split at h <;> rw [goto_eq_some] at h <;> subst h
    · exact .outUnwritable
    · exact .out
  | wakeRead =>
    simp only [ioctlStep, Option.some.injEq] at h
    subst h
    exact .wakeRead
  | wakeWrite =>
    simp only [ioctlStep, Option.some.injEq] at h
    subst h
    exact .wakeWrite

end Ioctl

/-! ## Calls and the system -/

/-- The moves of a call: a move of its operation, or its return. -/
inductive CallMove (d : Device) (ch : Choice) (woken : Bool) : Call → Effect Call → Prop
  | read {a pc e} : ReadMove a d ch woken pc e →
      CallMove d ch woken (.read a (.run pc)) (e.map (.read a))
  | write {a pc e} : WriteMove a d ch woken pc e →
      CallMove d ch woken (.write a (.run pc)) (e.map (.write a))
  | poll {events pc e} : PollMove events d ch woken pc e →
      CallMove d ch woken (.poll events (.run pc)) (e.map (.poll events))
  | ioctl {cmd pc e} : IoctlMove cmd d woken pc e →
      CallMove d ch woken (.ioctl cmd (.run pc)) (e.map (.ioctl cmd))
  | readReturn {a res} : CallMove d ch woken (.read a (.exit res))
      ⟨d, none, woken, .read a (.returned res)⟩
  | writeReturn {a res} : CallMove d ch woken (.write a (.exit res))
      ⟨d, none, woken, .write a (.returned res)⟩
  | pollReturn {events res} : CallMove d ch woken (.poll events (.exit res))
      ⟨d, none, woken, .poll events (.returned res)⟩
  | ioctlReturn {cmd res} : CallMove d ch woken (.ioctl cmd (.exit res))
      ⟨d, none, woken, .ioctl cmd (.returned res)⟩

theorem Call.step_move {d : Device} {ch : Choice} {woken : Bool} {c : Call} {e : Effect Call}
    (h : c.step d ch woken = some e) : CallMove d ch woken c e := by
  cases c with
  | read a ctl =>
    obtain ⟨f, hf, rfl⟩ := Option.map_eq_some_iff.mp h
    cases ctl with
    | run pc => exact .read (readStep_move hf)
    | exit res => cases goto_eq_some.mp hf; exact .readReturn
    | returned res => cases hf
  | write a ctl =>
    obtain ⟨f, hf, rfl⟩ := Option.map_eq_some_iff.mp h
    cases ctl with
    | run pc => exact .write (writeStep_move hf)
    | exit res => cases goto_eq_some.mp hf; exact .writeReturn
    | returned res => cases hf
  | poll events ctl =>
    obtain ⟨f, hf, rfl⟩ := Option.map_eq_some_iff.mp h
    cases ctl with
    | run pc => exact .poll (pollStep_move hf)
    | exit res => cases goto_eq_some.mp hf; exact .pollReturn
    | returned res => cases hf
  | ioctl cmd ctl =>
    obtain ⟨f, hf, rfl⟩ := Option.map_eq_some_iff.mp h
    cases ctl with
    | run pc => exact .ioctl (ioctlStep_move hf)
    | exit res => cases goto_eq_some.mp hf; exact .ioctlReturn
    | returned res => cases hf

/-- The system after a new call. -/
def Sys.invoked (s : Sys) (op : Op) : Sys :=
  { s with callers := s.callers ++ [⟨op.call, false⟩] }

/-- The system after caller `i` made the step `e`. -/
def Sys.after (s : Sys) (i : Nat) (e : Effect Call) : Sys :=
  { dev := e.dev,
    callers := (s.callers.set i ⟨e.ctl, e.woken⟩).map (Caller.wakeUp e.wake) }

/-- A step of the system is a new call or one step of one caller. -/
theorem Sys.step_effect {s t : Sys} {l : Label} (h : s.step l = some t) :
    (∃ op, l = .invoke op ∧ t = s.invoked op) ∨
    (∃ i ch c e, l = .step i ch ∧ s.callers[i]? = some c ∧
      c.call.step s.dev ch c.woken = some e ∧ t = s.after i e) := by
  cases l with
  | invoke op =>
    simp only [Sys.step, Option.some.injEq] at h
    exact .inl ⟨op, rfl, h.symm⟩
  | step i ch =>
    simp only [Sys.step] at h
    split at h
    · cases h
    · next c hc =>
      obtain ⟨e, he, rfl⟩ := Option.map_eq_some_iff.mp h
      exact .inr ⟨i, ch, c, e, rfl, hc, he, rfl⟩

/-- The same with the move the caller made. -/
theorem Sys.step_cases {s t : Sys} {l : Label} (h : s.step l = some t) :
    (∃ op, l = .invoke op ∧ t = s.invoked op) ∨
    (∃ i ch c e, l = .step i ch ∧ s.callers[i]? = some c ∧
      CallMove s.dev ch c.woken c.call e ∧ t = s.after i e) := by
  rcases Sys.step_effect h with h | ⟨i, ch, c, e, hl, hc, he, ht⟩
  · exact .inl h
  · exact .inr ⟨i, ch, c, e, hl, hc, Call.step_move he, ht⟩

@[simp] theorem Caller.wakeUp_call (w : Option Queue) (c : Caller) :
    (c.wakeUp w).call = c.call := by
  unfold Caller.wakeUp
  cases w with
  | none => rfl
  | some q => simp only; split <;> rfl

theorem Sys.getElem?_invoked {s : Sys} {j : Nat} {c : Caller} (op : Op)
    (h : s.callers[j]? = some c) : (s.invoked op).callers[j]? = some c := by
  rw [Sys.invoked, List.getElem?_append_left (List.getElem?_eq_some_iff.mp h).1]
  exact h

/-- After a new call, a caller is an old one or the new one. -/
theorem Sys.invoked_cases {s : Sys} {op : Op} {j : Nat} {c : Caller}
    (h : (s.invoked op).callers[j]? = some c) :
    s.callers[j]? = some c ∨ (j = s.callers.length ∧ c = ⟨op.call, false⟩) := by
  by_cases hj : j < s.callers.length
  · rw [Sys.invoked, List.getElem?_append_left hj] at h
    exact .inl h
  · rw [Sys.invoked, List.getElem?_append_right (Nat.not_lt.mp hj),
      List.getElem?_singleton] at h
    split at h
    · next h0 => cases h; exact .inr ⟨by omega, rfl⟩
    · cases h

/-- The callers after a step: the one that moved and, untouched but for a
wake-up, the others. -/
theorem Sys.after_getElem? {s : Sys} {i : Nat} {c : Caller} (hc : s.callers[i]? = some c)
    (e : Effect Call) (j : Nat) :
    (s.after i e).callers[j]? =
      if i = j then some (Caller.wakeUp e.wake ⟨e.ctl, e.woken⟩)
      else (s.callers[j]?).map (Caller.wakeUp e.wake) := by
  have hi : i < s.callers.length := (List.getElem?_eq_some_iff.mp hc).1
  simp only [Sys.after, List.getElem?_map, List.getElem?_set]
  by_cases hij : i = j
  · subst hij; simp [hi]
  · simp [hij]

theorem Sys.after_getElem?_self {s : Sys} {i : Nat} {c : Caller} (hc : s.callers[i]? = some c)
    (e : Effect Call) :
    (s.after i e).callers[i]? = some (Caller.wakeUp e.wake ⟨e.ctl, e.woken⟩) := by
  rw [Sys.after_getElem? hc, if_pos rfl]

/-- The call with the given number, without its wake-ups. -/
def Sys.callAt (s : Sys) (i : Nat) : Option Call := (s.callers[i]?).map (·.call)

theorem Sys.callAt_of {s : Sys} {i : Nat} {c : Caller} (hc : s.callers[i]? = some c) :
    s.callAt i = some c.call := by
  rw [Sys.callAt, hc]
  rfl

theorem Sys.callAt_after {s : Sys} {i : Nat} {c : Caller} (hc : s.callers[i]? = some c)
    (e : Effect Call) (j : Nat) :
    (s.after i e).callAt j = if i = j then some e.ctl else s.callAt j := by
  rw [Sys.callAt, Sys.after_getElem? hc]
  split
  · simp
  · simp [Sys.callAt, Function.comp_def]

theorem Sys.callAt_invoked (s : Sys) (op : Op) (j : Nat) :
    (s.invoked op).callAt j = if j = s.callers.length then some op.call else s.callAt j := by
  rcases Nat.lt_trichotomy j s.callers.length with hj | hj | hj
  · rw [if_neg (by omega), Sys.callAt, Sys.invoked, List.getElem?_append_left hj]
    rfl
  · rw [if_pos hj, Sys.callAt, Sys.invoked, hj]
    simp
  · rw [if_neg (by omega), Sys.callAt, Sys.callAt, Sys.invoked,
      List.getElem?_eq_none (by simp; omega), List.getElem?_eq_none (by omega)]

end VDevLab.Kernel
