import VDevLab.Kernel.Barrier
import VDevLab.Runner.Isolation
import VDevLab.Runner.Scheduler

/-!
# The events of a scenario as a script for the device

Only the scheduler installs faults while the application reads and polls. So
the events are a program over the fault record: between two of them the
record is the one that the program says, as far as EIO occurrences have not
been taken from it.

Read the same way, the events tell in advance which of them fails. A delay
out of the kernel's range, a text that UTF-8 cannot encode and a write to a
disconnected device stop the scheduler, and nothing else does.
-/

namespace VDevLab

open PyStr Kernel Runner

/-! ## The script -/

/-- The record that an action leaves. -/
def Action.leaves (f : FaultConfig) : Action → FaultConfig
  | .write _ => f
  | .fault g => rawConfig g
  | .clear => clearFaultLocked
  | .reset => clearFaultLocked

/-- The kernel takes the fault. -/
def Fault.taken : Fault → Bool
  | .delay duration => 1 ≤ duration.1 && duration.1 ≤ 10000
  | _ => true

/-- The action goes through under a record. -/
def Action.runs (f : FaultConfig) : Action → Bool
  | .write data => (encodeUtf8 data.1).isSome && !isDisconnected f
  | .fault g => g.taken
  | .clear => true
  | .reset => true

/-- The record that the events leave, one after the other. -/
def installed (f : FaultConfig) (events : List Event) : FaultConfig :=
  events.foldl (fun f e => e.action.leaves f) f

/-- All events go through, each under what the ones before it left. -/
def scriptRuns (f : FaultConfig) : List Event → Bool
  | [] => true
  | e :: events => e.action.runs f && scriptRuns (e.action.leaves f) events

@[simp] theorem installed_concat (f : FaultConfig) (events : List Event) (e : Event) :
    installed f (events ++ [e]) = e.action.leaves (installed f events) := by
  simp [installed]

theorem scriptRuns_concat (f : FaultConfig) (events : List Event) (e : Event) :
    scriptRuns f (events ++ [e]) = (scriptRuns f events && e.action.runs (installed f events)) := by
  induction events generalizing f with
  | nil => simp [scriptRuns, installed]
  | cons e' events ih =>
    simp only [List.cons_append, scriptRuns, ih, Bool.and_assoc]
    rfl

/-! ## Faults at the kernel -/

theorem Fault.canonical {g : Fault} (h : g.taken = true) : Canonical (rawConfig g) := by
  cases g with
  | eio repeats =>
    exact .eio (word_ne_zero repeats.2.2 (by decide) repeats.2.1)
      (word_le repeats.2.2 (by decide))
  | delay duration =>
    simp only [Fault.taken, Bool.and_eq_true, decide_eq_true_eq] at h
    exact .delay (word_ne_zero duration.2 (by decide) h.1) (word_le h.2 (by decide))
  | partialRead bytes =>
    exact .partialRead (word_ne_zero bytes.2.2 (by decide) bytes.2.1)
      (word_le bytes.2.2 (by decide))
  | disconnect => exact .disconnect

/-- What validation makes of the raw words. -/
theorem Fault.validate (g : Fault) :
    validateFault (rawConfig g) = if g.taken then .ok (rawConfig g) else .error (-EINVAL) := by
  by_cases ht : g.taken = true
  · rw [if_pos ht]
    exact (Fault.canonical ht).validateFault
  · rw [if_neg ht]
    cases hv : validateFault (rawConfig g) with
    | error e => rw [validateFault_error hv]
    | ok stored =>
      cases g with
      | delay duration =>
        obtain ⟨hpos, hmax⟩ := validateFault_delayMs hv rfl
        have hword : (UInt32.ofNat duration.1).toNat = duration.1 :=
          toNat_word duration.2 (by decide)
        simp only [rawConfig] at hpos hmax
        rw [UInt32.le_iff_toNat_le, hword] at hmax
        have hne := toNat_ne_zero hpos
        rw [hword] at hne
        refine absurd ?_ ht
        have hmax' : duration.1 ≤ 10000 := hmax
        simp [Fault.taken, hmax']
        omega
      | eio => exact absurd rfl ht
      | partialRead => exact absurd rfl ht
      | disconnect => exact absurd rfl ht

end VDevLab

namespace VDevLab.Kernel

/-! ## Calls beside the scheduler's -/

/-- The call cannot replace the record any more. -/
def Call.passive : Call → Bool
  | .ioctl _ (.returned _) => true
  | .ioctl _ _ => false
  | _ => true

theorem Call.replacesFault_of_passive {c : Call} (h : c.passive = true) : c.replacesFault = false := by
  cases c with
  | ioctl cmd ctl =>
    cases ctl with
    | returned res => cases cmd <;> rfl
    | _ => cases h
  | _ => rfl

theorem CallMove.passive {d : Device} {ch : Choice} {woken : Bool} {c : Call} {e : Effect Call}
    (h : CallMove d ch woken c e) (hc : c.passive = true) : e.ctl.passive = true := by
  cases h with
  | ioctl => cases hc
  | ioctlReturn => rfl
  | _ => rfl

/-! ## The scheduler's own calls -/

/-- A control call with a readable argument: the record is the old one up to
the store and the new one behind it. A refused one leaves it. -/
def Replacing (f f' : FaultConfig) (refused : Prop) (fault : FaultConfig) :
    Ctl IoctlPc IoctlResult → Prop
  | .run .start => Under f fault
  | .run (.store stored) => Under f fault ∧ stored = f' ∧ ¬ refused
  | .run (.copyOut _) => False
  | .run .wakeRead => Under f' fault ∧ ¬ refused
  | .run .wakeWrite => Under f' fault ∧ ¬ refused
  | .exit res => if res.ret < 0 then refused else Under f' fault ∧ ¬ refused
  | .returned res => if res.ret < 0 then refused else Under f' fault ∧ ¬ refused

/-- The control calls that the backend makes, what each leaves, and when it is
refused. -/
inductive Controls : IoctlCmd → FaultConfig → Prop → Prop
  | clear : Controls .clearFault clearFaultLocked False
  | reset : Controls .reset clearFaultLocked False
  | set {config} : (∀ stored, validateFault config = .ok stored → stored = config) →
      Controls (.setFault config) config (validateFault config ≠ .ok config)

theorem Replacing.keep {f f' fault fault' : FaultConfig} {refused : Prop}
    {ctl : Ctl IoctlPc IoctlResult} (h : Replacing f f' refused fault ctl)
    (hf : Under f fault → Under f fault') (hf' : Under f' fault → Under f' fault') :
    Replacing f f' refused fault' ctl := by
  cases ctl with
  | run pc =>
    cases pc with
    | start => exact hf h
    | store stored => exact ⟨hf h.1, h.2⟩
    | copyOut config => exact h
    | wakeRead => exact ⟨hf' h.1, h.2⟩
    | wakeWrite => exact ⟨hf' h.1, h.2⟩
  | exit res =>
    simp only [Replacing] at h ⊢
    split at h
    · next hneg => rwa [if_pos hneg]
    · next hneg => rw [if_neg hneg]; exact ⟨hf' h.1, h.2⟩
  | returned res =>
    simp only [Replacing] at h ⊢
    split at h
    · next hneg => rwa [if_pos hneg]
    · next hneg => rw [if_neg hneg]; exact ⟨hf' h.1, h.2⟩

theorem Replacing.step {cmd : IoctlCmd} {f f' : FaultConfig} {refused : Prop} {d : Device}
    {ch : Choice} {woken : Bool} {pc : IoctlPc} {e : Effect (Ctl IoctlPc IoctlResult)}
    (hcmd : Controls cmd f' refused) (hreach : faultConfigSize ≤ ch.reach) (hc : Replacing f f' refused d.fault (.run pc))
    (h : ioctlStep cmd d ch woken pc = some e) :
    Replacing f f' refused e.dev.fault e.ctl := by
  cases pc with
  | start =>
    cases hcmd with
    | clear =>
      rw [ioctlStep, goto_eq_some] at h
      subst h
      exact ⟨.inl rfl, not_false⟩
    | reset =>
      rw [ioctlStep, goto_eq_some] at h
      subst h
      exact ⟨.inl rfl, not_false⟩
    | set hvalid =>
      simp only [ioctlStep, if_neg (Nat.not_lt.mpr hreach)] at h
      split at h
      · next x hv =>
        rw [goto_eq_some] at h
        subst h
        have hneg : x < 0 := by
          rw [validateFault_error hv]
          decide
        show if x < 0 then _ else _
        rw [if_pos hneg, hv]
        intro hok
        cases hok
      · next stored hv =>
        rw [goto_eq_some] at h
        subst h
        have hsame := hvalid stored hv
        subst hsame
        exact ⟨hc, rfl, fun hne => hne hv⟩
  | store stored =>
    rw [ioctlStep, goto_eq_some] at h
    subst h
    exact ⟨.inl hc.2.1, hc.2.2⟩
  | copyOut config => exact hc.elim
  | wakeRead =>
    simp only [ioctlStep, Option.some.injEq] at h
    subst h
    exact hc
  | wakeWrite =>
    simp only [ioctlStep, Option.some.injEq] at h
    subst h
    exact hc

theorem Under.disconnected_iff {f fault : FaultConfig} (h : Under f fault) :
    isDisconnected fault = isDisconnected f := by
  by_cases hf : f.type = faultDisconnect
  · have heio : f.type ≠ faultEio := by
      rw [hf]
      decide
    rw [h.eq heio]
  · rw [h.connected hf, isDisconnected, eq_comm, decide_eq_false_iff_not]
    exact hf

/-- A blocking write of readable bytes, begun under a record: on a
disconnected device it fails at once, otherwise it moves bytes or is
interrupted. -/
def Writing (f : FaultConfig) : Ctl WritePc Int → Prop
  | .run .start => True
  | .run .top => True
  | .run .fullCheck => False
  | .run (.wake ret) => isDisconnected f = false ∧ 0 < ret
  | .run _ => isDisconnected f = false
  | .exit ret => if isDisconnected f then ret = -ENODEV else
      0 < ret ∨ ret = -EINTR ∨ ret = -ERESTARTSYS
  | .returned ret => if isDisconnected f then ret = -ENODEV else
      0 < ret ∨ ret = -EINTR ∨ ret = -ERESTARTSYS

theorem Writing.step {f : FaultConfig} {bytes : List UInt8} {d : Device} {ch : Choice}
    {woken : Bool} {pc : WritePc} {e : Effect (Ctl WritePc Int)} (hf : Under f d.fault)
    (hbytes : bytes ≠ []) (hreach : fifoSize ≤ ch.reach) (hc : Writing f (.run pc))
    (h : WriteMove ⟨bytes, false⟩ d ch woken pc e) : Writing f e.ctl := by
  have hdisc := hf.disconnected_iff
  cases h with
  | zero h0 => exact absurd h0 hbytes
  | enter => trivial
  | gone hg =>
    show if _ then _ else _
    rw [if_pos (hdisc.symm.trans hg)]
  | tryNow _ hn => cases hn
  | wait hg => exact hdisc.symm.trans hg
  | again => exact hc.elim
  | room => exact hc.elim
  | queue => exact hc
  | fifoFull => exact hc
  | fifoReady => exact hc
  | faultReady => exact hc
  | waitInterrupted hg =>
    show if _ then _ else _
    rw [if_neg (by rw [← hdisc, hg]; decide)]
    exact .inr (.inr rfl)
  | sleep => exact hc
  | resume => exact hc
  | restart => trivial
  | toLock => exact hc
  | lockInterrupted =>
    have hon : isDisconnected f = false := hc
    show if _ then _ else _
    rw [if_neg (by rw [hon]; decide)]
    exact .inr (.inl rfl)
  | lockedAgain _ _ hn => cases hn
  | lockedRestart => trivial
  | enqueue _ _ hcopy hmoved =>
    refine ⟨hc, ?_⟩
    rw [copyResult_moved hmoved]
    omega
  | @copyFault c _ hroom hcopy hmoved =>
    -- the copy reaches all that fits
    subst hcopy
    have hne := writeToCopy_ne_zero (a := ⟨bytes, false⟩) hbytes hroom
    have hle : writeToCopy ⟨bytes, false⟩ d ≤ fifoSize := by
      simp only [writeToCopy, kfifoAvail]
      omega
    simp only [userCopy] at hmoved
    omega
  | wake =>
    obtain ⟨hon, hpos⟩ := hc
    show if _ then _ else _
    rw [if_neg (by rw [hon]; decide)]
    exact .inl hpos

end VDevLab.Kernel

namespace VDevLab.Runner

open PyStr Kernel

/-! ## Where the scheduler is in the script -/

/-- The call that the scheduler waits for. -/
def Scheduler.current : Scheduler → Option Nat
  | .waiting i _ _ => some i
  | _ => none

/-- The buffers of the scheduler's own calls can be read to their end. -/
def bufferReadable (m : Move RunState RunLabel) : Bool :=
  match m.label with
  | .step i ch => m.pre.scheduler.current ≠ some i || fifoSize ≤ ch.reach
  | _ => true

section Stage

variable (f₀ : FaultConfig) (events : List Event)

/-- The events that are done, the one in progress and what holds of the
record. -/
inductive Stage (s : RunState) : Prop
  | ready {done rest} : events = done ++ rest → s.scheduler = .ready (rest.map (·.dict)) →
      scriptRuns f₀ done = true → Under (installed f₀ done) s.sys.dev.fault → Stage s
  | control {done e rest i call cmd ctl refused} : events = done ++ e :: rest →
      s.scheduler = .waiting i call (rest.map (·.dict)) → scriptRuns f₀ done = true →
      Controls cmd (e.action.leaves (installed f₀ done)) refused →
      (refused ↔ e.action.runs (installed f₀ done) = false) →
      s.sys.callAt i = some (.ioctl cmd ctl) →
      Replacing (installed f₀ done) (e.action.leaves (installed f₀ done)) refused
        s.sys.dev.fault ctl → Stage s
  | write {done atMs data rest i bytes ctl} : events = done ++ ⟨atMs, .write data⟩ :: rest →
      s.scheduler = .waiting i (.write bytes) (rest.map (·.dict)) → scriptRuns f₀ done = true →
      (encodeUtf8 data.1).isSome = true → bytes ≠ [] →
      s.sys.callAt i = some (.write ⟨bytes, false⟩ ctl) →
      Under (installed f₀ done) s.sys.dev.fault → Writing (installed f₀ done) ctl → Stage s
  | raised {done e rest} : events = done ++ e :: rest → s.scheduler = .raised →
      scriptRuns f₀ done = true → e.action.runs (installed f₀ done) = false → Stage s

/-- The position in the script, and that nobody else controls the device. -/
structure Scripted (s : RunState) : Prop where
  inv : s.sys.Inv
  passive : ∀ j c, s.sys.callAt j = some c →
    c.passive = true ∨ s.scheduler.current = some j
  stage : Stage f₀ events s

end Stage

variable {f₀ : FaultConfig} {events : List Event} {order : Words.Order}

theorem encodeCodePoint_ne {c : CodePoint} {bytes : List UInt8}
    (h : encodeCodePoint c = some bytes) : bytes ≠ [] := by
  simp only [encodeCodePoint] at h
  split_ifs at h <;> cases h <;> simp

theorem encodeUtf8_ne {t : Text} {bytes : List UInt8} (h : encodeUtf8 t.1 = some bytes) :
    bytes ≠ [] := by
  obtain ⟨str, hne⟩ := t
  cases str with
  | nil => exact absurd rfl hne
  | cons c str =>
    simp only [encodeUtf8, Option.bind_eq_bind, Option.bind_eq_some_iff] at h
    obtain ⟨b, hb, rest, -, heq⟩ := h
    cases heq
    have := encodeCodePoint_ne hb
    simp [this]

/-- The system call that an event becomes. -/
theorem backendOp_reset : backendOp order .reset = .ok (.ioctl .reset) := by
  rfl

theorem backendOp_clear : backendOp order .clearFault = .ok (.ioctl .clearFault) := by
  rfl

theorem backendOp_fault (g : Fault) :
    backendOp order (.setFault g.configuration) = .ok (.ioctl (.setFault (rawConfig g))) := by
  obtain ⟨payload, hset, -, hread⟩ := setFault_raw order g
  simp only [backendOp, hset]
  show Except.ok _ = _
  rw [ioctlCommand_setFault, hread]

/-- A new call of the scheduler's beside passive ones. -/
theorem Scripted.issued {s : RunState} (h : Scripted f₀ events s)
    (hidle : ∀ j c, s.sys.callAt j = some c → c.passive = true) {op : Op} {call : BackendCall}
    {rest : List PyDict}
    (hstage : Stage f₀ events ⟨s.sys.invoked op, .waiting s.sys.callers.length call rest⟩) :
    Scripted f₀ events ⟨s.sys.invoked op, .waiting s.sys.callers.length call rest⟩ where
  inv := h.inv.invoked op
  passive := by
    intro j c hc
    rw [Sys.callAt_invoked] at hc
    split at hc
    · next hj => exact .inr (by rw [hj]; rfl)
    · exact .inl (hidle j c hc)
  stage := hstage

theorem Scripted.idle {s : RunState} (h : Scripted f₀ events s)
    (hcurrent : s.scheduler.current = none) :
    ∀ j c, s.sys.callAt j = some c → c.passive = true := by
  intro j c hc
  rcases h.passive j c hc with hp | hj
  · exact hp
  · rw [hcurrent] at hj
    cases hj

/-- A fault is stored as its raw words or not at all. -/
theorem fault_controls (g : Fault) : Controls (.setFault (rawConfig g)) (rawConfig g)
    (validateFault (rawConfig g) ≠ .ok (rawConfig g)) := by
  apply Controls.set
  intro stored hv
  rw [g.validate] at hv
  split at hv <;> cases hv
  rfl

theorem fault_refused_iff (g : Fault) :
    validateFault (rawConfig g) ≠ .ok (rawConfig g) ↔ g.taken = false := by
  rw [g.validate]
  cases g.taken <;> simp

/-- A write of something is a new call. -/
theorem issue_write (sys : Sys) {bytes : List UInt8} (hne : bytes ≠ []) (rest : List PyDict) :
    issue order sys (.write bytes) rest =
      ⟨sys.invoked (.write ⟨bytes, false⟩), .waiting sys.callers.length (.write bytes) rest⟩ := by
  rw [issue, if_neg (by simpa using hne)]
  rfl

theorem callAt_invoked_self (s : Sys) (op : Op) :
    (s.invoked op).callAt s.callers.length = some op.call := by
  rw [Sys.callAt_invoked, if_pos rfl]

theorem Scripted.dispatch {s t : RunState} (h : Scripted f₀ events s)
    (hstep : s.step order .dispatch = some t) : Scripted f₀ events t := by
  simp only [RunState.step] at hstep
  cases h.stage with
  | @ready done rest hev hsched hrun hunder =>
    rw [hsched] at hstep
    cases rest with
    | nil => cases hstep
    | cons e rest =>
      simp only [List.map_cons, dispatch_eq] at hstep
      have hidle := h.idle (by rw [hsched]; rfl)
      obtain ⟨atMs, action⟩ := e
      cases action with
      | write data =>
        cases hbytes : encodeUtf8 data.1 with
        | none =>
          -- the text has no encoding
          simp only [Action.call?, hbytes, Option.map_none, Option.elim_none,
            Option.some.injEq] at hstep
          subst hstep
          refine ⟨h.inv, fun j c hc => .inl (hidle j c hc), .raised hev rfl hrun ?_⟩
          simp [Action.runs, hbytes]
        | some bytes =>
          have hne := encodeUtf8_ne hbytes
          simp only [Action.call?, hbytes, Option.map_some, Option.elim_some,
            issue_write _ hne, Option.some.injEq] at hstep
          subst hstep
          apply h.issued hidle
          exact .write hev rfl hrun (by rw [hbytes]; rfl) hne (callAt_invoked_self _ _) hunder trivial
      | fault g =>
        simp only [Action.call?, Option.elim_some, issue, backendOp_fault, reduceCtorEq,
          if_false, Option.some.injEq] at hstep
        subst hstep
        apply h.issued hidle
        exact .control hev rfl hrun (fault_controls g) (fault_refused_iff g) (callAt_invoked_self _ _) hunder
      | clear =>
        simp only [Action.call?, Option.elim_some, issue, backendOp_clear, reduceCtorEq,
          if_false, Option.some.injEq] at hstep
        subst hstep
        apply h.issued hidle
        exact .control hev rfl hrun .clear (by simp [Action.runs]) (callAt_invoked_self _ _) hunder
      | reset =>
        simp only [Action.call?, Option.elim_some, issue, backendOp_reset, reduceCtorEq,
          if_false, Option.some.injEq] at hstep
        subst hstep
        apply h.issued hidle
        exact .control hev rfl hrun .reset (by simp [Action.runs]) (callAt_invoked_self _ _) hunder
  | control _ hsched => rw [hsched] at hstep; cases hstep
  | write _ hsched => rw [hsched] at hstep; cases hstep
  | raised _ hsched => rw [hsched] at hstep; cases hstep

theorem Scripted.resume {s t : RunState} (h : Scripted f₀ events s)
    (hstep : s.step order .resume = some t) : Scripted f₀ events t := by
  simp only [RunState.step] at hstep
  cases h.stage with
  | ready _ hsched => rw [hsched] at hstep; cases hstep
  | raised _ hsched => rw [hsched] at hstep; cases hstep
  | @control done e rest i call cmd ctl refused hev hsched hrun hcmd href hat hrep =>
    rw [hsched] at hstep
    obtain ⟨b, hb, hcall⟩ := Option.map_eq_some_iff.mp hat
    simp only [hb, Option.bind_some, hcall] at hstep
    cases ctl with
    | run pc => cases hstep
    | exit res => cases hstep
    | returned res =>
      simp only [resumed, Option.some.injEq] at hstep
      subst hstep
      -- the call that has returned is passive, too
      have hidle : ∀ j c, s.sys.callAt j = some c → c.passive = true := by
        intro j c hc
        rcases h.passive j c hc with hp | hj
        · exact hp
        · rw [hsched] at hj
          cases hj
          cases hat.symm.trans hc
          rfl
      simp only [Replacing] at hrep
      by_cases hneg : res.ret < 0
      · rw [if_pos hneg] at hrep
        refine ⟨h.inv, fun j c hc => .inl (hidle j c hc), .raised hev ?_ hrun (href.mp hrep)⟩
        simp [hneg]
      · rw [if_neg hneg] at hrep
        have hok : e.action.runs (installed f₀ done) = true := by
          by_contra hno
          exact hrep.2 (href.mpr (Bool.eq_false_iff.mpr hno))
        have hev' : events = (done ++ [e]) ++ rest := by
          rw [hev, List.append_assoc]
          rfl
        refine ⟨h.inv, fun j c hc => .inl (hidle j c hc), .ready hev' ?_ ?_ ?_⟩
        · simp [hneg]
        · rw [scriptRuns_concat, hrun, hok]
          rfl
        · rw [installed_concat]
          exact hrep.1
  | @write done atMs data rest i bytes ctl hev hsched hrun henc hne hat hunder hw =>
    rw [hsched] at hstep
    obtain ⟨b, hb, hcall⟩ := Option.map_eq_some_iff.mp hat
    simp only [hb, Option.bind_some, hcall] at hstep
    cases ctl with
    | run pc => cases hstep
    | exit ret => cases hstep
    | returned ret =>
      have hidle : ∀ j c, s.sys.callAt j = some c → c.passive = true := by
        intro j c hc
        rcases h.passive j c hc with hp | hj
        · exact hp
        · rw [hsched] at hj
          cases hj
          cases hat.symm.trans hc
          rfl
      have hagain : ∀ {bytes'}, bytes' ≠ [] →
          Scripted f₀ events (issue order s.sys (.write bytes') (rest.map (·.dict))) := by
        intro bytes' hne'
        rw [issue_write _ hne']
        apply h.issued hidle
        exact .write hev rfl hrun henc hne' (callAt_invoked_self _ _) hunder trivial
      simp only [resumed] at hstep
      simp only [Writing] at hw
      by_cases hoff : isDisconnected (installed f₀ done) = true
      · -- the device is disconnected: the write has failed
        rw [if_pos hoff] at hw
        subst hw
        simp only [ENODEV, EINTR, ERESTARTSYS, Int.reduceNeg, Int.reduceEq, or_self, if_false,
          Int.reduceLE, if_true, Option.some.injEq] at hstep
        subst hstep
        refine ⟨h.inv, fun j c hc => .inl (hidle j c hc), .raised hev rfl hrun ?_⟩
        simp [Action.runs, hoff]
      · rw [if_neg hoff] at hw
        by_cases hint : ret = -EINTR ∨ ret = -ERESTARTSYS
        · rw [if_pos hint, Option.some.injEq] at hstep
          subst hstep
          exact hagain hne
        · have hpos : ¬ ret ≤ 0 := by
            rcases hw with hpos | hint'
            · exact not_le.mpr hpos
            · exact absurd hint' hint
          rw [if_neg hint, if_neg hpos, Option.some.injEq] at hstep
          subst hstep
          by_cases hleft : bytes.drop ret.toNat = []
          · rw [issue, if_pos (by rw [hleft])]
            have hev' : events = (done ++ [⟨atMs, .write data⟩]) ++ rest := by
              rw [hev, List.append_assoc]
              rfl
            refine ⟨h.inv, fun j c hc => .inl (hidle j c hc), .ready hev' rfl ?_ ?_⟩
            · rw [scriptRuns_concat, hrun]
              simp [Action.runs, henc, hoff]
            · rw [installed_concat]
              exact hunder
          · exact hagain hleft

theorem Scripted.application {s t : RunState} {op : Op} (h : Scripted f₀ events s)
    (hstep : s.step order (.application op) = some t) : Scripted f₀ events t := by
  have hpassive : op.call.passive = true ∧ t = { s with sys := s.sys.invoked op } := by
    cases op with
    | read a => exact ⟨rfl, (Option.some.inj hstep).symm⟩
    | poll ev => exact ⟨rfl, (Option.some.inj hstep).symm⟩
    | write a => cases hstep
    | ioctl cmd => cases hstep
  obtain ⟨hop, rfl⟩ := hpassive
  -- calls that were there stand where they stood
  have hold : ∀ {i c}, s.sys.callAt i = some c → (s.sys.invoked op).callAt i = some c := by
    intro i c hc
    rw [Sys.callAt_invoked, if_neg ?_, hc]
    rintro rfl
    simp [Sys.callAt] at hc
  refine ⟨h.inv.invoked op, ?_, ?_⟩
  · intro j c hc
    rw [Sys.callAt_invoked] at hc
    split at hc
    · cases hc
      exact .inl hop
    · exact h.passive j c hc
  · cases h.stage with
    | ready hev hsched hrun hunder => exact .ready hev hsched hrun hunder
    | control hev hsched hrun hcmd href hat hrep =>
      exact .control hev hsched hrun hcmd href (hold hat) hrep
    | write hev hsched hrun henc hne hat hunder hw =>
      exact .write hev hsched hrun henc hne (hold hat) hunder hw
    | raised hev hsched hrun hno => exact .raised hev hsched hrun hno

theorem Scripted.step {s t : RunState} {j : Nat} {ch : Choice} (h : Scripted f₀ events s)
    (hreach : bufferReadable ⟨s, .step j ch, t⟩ = true)
    (hstep : s.step order (.step j ch) = some t) : Scripted f₀ events t := by
  obtain ⟨sys, hsys, rfl⟩ := Option.map_eq_some_iff.mp hstep
  have hinv : sys.Inv := h.inv.step hsys
  rcases Sys.step_effect hsys with ⟨op, hop, -⟩ | ⟨k, ch', b, e, hk, hb, he, rfl⟩
  · cases hop
  cases hk
  have hm := Call.step_move he
  have hmine := Sys.callAt_of hb
  by_cases hcur : s.scheduler.current = some j
  · -- the scheduler's own call
    have hreadable : fifoSize ≤ ch.reach := by
      simpa [bufferReadable, hcur] using hreach
    have hwords : faultConfigSize ≤ ch.reach := le_trans (by decide) hreadable
    have hpassive : ∀ k c, (s.sys.after j e).callAt k = some c →
        c.passive = true ∨ s.scheduler.current = some k := by
      intro k c hc
      rw [Sys.callAt_after hb] at hc
      split at hc
      · next hjk => exact .inr (by rw [hcur, hjk])
      · exact h.passive k c hc
    refine ⟨hinv, hpassive, ?_⟩
    cases h.stage with
    | ready _ hsched => rw [hsched] at hcur; cases hcur
    | raised _ hsched => rw [hsched] at hcur; cases hcur
    | @control done ev rest i call cmd ctl refused hev hsched hrun hcmd href hat hrep =>
      rw [hsched] at hcur
      cases hcur
      have hcall : b.call = .ioctl cmd ctl := Option.some.inj (hmine.symm.trans hat)
      rw [hcall] at he
      obtain ⟨f, hf, rfl⟩ := Option.map_eq_some_iff.mp he
      have hnow : (s.sys.after j (f.map (.ioctl cmd))).callAt j = some (.ioctl cmd f.ctl) := by
        rw [Sys.callAt_after hb, if_pos rfl]
        rfl
      refine .control hev hsched hrun hcmd href hnow ?_
      cases ctl with
      | run pc => exact hrep.step hcmd hwords hf
      | exit res =>
        cases goto_eq_some.mp hf
        exact hrep
      | returned res => cases hf
    | @write done atMs data rest i bytes ctl hev hsched hrun henc hne hat hunder hw =>
      rw [hsched] at hcur
      cases hcur
      have hcall : b.call = .write ⟨bytes, false⟩ ctl := Option.some.inj (hmine.symm.trans hat)
      have hsame : Under (installed f₀ done) e.dev.fault := by
        apply hm.under h.inv.fault _ hunder
        rw [hcall]
        rfl
      rw [hcall] at he
      obtain ⟨f, hf, rfl⟩ := Option.map_eq_some_iff.mp he
      have hnow : (s.sys.after j (f.map (.write ⟨bytes, false⟩))).callAt j =
          some (.write ⟨bytes, false⟩ f.ctl) := by
        rw [Sys.callAt_after hb, if_pos rfl]
        rfl
      refine .write hev hsched hrun henc hne hnow hsame ?_
      cases ctl with
      | run pc => exact hw.step hunder hne hreadable (writeStep_move hf)
      | exit ret =>
        cases goto_eq_some.mp hf
        exact hw
      | returned ret => cases hf
  · -- a call of the application, or one that has returned
    have hpassive : b.call.passive = true := by
      rcases h.passive j b.call hmine with hp | hj
      · exact hp
      · exact absurd hj hcur
    have hkeep : ∀ f, Under f s.sys.dev.fault → Under f (s.sys.after j e).dev.fault := by
      intro f hf
      exact hm.under h.inv.fault (Call.replacesFault_of_passive hpassive) hf
    have hold : ∀ {i c}, s.scheduler.current = some i → s.sys.callAt i = some c →
        (s.sys.after j e).callAt i = some c := by
      intro i c hi hc
      have hne : j ≠ i := by
        rintro rfl
        exact hcur hi
      rw [Sys.callAt_after hb, if_neg hne, hc]
    refine ⟨hinv, ?_, ?_⟩
    · intro k c hc
      rw [Sys.callAt_after hb] at hc
      split at hc
      · cases hc
        exact .inl (hm.passive hpassive)
      · exact h.passive k c hc
    · cases h.stage with
      | ready hev hsched hrun hunder => exact .ready hev hsched hrun (hkeep _ hunder)
      | control hev hsched hrun hcmd href hat hrep =>
        exact .control hev hsched hrun hcmd href (hold (by rw [hsched]; rfl) hat)
          (hrep.keep (hkeep _) (hkeep _))
      | write hev hsched hrun henc hne hat hunder hw =>
        exact .write hev hsched hrun henc hne (hold (by rw [hsched]; rfl) hat) (hkeep _ hunder) hw
      | raised hev hsched hrun hno => exact .raised hev hsched hrun hno

/-! ## Whole runs -/

theorem runOn_scripted {d : Device} (hd : d.LeftBehind) (sc : Scenario) (source : PyStr) :
    Scripted d.fault sc.events (runOn (sc.definition source) d) := by
  obtain ⟨callers, tr, hr⟩ := hd
  have hinv := machine_inv hr
  refine ⟨⟨hinv.fault, hinv.fifo, by simp [runOn]⟩, by simp [runOn, Sys.callAt], ?_⟩
  exact .ready (show sc.events = [] ++ sc.events from rfl) rfl rfl (.inl rfl)

theorem scenario_scripted {d : Device} (hd : d.LeftBehind) {sc : Scenario} {source : PyStr}
    {tr : List (Move RunState RunLabel)} {s : RunState}
    (h : ((scenarioSystem order (sc.definition source)).startingAt
      (runOn (sc.definition source) d)).Run tr s)
    (hreach : ∀ m ∈ tr, bufferReadable m = true) : Scripted d.fault sc.events s := by
  induction h with
  | start hs =>
    cases hs
    exact runOn_scripted hd sc source
  | @snoc tr s l t hr hl ih =>
    have hs := ih fun m hm => hreach m (List.mem_append_left _ hm)
    have hlast := hreach ⟨s, l, t⟩ (by simp)
    have hl : s.step order l = some t := hl
    cases l with
    | dispatch => exact hs.dispatch hl
    | resume => exact hs.resume hl
    | application op => exact hs.application hl
    | step j ch => exact hs.step hlast hl

/-- A scenario with a single fault, at its start. -/
def faultScenario (f : Fault) : Scenario where
  devicePath := ⟨py "/dev/vdevlab0", by decide⟩
  command := [⟨py "./vtemp-monitor", by decide⟩]
  command_ne := by decide
  startupTimeout := ⟨2000, by decide⟩
  name := ⟨py "fault", by decide⟩
  timeout := ⟨60000, by decide⟩
  events := [⟨.zero, .fault f⟩]
  events_ne := by simp
  events_ordered := by simp
  events_within := by simp [Duration.zero]
  assertions := [.kernelWarnings ⟨0, by decide⟩]
  assertions_ne := by simp
  assertions_within := by simp [Assertion.Within]

theorem leftBehind_fresh : Device.LeftBehind .fresh := ⟨[], [], .start rfl⟩

/-- The dispatch of one fault, from its call to its return. -/
def injection (steps : Nat) : List RunLabel :=
  .dispatch :: List.replicate steps (.step 0 { reach := fifoSize }) ++ [.resume]

end VDevLab.Runner
